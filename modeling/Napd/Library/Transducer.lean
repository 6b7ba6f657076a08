import Mathlib.Data.List.Basic

/-!
Machines that answer each input with a list of outputs, and machines that do the same but may fault.

* `run`: the state and the outputs behind a list of inputs; `run_append`, `run_keeps`,
  `run_outputs`.
* `Mirrors`: a value that is folded over the outputs stands for the state between two inputs, and
  loosely so while some of the outputs of an input have been seen. `Mirrors.exists_take`: **behind
  any part of the outputs of a run, the value stands loosely for the state behind some of its
  inputs**; `Mirrors.all`: behind all of them, it stands for the last state.
* `exec`, `Simulates`: a machine that may fault does not, and gives the outputs of another one.
-/

namespace Transducer

variable {σ ι ο ν : Type*} (δ : σ → ι → σ × List ο)

/-- The state behind a list of inputs, and the outputs. -/
def run (s : σ) : List ι → σ × List ο
  | [] => (s, [])
  | i :: is => ((run (δ s i).1 is).1, (δ s i).2 ++ (run (δ s i).1 is).2)

lemma run_append (s : σ) (is js : List ι) :
    run δ s (is ++ js)
      = ((run δ (run δ s is).1 js).1, (run δ s is).2 ++ (run δ (run δ s is).1 js).2) := by
  induction is generalizing s with
  | nil => rfl
  | cons i is ih => rw [List.cons_append, run, ih, run, List.append_assoc]

lemma run_concat (s : σ) (is : List ι) (i : ι) :
    run δ s (is ++ [i])
      = ((δ (run δ s is).1 i).1, (run δ s is).2 ++ (δ (run δ s is).1 i).2) := by
  rw [run_append, run, run, List.append_nil]

variable {δ}

/-- What each input keeps, a run keeps. -/
lemma run_keeps {I : σ → Prop} (hstep : ∀ s i, I s → I (δ s i).1) {s : σ} (h : I s)
    (is : List ι) : I (run δ s is).1 := by
  induction is generalizing s with
  | nil => exact h
  | cons i is ih => exact ih (hstep s i h)

/-- What holds of the outputs of each input, holds of those of a run. -/
lemma run_outputs {I : σ → Prop} {Q : ο → Prop} (hstep : ∀ s i, I s → I (δ s i).1)
    (hout : ∀ s i, I s → ∀ o ∈ (δ s i).2, Q o) {s : σ} (h : I s) (is : List ι) :
    ∀ o ∈ (run δ s is).2, Q o := by
  induction is generalizing s with
  | nil => exact fun o ho => absurd ho List.not_mem_nil
  | cons i is ih =>
      intro o ho
      rcases List.mem_append.mp ho with ho | ho
      · exact hout s i h o ho
      · exact ih (hstep s i h) o ho

variable (δ) in
/-- A value that stands for the state (`R`): behind a part of the outputs of an input it does so
loosely (`P`), for the state before or behind the input, and behind all of them for the one behind
it. -/
structure Mirrors (follow : ν → ο → ν) (R P : σ → ν → Prop) : Prop where
  part : ∀ s i v, R s v → ∀ pre, pre <+: (δ s i).2 →
    P s (pre.foldl follow v) ∨ P (δ s i).1 (pre.foldl follow v)
  whole : ∀ s i v, R s v → R (δ s i).1 ((δ s i).2.foldl follow v)
  loose : ∀ s v, R s v → P s v

namespace Mirrors

variable {follow : ν → ο → ν} {R P : σ → ν → Prop}

/-- Behind all outputs of a run, the value stands for the last state. -/
lemma all (h : Mirrors δ follow R P) {s : σ} {v : ν} (hv : R s v) (is : List ι) :
    R (run δ s is).1 ((run δ s is).2.foldl follow v) := by
  induction is generalizing s v with
  | nil => exact hv
  | cons i is ih =>
      rw [run, List.foldl_append]
      exact ih (h.whole s i v hv)

/-- **Behind a part of the outputs of a run**, the value stands loosely for the state behind some
of its inputs. -/
lemma exists_take (h : Mirrors δ follow R P) {s : σ} {v : ν} (hv : R s v) {is : List ι}
    {pre : List ο} (hpre : pre <+: (run δ s is).2) :
    ∃ k ≤ is.length, P (run δ s (is.take k)).1 (pre.foldl follow v) := by
  induction is generalizing s v pre with
  | nil =>
      obtain rfl := List.prefix_nil.mp hpre
      exact ⟨0, Nat.le_refl _, h.loose _ _ hv⟩
  | cons i is ih =>
      rcases Nat.lt_or_ge pre.length (δ s i).2.length with hlt | hge
      · -- within the outputs of the first input
        have hfirst : pre <+: (δ s i).2 :=
          List.prefix_of_prefix_length_le hpre (List.prefix_append _ _) (Nat.le_of_lt hlt)
        rcases h.part s i v hv pre hfirst with hP | hP
        · exact ⟨0, Nat.zero_le _, hP⟩
        · exact ⟨1, Nat.succ_le_succ (Nat.zero_le _), hP⟩
      · obtain ⟨rest, rfl⟩ : (δ s i).2 <+: pre :=
          List.prefix_of_prefix_length_le (List.prefix_append _ _) hpre hge
        have hrest : rest <+: (run δ (δ s i).1 is).2 := (List.prefix_append_right_inj _).mp hpre
        obtain ⟨k, hk, hP⟩ := ih (h.whole s i v hv) hrest
        refine ⟨k + 1, Nat.succ_le_succ hk, ?_⟩
        rw [List.foldl_append]
        exact hP

end Mirrors

/-! ### Simulation -/

variable {τ : Type*} (step : τ → ι → Option (τ × List ο))

/-- The state behind a list of inputs, and the outputs, for a machine that may fault. -/
def exec (t : τ) : List ι → Option (τ × List ο)
  | [] => some (t, [])
  | i :: is => (step t i).bind fun r => (exec r.1 is).map fun q => (q.1, r.2 ++ q.2)

variable (δ) in
/-- From related states each input gets through, gives the same outputs and leads to related
states. -/
def Simulates (R : τ → σ → Prop) : Prop :=
  ∀ t s i, R t s → ∃ t', step t i = some (t', (δ s i).2) ∧ R t' (δ s i).1

variable {step}

/-- **What simulates each input, simulates a run.** -/
lemma Simulates.exec {R : τ → σ → Prop} (h : Simulates δ step R) {t : τ} {s : σ} (hR : R t s)
    (is : List ι) :
    ∃ t', exec step t is = some (t', (run δ s is).2) ∧ R t' (run δ s is).1 := by
  induction is generalizing t s with
  | nil => exact ⟨t, rfl, hR⟩
  | cons i is ih =>
      obtain ⟨t₁, hstep, h₁⟩ := h t s i hR
      obtain ⟨t', hexec, h'⟩ := ih h₁
      refine ⟨t', ?_, h'⟩
      rw [Transducer.exec, hstep, Option.bind_some, hexec]
      rfl

end Transducer
