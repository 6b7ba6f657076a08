import Mathlib.Tactic

/-!
Runs of a machine that takes one step for each input, or stops.

* `run`: the state after a list of inputs, if every one of them can be taken.
* `run_keeps`: what every step keeps, a run keeps. `run_refines`: a run does what another machine
  does, or it stops. `run_simulates`: the same of a machine that may stop, and whose inputs are
  read off the run.
* `Always`: a relation of states and inputs that holds at every step of a run, as far as the
  run gets. `Always.of_keeps` is its rule: an invariant of the steps that meet a condition,
  under which the relation follows from the condition; `Always.iff_of_keeps` is the rule for a
  condition that is also necessary.
* `constant_iff`: a value is the same in all states of a run if and only if no step changes it.
* `foldl_iff_last`: what some inputs bring about and others undo holds at the end if and only if
  an input that brings it about comes last of them.
-/

namespace Runs

variable {σ ι : Type*} (step : σ → ι → Option σ)

/-- The state after a list of inputs. -/
def run (s : σ) : List ι → Option σ
  | [] => some s
  | i :: is => (step s i).bind fun s => run s is

/-- A relation of the state and the input that holds at every step of a run. -/
def Always (P : σ → ι → Prop) (s : σ) : List ι → Prop
  | [] => True
  | i :: is => P s i ∧ ∀ s', step s i = some s' → Always P s' is

variable {step}

lemma run_append (s : σ) (is js : List ι) :
    run step s (is ++ js) = (run step s is).bind fun s => run step s js := by
  induction is generalizing s with
  | nil => rfl
  | cons i is ih =>
      rw [List.cons_append, run, run, Option.bind_assoc]
      exact congrArg _ (funext ih)

/-- **What every step keeps, a run keeps.** -/
lemma run_keeps {I : σ → Prop} (hstep : ∀ s i s', I s → step s i = some s' → I s') {s s' : σ}
    (h : I s) {is : List ι} (hrun : run step s is = some s') : I s' := by
  induction is generalizing s with
  | nil => exact Option.some.inj hrun ▸ h
  | cons i is ih =>
      rw [run] at hrun
      obtain ⟨s₁, h₁, hrun⟩ := Option.bind_eq_some_iff.mp hrun
      exact ih (hstep s i s₁ h h₁) hrun

/-- **Progress along a run**: where an invariant and a condition on the step make the step
possible and keep the invariant, a run whose steps meet the condition gets through. -/
lemma run_succeeds {I : σ → Prop} {C : σ → ι → Prop}
    (hstep : ∀ s i, I s → C s i → ∃ s', step s i = some s' ∧ I s') {s : σ} (h : I s)
    {is : List ι} (hC : Always step C s is) : ∃ s', run step s is = some s' ∧ I s' := by
  induction is generalizing s with
  | nil => exact ⟨s, rfl, h⟩
  | cons i is ih =>
      obtain ⟨s₁, h₁, hI⟩ := hstep s i h hC.1
      obtain ⟨s', hrun, h'⟩ := ih hI (hC.2 s₁ h₁)
      exact ⟨s', by rw [run, h₁, Option.bind_some, hrun], h'⟩

/-- **Refinement of a machine that may stop**: where a condition decides whether a step can be
taken, and a step that can be taken does what another machine does, a run gets through and does
what the other one does if every step meets the condition, and stops otherwise. -/
lemma run_refines {τ : Type*} {R : σ → τ → Prop} {C : σ → ι → Prop} {next : τ → ι → τ}
    (hstep : ∀ s t i, R s t → C s i → ∃ s', step s i = some s' ∧ R s' (next t i))
    (hstop : ∀ s t i, R s t → ¬ C s i → step s i = none) {s : σ} {t : τ} (h : R s t)
    (is : List ι) :
    (Always step C s is ∧ ∃ s', run step s is = some s' ∧ R s' (is.foldl next t)) ∨
      (¬ Always step C s is ∧ run step s is = none) := by
  induction is generalizing s t with
  | nil => exact .inl ⟨trivial, s, rfl, h⟩
  | cons i is ih =>
      by_cases hC : C s i
      · obtain ⟨s₁, h₁, hR⟩ := hstep s t i h hC
        have hrun : run step s (i :: is) = run step s₁ is := by rw [run, h₁, Option.bind_some]
        have halways : Always step C s (i :: is) ↔ Always step C s₁ is :=
          ⟨fun hall => hall.2 s₁ h₁, fun hall => ⟨hC, fun s' hs' =>
            Option.some.inj (h₁.symm.trans hs') ▸ hall⟩⟩
        rw [hrun, halways, List.foldl_cons]
        exact ih hR
      · exact .inr ⟨fun hall => hC hall.1, by rw [run, hstop s t i h hC, Option.bind_none]⟩

/-- The inputs that another machine gets for those of a run. -/
def translate {κ : Type*} (step : σ → ι → Option σ) (name : σ → ι → κ) (s : σ) : List ι → List κ
  | [] => []
  | i :: is => name s i :: (step s i).elim [] fun s => translate step name s is

/-- **Simulation**: where steps that meet a condition are steps of another machine too, a run whose
steps meet the condition is a run of the other machine. -/
lemma run_simulates {τ κ : Type*} {step₂ : τ → κ → Option τ} {name : σ → ι → κ}
    {R : σ → τ → Prop} {C : σ → ι → Prop}
    (hstep : ∀ s t i, R s t → C s i →
      ∃ s' t', step s i = some s' ∧ step₂ t (name s i) = some t' ∧ R s' t')
    {s : σ} {t : τ} (h : R s t) {is : List ι} (hC : Always step C s is) :
    ∃ s' t', run step s is = some s' ∧ run step₂ t (translate step name s is) = some t' ∧
      R s' t' := by
  induction is generalizing s t with
  | nil => exact ⟨s, t, rfl, rfl, h⟩
  | cons i is ih =>
      obtain ⟨s₁, t₁, h₁, h₂, hR⟩ := hstep s t i h hC.1
      obtain ⟨s', t', hrun, hrun₂, h'⟩ := ih hR (hC.2 s₁ h₁)
      refine ⟨s', t', by rw [run, h₁, Option.bind_some, hrun], ?_, h'⟩
      rw [translate, h₁, run, h₂, Option.bind_some]
      exact hrun₂

lemma Always.of_forall {P : ι → Prop} {is : List ι} (h : ∀ i ∈ is, P i) (s : σ) :
    Always step (fun _ i => P i) s is := by
  induction is generalizing s with
  | nil => trivial
  | cons i is ih =>
      refine ⟨h i List.mem_cons_self, fun s' _ => ih (fun j hj => ?_) s'⟩
      exact h j (List.mem_cons_of_mem _ hj)

lemma Always.and {P Q : σ → ι → Prop} {s : σ} {is : List ι} (hP : Always step P s is)
    (hQ : Always step Q s is) : Always step (fun s i => P s i ∧ Q s i) s is := by
  induction is generalizing s with
  | nil => trivial
  | cons i is ih => exact ⟨⟨hP.1, hQ.1⟩, fun s' hs' => ih (hP.2 s' hs') (hQ.2 s' hs')⟩

/-- Along a run whose steps meet a condition, a relation holds that follows from the
condition and an invariant. -/
lemma Always.of_keeps {I : σ → Prop} {C P : σ → ι → Prop}
    (hstep : ∀ s i s', I s → C s i → step s i = some s' → I s')
    (himp : ∀ s i, I s → C s i → P s i) {s : σ} (h : I s) {is : List ι}
    (hC : Always step C s is) : Always step P s is := by
  induction is generalizing s with
  | nil => trivial
  | cons i is ih =>
      refine ⟨himp s i h hC.1, fun s' hs' => ?_⟩
      exact ih (hstep s i s' h hC.1 hs') (hC.2 s' hs')

/-- Two relations that are the same under an invariant, and one of which keeps it, hold along
the same runs. -/
lemma Always.iff_of_keeps {I : σ → Prop} {C P : σ → ι → Prop}
    (hstep : ∀ s i s', I s → C s i → step s i = some s' → I s')
    (hiff : ∀ s i, I s → (P s i ↔ C s i)) {s : σ} (h : I s) {is : List ι} :
    Always step P s is ↔ Always step C s is := by
  refine ⟨fun hP => ?_, Always.of_keeps hstep (fun s i hI hC => (hiff s i hI).mpr hC) h⟩
  induction is generalizing s with
  | nil => trivial
  | cons i is ih =>
      have hC : C s i := (hiff s i h).mp hP.1
      exact ⟨hC, fun s' hs' => ih (hstep s i s' h hC hs') (hP.2 s' hs')⟩

/-- **A value is the same in every state that a run reaches if and only if no step of the run
changes it.** -/
lemma constant_iff {α : Type*} (f : σ → α) (s : σ) (is : List ι) :
    (∀ pre s', pre <+: is → run step s pre = some s' → f s' = f s) ↔
      Always step (fun s i => ∀ s', step s i = some s' → f s' = f s) s is := by
  induction is generalizing s with
  | nil =>
      refine ⟨fun _ => trivial, fun _ pre s' hpre hrun => ?_⟩
      rw [List.prefix_nil.mp hpre] at hrun
      exact Option.some.inj hrun ▸ rfl
  | cons i is ih =>
      constructor
      · intro h
        have hfirst : ∀ s₁, step s i = some s₁ → f s₁ = f s := by
          intro s₁ h₁
          exact h [i] s₁ ⟨is, rfl⟩ (by rw [run, h₁, Option.bind_some, run])
        refine ⟨hfirst, fun s₁ h₁ => (ih s₁).mp fun pre s' hpre hrun => ?_⟩
        rw [hfirst s₁ h₁]
        refine h (i :: pre) s' (List.cons_prefix_cons.mpr ⟨rfl, hpre⟩) ?_
        rw [run, h₁, Option.bind_some, hrun]
      · rintro ⟨hfirst, hrest⟩ pre s' hpre hrun
        cases pre with
        | nil => exact Option.some.inj hrun ▸ rfl
        | cons j pre =>
            obtain ⟨hj, htail⟩ := List.cons_prefix_cons.mp hpre
            rw [hj, run] at hrun
            obtain ⟨s₁, h₁, hrun⟩ := Option.bind_eq_some_iff.mp hrun
            exact ((ih s₁).mpr (hrest s₁ h₁) pre s' htail hrun).trans (hfirst s₁ h₁)

/-- **What some inputs bring about and others undo** holds behind the inputs if and only if one of
them brings it about, and none behind that one does so or undoes it. -/
lemma foldl_iff_last {next : σ → ι → σ} {P : σ → Prop} {on off : ι → Prop}
    (hon : ∀ s i, on i → P (next s i)) (hoff : ∀ s i, off i → ¬ P (next s i))
    (hkeep : ∀ s i, ¬ on i → ¬ off i → (P (next s i) ↔ P s)) {s : σ} (h : ¬ P s) (is : List ι) :
    P (is.foldl next s) ↔
      ∃ pre i suf, is = pre ++ i :: suf ∧ on i ∧ ∀ j ∈ suf, ¬ on j ∧ ¬ off j := by
  induction is using List.reverseRecOn with
  | nil =>
      refine iff_of_false h ?_
      rintro ⟨pre, i, suf, hsplit, -⟩
      exact List.append_ne_nil_of_right_ne_nil pre (List.cons_ne_nil i suf) hsplit.symm
  | append_singleton is j ih =>
      rw [List.foldl_concat]
      by_cases hj : on j
      · exact iff_of_true (hon _ j hj) ⟨is, j, [], rfl, hj, fun _ hk => absurd hk List.not_mem_nil⟩
      -- the last input does not bring it about: the one that does stands in front of it
      have hsplit : ∀ pre i suf, is ++ [j] = pre ++ i :: suf → on i →
          ∃ suf', suf = suf' ++ [j] ∧ is = pre ++ i :: suf' := by
        intro pre i suf heq hi
        rcases List.eq_nil_or_concat suf with rfl | ⟨suf', k, rfl⟩
        · obtain ⟨-, hlast⟩ := List.append_inj' heq rfl
          exact absurd (List.singleton_inj.mp hlast ▸ hi) hj
        · rw [List.concat_eq_append, ← List.cons_append, ← List.append_assoc] at heq
          obtain ⟨hinit, hlast⟩ := List.append_inj' heq rfl
          rw [List.concat_eq_append, List.singleton_inj.mp hlast]
          exact ⟨suf', rfl, hinit⟩
      by_cases hundo : off j
      · refine iff_of_false (hoff _ j hundo) ?_
        rintro ⟨pre, i, suf, heq, hi, hsuf⟩
        obtain ⟨suf', rfl, -⟩ := hsplit pre i suf heq hi
        exact (hsuf j (List.mem_append_right _ (List.mem_singleton.mpr rfl))).2 hundo
      · rw [hkeep _ j hj hundo, ih]
        constructor
        · rintro ⟨pre, i, suf, rfl, hi, hsuf⟩
          refine ⟨pre, i, suf ++ [j], by rw [List.append_assoc, List.cons_append], hi, ?_⟩
          intro k hk
          rcases List.mem_append.mp hk with hk | hk
          · exact hsuf k hk
          · exact List.mem_singleton.mp hk ▸ ⟨hj, hundo⟩
        · rintro ⟨pre, i, suf, heq, hi, hsuf⟩
          obtain ⟨suf', rfl, his⟩ := hsplit pre i suf heq hi
          exact ⟨pre, i, suf', his, hi, fun k hk => hsuf k (List.mem_append_left _ hk)⟩

end Runs
