import Napd.Library.Runs
import Napd.Ternary.Insert
import Napd.Ternary.Erase

/-!
Runs of a `TernaryTree`, and the multimap they implement.

* `Op`, `step`, `run`: the calls a user can make, one after another, from the empty tree.
* `Multimap`, `refRun`: what the calls mean, a set of values for every key; `doneRun`: what they
  do, where `erase(key)` takes out what `NULL` is compiled to.
* `Implements`: the tree represents an ordered and tidy search tree whose lookups are the
  multimap's. `step_implements` is the invariant of one call, `run_implements` of a run.
* `find_run_iff`: **the tree refines the multimap if and only if no `erase(key)` has a value to
  clear that it does not take out.**
-/

namespace Napd

namespace TernaryTree

open Linked TernarySearch

variable {Value : Type} [DecidableEq Value] [OfNull Value]

/-- The calls that change a tree. -/
inductive Op (Value : Type) where
  | insert (key : Key) (value : Value)
  | erase (key : Key) (value : Value)
  | eraseKey (key : Key)

/-- One call. -/
def step (t : TernaryTree Value) : Op Value → Option (TernaryTree Value)
  | .insert key value => t.insert key value
  | .erase key value => t.erase key value
  | .eraseKey key => t.eraseKey key

/-- A sequence of calls. -/
def run (t : TernaryTree Value) : List (Op Value) → Option (TernaryTree Value)
  | [] => some t
  | op :: ops => (t.step op).bind fun t => run t ops

/-! ### The abstract multimap -/

/-- A set of values for every key. -/
abbrev Multimap (Value : Type) := Key → Finset Value

/-- What a call means. -/
def refStep (m : Multimap Value) : Op Value → Multimap Value
  | .insert key value => Function.update m key (Insert.insert value (m key))
  | .erase key value => Function.update m key ((m key).erase value)
  | .eraseKey key => Function.update m key ∅

/-- What a sequence of calls means. -/
def refRun (m : Multimap Value) (ops : List (Op Value)) : Multimap Value := ops.foldl refStep m

/-- What a call does. -/
def doneStep (m : Multimap Value) : Op Value → Multimap Value
  | .insert key value => Function.update m key (Insert.insert value (m key))
  | .erase key value => Function.update m key ((m key).erase value)
  | .eraseKey key => Function.update m key (leftover OfNull.null (m key))

/-- What a sequence of calls does. -/
def doneRun (m : Multimap Value) (ops : List (Op Value)) : Multimap Value := ops.foldl doneStep m

/-- Where `NULL` is a null pointer, the calls do what they mean. -/
lemma doneRun_eq (hnull : (OfNull.null : Option Value) = none) :
    (doneRun : Multimap Value → List (Op Value) → Multimap Value) = refRun := by
  have hstep : (doneStep : Multimap Value → Op Value → Multimap Value) = refStep := by
    funext m op
    cases op with
    | insert key value => rfl
    | erase key value => rfl
    | eraseKey key => rw [doneStep, hnull, leftover, refStep]
  funext m ops
  rw [doneRun, refRun, hstep]

/-! ### The tree implements the multimap -/

/-- A well-formed search tree that the store represents, with the lookups of `m`. -/
structure ImplementsBy (t : TernaryTree Value) (m : Multimap Value) (T : Shape Value) : Prop where
  represents : Represents t T
  ordered : T.Ordered
  tidy : T.Tidy
  lookup : ∀ q : Key, (T.find q.val).getD ∅ = m q

/-- The tree implements the multimap `m`. -/
def Implements (t : TernaryTree Value) (m : Multimap Value) : Prop :=
  ∃ T, ImplementsBy t m T

omit [DecidableEq Value] [OfNull Value] in
lemma implements_empty : Implements (empty : TernaryTree Value) fun _ => ∅ :=
  ⟨.nil, Represents.empty, trivial, trivial, fun _ => rfl⟩

omit [DecidableEq Value] [OfNull Value] in
/-- A lookup finds the set of the multimap, and `NULL` for the empty set. -/
lemma ImplementsBy.find_eq {t : TernaryTree Value} {m : Multimap Value} {T : Shape Value}
    (h : ImplementsBy t m T) (q : Key) :
    t.find q = some (if (m q).card = 0 then none else some (m q)) := by
  rw [h.represents.find_eq, ← h.lookup q]
  cases hfind : T.find q.val with
  | none => simp
  | some vs => simp [h.tidy.find_ne_empty hfind]

omit [OfNull Value] in
lemma eraseShape_ordered {T : Shape Value} (ho : T.Ordered) (key : List CChar)
    (valuep : Option Value) : (eraseShape T key valuep).Ordered := by
  rw [eraseShape]
  split
  · exact ho
  · split_ifs
    · exact ho.remove key
    · exact ho.modify _ key

omit [OfNull Value] in
lemma eraseShape_tidy {T : Shape Value} (ht : T.Tidy) (key : List CChar)
    (valuep : Option Value) : (eraseShape T key valuep).Tidy := by
  rw [eraseShape]
  split
  · exact ht
  · rename_i vs hfind
    split_ifs with hempty
    · exact ht.remove key
    · refine ht.modify _ key fun ws hws => ?_
      rw [hfind] at hws
      rwa [← Option.some.inj hws]

omit [OfNull Value] in
/-- A lookup after `erase(key, valuep)`. -/
lemma find_eraseShape {T : Shape Value} (ho : T.Ordered) (key q : Key)
    (valuep : Option Value) :
    ((eraseShape T key.val valuep).find q.val).getD ∅
      = if q = key then leftover valuep ((T.find key.val).getD ∅)
        else (T.find q.val).getD ∅ := by
  have hval : q.val = key.val ↔ q = key := Subtype.ext_iff.symm
  rw [eraseShape]
  cases hfind : T.find key.val with
  | none =>
      by_cases hq : q = key
      · subst hq
        cases valuep <;> simp [hfind, leftover]
      · simp [hq]
  | some vs =>
      simp only [Option.getD_some]
      split_ifs with hempty hq hq
      · rw [SearchTree.find_remove T ho _ _ key.property q.property, if_pos (hval.mpr hq), hempty]
        rfl
      · rw [SearchTree.find_remove T ho _ _ key.property q.property, if_neg (hval.not.mpr hq)]
      · rw [SearchTree.find_modify T _ _ _ key.property q.property, if_pos (hval.mpr hq), hfind]
        rfl
      · rw [SearchTree.find_modify T _ _ _ key.property q.property, if_neg (hval.not.mpr hq)]

omit [OfNull Value] in
/-- `erase(key, valuep)` implements taking the values out of the set at the key. -/
lemma ImplementsBy.eraseAt {t : TernaryTree Value} {m : Multimap Value} {T : Shape Value}
    (h : ImplementsBy t m T) (key : Key) (valuep : Option Value) :
    ∃ t', t.eraseAt key valuep = some t' ∧
      Implements t' (Function.update m key (leftover valuep (m key))) := by
  obtain ⟨t', hrun, hrep⟩ := h.represents.eraseAt h.tidy key valuep
  refine ⟨t', hrun, _, hrep, eraseShape_ordered h.ordered _ _, eraseShape_tidy h.tidy _ _, ?_⟩
  intro q
  rw [find_eraseShape h.ordered, h.lookup, h.lookup, Function.update_apply]

/-- **One call**: it does not fault, and implements what the call does. -/
lemma step_implements {t : TernaryTree Value} {m : Multimap Value} (h : Implements t m)
    (op : Op Value) : ∃ t', t.step op = some t' ∧ Implements t' (doneStep m op) := by
  obtain ⟨T, h⟩ := h
  cases op with
  | insert key value =>
      obtain ⟨t', hrun, hrep⟩ := h.represents.insert key value
      refine ⟨t', hrun, _, hrep, h.ordered.insert _ _ _, h.tidy.insert _ _ _ key.property, ?_⟩
      intro q
      rw [SearchTree.find_insert T _ _ _ _ key.property q.property, doneStep, Function.update_apply]
      by_cases hq : q = key
      · rw [if_pos (congrArg Subtype.val hq), if_pos hq, h.lookup, Option.getD_some]
      · rw [if_neg (fun e => hq (Subtype.ext e)), if_neg hq, h.lookup]
  | erase key value => exact h.eraseAt key (some value)
  | eraseKey key => exact h.eraseAt key OfNull.null

/-- **A run**: no call of it faults, and it implements what the calls do. -/
lemma run_implements {t : TernaryTree Value} {m : Multimap Value} (h : Implements t m)
    (ops : List (Op Value)) : ∃ t', t.run ops = some t' ∧ Implements t' (doneRun m ops) := by
  induction ops generalizing t m with
  | nil => exact ⟨t, rfl, h⟩
  | cons op ops ih =>
      obtain ⟨t₁, hstep, h₁⟩ := step_implements h op
      obtain ⟨t', hrun, h'⟩ := ih h₁
      refine ⟨t', ?_, h'⟩
      rw [run, hstep]
      exact hrun

/-! ### Which runs refine the multimap -/

/-- After the calls on the empty tree, every lookup returns exactly the set of values that the
reference map holds for the key, and `NULL` exactly when that set is empty. -/
def Refines (ops : List (Op Value)) : Prop :=
  ∃ t, (empty : TernaryTree Value).run ops = some t ∧
    ∀ q : Key, t.find q = some (if refRun (fun _ => ∅) ops q = ∅ then none
      else some (refRun (fun _ => ∅) ops q))

/-- An `erase(key)` that passes a value finds no other value that was inserted before, unless that
one is inserted again or erased later. -/
def ClearsNothing (ops : List (Op Value)) : Prop :=
  ∀ z, OfNull.null = some z → ∀ pre key value suf, ops = pre ++ .insert key value :: suf →
    value ≠ z → .eraseKey key ∈ suf → .insert key value ∈ suf ∨ .erase key value ∈ suf

lemma refines_iff_doneRun (ops : List (Op Value)) :
    Refines ops ↔ doneRun (fun _ => ∅) ops = refRun (fun _ => ∅) ops := by
  obtain ⟨t, hrun, T, h⟩ := run_implements implements_empty ops
  have hfind : ∀ q : Key, t.find q = some (if doneRun (fun _ => ∅) ops q = ∅ then none
      else some (doneRun (fun _ => ∅) ops q)) := by
    intro q
    rw [h.find_eq q]
    simp only [Finset.card_eq_zero]
  constructor
  · rintro ⟨t', hrun', hfind'⟩
    obtain rfl := Option.some.inj (hrun.symm.trans hrun')
    funext q
    have heq := Option.some.inj ((hfind q).symm.trans (hfind' q))
    split_ifs at heq with hdone href
    · exact hdone.trans href.symm
    · exact Option.some.inj heq
  · intro heq
    exact ⟨t, hrun, heq ▸ hfind⟩

/-- `erase(key)` takes the value out: it clears the set, or passes this value. -/
def Takes (v : Value) : Prop := ∀ z, OfNull.null = some z → v = z

/-- One value of one key, after a call. -/
lemma mem_doneStep_iff (m : Multimap Value) (op : Op Value) (q : Key) (v : Value) :
    v ∈ doneStep m op q ↔ op = .insert q v ∨
      (v ∈ m q ∧ op ≠ .erase q v ∧ ¬ (op = .eraseKey q ∧ Takes v)) := by
  cases op with
  | insert key value =>
      rw [doneStep, Function.update_apply]
      by_cases hkey : q = key
      · subst hkey
        simp [eq_comm]
      · simp [hkey, Ne.symm hkey]
  | erase key value =>
      rw [doneStep, Function.update_apply]
      by_cases hkey : q = key
      · subst hkey
        simp [and_comm, eq_comm]
      · simp [hkey, Ne.symm hkey]
  | eraseKey key =>
      rw [doneStep, Function.update_apply]
      by_cases hkey : q = key
      · subst hkey
        cases hnull : (OfNull.null : Option Value) with
        | none => simp [leftover, Takes, hnull]
        | some z => simp [leftover, Takes, hnull, and_comm]
      · simp [hkey, Ne.symm hkey]

/-- One value of one key, as a call means it. -/
lemma mem_refStep_iff (m : Multimap Value) (op : Op Value) (q : Key) (v : Value) :
    v ∈ refStep m op q ↔ op = .insert q v ∨
      (v ∈ m q ∧ op ≠ .erase q v ∧ op ≠ .eraseKey q) := by
  cases op with
  | insert key value =>
      rw [show refStep m (.insert key value) = doneStep m (.insert key value) from rfl,
        mem_doneStep_iff]
      simp
  | erase key value =>
      rw [show refStep m (.erase key value) = doneStep m (.erase key value) from rfl,
        mem_doneStep_iff]
      simp
  | eraseKey key =>
      rw [refStep, Function.update_apply]
      by_cases hkey : q = key
      · simp [hkey]
      · simp [hkey, Ne.symm hkey]

/-- A value that the tree holds: behind its last `insert` nothing takes it out. -/
lemma mem_doneRun_iff (ops : List (Op Value)) (q : Key) (v : Value) :
    v ∈ doneRun (fun _ => ∅) ops q ↔ ∃ pre i suf, ops = pre ++ i :: suf ∧ i = .insert q v ∧
      ∀ j ∈ suf, j ≠ .insert q v ∧ ¬ (j = .erase q v ∨ j = .eraseKey q ∧ Takes v) := by
  refine Runs.foldl_iff_last (P := fun m : Multimap Value => v ∈ m q) ?_ ?_ ?_
    (Finset.notMem_empty v) ops
  · intro m i hon
    exact (mem_doneStep_iff m i q v).mpr (.inl hon)
  · rintro m i hoff hmem
    rcases (mem_doneStep_iff m i q v).mp hmem with rfl | ⟨-, herase, hkey⟩
    · simp at hoff
    · exact hoff.elim herase hkey
  · intro m i hon hoff
    rw [not_or] at hoff
    rw [mem_doneStep_iff, or_iff_right hon, and_iff_left hoff]

/-- A value that the reference map holds: behind its last `insert` nothing erases it. -/
lemma mem_refRun_iff (ops : List (Op Value)) (q : Key) (v : Value) :
    v ∈ refRun (fun _ => ∅) ops q ↔ ∃ pre i suf, ops = pre ++ i :: suf ∧ i = .insert q v ∧
      ∀ j ∈ suf, j ≠ .insert q v ∧ ¬ (j = .erase q v ∨ j = .eraseKey q) := by
  refine Runs.foldl_iff_last (P := fun m : Multimap Value => v ∈ m q) ?_ ?_ ?_
    (Finset.notMem_empty v) ops
  · intro m i hon
    exact (mem_refStep_iff m i q v).mpr (.inl hon)
  · rintro m i hoff hmem
    rcases (mem_refStep_iff m i q v).mp hmem with rfl | ⟨-, herase, hkey⟩
    · simp at hoff
    · exact hoff.elim herase hkey
  · intro m i hon hoff
    rw [not_or] at hoff
    rw [mem_refStep_iff, or_iff_right hon, and_iff_left hoff]

/-- A value does not come back without an `insert`. -/
lemma notMem_refRun {m : Multimap Value} {q : Key} {v : Value} {ops : List (Op Value)}
    (hm : v ∉ m q) (hops : .insert q v ∉ ops) : v ∉ refRun m ops q := by
  induction ops generalizing m with
  | nil => exact hm
  | cons op ops ih =>
      rw [List.mem_cons, not_or] at hops
      refine ih (fun hmem => ?_) hops.2
      rcases (mem_refStep_iff m op q v).mp hmem with rfl | ⟨hv, -⟩
      · exact hops.1 rfl
      · exact hm hv

/-- **The calls do what they mean** if and only if nothing is there that an `erase(key)` does not
take out. -/
lemma doneRun_eq_refRun_iff (ops : List (Op Value)) :
    doneRun (fun _ => ∅) ops = refRun (fun _ => ∅) ops ↔ ClearsNothing ops := by
  constructor
  · intro h z hz pre key v suf hops hne hkey
    by_contra hnot
    rw [not_or] at hnot
    have hdone : v ∈ doneRun (fun _ => ∅) ops key := by
      refine (mem_doneRun_iff ops key v).mpr ⟨pre, _, suf, hops, rfl, fun j hj => ⟨?_, ?_⟩⟩
      · rintro rfl
        exact hnot.1 hj
      · rintro (rfl | ⟨-, htakes⟩)
        · exact hnot.2 hj
        · exact hne (htakes z hz)
    obtain ⟨front, behind, rfl⟩ := List.append_of_mem hkey
    have hempty : v ∉ refStep (refRun (fun _ => ∅) (pre ++ .insert key v :: front))
        (.eraseKey key) key := by
      rw [mem_refStep_iff]
      simp
    have hgone := notMem_refRun hempty fun hmem => hnot.1 (List.mem_append_right _
      (List.mem_cons_of_mem _ hmem))
    rw [h, hops, refRun] at hdone
    rw [refRun, refRun, ← List.foldl_cons, ← List.foldl_append, List.append_assoc] at hgone
    exact hgone hdone
  · intro h
    funext q
    ext v
    rw [mem_doneRun_iff, mem_refRun_iff]
    constructor
    · rintro ⟨pre, i, suf, hops, rfl, hsuf⟩
      refine ⟨pre, _, suf, hops, rfl, fun j hj => ⟨(hsuf j hj).1, ?_⟩⟩
      obtain ⟨hinsert, hoff⟩ := hsuf j hj
      rintro (rfl | rfl)
      · exact hoff (.inl rfl)
      · refine hoff (.inr ⟨rfl, fun z hz => ?_⟩)
        by_contra hne
        rcases h z hz pre q v suf hops hne hj with hmem | hmem
        · exact (hsuf _ hmem).1 rfl
        · exact (hsuf _ hmem).2 (.inl rfl)
    · rintro ⟨pre, i, suf, hops, hi, hsuf⟩
      refine ⟨pre, i, suf, hops, hi, fun j hj => ⟨(hsuf j hj).1, ?_⟩⟩
      rintro (rfl | ⟨rfl, -⟩)
      · exact (hsuf _ hj).2 (.inl rfl)
      · exact (hsuf _ hj).2 (.inr rfl)

/-- **The tree refines a multimap if and only if** no `erase(key)` has a value to clear but the one
that it passes. -/
theorem find_run_iff (ops : List (Op Value)) : Refines ops ↔ ClearsNothing ops :=
  (refines_iff_doneRun ops).trans (doneRun_eq_refRun_iff ops)

/-- The key `Dan`. -/
def dan : Key := ⟨[68, 97, 110], by decide⟩

/-- A tree of numbers: `insert("Dan", 23)` and `erase("Dan")` leave 23 at the key. -/
theorem not_refines_eraseKey : ¬ Refines [.insert dan (23 : I32), .eraseKey dan] := by
  rw [refines_iff_doneRun]
  intro h
  have hmem : (23 : I32) ∈ refRun (fun _ => ∅) [.insert dan (23 : I32), .eraseKey dan] dan := by
    rw [← h]
    decide
  exact absurd hmem (by decide)

end TernaryTree

end Napd
