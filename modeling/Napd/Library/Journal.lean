import Mathlib.Tactic

/-!
Journals of changes to a set.

* `Change`, `replay`: an element that is added or removed, and the set after some changes.
* `Real`: changes each of which changes the set.
* `mem_replay_iff`: after real changes, an element has moved if it was changed an odd number
  of times; `mem_replay_reverse_iff`: replayed from the last to the first, its first change is
  what counts.
* `replay_reverse_eq_iff`: when the two sets are the same.
-/

namespace Journal

variable {α : Type*}

/-- An element that is added, or removed. -/
structure Change (α : Type*) where
  item : α
  added : Bool

variable [DecidableEq α]

/-- The set after a change. -/
def Change.apply (s : Finset α) (c : Change α) : Finset α :=
  if c.added then insert c.item s else s.erase c.item

/-- The set after some changes. -/
def replay (s : Finset α) (cs : List (Change α)) : Finset α := cs.foldl Change.apply s

/-- Every change finds its element out of the set, or in it, and moves it. -/
def Real (s : Finset α) : List (Change α) → Prop
  | [] => True
  | c :: cs => (c.added = true ↔ c.item ∉ s) ∧ Real (c.apply s) cs

/-- How often an element is changed. -/
def times (a : α) (cs : List (Change α)) : ℕ := cs.countP fun c => c.item = a

lemma replay_append (s : Finset α) (cs ds : List (Change α)) :
    replay s (cs ++ ds) = replay (replay s cs) ds := List.foldl_append

lemma real_append {s : Finset α} {cs ds : List (Change α)} :
    Real s (cs ++ ds) ↔ Real s cs ∧ Real (replay s cs) ds := by
  induction cs generalizing s with
  | nil => rw [List.nil_append, Real, true_and, replay, List.foldl_nil]
  | cons c cs ih =>
      rw [List.cons_append, Real, Real, ih, and_assoc, replay, replay, List.foldl_cons]

/-! ### One element -/

lemma mem_apply_of_ne {s : Finset α} {c : Change α} {a : α} (h : c.item ≠ a) :
    a ∈ c.apply s ↔ a ∈ s := by
  rw [Change.apply]
  split_ifs
  · rw [Finset.mem_insert, or_iff_right h.symm]
  · rw [Finset.mem_erase, and_iff_right h.symm]

lemma item_mem_apply {s : Finset α} {c : Change α} : c.item ∈ c.apply s ↔ c.added = true := by
  rw [Change.apply]
  split_ifs with h
  · exact iff_of_true (Finset.mem_insert_self _ _) h
  · exact iff_of_false (Finset.notMem_erase _ _) h

/-- Whether an element is in the set in the end depends on whether it was in the beginning. -/
lemma mem_replay_congr {s t : Finset α} {a : α} (h : a ∈ s ↔ a ∈ t) (cs : List (Change α)) :
    a ∈ replay s cs ↔ a ∈ replay t cs := by
  induction cs generalizing s t with
  | nil => exact h
  | cons c cs ih =>
      rw [replay, replay, List.foldl_cons, List.foldl_cons]
      apply ih
      by_cases hca : c.item = a
      · rw [← hca, item_mem_apply, item_mem_apply]
      · rw [mem_apply_of_ne hca, mem_apply_of_ne hca, h]

lemma times_cons_self {c : Change α} {a : α} (h : c.item = a) (cs : List (Change α)) :
    times a (c :: cs) = times a cs + 1 := List.countP_cons_of_pos (by simpa using h)

lemma times_cons_of_ne {c : Change α} {a : α} (h : c.item ≠ a) (cs : List (Change α)) :
    times a (c :: cs) = times a cs := List.countP_cons_of_neg (by simpa using h)

/-- After real changes, an element is where it was if they were even in number. -/
lemma mem_replay_iff {s : Finset α} {cs : List (Change α)} (h : Real s cs) (a : α) :
    a ∈ replay s cs ↔ (a ∈ s ↔ Even (times a cs)) := by
  induction cs generalizing s with
  | nil => simp [replay, times]
  | cons c cs ih =>
      obtain ⟨hc, hcs⟩ := h
      rw [replay, List.foldl_cons]
      refine (ih hcs).trans ?_
      by_cases hca : c.item = a
      · rw [times_cons_self hca, ← hca, item_mem_apply, hc, Nat.even_add_one]
        tauto
      · rw [times_cons_of_ne hca, mem_apply_of_ne hca]

/-- Replayed from the last to the first, the first real change of an element decides. -/
lemma mem_replay_reverse_iff {s : Finset α} {cs : List (Change α)} (h : Real s cs) (a : α) :
    a ∈ replay s cs.reverse ↔ (a ∈ s ↔ times a cs = 0) := by
  induction cs generalizing s with
  | nil => simp [replay, times]
  | cons c cs ih =>
      obtain ⟨hc, hcs⟩ := h
      rw [List.reverse_cons, replay_append, replay, List.foldl_cons, List.foldl_nil]
      by_cases hca : c.item = a
      · rw [times_cons_self hca, ← hca, item_mem_apply, hc, iff_false_right (Nat.succ_ne_zero _)]
      · rw [times_cons_of_ne hca, mem_apply_of_ne hca,
          mem_replay_congr (mem_apply_of_ne hca).symm, ih hcs, mem_apply_of_ne hca]

/-- **From the last to the first, real changes make the same set if and only if no element is
changed an even number of times, other than none.** -/
theorem replay_reverse_eq_iff {s : Finset α} {cs : List (Change α)} (h : Real s cs) :
    replay s cs.reverse = replay s cs ↔ ∀ a, times a cs = 0 ∨ Odd (times a cs) := by
  rw [Finset.ext_iff]
  refine forall_congr' fun a => ?_
  rw [mem_replay_iff h, mem_replay_reverse_iff h, ← Nat.not_even_iff_odd]
  by_cases hz : times a cs = 0
  · simp [hz]
  · simp only [hz]
    tauto

end Journal
