import Mathlib.Tactic

/-!
Frames on a stream: a head of fixed length announces how much of the stream belongs to it.

* `Framing`: the length of a head, and what a head announces.
* `parse`: the reference parser. It takes whole frames off the front of a list and gives back
  what is left.
* `parse_flatten_append`: frames that stand in front of a list are read first, whatever
  follows them; `parse_flatten_part` when only a part of a frame follows.
* `parse_prefix`: up to any place of a stream of frames, the parser reads the first of them.
-/

/-- A head of `head` cells, which announces the number of cells that follow it. -/
structure Framing (β : Type*) where
  head : ℕ
  head_pos : 0 < head
  announced : List β → ℕ

namespace Framing

variable {β : Type*} (F : Framing β)

/-- The length of the frame that begins the list, once its head is there. -/
def frameLength (l : List β) : ℕ := F.head + F.announced (l.take F.head)

/-- A list that is one frame. -/
def Whole (l : List β) : Prop := F.head ≤ l.length ∧ l.length = F.frameLength l

/-- A list that begins with a whole frame. -/
def Ready (l : List β) : Prop := F.head ≤ l.length ∧ F.frameLength l ≤ l.length

instance (l : List β) : Decidable (F.Whole l) :=
  inferInstanceAs (Decidable (_ ∧ _))

instance (l : List β) : Decidable (F.Ready l) :=
  inferInstanceAs (Decidable (_ ∧ _))

lemma head_le_frameLength (l : List β) : F.head ≤ F.frameLength l := Nat.le_add_right _ _

/-- A frame is taken off. -/
lemma length_drop_lt {l : List β} (h : F.Ready l) :
    (l.drop (F.frameLength l)).length < l.length := by
  have hpos := F.head_pos
  have hhead := F.head_le_frameLength l
  have hlen := h.2
  rw [List.length_drop]
  omega

/-- **The reference parser**: the whole frames in front, in order, and what is left. -/
def parse (l : List β) : List (List β) × List β :=
  if _h : F.Ready l then
    (l.take (F.frameLength l) :: (parse (l.drop (F.frameLength l))).1,
      (parse (l.drop (F.frameLength l))).2)
  else ([], l)
termination_by l.length
decreasing_by all_goals exact F.length_drop_lt ‹_›

variable {F}

lemma parse_of_ready {l : List β} (h : F.Ready l) :
    F.parse l = (l.take (F.frameLength l) :: (F.parse (l.drop (F.frameLength l))).1,
      (F.parse (l.drop (F.frameLength l))).2) := by
  rw [parse, dif_pos h]

lemma parse_of_not_ready {l : List β} (h : ¬ F.Ready l) : F.parse l = ([], l) := by
  rw [parse, dif_neg h]

/-- What follows a head does not change what it announces. -/
lemma frameLength_append {l : List β} (h : F.head ≤ l.length) (m : List β) :
    F.frameLength (l ++ m) = F.frameLength l := by
  rw [frameLength, frameLength, List.take_append_of_le_length h]

/-- One frame in front of a list. -/
lemma parse_append {x : List β} (h : F.Whole x) (l : List β) :
    F.parse (x ++ l) = (x :: (F.parse l).1, (F.parse l).2) := by
  have hlen : F.frameLength (x ++ l) = x.length := (frameLength_append h.1 l).trans h.2.symm
  have hready : F.Ready (x ++ l) := by
    refine ⟨?_, ?_⟩
    · rw [List.length_append]
      exact h.1.trans (Nat.le_add_right _ _)
    · rw [hlen, List.length_append]
      exact Nat.le_add_right _ _
  rw [parse_of_ready hready, hlen, List.take_left, List.drop_left]

/-- **Frames in front of a list** are read first, in order. -/
theorem parse_flatten_append {xs : List (List β)} (h : ∀ x ∈ xs, F.Whole x) (l : List β) :
    F.parse (xs.flatten ++ l) = (xs ++ (F.parse l).1, (F.parse l).2) := by
  induction xs with
  | nil => rfl
  | cons x xs ih =>
      have hxs : ∀ y ∈ xs, F.Whole y := fun y hy => h y (List.mem_cons_of_mem _ hy)
      rw [List.flatten_cons, List.append_assoc, parse_append (h x List.mem_cons_self), ih hxs,
        List.cons_append]

/-- Frames, and a part of a frame behind them. -/
lemma parse_flatten_part {xs : List (List β)} (h : ∀ x ∈ xs, F.Whole x) {l : List β}
    (hl : ¬ F.Ready l) : F.parse (xs.flatten ++ l) = (xs, l) := by
  rw [parse_flatten_append h, parse_of_not_ready hl, List.append_nil]

/-- The frames that stand in front of a place of a stream of frames are its first ones. -/
lemma parse_prefix {xs : List (List β)} (h : ∀ x ∈ xs, F.Whole x) {l m : List β}
    (hl : l ++ m = xs.flatten) : (F.parse l).1 <+: xs := by
  induction xs generalizing l with
  | nil =>
      have hnil : l = [] := (List.append_eq_nil_iff.mp hl).1
      have hready : ¬ F.Ready [] := fun hr => Nat.not_le.mpr F.head_pos hr.1
      rw [hnil, parse_of_not_ready hready]
  | cons x xs ih =>
      obtain ⟨hx, hxs⟩ := List.forall_mem_cons.mp h
      have hfront : l <+: x ++ xs.flatten := ⟨m, hl⟩
      rcases Nat.lt_or_ge l.length x.length with hlt | hle
      · -- the first frame is cut
        have hready : ¬ F.Ready l := by
          intro hr
          obtain ⟨t, rfl⟩ :=
            List.prefix_of_prefix_length_le hfront (List.prefix_append x xs.flatten) hlt.le
          have hlen := hr.2
          rw [← frameLength_append hr.1 t, ← hx.2] at hlen
          exact absurd hlt (Nat.not_lt.mpr hlen)
        rw [parse_of_not_ready hready]
        exact List.nil_prefix
      · obtain ⟨l', rfl⟩ :=
          List.prefix_of_prefix_length_le (List.prefix_append x xs.flatten) hfront hle
        rw [List.flatten_cons, List.append_assoc] at hl
        rw [parse_append hx]
        exact List.cons_prefix_cons.mpr ⟨rfl, ih hxs (List.append_cancel_left hl)⟩

end Framing
