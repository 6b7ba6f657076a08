import Mathlib.Tactic

/-!
Lists that are cut into fields at their delimiters, as `List.splitOnP` cuts them.

* `Splitting.induction`: a list is a last field, or a field, a delimiter and the rest.
* `length_splitOnP`: there is one field more than there are delimiters.
* `places`: where the fields begin. `marked`: the list with a mark in place of each delimiter;
  `places_marked` finds the fields in it, at their places and each in front of a mark.
-/

namespace Splitting

variable {α : Type*} {p : α → Bool}

/-- **A list is a last field, or a field, a delimiter and the rest.** -/
@[elab_as_elim]
lemma induction {motive : List α → Prop}
    (last : ∀ w, (∀ x ∈ w, p x = false) → motive w)
    (cut : ∀ w d s, (∀ x ∈ w, p x = false) → p d = true → motive s → motive (w ++ d :: s))
    (s : List α) : motive s := by
  -- `w` is what was read of the field so far
  suffices h : ∀ w, (∀ x ∈ w, p x = false) → motive (w ++ s) from h [] nofun
  induction s with
  | nil =>
      intro w hw
      rw [List.append_nil]
      exact last w hw
  | cons d s ih =>
      intro w hw
      cases hd : p d with
      | true => exact cut w d s hw hd (ih [] nofun)
      | false =>
          rw [List.append_cons]
          refine ih (w ++ [d]) fun x hx => ?_
          rcases List.mem_append.mp hx with hx | hx
          · exact hw x hx
          · rw [List.mem_singleton.mp hx, hd]

lemma filter_eq_nil {w : List α} (h : ∀ x ∈ w, p x = false) : w.filter p = [] :=
  List.filter_eq_nil_iff.mpr fun x hx => by rw [h x hx]; exact Bool.false_ne_true

/-- The delimiters of a field, a delimiter and the rest. -/
lemma filter_cut {w : List α} {d : α} (s : List α) (h : ∀ x ∈ w, p x = false) (hd : p d = true) :
    (w ++ d :: s).filter p = d :: s.filter p := by
  rw [List.filter_append, filter_eq_nil h, List.nil_append, List.filter_cons_of_pos hd]

/-- What is in a field is in the list, and no delimiter. -/
lemma of_mem_splitOnP {s w : List α} (hw : w ∈ s.splitOnP p) {x : α} (hx : x ∈ w) :
    x ∈ s ∧ p x = false := by
  induction s using Splitting.induction (p := p) with
  | last s hs =>
      rw [List.splitOnP_eq_singleton hs, List.mem_singleton] at hw
      rw [hw] at hx
      exact ⟨hx, hs x hx⟩
  | cut v d s hv hd ih =>
      rw [List.splitOnP_append_cons_of_forall_mem hv d hd, List.mem_cons] at hw
      rcases hw with rfl | hw
      · exact ⟨List.mem_append_left _ hx, hv x hx⟩
      · obtain ⟨hmem, hpx⟩ := ih hw
        exact ⟨List.mem_append_right _ (List.mem_cons_of_mem _ hmem), hpx⟩

/-- There is one field more than there are delimiters. -/
lemma length_splitOnP (s : List α) : (s.splitOnP p).length = (s.filter p).length + 1 := by
  induction s using Splitting.induction (p := p) with
  | last w hw => rw [List.splitOnP_eq_singleton hw, filter_eq_nil hw, List.length_singleton,
      List.length_nil]
  | cut w d s hw hd ih =>
      rw [List.splitOnP_append_cons_of_forall_mem hw d hd, filter_cut s hw hd, List.length_cons,
        List.length_cons, ih]

/-! ### Where the fields are -/

/-- A field at its place: where it begins, and what is in it. -/
structure Placed (α : Type*) where
  start : ℕ
  text : List α

/-- Fields at their places, when the first begins at `i` and one cell is between two of them. -/
def places (i : ℕ) : List (List α) → List (Placed α)
  | [] => []
  | w :: ws => ⟨i, w⟩ :: places (i + w.length + 1) ws

@[simp] lemma map_text_places (i : ℕ) (ws : List (List α)) :
    (places i ws).map Placed.text = ws := by
  induction ws generalizing i with
  | nil => rfl
  | cons w ws ih => rw [places, List.map_cons, ih]

/-- The list with a mark in place of each delimiter. -/
def marked (p : α → Bool) (mark : α) (s : List α) : List α := s.map fun x => if p x then mark else x

variable {mark : α}

lemma marked_eq_self {w : List α} (h : ∀ x ∈ w, p x = false) : marked p mark w = w := by
  have hid : ∀ x ∈ w, (if p x then mark else x) = x := fun x hx => by rw [h x hx]; rfl
  rw [marked, List.map_congr_left hid, List.map_id']

lemma marked_cut {w : List α} {d : α} (s : List α) (h : ∀ x ∈ w, p x = false) (hd : p d = true) :
    marked p mark (w ++ d :: s) = w ++ mark :: marked p mark s := by
  rw [marked, List.map_append, List.map_cons, if_pos hd]
  exact congrArg (· ++ mark :: marked p mark s) (marked_eq_self h)

/-- **Each field stands at its place, in front of a mark.** -/
lemma places_marked (pre s post : List α) {f : Placed α}
    (hf : f ∈ places pre.length (s.splitOnP p)) :
    ∃ rest, (pre ++ (marked p mark s ++ mark :: post)).drop f.start = f.text ++ mark :: rest := by
  induction s using Splitting.induction (p := p) generalizing pre with
  | last w hw =>
      rw [List.splitOnP_eq_singleton hw, places, places, List.mem_singleton] at hf
      rw [hf, marked_eq_self hw, List.drop_left]
      exact ⟨post, rfl⟩
  | cut w d s hw hd ih =>
      rw [List.splitOnP_append_cons_of_forall_mem hw d hd, places, List.mem_cons] at hf
      rw [marked_cut s hw hd, List.append_assoc, List.cons_append]
      rcases hf with rfl | hf
      · rw [List.drop_left]
        exact ⟨_, rfl⟩
      · have hlen : (pre ++ w ++ [mark]).length = pre.length + w.length + 1 := by
          rw [List.length_append, List.length_append, List.length_singleton]
        obtain ⟨rest, hrest⟩ := ih (pre ++ w ++ [mark]) (hlen ▸ hf)
        refine ⟨rest, ?_⟩
        rw [← hrest]
        simp only [List.append_assoc, List.singleton_append]

end Splitting
