import Mathlib.Tactic

/-!
Ranges of equal keys in a list that is sorted by a key.

* `lowerBound`, `upperBound`: how many elements stand below a key, and how many at or below it.
* `take_upperBound_drop`: between the two bounds stand the elements with the key.
* `lowerBound_eq_upperBound_iff`, `exists_getElem?_lowerBound`: the range is empty if no element
  has the key, and starts with such an element otherwise.
* `filter_range`: what erasing in the range of a key leaves.
* `insertUpper`: an element is put at the upper bound of its key, which keeps the order;
  `filter_insertUpper`: among those with its key it stands last.
-/

namespace EqualRange

variable {α β : Type*}

/-! ### Predicates that hold of a prefix -/

/-- A predicate that holds of a prefix holds of what `takeWhile` takes, and of nothing else. -/
lemma takeWhile_eq_filter {P : α → Bool} {l : List α}
    (h : l.Pairwise fun x y => P y = true → P x = true) : l.takeWhile P = l.filter P := by
  induction l with
  | nil => rfl
  | cons a l ih =>
      obtain ⟨hhead, htail⟩ := List.pairwise_cons.mp h
      by_cases ha : P a = true
      · rw [List.takeWhile_cons_of_pos ha, List.filter_cons_of_pos ha, ih htail]
      · have hnone : ∀ b ∈ l, ¬P b = true := fun b hb hPb => ha (hhead b hb hPb)
        rw [List.takeWhile_cons_of_neg ha, List.filter_cons_of_neg ha,
          List.filter_eq_nil_iff.mpr hnone]

lemma dropWhile_eq_filter {P : α → Bool} {l : List α}
    (h : l.Pairwise fun x y => P y = true → P x = true) :
    l.dropWhile P = l.filter fun a => !P a := by
  induction l with
  | nil => rfl
  | cons a l ih =>
      obtain ⟨hhead, htail⟩ := List.pairwise_cons.mp h
      by_cases ha : P a = true
      · rw [List.dropWhile_cons_of_pos ha, List.filter_cons_of_neg (by simp [ha]), ih htail]
      · have hall : ∀ b ∈ l, (!P b) = true := by
          intro b hb
          rw [Bool.not_eq_true', ← Bool.not_eq_true]
          exact fun hPb => ha (hhead b hb hPb)
        rw [List.dropWhile_cons_of_neg ha, List.filter_cons_of_pos (by simp [ha]),
          List.filter_eq_self.mpr hall]

lemma take_length_takeWhile (P : α → Bool) (l : List α) :
    l.take (l.takeWhile P).length = l.takeWhile P :=
  (List.prefix_iff_eq_take.mp (List.takeWhile_prefix P)).symm

lemma drop_length_takeWhile (P : α → Bool) (l : List α) :
    l.drop (l.takeWhile P).length = l.dropWhile P := by
  induction l with
  | nil => rfl
  | cons a l ih =>
      by_cases ha : P a = true
      · rw [List.takeWhile_cons_of_pos ha, List.dropWhile_cons_of_pos ha, List.length_cons,
          List.drop_succ_cons, ih]
      · rw [List.takeWhile_cons_of_neg ha, List.dropWhile_cons_of_neg ha]
        rfl

/-! ### The bounds of a key -/

variable [LinearOrder β] (f : α → β)

/-- The list is sorted by the key `f`. -/
def SortedBy (l : List α) : Prop := l.Pairwise fun a b => f a ≤ f b

/-- How many elements stand below a key. -/
def lowerBound (l : List α) (x : β) : ℕ := (l.takeWhile fun a => decide (f a < x)).length

/-- How many elements stand at or below a key. -/
def upperBound (l : List α) (x : β) : ℕ := (l.takeWhile fun a => decide (f a ≤ x)).length

variable {f} {l : List α}

/-- The bounds depend on the keys alone. -/
lemma lowerBound_congr {γ : Type*} {g : γ → β} {l : List α} {l' : List γ}
    (h : l.map f = l'.map g) (x : β) : lowerBound f l x = lowerBound g l' x := by
  have hlen := congrArg (fun l => (l.takeWhile fun b => decide (b < x)).length) h
  simp only [List.takeWhile_map, List.length_map] at hlen
  exact hlen

lemma upperBound_congr {γ : Type*} {g : γ → β} {l : List α} {l' : List γ}
    (h : l.map f = l'.map g) (x : β) : upperBound f l x = upperBound g l' x := by
  have hlen := congrArg (fun l => (l.takeWhile fun b => decide (b ≤ x)).length) h
  simp only [List.takeWhile_map, List.length_map] at hlen
  exact hlen

lemma SortedBy.lt_prefix (h : SortedBy f l) (x : β) :
    l.Pairwise fun a b => decide (f b < x) = true → decide (f a < x) = true := by
  refine List.Pairwise.imp (fun {a b} hab => ?_) h
  rw [decide_eq_true_iff, decide_eq_true_iff]
  exact fun hb => lt_of_le_of_lt hab hb

lemma SortedBy.le_prefix (h : SortedBy f l) (x : β) :
    l.Pairwise fun a b => decide (f b ≤ x) = true → decide (f a ≤ x) = true := by
  refine List.Pairwise.imp (fun {a b} hab => ?_) h
  rw [decide_eq_true_iff, decide_eq_true_iff]
  exact fun hb => hab.trans hb

lemma take_lowerBound (h : SortedBy f l) (x : β) :
    l.take (lowerBound f l x) = l.filter fun a => decide (f a < x) := by
  rw [lowerBound, take_length_takeWhile, takeWhile_eq_filter (h.lt_prefix x)]

lemma take_upperBound (h : SortedBy f l) (x : β) :
    l.take (upperBound f l x) = l.filter fun a => decide (f a ≤ x) := by
  rw [upperBound, take_length_takeWhile, takeWhile_eq_filter (h.le_prefix x)]

lemma drop_lowerBound (h : SortedBy f l) (x : β) :
    l.drop (lowerBound f l x) = l.filter fun a => decide (x ≤ f a) := by
  rw [lowerBound, drop_length_takeWhile, dropWhile_eq_filter (h.lt_prefix x)]
  refine List.filter_congr fun a _ => ?_
  rw [← decide_not]
  exact decide_eq_decide.mpr not_lt

lemma drop_upperBound (h : SortedBy f l) (x : β) :
    l.drop (upperBound f l x) = l.filter fun a => decide (x < f a) := by
  rw [upperBound, drop_length_takeWhile, dropWhile_eq_filter (h.le_prefix x)]
  refine List.filter_congr fun a _ => ?_
  rw [← decide_not]
  exact decide_eq_decide.mpr not_le

/-- **Between the bounds of a key stand the elements with that key.** -/
lemma take_upperBound_drop (h : SortedBy f l) (x : β) :
    (l.take (upperBound f l x)).drop (lowerBound f l x)
      = l.filter fun a => decide (f a = x) := by
  have hsub : SortedBy f (l.filter fun a => decide (f a ≤ x)) :=
    List.Pairwise.sublist List.filter_sublist h
  have hlower : lowerBound f l x = lowerBound f (l.filter fun a => decide (f a ≤ x)) x := by
    have hlen := congrArg List.length (takeWhile_eq_filter (h.lt_prefix x))
    have hlen' := congrArg List.length (takeWhile_eq_filter (hsub.lt_prefix x))
    rw [lowerBound, lowerBound, hlen, hlen', List.filter_filter]
    refine congrArg List.length (List.filter_congr fun a _ => ?_)
    rw [← Bool.decide_and]
    exact decide_eq_decide.mpr ⟨fun ha => ⟨ha, ha.le⟩, fun ha => ha.1⟩
  rw [take_upperBound h, hlower, drop_lowerBound hsub, List.filter_filter]
  refine List.filter_congr fun a _ => ?_
  rw [← Bool.decide_and]
  exact decide_eq_decide.mpr ⟨fun ha => le_antisymm ha.2 ha.1, fun ha => ⟨ha.ge, ha.le⟩⟩

lemma mem_range_iff (h : SortedBy f l) (x : β) (a : α) :
    a ∈ (l.take (upperBound f l x)).drop (lowerBound f l x) ↔ a ∈ l ∧ f a = x := by
  rw [take_upperBound_drop h, List.mem_filter, decide_eq_true_iff]

lemma lowerBound_le_upperBound (l : List α) (x : β) : lowerBound f l x ≤ upperBound f l x := by
  induction l with
  | nil => exact Nat.le_refl 0
  | cons a l ih =>
      rw [lowerBound, upperBound, List.takeWhile_cons, List.takeWhile_cons]
      by_cases ha : f a < x
      · rw [if_pos (decide_eq_true ha), if_pos (decide_eq_true ha.le), List.length_cons,
          List.length_cons]
        exact Nat.succ_le_succ ih
      · rw [if_neg (by simpa using ha)]
        exact Nat.zero_le _

lemma upperBound_le_length (l : List α) (x : β) : upperBound f l x ≤ l.length :=
  (List.takeWhile_prefix _).length_le

lemma range_length (h : SortedBy f l) (x : β) :
    upperBound f l x - lowerBound f l x = (l.filter fun a => decide (f a = x)).length := by
  rw [← take_upperBound_drop h, List.length_drop, List.length_take,
    Nat.min_eq_left (upperBound_le_length l x)]

/-- The range of a key that no element has is empty. -/
lemma lowerBound_eq_upperBound_iff (h : SortedBy f l) (x : β) :
    lowerBound f l x = upperBound f l x ↔ ∀ a ∈ l, f a ≠ x := by
  have hlen := range_length h x
  have hle := lowerBound_le_upperBound (f := f) l x
  have hnil : (l.filter fun a => decide (f a = x)).length = 0 ↔ ∀ a ∈ l, f a ≠ x := by
    simp [List.length_eq_zero_iff]
  rw [← hnil]
  omega

/-- A range that is not empty starts with an element that has the key. -/
lemma exists_getElem?_lowerBound (h : SortedBy f l) {x : β}
    (hne : lowerBound f l x ≠ upperBound f l x) :
    ∃ a ∈ l, f a = x ∧ l[lowerBound f l x]? = some a := by
  have hle := lowerBound_le_upperBound (f := f) l x
  have hlen := upperBound_le_length (f := f) l x
  have hlt : lowerBound f l x < l.length := by omega
  have hhead : (l.take (upperBound f l x)).drop (lowerBound f l x) ≠ [] := by
    rw [← List.length_pos_iff, List.length_drop, List.length_take]
    omega
  obtain ⟨a, tail, htail⟩ := List.exists_cons_of_ne_nil hhead
  have hmem : a ∈ l.filter fun a => decide (f a = x) := by
    rw [← take_upperBound_drop h x, htail]
    exact List.mem_cons_self
  have hget : l[lowerBound f l x]? = some a := by
    have hzero : ((l.take (upperBound f l x)).drop (lowerBound f l x))[0]? = some a := by
      rw [htail]
      rfl
    rw [List.getElem?_drop, Nat.add_zero, List.getElem?_take_of_lt (by omega)] at hzero
    exact hzero
  obtain ⟨hl, hx⟩ := List.mem_filter.mp hmem
  exact ⟨a, hl, of_decide_eq_true hx, hget⟩

lemma take_append_range_append_drop (l : List α) (x : β) :
    l.take (lowerBound f l x) ++ (l.take (upperBound f l x)).drop (lowerBound f l x)
      ++ l.drop (upperBound f l x) = l := by
  have hfront : (l.take (upperBound f l x)).take (lowerBound f l x)
      = l.take (lowerBound f l x) := by
    rw [List.take_take, Nat.min_eq_left (lowerBound_le_upperBound l x)]
  rw [← hfront, List.take_append_drop, List.take_append_drop]

/-- What is erased in the range of a key is erased among the elements with the key. -/
lemma filter_range (h : SortedBy f l) (x : β) (q : α → Bool) :
    l.take (lowerBound f l x)
        ++ ((l.take (upperBound f l x)).drop (lowerBound f l x)).filter q
        ++ l.drop (upperBound f l x)
      = l.filter fun a => !decide (f a = x) || q a := by
  have hfront : (l.take (lowerBound f l x)).filter (fun a => !decide (f a = x) || q a)
      = l.take (lowerBound f l x) := by
    rw [List.filter_eq_self, take_lowerBound h]
    intro a ha
    have hlt : f a < x := of_decide_eq_true (List.mem_filter.mp ha).2
    simp [hlt.ne]
  have hback : (l.drop (upperBound f l x)).filter (fun a => !decide (f a = x) || q a)
      = l.drop (upperBound f l x) := by
    rw [List.filter_eq_self, drop_upperBound h]
    intro a ha
    have hlt : x < f a := of_decide_eq_true (List.mem_filter.mp ha).2
    simp [hlt.ne']
  have hrange : ((l.take (upperBound f l x)).drop (lowerBound f l x)).filter
        (fun a => !decide (f a = x) || q a)
      = ((l.take (upperBound f l x)).drop (lowerBound f l x)).filter q := by
    refine List.filter_congr fun a ha => ?_
    rw [take_upperBound_drop h] at ha
    have heq : f a = x := of_decide_eq_true (List.mem_filter.mp ha).2
    simp [heq]
  have hsplit := congrArg (List.filter fun a => !decide (f a = x) || q a)
    (take_append_range_append_drop (f := f) l x)
  rw [List.filter_append, List.filter_append, hfront, hback, hrange] at hsplit
  exact hsplit

/-! ### Distinct keys -/

/-- In an ascending list, a key stands behind those below it. -/
lemma filter_le_eq {l : List β} (h : l.Pairwise (· < ·)) (x : β) :
    (l.filter fun b => decide (b ≤ x))
      = (l.filter fun b => decide (b < x)) ++ if x ∈ l then [x] else [] := by
  induction l with
  | nil => rfl
  | cons b l ih =>
      obtain ⟨hhead, htail⟩ := List.pairwise_cons.mp h
      rw [List.filter_cons, List.filter_cons, ih htail]
      rcases lt_trichotomy b x with hbx | rfl | hxb
      · have hmem : x ∈ b :: l ↔ x ∈ l := by rw [List.mem_cons, or_iff_right hbx.ne']
        rw [if_pos (decide_eq_true hbx.le), if_pos (decide_eq_true hbx), List.cons_append]
        simp only [hmem]
      · have hnone : (l.filter fun c => decide (c < b)) = [] :=
          List.filter_eq_nil_iff.mpr fun c hc => by simpa using (hhead c hc).le
        have hself : ¬ decide (b < b) = true := by simp
        rw [if_pos (decide_eq_true le_rfl), if_neg fun hb => (hhead b hb).false, hnone,
          if_neg hself, if_pos List.mem_cons_self]
        rfl
      · have hnone : x ∉ b :: l := by
          rw [List.mem_cons, not_or]
          exact ⟨hxb.ne, fun hx => (hxb.trans (hhead x hx)).false⟩
        have hrest : x ∉ l := fun hx => hnone (List.mem_cons_of_mem b hx)
        rw [if_neg (by simpa using hxb), if_neg hrest, if_neg (by simpa using hxb.le),
          if_neg hnone]

/-- The keys below a bound are the first ones. -/
lemma filter_lt_prefix {l : List β} (h : l.Pairwise (· < ·)) (x : β) :
    (l.filter fun b => decide (b < x)) <+: l := by
  have hsorted : SortedBy id l := h.imp le_of_lt
  have hfilter : l.takeWhile (fun b => decide (b < x)) = l.filter fun b => decide (b < x) :=
    takeWhile_eq_filter (hsorted.lt_prefix x)
  rw [← hfilter]
  exact List.takeWhile_prefix _

/-- The keys up to a bound are the first ones. -/
lemma take_length_filter_le {l : List β} (h : l.Pairwise (· < ·)) (x : β) :
    l.take (l.filter fun b => decide (b ≤ x)).length = l.filter fun b => decide (b ≤ x) := by
  have hsorted : SortedBy id l := h.imp le_of_lt
  have hfilter : l.takeWhile (fun b => decide (b ≤ x)) = l.filter fun b => decide (b ≤ x) :=
    takeWhile_eq_filter (hsorted.le_prefix x)
  rw [← hfilter]
  exact take_length_takeWhile _ l

/-! ### Insertion -/

variable (f) in
/-- Put an element behind those whose keys are at or below its own. -/
def insertUpper (a : α) (l : List α) : List α :=
  l.take (upperBound f l (f a)) ++ a :: l.drop (upperBound f l (f a))

lemma insertUpper_perm (a : α) (l : List α) : (insertUpper f a l).Perm (a :: l) := by
  refine List.perm_middle.trans (List.Perm.of_eq ?_)
  rw [List.take_append_drop]

/-- An element that is put at the upper bound of its key stands last among those with its key, and
moves no others. -/
lemma filter_insertUpper (h : SortedBy f l) (a : α) (x : β) :
    (insertUpper f a l).filter (fun b => decide (f b = x))
      = l.filter (fun b => decide (f b = x)) ++ if f a = x then [a] else [] := by
  have hsplit := congrArg (List.filter fun b => decide (f b = x))
    (List.take_append_drop (upperBound f l (f a)) l)
  rw [List.filter_append] at hsplit
  rw [insertUpper, List.filter_append, List.filter_cons, ← hsplit]
  split_ifs with hdec hax hax
  · have hnone : (l.drop (upperBound f l (f a))).filter (fun b => decide (f b = x)) = [] := by
      rw [drop_upperBound h, List.filter_eq_nil_iff]
      intro b hb heq
      have hlt : f a < f b := of_decide_eq_true (List.mem_filter.mp hb).2
      rw [of_decide_eq_true heq, hax] at hlt
      exact lt_irrefl _ hlt
    rw [hnone, List.append_nil]
  · exact absurd (of_decide_eq_true hdec) hax
  · exact absurd (decide_eq_true hax) hdec
  · rw [List.append_nil]

/-- An element that is put at the upper bound of its key keeps the order. -/
lemma SortedBy.insertUpper (h : SortedBy f l) (a : α) : SortedBy f (insertUpper f a l) := by
  have hbelow : ∀ b ∈ l.take (upperBound f l (f a)), f b ≤ f a := by
    intro b hb
    rw [take_upperBound h] at hb
    exact of_decide_eq_true (List.mem_filter.mp hb).2
  have habove : ∀ b ∈ l.drop (upperBound f l (f a)), f a ≤ f b := by
    intro b hb
    rw [drop_upperBound h] at hb
    exact (of_decide_eq_true (List.mem_filter.mp hb).2 : f a < f b).le
  refine List.pairwise_append.mpr ⟨h.sublist (List.take_sublist _ _),
    List.pairwise_cons.mpr ⟨habove, h.sublist (List.drop_sublist _ _)⟩, ?_⟩
  intro b hb c hc
  rcases List.mem_cons.mp hc with rfl | hc
  · exact hbelow b hb
  · exact (hbelow b hb).trans (habove c hc)

end EqualRange
