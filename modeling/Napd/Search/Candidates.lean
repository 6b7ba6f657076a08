import Napd.Search.Sound
import Napd.Search.Termination

/-!
What `jmerge` finds, on both of its paths.

* `candidates`: the files in all sets that pass what the path of that many sets asks for.
* `scan_master_list`: the path with one set finds the first ones.
* `master_list_of_returned`, `mem_jmerge_iff`: so do both paths, up to the limit.
* `agrees_iff`: **one set, and the same set twice, leave the same files if and only if no file of
  the caller's own is among the first that the path with one set picks.**
-/

namespace Napd.Search

variable {q : Search} {files : Files} {caller : Client} {s sExclude : List FileSet}

variable (q files caller s sExclude) in
/-- The files in all sets that are picked, ascending; the path with one set does not ask whether
a file is the caller's own. -/
def candidates : List ℕ :=
  ((s.getD 0 ∅).sort (· ≤ ·)).filter fun f =>
    decide (∀ t ∈ s, f ∈ t) && picked q files caller (decide (s.length ≠ 1)) sExclude f

lemma candidates_eq_wanted (hlists : 2 ≤ s.length) :
    candidates q files caller s sExclude = wanted q files caller s sExclude := by
  have hmany : s.length ≠ 1 := by omega
  rw [candidates, decide_eq_true hmany, wanted]

lemma candidates_one (t : FileSet) :
    candidates q files caller [t] sExclude
      = (t.sort (· ≤ ·)).filter (picked q files caller false sExclude) := by
  rw [candidates]
  refine List.filter_congr fun f hf => ?_
  have hmem : f ∈ t := (Finset.mem_sort (· ≤ ·)).mp hf
  simp [hmem]

lemma mem_candidates_iff (hs : s ≠ []) {f : ℕ} :
    f ∈ candidates q files caller s sExclude ↔
      (∀ t ∈ s, f ∈ t) ∧ picked q files caller (decide (s.length ≠ 1)) sExclude f = true := by
  rw [candidates, List.mem_filter, Finset.mem_sort, Bool.and_eq_true, decide_eq_true_iff]
  refine and_iff_right_of_imp fun h => ?_
  exact mem_getD (List.length_pos_iff.mpr hs) h.1

/-! ### The path with one set -/

/-- The path with one set finds the first files that are picked, up to the limit. -/
lemma scan_master_list {m : Found} (fs : List ℕ)
    (hcount : m.closematches.toNat = m.master_list.length)
    (hlt : m.master_list.length < limit q) :
    (scan q files caller sExclude m fs).master_list
      = ((fs.filter (picked q files caller false sExclude)).take
          (limit q - m.master_list.length)).reverse ++ m.master_list := by
  induction fs generalizing m with
  | nil => rw [scan, List.filter_nil, List.take_nil, List.reverse_nil, List.nil_append]
  | cons f fs ih =>
      rw [scan]
      by_cases hf : picked q files caller false sExclude f = true
      · obtain ⟨hpush, henough⟩ := push_count f hcount hlt
        have hroom : limit q - m.master_list.length = limit q - (m.master_list.length + 1) + 1 := by
          omega
        rw [if_pos hf, List.filter_cons_of_pos hf, hroom, List.take_succ_cons, List.reverse_cons,
          List.append_assoc]
        dsimp only
        by_cases hend : (m.push q f).enough q = true
        · -- the limit is reached
          rw [if_pos hend, ← henough.mp hend, Nat.sub_self, List.take_zero]
          rfl
        · have hlt' : m.master_list.length + 1 < limit q :=
            lt_of_le_of_ne hlt (mt henough.mpr hend)
          rw [if_neg hend]
          exact ih (m := m.push q f) hpush hlt'
      · rw [if_neg hf, List.filter_cons_of_neg hf]
        exact ih hcount hlt

/-! ### Both paths -/

/-- **What is found when `jmerge` has returned**: the first candidates, up to the limit, in
descending order. -/
lemma master_list_of_returned (hs : s ≠ []) {n : ℕ}
    (h : (jmerge q files caller s sExclude n).2 = true) :
    (jmerge q files caller s sExclude n).1.master_list
      = ((candidates q files caller s sExclude).take (limit q)).reverse := by
  by_cases hone : s.length = 1
  · obtain ⟨t, rfl⟩ := List.length_eq_one_iff.mp hone
    rw [jmerge, if_pos hone, candidates_one]
    have hempty : ([] : List ℕ).length < limit q := limit_pos q
    exact (scan_master_list (m := ⟨0, 0, []⟩) _ rfl hempty).trans (List.append_nil _)
  · have hlists : 2 ≤ s.length := by
      have hpos := List.length_pos_iff.mpr hs
      omega
    rw [jmerge, if_neg hone] at h ⊢
    rw [candidates_eq_wanted hlists]
    exact (intersecting_run hlists n).collected.stopped h

/-- What has been found after any number of rounds is among the first candidates. -/
lemma mem_take_of_mem_jmerge (hs : s ≠ []) {n f : ℕ}
    (h : f ∈ (jmerge q files caller s sExclude n).1.master_list) :
    f ∈ (candidates q files caller s sExclude).take (limit q) := by
  cases hleft : (jmerge q files caller s sExclude n).2 with
  | true =>
      rw [master_list_of_returned hs hleft, List.mem_reverse] at h
      exact h
  | false =>
      have hone : ¬ s.length = 1 := by
        intro hone
        rw [jmerge, if_pos hone] at hleft
        cases hleft
      have hlists : 2 ≤ s.length := by
        have hpos := List.length_pos_iff.mpr hs
        omega
      rw [jmerge, if_neg hone] at h hleft
      obtain ⟨hlist, -, hlt⟩ := (intersecting_run hlists n).collected.running hleft
      dsimp only at h
      rw [hlist, List.length_reverse] at hlt
      rw [hlist, List.mem_reverse] at h
      rw [candidates_eq_wanted hlists]
      have hascending : (wanted q files caller s sExclude).Pairwise (· < ·) := wanted_ascending
      have hfilter := EqualRange.filter_lt_prefix hascending
        ((mergeStep q files caller s sExclude)^[n] Merge.start).curval
      exact (List.prefix_take_iff.mpr ⟨hfilter, hlt.le⟩).subset h

/-- **Which files are found**: the first candidates, up to the limit, unless there are too many
sets. -/
lemma mem_jmerge_iff (hs : s ≠ []) {f : ℕ} :
    (∃ n, f ∈ (jmerge q files caller s sExclude n).1.master_list) ↔
      s.length ≤ 255 ∧ f ∈ (candidates q files caller s sExclude).take (limit q) := by
  constructor
  · rintro ⟨n, hn⟩
    exact ⟨(mem_jmerge hs hn).1, mem_take_of_mem_jmerge hs hn⟩
  · rintro ⟨hle, hf⟩
    obtain ⟨-, n, hn⟩ : Returns q files caller s sExclude := returns_of_le hs hle
    refine ⟨n, ?_⟩
    rw [master_list_of_returned hs hn, List.mem_reverse]
    exact hf

/-! ### One set, and the same set twice -/

variable (q files caller s sExclude) in
/-- `jmerge` returns, and this list is left. -/
def Leaves (l : List ℕ) : Prop :=
  ∃ n, (jmerge q files caller s sExclude n).2 = true ∧
    (jmerge q files caller s sExclude n).1.master_list = l

variable (q files caller sExclude) in
/-- One set leaves the same as the set twice. -/
def Agrees (t : FileSet) : Prop :=
  ∃ l, Leaves q files caller [t] sExclude l ∧ Leaves q files caller [t, t] sExclude l

/-- What passes on the path with several sets passes on the path with one set, and is not the
caller's own. -/
lemma picked_own_iff {f : ℕ} :
    picked q files caller true sExclude f = true ↔
      picked q files caller false sExclude f = true ∧ (files f).client.addr ≠ caller.addr := by
  simp only [picked, passes, Bool.and_eq_true, Bool.not_true, Bool.false_or, Bool.not_false,
    Bool.true_or, bne_iff_ne, ne_eq, eq_comm (a := caller.addr)]
  tauto

lemma candidates_two (t : FileSet) :
    candidates q files caller [t, t] sExclude
      = (candidates q files caller [t] sExclude).filter
          fun f => (files f).client.addr != caller.addr := by
  rw [candidates_one, List.filter_filter, candidates]
  refine List.filter_congr fun f hf => ?_
  have hmem : f ∈ t := (Finset.mem_sort (· ≤ ·)).mp hf
  have hall : ∀ u ∈ [t, t], f ∈ u := by simpa using hmem
  have htwo : [t, t].length ≠ 1 := Nat.succ_ne_self 1
  rw [Bool.eq_iff_iff, Bool.and_eq_true, Bool.and_eq_true, decide_eq_true_iff,
    decide_eq_true htwo, picked_own_iff, bne_iff_ne, and_iff_right hall, and_comm]

/-- The first elements that a predicate leaves are the first elements, if it holds of these. -/
lemma take_filter_eq_iff {α : Type*} (P : α → Bool) (l : List α) (n : ℕ) :
    (l.filter P).take n = l.take n ↔ ∀ a ∈ l.take n, P a = true := by
  constructor
  · intro h a ha
    rw [← h] at ha
    exact (List.mem_filter.mp (List.mem_of_mem_take ha)).2
  · intro h
    have hsplit : l.filter P = l.take n ++ (l.drop n).filter P := by
      conv_lhs => rw [← List.take_append_drop n l]
      rw [List.filter_append, List.filter_eq_self.mpr h]
    rw [hsplit]
    rcases Nat.le_total n l.length with hle | hle
    · have hlen : (l.take n).length = n := List.length_take_of_le hle
      exact List.take_left' hlen
    · rw [List.drop_of_length_le hle, List.filter_nil, List.append_nil, List.take_take, min_self]

lemma leaves_iff (hs : s ≠ []) (hle : s.length ≤ 255) {l : List ℕ} :
    Leaves q files caller s sExclude l ↔
      l = ((candidates q files caller s sExclude).take (limit q)).reverse := by
  constructor
  · rintro ⟨n, hn, rfl⟩
    exact master_list_of_returned hs hn
  · rintro rfl
    obtain ⟨-, n, hn⟩ : Returns q files caller s sExclude := returns_of_le hs hle
    exact ⟨n, hn, master_list_of_returned hs hn⟩

lemma leaves_one_iff (t : FileSet) {l : List ℕ} :
    Leaves q files caller [t] sExclude l ↔
      l = ((candidates q files caller [t] sExclude).take (limit q)).reverse :=
  leaves_iff (List.cons_ne_nil _ _) (Nat.le_of_ble_eq_true rfl)

lemma leaves_two_iff (t : FileSet) {l : List ℕ} :
    Leaves q files caller [t, t] sExclude l ↔
      l = ((candidates q files caller [t, t] sExclude).take (limit q)).reverse :=
  leaves_iff (List.cons_ne_nil _ _) (Nat.le_of_ble_eq_true rfl)

lemma agrees_iff_take (t : FileSet) :
    Agrees q files caller sExclude t ↔
      ∀ f ∈ (candidates q files caller [t] sExclude).take (limit q),
        ((files f).client.addr != caller.addr) = true := by
  rw [← take_filter_eq_iff, ← candidates_two]
  constructor
  · rintro ⟨l, hone, htwo⟩
    rw [leaves_one_iff] at hone
    rw [leaves_two_iff] at htwo
    exact List.reverse_injective (htwo.symm.trans hone)
  · intro h
    refine ⟨_, (leaves_one_iff t).mpr rfl, ?_⟩
    rw [leaves_two_iff, h]

/-- **One set leaves the same files as the set twice if and only if none of the first files that
pass the filters and are not excluded, up to the limit, is the caller's own.** -/
theorem agrees_iff (q : Search) (files : Files) (caller : Client) (sExclude : List FileSet)
    (t : FileSet) :
    Agrees q files caller sExclude t ↔
      ∀ f ∈ ((t.sort (· ≤ ·)).filter (picked q files caller false sExclude)).take (limit q),
        (files f).client.addr ≠ caller.addr := by
  rw [agrees_iff_take, candidates_one]
  simp only [bne_iff_ne]

/-- A set with one file, which is the caller's own. -/
theorem not_agrees_own :
    ¬∀ (q : Search) (files : Files) (caller : Client) (sExclude : List FileSet) (t : FileSet),
      t.Nonempty → 1 ≤ q.max_matches → Agrees q files caller sExclude t := by
  intro h
  have hagrees := h anyFile ownFiles ⟨1, 1, 4⟩ [] {1} (Finset.singleton_nonempty 1) (by decide)
  rw [agrees_iff_take, candidates_one] at hagrees
  have hpicked : picked anyFile ownFiles ⟨1, 1, 4⟩ false [] 1 = true := by decide
  have hfirst : 1 ∈ ((Finset.sort {1} (· ≤ ·)).filter
      (picked anyFile ownFiles ⟨1, 1, 4⟩ false [])).take (limit anyFile) := by
    rw [Finset.sort_singleton, List.filter_cons_of_pos hpicked]
    exact List.mem_cons_self
  exact Bool.noConfusion (hagrees 1 hfirst)

end Napd.Search
