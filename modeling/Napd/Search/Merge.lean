import Napd.Search.Model

/-!
What the merge of a search finds.

* `lower_bound_some`, `next_some`, `lower_bound_none`, `next_none`: looking into a set.
* `mem_scan`, `scan_ne_nil`: the path with one set.
* `Round`, `round_mergeStep`: what one round of the merge does.
* `Merging`, `merging_run`: the invariant of the merge: the current value is in the sets that
  were looked at last, as many of them as `nmatches` says.
* `exists_run_ne_nil`: a file that all sets have is not passed by, so that something is found.
-/

namespace Napd.Search

/-! ### Looking into a set -/

lemma find?_sort {s : FileSet} {p : ℕ → Bool} {k : ℕ}
    (h : (s.sort (· ≤ ·)).find? p = some k) : k ∈ s ∧ p k = true ∧ ∀ x ∈ s, p x = true → k ≤ x := by
  have hsorted : (s.sort (· ≤ ·)).Pairwise (· ≤ ·) := s.pairwise_sort (· ≤ ·)
  obtain ⟨hp, as, bs, hl, has⟩ := List.find?_eq_some_iff_append.mp h
  refine ⟨(Finset.mem_sort (· ≤ ·)).mp (List.mem_of_find?_eq_some h), hp, ?_⟩
  intro x hx hpx
  have hx' : x ∈ as ++ k :: bs := hl ▸ (Finset.mem_sort (· ≤ ·)).mpr hx
  rw [hl] at hsorted
  rcases List.mem_append.mp hx' with hx' | hx'
  · have hno := has x hx'
    rw [hpx] at hno
    cases hno
  · rcases List.mem_cons.mp hx' with rfl | hx'
    · exact le_rfl
    · exact (List.pairwise_cons.mp (List.pairwise_append.mp hsorted).2.1).1 x hx'

lemma not_of_find?_sort {s : FileSet} {p : ℕ → Bool} (h : (s.sort (· ≤ ·)).find? p = none) :
    ∀ x ∈ s, ¬p x = true :=
  fun x hx => List.find?_eq_none.mp h x ((Finset.mem_sort (· ≤ ·)).mpr hx)

lemma lower_bound_some {s : FileSet} {c k : ℕ} (h : lower_bound s c = some k) :
    k ∈ s ∧ c ≤ k ∧ ∀ x ∈ s, c ≤ x → k ≤ x := by
  obtain ⟨hk, hle, hleast⟩ := find?_sort h
  exact ⟨hk, of_decide_eq_true hle, fun x hx hcx => hleast x hx (decide_eq_true hcx)⟩

lemma lower_bound_none {s : FileSet} {c : ℕ} (h : lower_bound s c = none) : ∀ x ∈ s, x < c :=
  fun x hx => Nat.lt_of_not_le fun hle => not_of_find?_sort h x hx (decide_eq_true hle)

lemma next_some {s : FileSet} {c k : ℕ} (h : next s c = some k) :
    k ∈ s ∧ c < k ∧ ∀ x ∈ s, c < x → k ≤ x := by
  obtain ⟨hk, hlt, hleast⟩ := find?_sort h
  exact ⟨hk, of_decide_eq_true hlt, fun x hx hcx => hleast x hx (decide_eq_true hcx)⟩

lemma next_none {s : FileSet} {c : ℕ} (h : next s c = none) : ∀ x ∈ s, x ≤ c :=
  fun x hx => Nat.le_of_not_lt fun hlt => not_of_find?_sort h x hx (decide_eq_true hlt)

section Merge

variable (q : Search) (files : Files) (caller : Client)

/-! ### The path with one set -/

lemma mem_scan {sExclude : List FileSet} {m : Found} {fs : List ℕ} {f : ℕ}
    (h : f ∈ (scan q files caller sExclude m fs).master_list) :
    f ∈ m.master_list ∨ f ∈ fs ∧ picked q files caller false sExclude f = true := by
  induction fs generalizing m with
  | nil => exact Or.inl h
  | cons g fs ih =>
      rw [scan] at h
      by_cases hg : picked q files caller false sExclude g = true
      · rw [if_pos hg] at h
        have hpush : f ∈ (m.push q g).master_list
            ∨ f ∈ fs ∧ picked q files caller false sExclude f = true := by
          dsimp only at h
          split_ifs at h with henough
          · exact Or.inl h
          · exact ih h
        rcases hpush with hm | ⟨hfs, hf⟩
        · rcases List.mem_cons.mp hm with rfl | hm
          · exact Or.inr ⟨List.mem_cons_self, hg⟩
          · exact Or.inl hm
        · exact Or.inr ⟨List.mem_cons_of_mem g hfs, hf⟩
      · rw [if_neg hg] at h
        exact (ih h).imp_right fun hf => ⟨List.mem_cons_of_mem g hf.1, hf.2⟩

/-- What was found stays. -/
lemma subset_scan {sExclude : List FileSet} (m : Found) (fs : List ℕ) :
    m.master_list ⊆ (scan q files caller sExclude m fs).master_list := by
  induction fs generalizing m with
  | nil => exact List.Subset.refl _
  | cons g fs ih =>
      rw [scan]
      dsimp only
      split_ifs
      · exact List.subset_cons_self g _
      · exact List.Subset.trans (List.subset_cons_self g _) (ih (m.push q g))
      · exact ih m

/-- With a file that is picked, one is found. -/
lemma scan_ne_nil {sExclude : List FileSet} {fs : List ℕ} {f : ℕ} (hf : f ∈ fs)
    (hp : picked q files caller false sExclude f = true) (m : Found) :
    (scan q files caller sExclude m fs).master_list ≠ [] := by
  induction fs generalizing m with
  | nil => exact absurd hf List.not_mem_nil
  | cons g fs ih =>
      rw [scan]
      by_cases hg : picked q files caller false sExclude g = true
      · rw [if_pos hg]
        dsimp only
        split_ifs
        · exact List.cons_ne_nil _ _
        · exact List.ne_nil_of_mem (subset_scan q files caller _ fs List.mem_cons_self)
      · rw [if_neg hg]
        rcases List.mem_cons.mp hf with rfl | hf
        · exact absurd hp hg
        · exact ih hf m

/-! ### One round of the merge -/

variable (s sExclude : List FileSet)

/-- What a round of the merge finds, and what it makes of it. -/
inductive Round (m : Merge) : Merge → Prop where
  | last (h : ∀ x ∈ s.getD m.i ∅, x < m.curval) : Round m { m with left := true }
  | greater (k : ℕ) (hk : k ∈ s.getD m.i ∅) (hlt : m.curval < k)
      (hleast : ∀ x ∈ s.getD m.i ∅, m.curval ≤ x → k ≤ x) :
      Round m ⟨advance s.length m.i, k, { m.found with nmatches := 1 }, false⟩
  | equal (hk : m.curval ∈ s.getD m.i ∅) (hne : m.count.found.nmatches.toNat ≠ s.length) :
      Round m { m.count with i := advance s.length m.i }
  | all (hk : m.curval ∈ s.getD m.i ∅) (heq : m.count.found.nmatches.toNat = s.length) :
      Round m (hit q files caller sExclude s.length (s.getD m.i ∅) m.count)

lemma round_mergeStep {m : Merge} (h : m.left = false) :
    Round q files caller s sExclude m (mergeStep q files caller s sExclude m) := by
  rw [mergeStep, if_neg (by rw [h]; exact Bool.false_ne_true)]
  dsimp only
  cases hlb : lower_bound (s.getD m.i ∅) m.curval with
  | none => exact .last (lower_bound_none hlb)
  | some k =>
      obtain ⟨hk, hle, hleast⟩ := lower_bound_some hlb
      dsimp only
      by_cases hkc : k = m.curval
      · subst hkc
        rw [if_neg (not_not.mpr rfl)]
        split_ifs with hall
        · exact .all hk hall
        · exact .equal hk hall
      · rw [if_pos hkc]
        exact .greater k hk (lt_of_le_of_ne hle (Ne.symm hkc)) hleast

lemma follow_master_list (set : FileSet) (lists : ℕ) (m : Merge) (found : Found) :
    (follow lists set m found).found.master_list = found.master_list := by
  rw [follow]
  cases next set m.curval <;> rfl

lemma follow_of_left {set : FileSet} {lists : ℕ} {m : Merge} {found : Found}
    (h : (follow lists set m found).left = false) :
    ∃ k ∈ set, m.curval < k ∧ (∀ x ∈ set, m.curval < x → k ≤ x)
      ∧ follow lists set m found = ⟨advance lists m.i, k, { found with nmatches := 1 }, false⟩ := by
  rw [follow] at h ⊢
  cases hn : next set m.curval with
  | none =>
      rw [hn] at h
      cases h
  | some k =>
      obtain ⟨hk, hlt, hleast⟩ := next_some hn
      exact ⟨k, hk, hlt, hleast, rfl⟩

/-- A run of matches in all sets: what it finds. -/
lemma hit_master_list (set : FileSet) (lists : ℕ) (m : Merge) :
    (hit q files caller sExclude lists set m).found.master_list
      = if picked q files caller true sExclude m.curval then m.curval :: m.found.master_list
        else m.found.master_list := by
  rw [hit]
  cases hp : picked q files caller true sExclude m.curval with
  | false => exact follow_master_list set lists m m.found
  | true =>
      simp only [Bool.true_and, if_true]
      split_ifs
      · rfl
      · exact follow_master_list set lists m (m.found.push q m.curval)

/-- A run of matches in all sets: what follows it. -/
lemma hit_of_left {set : FileSet} {lists : ℕ} {m : Merge}
    (h : (hit q files caller sExclude lists set m).left = false) :
    ∃ k ∈ set, m.curval < k ∧ (∀ x ∈ set, m.curval < x → k ≤ x)
      ∧ ∃ found, found.nmatches = 1
        ∧ hit q files caller sExclude lists set m = ⟨advance lists m.i, k, found, false⟩ := by
  rw [hit] at h ⊢
  generalize (if picked q files caller true sExclude m.curval then m.found.push q m.curval
    else m.found) = found at h ⊢
  by_cases hstop : (picked q files caller true sExclude m.curval && found.enough q) = true
  · rw [if_pos hstop] at h
    cases h
  · rw [if_neg hstop] at h ⊢
    obtain ⟨k, hk, hlt, hleast, heq⟩ := follow_of_left h
    exact ⟨k, hk, hlt, hleast, _, rfl, heq⟩

/-! ### The invariant of the merge -/

/-- The `n` sets in front of the iterator, around the end of the list. -/
def InWindow (lists i n k : ℕ) : Prop := k < i ∧ i ≤ k + n ∨ i ≤ k ∧ i + lists ≤ k + n

lemma advance_lt {lists i : ℕ} (h : i < lists) : advance lists i < lists := by
  rw [advance]
  split_ifs
  · omega
  · omega

lemma inWindow_advance {lists i n k : ℕ} (hk : k < lists)
    (h : InWindow lists (advance lists i) (n + 1) k) : k = i ∨ InWindow lists i n k := by
  rw [InWindow, advance] at h
  rw [InWindow]
  split_ifs at h
  · omega
  · omega

lemma inWindow_zero {lists i k : ℕ} (hk : k < lists) : ¬ InWindow lists i 0 k := by
  rw [InWindow]
  omega

/-- What was found is in all sets; and the current value is in the sets that were looked at
last. -/
structure Merging (m : Merge) : Prop where
  master : ∀ f ∈ m.found.master_list,
    (∀ t ∈ s, f ∈ t) ∧ picked q files caller true sExclude f = true
  small : m.left = false → m.i < s.length ∧ m.found.nmatches.toNat < s.length
  window : m.left = false → ∀ k < s.length,
    InWindow s.length m.i m.found.nmatches.toNat k → m.curval ∈ s.getD k ∅

/-- A value of the set at the iterator, after which the iterator moves on. -/
lemma window_one {i v : ℕ} (hv : v ∈ s.getD i ∅) :
    ∀ k < s.length, InWindow s.length (advance s.length i) 1 k → v ∈ s.getD k ∅ := by
  intro k hk hw
  rcases inWindow_advance hk hw with rfl | hw
  · exact hv
  · exact absurd hw (inWindow_zero hk)

@[simp] lemma count_curval (m : Merge) : m.count.curval = m.curval := rfl

/-- With fewer sets than a byte counts, the count does not wrap. -/
lemma toNat_count {m : Merge} {lists : ℕ} (hn : m.found.nmatches.toNat < lists)
    (hlists : lists ≤ 255) : m.count.found.nmatches.toNat = m.found.nmatches.toNat + 1 := by
  have h1 : UInt8.toNat 1 = 1 := rfl
  rw [Merge.count, UInt8.toNat_add, h1]
  omega

variable {q files caller s sExclude}

/-- A run of matches in all sets is at a value of all sets. -/
lemma mem_all_of_window {m : Merge} (hk : m.curval ∈ s.getD m.i ∅) (hi : m.i < s.length)
    (hn : m.found.nmatches.toNat + 1 = s.length)
    (hw : ∀ k < s.length, InWindow s.length m.i m.found.nmatches.toNat k →
      m.curval ∈ s.getD k ∅) : ∀ t ∈ s, m.curval ∈ t := by
  intro t ht
  obtain ⟨k, hks, rfl⟩ := List.mem_iff_getElem.mp ht
  have hget : s.getD k ∅ = s[k] := by
    rw [List.getD_eq_getElem?_getD, List.getElem?_eq_getElem hks, Option.getD_some]
  rw [← hget]
  by_cases hki : k = m.i
  · rw [hki]
    exact hk
  · refine hw k hks ?_
    rw [InWindow]
    omega

/-- What is found of a run of matches in all sets, and what follows it. -/
lemma merging_hit {m : Merge} (hlists : 2 ≤ s.length) (hi : m.i < s.length)
    (hmaster : ∀ f ∈ m.found.master_list,
      (∀ t ∈ s, f ∈ t) ∧ picked q files caller true sExclude f = true)
    (hall : ∀ t ∈ s, m.curval ∈ t) :
    Merging q files caller s sExclude
      (hit q files caller sExclude s.length (s.getD m.i ∅) m) where
  master := by
    intro f hf
    rw [hit_master_list] at hf
    split_ifs at hf with hp
    · rcases List.mem_cons.mp hf with rfl | hf
      · exact ⟨hall, hp⟩
      · exact hmaster f hf
    · exact hmaster f hf
  small := by
    intro hl
    obtain ⟨k, -, -, -, found, hfound, hhit⟩ := hit_of_left q files caller sExclude hl
    rw [hhit]
    dsimp only
    rw [hfound]
    exact ⟨advance_lt hi, hlists⟩
  window := by
    intro hl
    obtain ⟨k, hks, -, -, found, hfound, hhit⟩ := hit_of_left q files caller sExclude hl
    rw [hhit]
    dsimp only
    rw [hfound]
    exact window_one s hks

lemma merging_round {m m' : Merge} (hlists : 2 ≤ s.length) (hle : s.length ≤ 255)
    (hm : Merging q files caller s sExclude m) (hl : m.left = false)
    (h : Round q files caller s sExclude m m') : Merging q files caller s sExclude m' := by
  obtain ⟨hi, hn⟩ := hm.small hl
  have hadd := toNat_count hn hle
  cases h with
  | last h => exact ⟨hm.master, fun hc => (Bool.noConfusion hc), fun hc => (Bool.noConfusion hc)⟩
  | greater k hk hlt hleast =>
      exact ⟨hm.master, fun _ => ⟨advance_lt hi, hlists⟩, fun _ => window_one s hk⟩
  | equal hk hne =>
      refine ⟨hm.master, fun _ => ⟨advance_lt hi, ?_⟩, fun _ k hks hw => ?_⟩
      · dsimp only
        omega
      · dsimp only at hw ⊢
        rw [hadd] at hw
        rcases inWindow_advance hks hw with rfl | hw
        · exact hk
        · exact hm.window hl k hks hw
  | all hk heq =>
      have hall := mem_all_of_window hk hi (hadd.symm.trans heq) (hm.window hl)
      exact merging_hit (m := m.count) hlists hi hm.master hall

lemma mergeStep_of_left {m : Merge} (h : m.left = true) :
    mergeStep q files caller s sExclude m = m := by
  rw [mergeStep, if_pos h]

/-- What every round keeps that is not behind the end of the merge, all rounds keep. -/
lemma run_keeps {I : Merge → Prop} (hstart : I Merge.start)
    (hround : ∀ m m', I m → m.left = false → Round q files caller s sExclude m m' → I m') (n : ℕ) :
    I ((mergeStep q files caller s sExclude)^[n] Merge.start) := by
  induction n with
  | zero => exact hstart
  | succ n ih =>
      rw [Function.iterate_succ_apply']
      cases hl : ((mergeStep q files caller s sExclude)^[n] Merge.start).left with
      | true =>
          rw [mergeStep_of_left hl]
          exact ih
      | false => exact hround _ _ ih hl (round_mergeStep q files caller s sExclude hl)

lemma merging_start (hlists : 2 ≤ s.length) : Merging q files caller s sExclude Merge.start where
  master := by
    intro f hf
    cases hf
  small := fun _ => ⟨by show 0 < s.length; omega, by show 0 < s.length; omega⟩
  window := fun _ _ hk hw => absurd hw (inWindow_zero hk)

/-- **The invariant of the merge.** -/
lemma merging_run (hlists : 2 ≤ s.length) (hle : s.length ≤ 255) (n : ℕ) :
    Merging q files caller s sExclude ((mergeStep q files caller s sExclude)^[n] Merge.start) :=
  run_keeps (merging_start hlists) (fun _ _ hm hl h => merging_round hlists hle hm hl h) n

/-- With more sets than a byte counts, no run of matches is one in all sets. -/
lemma master_list_of_many (hmany : 256 ≤ s.length) (n : ℕ) :
    ((mergeStep q files caller s sExclude)^[n] Merge.start).found.master_list = [] := by
  refine run_keeps (I := fun m => m.found.master_list = []) rfl ?_ n
  intro m m' hm _ h
  cases h with
  | last h => exact hm
  | greater k hk hlt hleast => exact hm
  | equal hk hne => exact hm
  | all hk heq =>
      have hbyte : m.count.found.nmatches.toNat < 2 ^ 8 := m.count.found.nmatches.toNat_lt
      omega

/-! ### Something is found -/

/-- How far the merge is from a file: in files, and in matches. -/
def distance (lists g : ℕ) (m : Merge) : ℕ :=
  (g - m.curval) * (lists + 1) + (lists - m.found.nmatches.toNat)

lemma distance_lt_of_curval {lists g k : ℕ} {m m' : Merge} (hlt : m.curval < k) (hle : k ≤ g)
    (hk : m'.curval = k) : distance lists g m' < distance lists g m := by
  have hmul : (g - k + 1) * (lists + 1) ≤ (g - m.curval) * (lists + 1) :=
    Nat.mul_le_mul_right _ (by omega)
  rw [distance, distance, hk]
  rw [Nat.add_mul] at hmul
  omega

lemma getD_mem {i : ℕ} (hi : i < s.length) : s.getD i ∅ ∈ s := by
  rw [List.getD_eq_getElem?_getD, List.getElem?_eq_getElem hi, Option.getD_some]
  exact List.getElem_mem hi

lemma mem_getD {g i : ℕ} (hi : i < s.length) (hg : ∀ t ∈ s, g ∈ t) : g ∈ s.getD i ∅ :=
  hg _ (getD_mem hi)

/-- A run of matches at a file that is not picked, with another file behind it. -/
lemma hit_left_of_mem {set : FileSet} {lists g : ℕ} {m : Merge}
    (hp : picked q files caller true sExclude m.curval = false) (hg : g ∈ set)
    (hlt : m.curval < g) : (hit q files caller sExclude lists set m).left = false := by
  rw [hit, hp]
  simp only [Bool.false_and, Bool.false_eq_true, if_false, follow]
  cases hn : next set m.curval with
  | none => exact absurd (next_none hn g hg) (Nat.not_le_of_lt hlt)
  | some k => rfl

/-- **One round** in front of a file that all sets have and that is picked: something is found,
or the merge is closer to the file and not behind it. -/
lemma round_closer (hle : s.length ≤ 255) {g : ℕ} (hg : ∀ t ∈ s, g ∈ t)
    (hpick : picked q files caller true sExclude g = true) {m m' : Merge}
    (hm : Merging q files caller s sExclude m) (hl : m.left = false) (hcur : m.curval ≤ g)
    (h : Round q files caller s sExclude m m') :
    m'.found.master_list ≠ [] ∨ m'.left = false ∧ m'.curval ≤ g
      ∧ distance s.length g m' < distance s.length g m := by
  obtain ⟨hi, hn⟩ := hm.small hl
  have hgi := mem_getD hi hg
  cases h with
  | last h =>
      have hlt := h g hgi
      omega
  | greater k hk hlt hleast =>
      have hkg := hleast g hgi hcur
      exact Or.inr ⟨rfl, hkg, distance_lt_of_curval hlt hkg rfl⟩
  | equal hk hne =>
      refine Or.inr ⟨hl, hcur, ?_⟩
      rw [distance, distance]
      dsimp only
      rw [toNat_count hn hle, count_curval]
      omega
  | all hk heq =>
      cases hp : picked q files caller true sExclude m.curval with
      | true =>
          refine Or.inl ?_
          rw [hit_master_list, count_curval, if_pos hp]
          exact List.cons_ne_nil _ _
      | false =>
          have hne : m.curval ≠ g := by
            rintro rfl
            rw [hpick] at hp
            cases hp
          have hlt := lt_of_le_of_ne hcur hne
          obtain ⟨k, -, hltk, hleast, found, -, hhit⟩ :=
            hit_of_left q files caller sExclude (hit_left_of_mem (m := m.count) hp hgi hlt)
          rw [hhit]
          have hkg := hleast g hgi hlt
          exact Or.inr ⟨rfl, hkg, distance_lt_of_curval hltk hkg rfl⟩

/-- A file that all sets have and that is picked is not passed by. -/
lemma exists_run_ne_nil (hlists : 2 ≤ s.length) (hle : s.length ≤ 255) {g : ℕ}
    (hg : ∀ t ∈ s, g ∈ t) (hpick : picked q files caller true sExclude g = true) (d : ℕ)
    {m : Merge} (hm : Merging q files caller s sExclude m) (hl : m.left = false)
    (hcur : m.curval ≤ g) (hd : distance s.length g m < d) :
    ∃ n, ((mergeStep q files caller s sExclude)^[n] m).found.master_list ≠ [] := by
  induction d generalizing m with
  | zero => omega
  | succ d ih =>
      have hround := round_mergeStep q files caller s sExclude hl
      rcases round_closer hle hg hpick hm hl hcur hround with hfound | ⟨hl', hcur', hlt⟩
      · exact ⟨1, hfound⟩
      · obtain ⟨n, hn⟩ := ih (merging_round hlists hle hm hl hround) hl' hcur' (by omega)
        exact ⟨n + 1, hn⟩

end Merge

end Napd.Search
