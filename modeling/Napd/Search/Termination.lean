import Napd.Search.Intersection

/-!
When the merge of a search returns.

* `Returns`: there is a set, and after some number of rounds `jmerge` has returned.
* `exists_left_or_greater`, `exists_left_of_disjoint`: where no file is in all sets, every value
  is passed by after one turn around the sets at most.
* `not_returns_of_many`: with more sets than a byte counts, a file of all sets is never passed by.
* `returns_iff`: **the merge returns if and only if there is a set, and at most 255 of them or no
  file in all of them.**
-/

namespace Napd.Search

variable {q : Search} {files : Files} {caller : Client} {s sExclude : List FileSet}

variable (q files caller s sExclude) in
/-- `jmerge` returns after finitely many rounds. Without a set, its first round would take
`*s.end()`. -/
def Returns : Prop := s ≠ [] ∧ ∃ n, (jmerge q files caller s sExclude n).2 = true

/-! ### Sets without a common file -/

/-- The sets from one to another, around the end of the list. -/
def ahead (lists i j : ℕ) : ℕ := if i ≤ j then j - i else lists - i + j

lemma ahead_advance {lists i j : ℕ} (hi : i < lists) (hj : j < lists) (hij : i ≠ j) :
    ahead lists i j = ahead lists (advance lists i) j + 1 := by
  rw [ahead, ahead, advance]
  split_ifs <;> omega

/-- One round leaves the loop, moves on to a greater value of one of the sets, or finds the
current value and moves on to the next set. -/
lemma round_cases {m m' : Merge} (hi : m.i < s.length) (hl : m.left = false)
    (h : Round q files caller s sExclude m m') :
    m'.left = true ∨ m'.left = false ∧ m'.i < s.length ∧
      (m.curval < m'.curval ∧ (∃ t ∈ s, m'.curval ∈ t) ∨
        m'.curval = m.curval ∧ m.curval ∈ s.getD m.i ∅ ∧ m'.i = advance s.length m.i) := by
  cases h with
  | last h => exact Or.inl rfl
  | greater k hk hlt hleast =>
      exact Or.inr ⟨rfl, advance_lt hi, Or.inl ⟨hlt, _, getD_mem hi, hk⟩⟩
  | equal hk hne => exact Or.inr ⟨hl, advance_lt hi, Or.inr ⟨rfl, hk, rfl⟩⟩
  | all hk heq =>
      cases hleft : (hit q files caller sExclude s.length (s.getD m.i ∅) m.count).left with
      | true => exact Or.inl rfl
      | false =>
          obtain ⟨k, hks, hlt, -, found, -, hhit⟩ := hit_of_left q files caller sExclude hleft
          rw [hhit]
          exact Or.inr ⟨rfl, advance_lt hi, Or.inl ⟨hlt, _, getD_mem hi, hks⟩⟩

variable (q files caller sExclude) in
/-- A set that does not have the current value is reached, and the value is passed by. -/
lemma exists_left_or_greater {m : Merge} (hi : m.i < s.length) (hl : m.left = false) {j : ℕ}
    (hj : j < s.length) (hnot : m.curval ∉ s.getD j ∅) :
    ∃ n m', (mergeStep q files caller s sExclude)^[n] m = m' ∧ (m'.left = true ∨
      m'.left = false ∧ m'.i < s.length ∧ m.curval < m'.curval ∧ ∃ t ∈ s, m'.curval ∈ t) := by
  generalize hd : ahead s.length m.i j = d
  induction d generalizing m with
  | zero =>
      have hij : m.i = j := by
        by_contra hne
        rw [ahead_advance hi hj hne] at hd
        omega
      refine ⟨1, _, rfl, ?_⟩
      rcases round_cases hi hl (round_mergeStep q files caller s sExclude hl) with
        hleft | ⟨hleft, hi', ⟨hlt, ht⟩ | ⟨-, hmem, -⟩⟩
      · exact Or.inl hleft
      · exact Or.inr ⟨hleft, hi', hlt, ht⟩
      · rw [hij] at hmem
        exact absurd hmem hnot
  | succ d ih =>
      rcases round_cases hi hl (round_mergeStep q files caller s sExclude hl) with
        hleft | ⟨hleft, hi', ⟨hlt, ht⟩ | ⟨hcur, hmem, hnext⟩⟩
      · exact ⟨1, _, rfl, Or.inl hleft⟩
      · exact ⟨1, _, rfl, Or.inr ⟨hleft, hi', hlt, ht⟩⟩
      · have hij : m.i ≠ j := fun e => hnot (e ▸ hmem)
        rw [ahead_advance hi hj hij] at hd
        obtain ⟨n, m', hrun, h⟩ := ih hi' hleft (hcur.symm ▸ hnot) (by rw [hnext]; omega)
        rw [hcur] at h
        exact ⟨n + 1, m', hrun, h⟩

variable (q files caller sExclude) in
/-- Where no file is in all sets, the loop is left. -/
lemma exists_left_of_disjoint (hnone : ∀ f, ∃ t ∈ s, f ∉ t) {b : ℕ}
    (hb : ∀ t ∈ s, ∀ f ∈ t, f ≤ b) (d : ℕ) {m : Merge} (hi : m.i < s.length)
    (hl : m.left = false) (hd : b + 1 - m.curval < d) :
    ∃ n, ((mergeStep q files caller s sExclude)^[n] m).left = true := by
  induction d generalizing m with
  | zero => omega
  | succ d ih =>
      obtain ⟨t, ht, hnot⟩ := hnone m.curval
      obtain ⟨j, hj, rfl⟩ := List.mem_iff_getElem.mp ht
      have hget : s.getD j ∅ = s[j] := by
        rw [List.getD_eq_getElem?_getD, List.getElem?_eq_getElem hj, Option.getD_some]
      obtain ⟨n, m', hrun, hleft | ⟨hleft, hi', hlt, u, hu, hmem⟩⟩ :=
        exists_left_or_greater q files caller sExclude hi hl hj (hget.symm ▸ hnot)
      · exact ⟨n, by rw [hrun, hleft]⟩
      · have hle := hb u hu m'.curval hmem
        obtain ⟨k, hk⟩ := ih hi' hleft (by omega)
        refine ⟨k + n, ?_⟩
        rw [Function.iterate_add_apply, hrun, hk]

/-! ### More sets than a byte counts -/

/-- A file that all sets have is not passed by. -/
lemma not_left_of_many (hmany : 256 ≤ s.length) {f : ℕ} (hf : ∀ t ∈ s, f ∈ t) (n : ℕ) :
    ((mergeStep q files caller s sExclude)^[n] Merge.start).left = false := by
  have hkeeps : ∀ m m', (m.left = false ∧ m.i < s.length ∧ m.curval ≤ f) → m.left = false →
      Round q files caller s sExclude m m' →
      m'.left = false ∧ m'.i < s.length ∧ m'.curval ≤ f := by
    rintro m m' ⟨-, hi, hcur⟩ hl h
    have hfi := mem_getD hi hf
    cases h with
    | last h => exact absurd (h f hfi) (Nat.not_lt_of_le hcur)
    | greater k hk hlt hleast => exact ⟨rfl, advance_lt hi, hleast f hfi hcur⟩
    | equal hk hne => exact ⟨hl, advance_lt hi, hcur⟩
    | all hk heq =>
        have hbyte : m.count.found.nmatches.toNat < 2 ^ 8 := m.count.found.nmatches.toNat_lt
        omega
  exact (run_keeps (I := fun m => m.left = false ∧ m.i < s.length ∧ m.curval ≤ f)
    ⟨rfl, by show 0 < s.length; omega, Nat.zero_le f⟩ hkeeps n).1

lemma not_returns_of_many (hmany : 256 ≤ s.length) {f : ℕ} (hf : ∀ t ∈ s, f ∈ t) :
    ¬Returns q files caller s sExclude := by
  rintro ⟨-, n, hn⟩
  have hone : ¬ s.length = 1 := by omega
  rw [jmerge, if_neg hone] at hn
  exact Bool.noConfusion ((not_left_of_many hmany hf n).symm.trans hn)

/-! ### Termination -/

lemma returns_of_disjoint (hlists : 2 ≤ s.length) (hnone : ¬∃ f, ∀ t ∈ s, f ∈ t) :
    Returns q files caller s sExclude := by
  push Not at hnone
  obtain ⟨b, hb⟩ := exists_bound s
  obtain ⟨n, hn⟩ := exists_left_of_disjoint q files caller sExclude hnone hb (b + 2)
    (m := Merge.start) (by show 0 < s.length; omega) rfl (by show b + 1 - 0 < b + 2; omega)
  refine ⟨List.ne_nil_of_length_pos (by omega), n, ?_⟩
  rw [jmerge, if_neg (by omega)]
  exact hn

/-- With at most 255 sets, and at least one, `jmerge` returns. -/
lemma returns_of_le (hs : s ≠ []) (hle : s.length ≤ 255) : Returns q files caller s sExclude := by
  refine ⟨hs, ?_⟩
  by_cases hone : s.length = 1
  · exact ⟨0, by rw [jmerge, if_pos hone]⟩
  · have hpos := List.length_pos_iff.mpr hs
    exact exists_jmerge_returned q files caller s sExclude (by omega) hle

/-- **The merge returns if and only if there is a set, and at most 255 of them or no file in all
of them**, with any filters, any excluded sets and any limit. -/
theorem returns_iff (q : Search) (files : Files) (caller : Client) (s sExclude : List FileSet) :
    Returns q files caller s sExclude ↔
      s ≠ [] ∧ (s.length ≤ 255 ∨ ¬∃ f, ∀ t ∈ s, f ∈ t) := by
  constructor
  · intro h
    refine ⟨h.1, ?_⟩
    rw [or_iff_not_imp_left, not_le]
    rintro hmany ⟨f, hf⟩
    exact not_returns_of_many hmany hf h
  · rintro ⟨hs, h⟩
    rcases Nat.lt_or_ge 255 s.length with hmany | hle
    · exact returns_of_disjoint (by omega) (h.resolve_left (by omega))
    · exact returns_of_le hs hle

/-- 256 sets that all have the same file. -/
theorem not_returns_many :
    ¬∀ (q : Search) (files : Files) (caller : Client) (s sExclude : List FileSet),
      s ≠ [] → (∀ t ∈ s, t.Nonempty) → Returns q files caller s sExclude := by
  intro h
  have hsame : ∀ t ∈ List.replicate 256 ({1} : FileSet), t = {1} :=
    fun t ht => List.eq_of_mem_replicate ht
  have hreturns := h anyFile ownFiles ⟨2, 0, 4⟩ (List.replicate 256 {1}) []
    (List.ne_nil_of_length_pos (by rw [List.length_replicate]; omega))
    (fun t ht => ⟨1, by rw [hsame t ht]; exact Finset.mem_singleton_self 1⟩)
  refine not_returns_of_many (f := 1) ?_ (fun t ht => ?_) hreturns
  · rw [List.length_replicate]
  · rw [hsame t ht]
    exact Finset.mem_singleton_self 1

end Napd.Search
