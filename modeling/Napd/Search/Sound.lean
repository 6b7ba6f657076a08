import Napd.Search.Merge

/-!
When a search finds only files that its terms ask for.

* `mem_jmerge`, `exists_mem_jmerge`: what `jmerge` finds, and that it finds something.
* `entry`, `Sound`: the files of a word in the index; files that every term allows.
* `lookUp_eq`: the sets that `Go` looks up; a term without an entry has none.
* `Reaches`: the terms that have an entry share a file that passes the filters.
* `go_sound_iff`: the search is sound if and only if every term has an entry, or nothing is
  found.
-/

namespace Napd.Search

open TernaryTree (Key Implements ImplementsBy)

/-! ### What `jmerge` finds -/

section Jmerge

variable {q : Search} {files : Files} {caller : Client} {s sExclude : List FileSet}

/-- What is found is in all sets, of which there are not too many, and is picked. -/
lemma mem_jmerge (hs : s ≠ []) {n f : ℕ}
    (h : f ∈ (jmerge q files caller s sExclude n).1.master_list) :
    s.length ≤ 255 ∧ (∀ t ∈ s, f ∈ t)
      ∧ picked q files caller (decide (s.length ≠ 1)) sExclude f = true := by
  rw [jmerge] at h
  by_cases hone : s.length = 1
  · rw [if_pos hone] at h
    obtain ⟨t, rfl⟩ := List.length_eq_one_iff.mp hone
    rcases mem_scan q files caller h with hnil | ⟨hf, hp⟩
    · exact absurd hnil List.not_mem_nil
    · refine ⟨by omega, fun u hu => ?_, hp⟩
      rw [List.mem_singleton.mp hu]
      exact (Finset.mem_sort (· ≤ ·)).mp hf
  · have hlists : 2 ≤ s.length := by
      have hpos := List.length_pos_iff.mpr hs
      omega
    rw [if_neg hone] at h
    rw [decide_eq_true hone]
    rcases Nat.lt_or_ge 255 s.length with hmany | hle
    · dsimp only at h
      rw [master_list_of_many hmany n] at h
      exact absurd h List.not_mem_nil
    · exact ⟨hle, (merging_run hlists hle n).master f h⟩

/-- With a file that is in all sets and is picked, something is found. -/
lemma exists_mem_jmerge (hs : s ≠ []) (hle : s.length ≤ 255) {f : ℕ} (hf : ∀ t ∈ s, f ∈ t)
    (hp : picked q files caller (decide (s.length ≠ 1)) sExclude f = true) :
    ∃ n, (jmerge q files caller s sExclude n).1.master_list ≠ [] := by
  by_cases hone : s.length = 1
  · obtain ⟨t, rfl⟩ := List.length_eq_one_iff.mp hone
    refine ⟨0, ?_⟩
    rw [jmerge, if_pos hone]
    exact scan_ne_nil q files caller
      ((Finset.mem_sort (· ≤ ·)).mpr (hf t List.mem_cons_self)) hp _
  · have hlists : 2 ≤ s.length := by
      have hpos := List.length_pos_iff.mpr hs
      omega
    rw [decide_eq_true hone] at hp
    obtain ⟨n, hn⟩ := exists_run_ne_nil hlists hle hf hp _ (merging_start hlists) rfl
      (Nat.zero_le f) (Nat.lt_succ_self _)
    refine ⟨n, ?_⟩
    rw [jmerge, if_neg hone]
    exact hn

end Jmerge

/-! ### The sets of the terms -/

/-- The entry of a word in the index: no files, if there is none. -/
def entry (tree : FileIndex) (word : Key) : FileSet := ((tree.find word).join).getD ∅

/-- The terms that ask for an entry that is not empty. -/
def present (q : Search) (tree : FileIndex) : List Key :=
  q.terms.filter fun word => isRequired word && (entry tree word).card != 0

/-- Every file is in the entry of every term, and in the entry of no term with a `-`. -/
def Sound (q : Search) (tree : FileIndex) (master_list : List ℕ) : Prop :=
  ∀ f ∈ master_list, ∀ word ∈ q.terms,
    (isRequired word = true → f ∈ entry tree word)
      ∧ (isRequired word = false → f ∉ entry tree (behind word))

/-- The entries of the terms that have one, at most 255, share a file that passes the filters
and is not excluded. -/
def Reaches (q : Search) (files : Files) (caller : Client) (tree : FileIndex) : Prop :=
  present q tree ≠ [] ∧ (present q tree).length ≤ 255
    ∧ ∃ f, (∀ word ∈ present q tree, f ∈ entry tree word)
      ∧ passes q files caller (decide ((present q tree).length ≠ 1)) f = true
      ∧ ∀ word ∈ q.terms, isRequired word = false → f ∉ entry tree (behind word)

/-- A lookup does not fault, and it finds no empty set. -/
def Finds (tree : FileIndex) : Prop :=
  ∀ word, tree.find word
    = some (if (entry tree word).card = 0 then none else some (entry tree word))

lemma entry_of_implements {tree : FileIndex} {m : TernaryTree.Multimap ℕ}
    (h : Implements tree m) (word : Key) : entry tree word = m word := by
  obtain ⟨T, hT⟩ := h
  rw [entry, hT.find_eq word]
  split_ifs with hcard
  · exact (Finset.card_eq_zero.mp hcard).symm
  · rfl

lemma finds_of_implements {tree : FileIndex} {m : TernaryTree.Multimap ℕ}
    (h : Implements tree m) : Finds tree := by
  intro word
  rw [entry_of_implements h word]
  obtain ⟨T, hT⟩ := h
  exact hT.find_eq word

/-- The words behind a `-`. -/
def negated (words : List Key) : List Key :=
  (words.filter fun word => !isRequired word).map behind

/-- The sets that are looked up. -/
lemma lookUp_eq {tree : FileIndex} (hfind : Finds tree) (words : List Key) :
    lookUp tree words = some
      ((words.filter fun word => isRequired word && (entry tree word).card != 0).map (entry tree),
        ((negated words).filter fun word => (entry tree word).card != 0).map (entry tree)) := by
  induction words with
  | nil => rfl
  | cons word words ih =>
      rw [lookUp, ih, negated]
      cases hr : isRequired word with
      | true =>
          rw [if_pos rfl, hfind word]
          by_cases hcard : (entry tree word).card = 0
          · simp [hr, hcard, negated]
          · simp [hr, negated, Option.filter, Finset.card_eq_zero.not.mp hcard]
      | false =>
          rw [if_neg Bool.false_ne_true, hfind (behind word)]
          by_cases hcard : (entry tree (behind word)).card = 0
          · simp [hr, hcard, negated]
          · simp [hr, negated, Option.filter, Finset.card_eq_zero.not.mp hcard]

/-- A file is excluded if it is in the entry of a term with a `-`. -/
lemma excluded_eq_false_iff {tree : FileIndex} {words : List Key} {f : ℕ} :
    excluded (((negated words).filter fun word => (entry tree word).card != 0).map (entry tree)) f
        = false
      ↔ ∀ word ∈ words, isRequired word = false → f ∉ entry tree (behind word) := by
  rw [excluded, List.any_eq_false]
  constructor
  · intro h word hword hr hf
    have hcard : (entry tree (behind word)).card ≠ 0 := Finset.card_ne_zero_of_mem hf
    refine h (entry tree (behind word)) ?_ (decide_eq_true hf)
    refine List.mem_map_of_mem (List.mem_filter.mpr ⟨?_, by simpa using hcard⟩)
    exact List.mem_map_of_mem (List.mem_filter.mpr ⟨hword, by rw [hr]; rfl⟩)
  · intro h s hs hf
    obtain ⟨v, hv, rfl⟩ := List.mem_map.mp hs
    obtain ⟨word, hword, rfl⟩ := List.mem_map.mp (List.mem_filter.mp hv).1
    rw [List.mem_filter, Bool.not_eq_true'] at hword
    exact h word hword.1 hword.2 (of_decide_eq_true hf)

/-- The sets that are looked up for the terms with a `-`. -/
def negatedSets (q : Search) (tree : FileIndex) : List FileSet :=
  ((negated q.terms).filter fun word => (entry tree word).card != 0).map (entry tree)

/-- What `Go` finds. -/
lemma go_eq (q : Search) (files : Files) (caller : Client) {tree : FileIndex}
    (hfind : Finds tree) (n : ℕ) :
    ∃ r, go q files caller tree n = some r
      ∧ r.master_list = if present q tree = [] then [] else
        (jmerge q files caller ((present q tree).map (entry tree)) (negatedSets q tree)
          n).1.master_list := by
  rw [go, lookUp_eq hfind q.terms]
  by_cases hnil : present q tree = []
  · have hempty : ((present q tree).map (entry tree)).isEmpty = true := by
      rw [hnil]
      rfl
    rw [if_pos hnil]
    exact ⟨⟨[], none⟩, if_pos hempty, rfl⟩
  · have hsets : ¬ ((present q tree).map (entry tree)).isEmpty = true := by
      rw [List.isEmpty_iff, List.map_eq_nil_iff]
      exact hnil
    rw [if_neg hnil]
    exact ⟨_, if_neg hsets, rfl⟩

section Go

variable {q : Search} {files : Files} {caller : Client} {tree : FileIndex}

lemma excluded_negatedSets_iff {f : ℕ} :
    excluded (negatedSets q tree) f = false
      ↔ ∀ word ∈ q.terms, isRequired word = false → f ∉ entry tree (behind word) :=
  excluded_eq_false_iff

/-- What is found is found for the terms that have an entry. -/
lemma reaches_of_mem (hfind : Finds tree) {n : ℕ} {r : Result}
    (hgo : go q files caller tree n = some r) {f : ℕ} (hf : f ∈ r.master_list) :
    Reaches q files caller tree
      ∧ (∀ word ∈ present q tree, f ∈ entry tree word)
      ∧ ∀ word ∈ q.terms, isRequired word = false → f ∉ entry tree (behind word) := by
  obtain ⟨r', hr', hlist⟩ := go_eq q files caller hfind n
  obtain rfl := Option.some.inj (hgo.symm.trans hr')
  rw [hlist] at hf
  split_ifs at hf with hnil
  · exact absurd hf List.not_mem_nil
  · have hsets : (present q tree).map (entry tree) ≠ [] := mt List.map_eq_nil_iff.mp hnil
    obtain ⟨hle, hall, hpick⟩ := mem_jmerge hsets hf
    rw [List.length_map] at hle hpick
    rw [picked, Bool.and_eq_true, Bool.not_eq_true', excluded_negatedSets_iff] at hpick
    have hpresent : ∀ word ∈ present q tree, f ∈ entry tree word :=
      fun word hword => hall _ (List.mem_map_of_mem hword)
    exact ⟨⟨hnil, hle, f, hpresent, hpick.1, hpick.2⟩, hpresent, hpick.2⟩

/-- If the terms that have an entry share a file, something is found. -/
lemma exists_mem_of_reaches (hfind : Finds tree) (h : Reaches q files caller tree) :
    ∃ n r, go q files caller tree n = some r ∧ ∃ f, f ∈ r.master_list := by
  obtain ⟨hnil, hle, f, hpresent, hpass, hneg⟩ := h
  have hsets : (present q tree).map (entry tree) ≠ [] := mt List.map_eq_nil_iff.mp hnil
  have hall : ∀ t ∈ (present q tree).map (entry tree), f ∈ t := by
    intro t ht
    obtain ⟨word, hword, rfl⟩ := List.mem_map.mp ht
    exact hpresent word hword
  have hpick : picked q files caller (decide (((present q tree).map (entry tree)).length ≠ 1))
      (negatedSets q tree) f = true := by
    rw [List.length_map, picked, Bool.and_eq_true, Bool.not_eq_true', excluded_negatedSets_iff]
    exact ⟨hpass, hneg⟩
  obtain ⟨n, hn⟩ := exists_mem_jmerge hsets (by rw [List.length_map]; exact hle) hall hpick
  obtain ⟨r, hr, hlist⟩ := go_eq q files caller hfind n
  rw [if_neg hnil] at hlist
  exact ⟨n, r, hr, List.exists_mem_of_ne_nil _ (hlist ▸ hn)⟩

/-- Terms that all have an entry are all looked up. -/
lemma mem_present_iff {word : Key} :
    word ∈ present q tree ↔ word ∈ q.terms ∧ isRequired word = true ∧ entry tree word ≠ ∅ := by
  rw [present, List.mem_filter, Bool.and_eq_true, bne_iff_ne, Ne, Finset.card_eq_zero]

/-- The search of an index is sound if and only if every term has an entry, or nothing is
found. -/
lemma sound_iff (hfind : Finds tree) :
    (∀ n, ∃ r, go q files caller tree n = some r ∧ Sound q tree r.master_list)
      ↔ (∀ word ∈ q.terms, isRequired word = true → entry tree word ≠ ∅)
        ∨ ¬ Reaches q files caller tree := by
  constructor
  · intro h
    rw [or_iff_not_imp_right, not_not]
    intro hreach word hword hr
    obtain ⟨n, r, hgo, f, hf⟩ := exists_mem_of_reaches hfind hreach
    obtain ⟨r', hr', hsound⟩ := h n
    obtain rfl := Option.some.inj (hgo.symm.trans hr')
    exact Finset.ne_empty_of_mem ((hsound f hf word hword).1 hr)
  · intro h n
    obtain ⟨r, hgo, -⟩ := go_eq q files caller hfind n
    refine ⟨r, hgo, ?_⟩
    intro f hf word hword
    obtain ⟨hreach, hpresent, hneg⟩ := reaches_of_mem hfind hgo hf
    rcases h with h | h
    · exact ⟨fun hr => hpresent word (mem_present_iff.mpr ⟨hword, hr, h word hword hr⟩),
        hneg word hword⟩
    · exact absurd hreach h

end Go

/-- **A search finds only what its terms ask for if and only if every term has an entry in the
index, or nothing is found**, for every index, every caller and every number of rounds of the
merge. -/
theorem go_sound_iff (ops : List (TernaryTree.Op ℕ)) (q : Search) (files : Files)
    (caller : Client) :
    ∃ tree, (TernaryTree.empty : FileIndex).run ops = some tree
      ∧ ((∀ n, ∃ r, go q files caller tree n = some r ∧ Sound q tree r.master_list)
        ↔ (∀ word ∈ q.terms, isRequired word = true → entry tree word ≠ ∅)
          ∨ ¬ Reaches q files caller tree) := by
  obtain ⟨tree, hrun, himp⟩ := TernaryTree.run_implements TernaryTree.implements_empty ops
  exact ⟨tree, hrun, sound_iff (finds_of_implements himp)⟩

/-- The words `a` and `b`. -/
def wordA : Key := ⟨[97], by decide⟩
def wordB : Key := ⟨[98], by decide⟩

/-- A search for `a` and `b`, without filters. -/
def bothWords : Search := ⟨[wordA, wordB], 0, 0, 0, 0, 0, 0, 100⟩

/-- A search for `a` and `b` finds a file that has only `a`, where no file has `b`. -/
theorem not_sound_bothWords :
    ∃ tree, (TernaryTree.empty : FileIndex).run [.insert wordA 1] = some tree
      ∧ ¬ ∀ n, ∃ r, go bothWords (fun _ => ⟨0, 0, ⟨1, 1, 0⟩⟩) ⟨2, 1, 0⟩ tree n = some r
        ∧ Sound bothWords tree r.master_list := by
  obtain ⟨tree, hrun, himp⟩ :=
    TernaryTree.run_implements TernaryTree.implements_empty [.insert wordA 1]
  have hA : entry tree wordA = {1} := entry_of_implements himp wordA
  have hB : entry tree wordB = ∅ := entry_of_implements himp wordB
  have hpresent : present bothWords tree = [wordA] := by
    have hkeep : (isRequired wordA && (entry tree wordA).card != 0) = true := by
      rw [hA]
      rfl
    have hdrop : ¬ (isRequired wordB && (entry tree wordB).card != 0) = true := by
      rw [hB]
      exact Bool.false_ne_true
    show [wordA, wordB].filter _ = [wordA]
    rw [List.filter_cons, if_pos hkeep, List.filter_cons, if_neg hdrop, List.filter_nil]
  refine ⟨tree, hrun, ?_⟩
  rw [sound_iff (finds_of_implements himp), not_or, not_not]
  constructor
  · intro h
    exact h wordB (List.mem_cons_of_mem _ List.mem_cons_self) rfl hB
  · refine ⟨by rw [hpresent]; exact List.cons_ne_nil _ _, by rw [hpresent]; decide, 1, ?_, ?_, ?_⟩
    · intro word hword
      rw [hpresent, List.mem_singleton] at hword
      rw [hword, hA]
      exact Finset.mem_singleton_self 1
    · rw [hpresent]
      decide
    · intro word hword hr
      rcases List.mem_cons.mp hword with rfl | hword
      · cases hr
      · rw [List.mem_singleton.mp hword] at hr
        cases hr

end Napd.Search
