import Napd.Search.Candidates

/-!
A search of the index as a filter over its files.

* `asked`: the terms that ask for something, those with files among the ones without a `-`.
* `Matches`: what a plain search asks of a file, over the sets of files alone.
* `search_plain`: **however the index was built, `Go` returns if and only if at most 255 terms ask
  for something or no file is under all of them; what it then leaves are the first of the files that
  match.**
-/

namespace Napd.Search

open TernaryTree (Key Multimap)

/-- The terms without a `-` under which there are files. -/
def asked (q : Search) (m : Multimap ℕ) : List Key :=
  q.terms.filter fun word => isRequired word && (m word).card != 0

/-- A file that is to be found: under all terms that ask for something, of which there is one, under
none with a `-`, and passed by the filters. It may be the caller's own if only one term asks. -/
structure Matches (q : Search) (files : Files) (caller : Client) (m : Multimap ℕ)
    (f : ℕ) : Prop where
  some : asked q m ≠ []
  required : ∀ word ∈ asked q m, f ∈ m word
  negated : ∀ word ∈ q.terms, isRequired word = false → f ∉ m (behind word)
  filters : passes q files caller (decide ((asked q m).length ≠ 1)) f = true

/-- `Go` has returned: it had nothing to ask for, or `jmerge` has returned. -/
def Result.Returned (q : Search) (m : Multimap ℕ) (r : Result) : Prop :=
  asked q m = [] ∨ r.nmatches.isSome = true

variable {q : Search} {files : Files} {caller : Client} {m : Multimap ℕ} {tree : FileIndex}

lemma present_eq_asked (hentry : entry tree = m) : present q tree = asked q m := by
  rw [present, asked, hentry]

/-- `Go`, on the sets of the terms. -/
lemma go_eq_asked (hfind : Finds tree) (hentry : entry tree = m) (n : ℕ) :
    go q files caller tree n = some
      (if asked q m = [] then ⟨[], none⟩
      else
        let out := jmerge q files caller ((asked q m).map m) (negatedSets q tree) n
        ⟨out.1.master_list,
          if out.2 then some (UInt32.ofNat out.1.master_list.length) else none⟩) := by
  have hpresent : (q.terms.filter fun word => isRequired word && (entry tree word).card != 0)
      = asked q m := present_eq_asked hentry
  rw [go, lookUp_eq hfind q.terms, hpresent, negatedSets, hentry]
  by_cases hnil : asked q m = []
  · have hempty : ((asked q m).map m).isEmpty = true := by
      rw [hnil]
      rfl
    rw [if_pos hnil]
    exact if_pos hempty
  · have hsets : ¬ ((asked q m).map m).isEmpty = true := by
      rw [List.isEmpty_iff, List.map_eq_nil_iff]
      exact hnil
    rw [if_neg hnil]
    exact if_neg hsets

lemma isSome_ite_iff {α : Type*} (b : Bool) (x : α) :
    (if b = true then some x else none).isSome = true ↔ b = true := by
  cases b with
  | true => exact iff_of_true rfl rfl
  | false => exact iff_of_false Bool.false_ne_true Bool.false_ne_true

/-- With something to ask for, `Go` returns where `jmerge` does. -/
lemma returned_iff (hfind : Finds tree) (hentry : entry tree = m) (hnil : asked q m ≠ []) :
    (∃ n r, go q files caller tree n = some r ∧ r.Returned q m) ↔
      Returns q files caller ((asked q m).map m) (negatedSets q tree) := by
  constructor
  · rintro ⟨n, r, hgo, hreturned⟩
    rw [go_eq_asked hfind hentry, if_neg hnil] at hgo
    obtain rfl := Option.some.inj hgo
    refine ⟨mt List.map_eq_nil_iff.mp hnil, n, ?_⟩
    exact (isSome_ite_iff _ _).mp (hreturned.resolve_left hnil)
  · rintro ⟨-, n, hn⟩
    refine ⟨n, _, go_eq_asked hfind hentry n, .inr ?_⟩
    rw [if_neg hnil]
    exact (isSome_ite_iff _ _).mpr hn

/-- The candidates of the sets are the files that match. -/
lemma mem_candidates_asked (hentry : entry tree = m) (hnil : asked q m ≠ []) {f : ℕ} :
    f ∈ candidates q files caller ((asked q m).map m) (negatedSets q tree) ↔
      Matches q files caller m f := by
  have hsets : (asked q m).map m ≠ [] := mt List.map_eq_nil_iff.mp hnil
  rw [mem_candidates_iff hsets, List.forall_mem_map, List.length_map, picked, Bool.and_eq_true,
    Bool.not_eq_true', excluded_negatedSets_iff, hentry]
  exact ⟨fun h => ⟨hnil, h.1, h.2.2, h.2.1⟩, fun h => ⟨h.required, h.filters, h.negated⟩⟩

lemma candidates_ascending (s sExclude : List FileSet) :
    (candidates q files caller s sExclude).Pairwise (· < ·) :=
  (Finset.sortedLT_sort _).pairwise.sublist List.filter_sublist

/-- The files that match, in ascending order. -/
lemma exists_matching (q : Search) (files : Files) (caller : Client) (hentry : entry tree = m) :
    ∃ fs : List ℕ, fs.Pairwise (· < ·) ∧ (∀ f, f ∈ fs ↔ Matches q files caller m f) ∧
      (asked q m = [] → fs = []) ∧
      (asked q m ≠ [] → fs = candidates q files caller ((asked q m).map m)
        (negatedSets q tree)) := by
  by_cases hnil : asked q m = []
  · refine ⟨[], List.Pairwise.nil, fun f => ?_, fun _ => rfl, fun h => absurd hnil h⟩
    exact iff_of_false List.not_mem_nil fun h => h.some hnil
  · exact ⟨_, candidates_ascending _ _, fun f => mem_candidates_asked hentry hnil,
      fun h => absurd h hnil, fun _ => rfl⟩

/-- **A search is a filter over the files**, for every index that inserts and erases lead to. It
never faults; it returns if and only if at most 255 terms ask for something or no file is under all
of them. Then `master_list` holds the first files that match, in ascending order of their addresses
from its end, up to the limit, and the number of them is counted. -/
theorem search_plain (ops : List (TernaryTree.Op ℕ)) (q : Search) (files : Files)
    (caller : Client) :
    ∃ tree, (TernaryTree.empty : FileIndex).run ops = some tree ∧
      ∃ m, m = TernaryTree.refRun (fun _ => ∅) ops ∧
      ∃ fs : List ℕ, fs.Pairwise (· < ·) ∧ (∀ f, f ∈ fs ↔ Matches q files caller m f) ∧
      (∀ n, ∃ r, go q files caller tree n = some r ∧ (r.Returned q m →
        r.master_list = (fs.take (limit q)).reverse ∧
          (asked q m ≠ [] → r.nmatches = some (UInt32.ofNat (min (limit q) fs.length))))) ∧
      ((∃ n r, go q files caller tree n = some r ∧ r.Returned q m) ↔
        (asked q m).length ≤ 255 ∨ ¬∃ f, ∀ word ∈ asked q m, f ∈ m word) := by
  obtain ⟨tree, hrun, himp⟩ := TernaryTree.run_implements TernaryTree.implements_empty ops
  have hentry : entry tree = TernaryTree.refRun (fun _ => ∅) ops :=
    funext fun word => (entry_of_implements himp word).trans
      (congrFun (congrFun (congrFun (TernaryTree.doneRun_eq rfl) _) ops) word)
  have hgo := fun n => @go_eq_asked q files caller _ _ (finds_of_implements himp) hentry n
  obtain ⟨fs, hascending, hmatches, hempty, hcandidates⟩ := exists_matching q files caller hentry
  refine ⟨tree, hrun, _, rfl, fs, hascending, hmatches, fun n => ⟨_, hgo n, ?_⟩, ?_⟩
  · by_cases hnil : asked q (TernaryTree.refRun (fun _ => ∅) ops) = []
    · rw [if_pos hnil, hempty hnil, List.take_nil]
      exact fun _ => ⟨rfl, fun h => absurd hnil h⟩
    · rw [if_neg hnil, hcandidates hnil]
      rintro (h | hreturned)
      · exact absurd h hnil
      · have hout := (isSome_ite_iff _ _).mp hreturned
        have hlist := master_list_of_returned (mt List.map_eq_nil_iff.mp hnil) hout
        refine ⟨hlist, fun _ => ?_⟩
        dsimp only
        rw [if_pos hout, hlist, List.length_reverse, List.length_take]
  · by_cases hnil : asked q (TernaryTree.refRun (fun _ => ∅) ops) = []
    · refine iff_of_true ⟨0, _, hgo 0, .inl hnil⟩ (.inl ?_)
      rw [hnil]
      exact Nat.zero_le _
    · rw [returned_iff (finds_of_implements himp) hentry hnil]
      constructor
      · intro h
        rw [or_iff_not_imp_left, not_le]
        rintro hmany ⟨f, hf⟩
        refine not_returns_of_many ?_ (List.forall_mem_map.mpr hf) h
        rw [List.length_map]
        exact hmany
      · intro h
        rcases Nat.lt_or_ge 255
            (asked q (TernaryTree.refRun (fun _ => ∅) ops)).length with hlt | hle
        · refine returns_of_disjoint (by rw [List.length_map]; omega) ?_
          rintro ⟨f, hf⟩
          refine h.resolve_left (by omega) ⟨f, fun word hword => ?_⟩
          exact hf _ (List.mem_map_of_mem hword)
        · exact returns_of_le (mt List.map_eq_nil_iff.mp hnil) (by rw [List.length_map]; exact hle)

end Napd.Search
