import Napd.Search.Candidates
import Napd.Search.Load

/-!
What the clauses of a query have to do with the files it finds.

* `Clause.Allows`: what a clause asks of a value; `Clause.Unwrapped`: where the 32-bit difference
  tells what the number asks that `atoi` reads; `Clause.Unsaturated`: where that number asks the
  same as the one in the text.
* `compare_iff`: `Compare` tells what a clause asks exactly there.
* `setting_load`: the last clause of a field decides how it is compared; without one, it is
  compared for equality with 0.
* `found_iff`: which files `Go` finds.
* `filters_iff`: **the clauses of a query, and no others, filter a file if and only if it is not
  found anyway where a field has no clause, and the differences fit.**
-/

namespace Napd.Search

open TernaryTree (Key)

/-! ### What a clause asks -/

/-- The field of a clause. -/
def Field.Names (F : Field) (c : Clause) : Prop := strcasecmp c.field F.name = 0

instance (F : Field) (c : Clause) : Decidable (F.Names c) :=
  inferInstanceAs (Decidable (strcasecmp c.field F.name = 0))

/-- The number of a clause, as its text says it. -/
def Clause.number (c : Clause) : ℤ := Napd.number c.value.val

/-- What a clause asks of a value. -/
def Clause.Allows (c : Clause) (v : U32) : Prop :=
  if strcasecmp c.op AT_LEAST = 0 then c.number ≤ v.toNat
  else if strcasecmp c.op AT_BEST = 0 then v.toNat ≤ c.number
  else v.toNat = c.number

/-- The sign of the 32-bit difference of a value and the number as `atoi` reads it tells how the
two compare. -/
def Clause.Unwrapped (c : Clause) (v : U32) : Prop :=
  let d := v.toNat - saturated c.number
  if strcasecmp c.op AT_LEAST = 0 then d < 2 ^ 31 ∨ 2 ^ 32 ≤ d
  else if strcasecmp c.op AT_BEST = 0 then d < 2 ^ 31 ∨ 2 ^ 32 < d
  else d ≠ 2 ^ 32

/-- The number as `atoi` reads it asks the same of a value as the number in the text. -/
def Clause.Unsaturated (c : Clause) (v : U32) : Prop :=
  if strcasecmp c.op AT_LEAST = 0 then v.toNat < 2 ^ 31 - 1 ∨ c.number ≤ v.toNat
  else if strcasecmp c.op AT_BEST = 0 then v.toNat < 2 ^ 31 ∨ c.number < v.toNat
  else c.number < 2 ^ 31 ∨ v.toNat ≠ 2 ^ 31 - 1 ∧ v.toNat ≠ c.number

/-- The number is read and compared as it is; or it is neither, which comes to the same. -/
def Clause.Fits (c : Clause) (v : U32) : Prop := c.Unwrapped v ↔ c.Unsaturated v

/-- The 32-bit difference. -/
lemma toInt_sub_eq (v : U32) (n : I32) :
    ∃ k : ℤ, (v.toInt32 - n).toInt = v.toNat - n.toInt + k * 2 ^ 32 ∧
      -2 ^ 31 ≤ (v.toInt32 - n).toInt ∧ (v.toInt32 - n).toInt < 2 ^ 31 := by
  have hv : v.toInt32.toInt = (v.toNat : ℤ).bmod (2 ^ 32) := by
    conv_lhs => rw [← UInt32.ofNat_toNat (x := v), UInt32.toInt32_ofNat', Int32.toInt_ofNat']
    rfl
  have hmod : (v.toInt32 - n).toInt = ((v.toNat : ℤ) - n.toInt).bmod (2 ^ 32) := by
    rw [Int32.toInt_sub, hv, Int.bmod_sub_bmod]
  have hk : ∃ k : ℤ, ((v.toNat : ℤ) - n.toInt).bmod (2 ^ 32) = v.toNat - n.toInt + k * 2 ^ 32 := by
    rw [Int.bmod_eq_emod]
    split_ifs
    · exact ⟨-(((v.toNat : ℤ) - n.toInt) / 2 ^ 32) - 1, by omega⟩
    · exact ⟨-(((v.toNat : ℤ) - n.toInt) / 2 ^ 32), by omega⟩
  obtain ⟨k, hk⟩ := hk
  exact ⟨k, hmod.trans hk, Int32.le_toInt _, Int32.toInt_lt _⟩

lemma compare_atLeast (n v : I32) : compare n 1 v = decide (0 ≤ (v - n).toInt) := by
  rw [compare, if_neg (by decide), if_neg (by decide), if_pos rfl]
  exact decide_eq_decide.mpr Int32.le_iff_toInt_le

lemma compare_atBest (n v : I32) : compare n (-1) v = decide ((v - n).toInt ≤ 0) := by
  rw [compare, if_neg (by decide), if_pos rfl]
  exact decide_eq_decide.mpr Int32.le_iff_toInt_le

lemma compare_equal (n v : I32) : compare n 0 v = decide ((v - n).toInt = 0) := by
  rw [compare, if_pos rfl]
  exact decide_eq_decide.mpr Int32.toInt_inj.symm

/-- **`Compare` tells what a clause asks of a value exactly where the number and the difference
fit.** -/
lemma compare_iff (c : Clause) (v : U32) :
    (compare (atoi c.value.val) (convertOption c.op) v.toInt32 = true ↔ c.Allows v)
      ↔ c.Fits v := by
  obtain ⟨k, hsub, hlow, hhigh⟩ := toInt_sub_eq v (atoi c.value.val)
  have hv : (v.toNat : ℤ) < 2 ^ 32 := by exact_mod_cast v.toNat_lt
  rw [atoi, toInt_strtol, ← Clause.number, ← atoi] at hsub
  rw [convertOption, Clause.Allows, Clause.Fits, Clause.Unwrapped, Clause.Unsaturated]
  rw [saturated] at hsub ⊢
  by_cases hleast : strcasecmp c.op AT_LEAST = 0
  · rw [if_pos hleast, if_pos hleast, if_pos hleast, if_pos hleast, compare_atLeast,
      decide_eq_true_iff]
    omega
  · rw [if_neg hleast, if_neg hleast, if_neg hleast, if_neg hleast]
    by_cases hbest : strcasecmp c.op AT_BEST = 0
    · rw [if_pos hbest, if_pos hbest, if_pos hbest, if_pos hbest, compare_atBest,
        decide_eq_true_iff]
      omega
    · rw [if_neg hbest, if_neg hbest, if_neg hbest, if_neg hbest, compare_equal,
        decide_eq_true_iff]
      omega

/-! ### What the clauses set -/

/-- The last clause of a field, which replaces those in front of it. -/
def lastClause (F : Field) (fields : List Text) : Option Clause :=
  ((clauses fields).filter F.Names).getLast?

/-- What a search keeps of a field: its value and its option. -/
def setting (q : Search) : Field → I32 × I32
  | .LINESPEED => (q.linespeed, q.linespeed_cmp)
  | .BITRATE => (q.bitrate, q.bitrate_cmp)
  | .FREQUENCY => (q.frequency, q.frequency_cmp)

lemma Compare_eq (q : Search) (F : Field) (v : I32) :
    Compare q F v = compare (setting q F).1 (setting q F).2 v := by
  cases F <;> rfl

/-- A clause names one field at most. -/
lemma Names.eq {F G : Field} {c : Clause} (hF : F.Names c) (hG : G.Names c) : F = G := by
  have hlower : lower F.name = lower G.name :=
    (strcasecmp_eq_zero_iff.mp hF).symm.trans (strcasecmp_eq_zero_iff.mp hG)
  cases F <;> cases G <;> first | rfl | exact absurd hlower (by decide)

lemma not_filename {F : Field} {c : Clause} (hF : F.Names c) :
    ¬ strcasecmp c.field FILENAME = 0 := by
  intro h
  have hlower : lower F.name = lower FILENAME :=
    (strcasecmp_eq_zero_iff.mp hF).symm.trans (strcasecmp_eq_zero_iff.mp h)
  cases F <;> exact absurd hlower (by decide)

/-- A clause sets the field that it names, and no other. -/
lemma setting_loadClause (q : Search) (c : Clause) (F : Field) :
    setting (loadClause q c) F
      = if F.Names c then (atoi c.value.val, convertOption c.op) else setting q F := by
  have hnames : ∀ G : Field, G.Names c → (F.Names c ↔ F = G) :=
    fun G hG => ⟨fun hF => Names.eq hF hG, fun h => h ▸ hG⟩
  rw [loadClause]
  by_cases hfile : strcasecmp c.field FILENAME = 0
  · rw [if_pos hfile, if_neg fun hF => not_filename hF hfile]
  rw [if_neg hfile]
  by_cases hbit : strcasecmp c.field Field.BITRATE.name = 0
  · rw [if_pos hbit]
    simp only [hnames .BITRATE hbit]
    cases F <;> rfl
  rw [if_neg hbit]
  by_cases hfreq : strcasecmp c.field Field.FREQUENCY.name = 0
  · rw [if_pos hfreq]
    simp only [hnames .FREQUENCY hfreq]
    cases F <;> rfl
  rw [if_neg hfreq]
  by_cases hline : strcasecmp c.field Field.LINESPEED.name = 0
  · rw [if_pos hline]
    simp only [hnames .LINESPEED hline]
    cases F <;> rfl
  · have hnone : ¬F.Names c := by
      cases F
      · exact hline
      · exact hbit
      · exact hfreq
    rw [if_neg hline, if_neg hnone]

lemma loadFields_snd (q : Search) (fields : List Text) :
    (loadFields q fields).2 = (clauses fields).foldl loadClause q := by
  induction q, fields using loadFields.induct with
  | case1 q => rfl
  | case2 q field op value fields ih =>
      rw [loadFields, clauses, List.foldl_cons]
      exact ih
  | case3 q fields hnil hthree =>
      rw [loadFields, clauses]
      · rfl
      · exact hthree
      · exact hnil
      · exact hthree

/-- **The last clause of a field sets it**; without one, it is as it was. -/
lemma setting_foldl (q : Search) (cs : List Clause) (F : Field) :
    setting (cs.foldl loadClause q) F
      = match (cs.filter F.Names).getLast? with
        | some c => (atoi c.value.val, convertOption c.op)
        | none => setting q F := by
  induction cs using List.reverseRecOn with
  | nil => rfl
  | append_singleton cs c ih =>
      rw [List.foldl_concat, setting_loadClause, List.filter_append]
      by_cases hF : F.Names c
      · have hone : [c].filter (fun d => decide (F.Names d)) = [c] :=
          List.filter_eq_self.mpr (by simpa using hF)
        rw [if_pos hF, hone, List.getLast?_concat]
      · have hnone : [c].filter (fun d => decide (F.Names d)) = [] :=
          List.filter_eq_nil_iff.mpr (by simpa using hF)
        rw [if_neg hF, hnone, List.append_nil]
        exact ih

lemma load_snd (q : Search) (fields : List Text) :
    ∃ terms, (load q fields).2 = { (loadFields q fields).2 with terms := terms } := by
  rw [load]
  dsimp only
  cases !(loadFields q fields).1 || (loadFields q fields).2.terms.isEmpty with
  | false => exact ⟨_, rfl⟩
  | true => exact ⟨_, rfl⟩

lemma setting_load (q : Search) (fields : List Text) (F : Field) :
    setting (load q fields).2 F
      = match lastClause F fields with
        | some c => (atoi c.value.val, convertOption c.op)
        | none => setting q F := by
  obtain ⟨terms, hload⟩ := load_snd q fields
  have hterms : setting (load q fields).2 F = setting (loadFields q fields).2 F := by
    rw [hload]
    cases F <;> rfl
  rw [hterms, loadFields_snd, setting_foldl, lastClause]

lemma lastClause_eq_none_iff {F : Field} {fields : List Text} :
    lastClause F fields = none ↔ ∀ c ∈ clauses fields, ¬F.Names c := by
  rw [lastClause, List.getLast?_eq_none_iff, List.filter_eq_nil_iff]
  simp only [decide_eq_true_iff]

lemma mem_of_lastClause {F : Field} {fields : List Text} {c : Clause}
    (h : lastClause F fields = some c) : c ∈ clauses fields ∧ F.Names c := by
  have hmem := List.mem_filter.mp (List.mem_of_getLast? h)
  exact ⟨hmem.1, of_decide_eq_true hmem.2⟩

/-! ### What is found -/

/-- `Go` puts a file into `master_list`. -/
def FoundBy (q : Search) (files : Files) (caller : Client) (tree : FileIndex) (f : ℕ) : Prop :=
  ∃ n r, go q files caller tree n = some r ∧ f ∈ r.master_list

/-- A file is among the first, up to the limit, that are in the entries of all terms that have
one, at most 255, and are picked. -/
def AmongFirst (q : Search) (files : Files) (caller : Client) (tree : FileIndex) (f : ℕ) : Prop :=
  present q tree ≠ [] ∧ (present q tree).length ≤ 255 ∧
    f ∈ (candidates q files caller ((present q tree).map (entry tree)) (negatedSets q tree)).take
      (limit q)

section Found

variable {q : Search} {files : Files} {caller : Client} {tree : FileIndex} {f : ℕ}

lemma foundBy_iff (hfind : Finds tree) :
    FoundBy q files caller tree f ↔ AmongFirst q files caller tree f := by
  have hgo : FoundBy q files caller tree f ↔ present q tree ≠ [] ∧
      ∃ n, f ∈ (jmerge q files caller ((present q tree).map (entry tree)) (negatedSets q tree)
        n).1.master_list := by
    constructor
    · rintro ⟨n, r, hgo, hf⟩
      obtain ⟨r', hr', hlist⟩ := go_eq q files caller hfind n
      obtain rfl := Option.some.inj (hgo.symm.trans hr')
      rw [hlist] at hf
      split_ifs at hf with hnil
      · exact absurd hf List.not_mem_nil
      · exact ⟨hnil, n, hf⟩
    · rintro ⟨hnil, n, hf⟩
      obtain ⟨r, hr, hlist⟩ := go_eq q files caller hfind n
      rw [if_neg hnil] at hlist
      exact ⟨n, r, hr, hlist ▸ hf⟩
  rw [hgo, AmongFirst]
  refine and_congr_right fun hnil => ?_
  rw [mem_jmerge_iff (mt List.map_eq_nil_iff.mp hnil), List.length_map]

/-- What is found passes `Compare` on each field. -/
lemma AmongFirst.compare (h : AmongFirst q files caller tree f) (F : Field) :
    Compare q F (F.value (files f)).toInt32 = true := by
  obtain ⟨hnil, -, hmem⟩ := h
  have hcand := List.mem_of_mem_take hmem
  rw [mem_candidates_iff (mt List.map_eq_nil_iff.mp hnil)] at hcand
  have hline : Int32.ofNat (files f).client.linespeed.toNat
      = (files f).client.linespeed.toInt32 := by
    conv_rhs => rw [← UInt32.ofNat_toNat (x := (files f).client.linespeed), UInt32.toInt32_ofNat']
  have hpick := hcand.2
  simp only [picked, passes, Bool.and_eq_true, hline] at hpick
  cases F
  · exact hpick.1.1.2
  · exact hpick.1.1.1.1.2
  · exact hpick.1.1.1.2

@[simp] lemma value_set (F : Field) (f : ℕ) (x : U32) (files : Files) :
    F.value (F.set f x files f) = x := by
  cases F <;> simp [Field.set, Field.value]

/-- Without a clause, only the value 0 is found. -/
lemma AmongFirst.value_eq_zero (h : AmongFirst q files caller tree f) {F : Field}
    (hF : setting q F = (0, 0)) : F.value (files f) = 0 := by
  have hcompare := h.compare F
  rw [Compare_eq, hF, compare_equal, decide_eq_true_iff, ← Int32.toInt_zero, Int32.toInt_inj]
    at hcompare
  rw [Int32.sub_zero] at hcompare
  exact congrArg Int32.toUInt32 hcompare

/-- A field without a clause has nothing to do with a file if and only if the file is not found
anyway. -/
lemma independent_iff (hfind : Finds tree) {F : Field} (hF : setting q F = (0, 0)) :
    (∀ x y, FoundBy q (F.set f x files) caller tree f ↔ FoundBy q (F.set f y files) caller tree f)
      ↔ ¬AmongFirst q (F.set f 0 files) caller tree f := by
  simp only [foundBy_iff hfind]
  constructor
  · intro h h0
    have hone := ((h 0 1).mp h0).value_eq_zero hF
    rw [value_set] at hone
    cases hone
  · intro h0
    have hnone : ∀ x, ¬AmongFirst q (F.set f x files) caller tree f := by
      intro x hx
      have hzero := hx.value_eq_zero hF
      rw [value_set] at hzero
      exact h0 (hzero ▸ hx)
    exact fun x y => iff_of_false (hnone x) (hnone y)

end Found

/-! ### What the clauses filter -/

/-- A field without a clause has nothing to do with what is found, and a file passes a field
exactly where each of its clauses allows the value. -/
structure Filters (q : Search) (fields : List Text) (files : Files) (caller : Client)
    (tree : FileIndex) (f : ℕ) : Prop where
  absent : ∀ F : Field, (∀ c ∈ clauses fields, ¬F.Names c) → ∀ x y,
    FoundBy q (F.set f x files) caller tree f ↔ FoundBy q (F.set f y files) caller tree f
  present : ∀ F : Field, ∀ c ∈ clauses fields, F.Names c →
    (Compare q F (F.value (files f)).toInt32 = true ↔ c.Allows (F.value (files f)))

/-- The file is not found, not even with the value 0 of a field that has no clause; and for the
last clause of a field the difference fits, and the other clauses of the field say the same of
the value. -/
structure Tells (q : Search) (fields : List Text) (files : Files) (caller : Client)
    (tree : FileIndex) (f : ℕ) : Prop where
  absent : ∀ F : Field, (∀ c ∈ clauses fields, ¬F.Names c) →
    ¬AmongFirst q (F.set f 0 files) caller tree f
  present : ∀ F c, lastClause F fields = some c → c.Fits (F.value (files f)) ∧
    ∀ d ∈ clauses fields, F.Names d → (d.Allows (F.value (files f)) ↔ c.Allows (F.value (files f)))

/-- The search of a query: what `Load` makes of its fields, with any terms and any limit. -/
def query (terms : List Key) (maxres : U32) (fields : List Text) : Search :=
  (load { Search.new maxres with terms := terms } fields).2

lemma setting_query (terms : List Key) (maxres : U32) (fields : List Text) (F : Field) :
    setting (query terms maxres fields) F
      = match lastClause F fields with
        | some c => (atoi c.value.val, convertOption c.op)
        | none => (0, 0) := by
  rw [query, setting_load]
  cases lastClause F fields with
  | some c => rfl
  | none => cases F <;> rfl

lemma filters_iff_tells {tree : FileIndex} (hfind : Finds tree) (terms : List Key) (maxres : U32)
    (fields : List Text) (files : Files) (caller : Client) (f : ℕ) :
    Filters (query terms maxres fields) fields files caller tree f
      ↔ Tells (query terms maxres fields) fields files caller tree f := by
  have habsent : ∀ F : Field, (∀ c ∈ clauses fields, ¬F.Names c) →
      setting (query terms maxres fields) F = (0, 0) := by
    intro F hF
    rw [setting_query, lastClause_eq_none_iff.mpr hF]
  have hpresent : ∀ F c, lastClause F fields = some c →
      ((Compare (query terms maxres fields) F (F.value (files f)).toInt32 = true
        ↔ c.Allows (F.value (files f))) ↔ c.Fits (F.value (files f))) := by
    intro F c hc
    rw [Compare_eq, setting_query, hc]
    exact compare_iff c _
  constructor
  · intro h
    refine ⟨fun F hF => (independent_iff hfind (habsent F hF)).mp (h.absent F hF), ?_⟩
    intro F c hc
    obtain ⟨hmem, hnames⟩ := mem_of_lastClause hc
    have hcompare := h.present F c hmem hnames
    refine ⟨(hpresent F c hc).mp hcompare, fun d hd hdF => ?_⟩
    exact (h.present F d hd hdF).symm.trans hcompare
  · intro h
    refine ⟨fun F hF => (independent_iff hfind (habsent F hF)).mpr (h.absent F hF), ?_⟩
    intro F d hd hdF
    cases hlast : lastClause F fields with
    | none => exact absurd hdF (lastClause_eq_none_iff.mp hlast d hd)
    | some c =>
        obtain ⟨hfits, hsame⟩ := h.present F c hlast
        exact ((hpresent F c hlast).mpr hfits).trans (hsame d hd hdF).symm

/-- **The clauses of a query, and no others, filter a file, if and only if** it is not found,
even with the value 0, where a field has no clause, and each 32-bit difference tells what the
clauses of the field say. -/
theorem filters_iff (ops : List (TernaryTree.Op ℕ)) (terms : List Key) (maxres : U32)
    (fields : List Text) (files : Files) (caller : Client) (f : ℕ) :
    ∃ tree, (TernaryTree.empty : FileIndex).run ops = some tree ∧
      (Filters (query terms maxres fields) fields files caller tree f
        ↔ Tells (query terms maxres fields) fields files caller tree f) := by
  obtain ⟨tree, hrun, himp⟩ := TernaryTree.run_implements TernaryTree.implements_empty ops
  exact ⟨tree, hrun,
    filters_iff_tells (finds_of_implements himp) terms maxres fields files caller f⟩

/-- A query without clauses finds a file with the bitrate 0, and not with another. -/
theorem not_filters_absent :
    ¬∀ (ops : List (TernaryTree.Op ℕ)) (terms : List Key) (maxres : U32) (fields : List Text)
      (files : Files) (caller : Client) (f : ℕ),
      ∃ tree, (TernaryTree.empty : FileIndex).run ops = some tree ∧
        Filters (query terms maxres fields) fields files caller tree f := by
  intro h
  obtain ⟨tree, hrun, hfilters⟩ := h [.insert wordA 1] [wordA] 7 [] (fun _ => ⟨0, 0, ⟨1, 1, 0⟩⟩)
    ⟨2, 1, 0⟩ 1
  obtain ⟨tree', hrun', himp⟩ :=
    TernaryTree.run_implements TernaryTree.implements_empty [.insert wordA 1]
  obtain rfl := Option.some.inj (hrun.symm.trans hrun')
  have hA : entry tree wordA = {1} := entry_of_implements himp wordA
  have hquery : query [wordA] 7 [] = ⟨[wordA], 0, 0, 0, 0, 0, 0, 7⟩ := by
    have hterms : (([wordA].mergeSort stringLE).destutter (· ≠ ·)).mergeSort largestLengthFirst
        = [wordA] := by
      rw [List.mergeSort_singleton]
      exact List.mergeSort_singleton wordA
    exact congrArg (fun ts => (⟨ts, 0, 0, 0, 0, 0, 0, 7⟩ : Search)) hterms
  have hpresent : present (query [wordA] 7 []) tree = [wordA] := by
    have hkeep : (isRequired wordA && (entry tree wordA).card != 0) = true := by
      rw [hA]
      rfl
    rw [hquery]
    show [wordA].filter _ = [wordA]
    rw [List.filter_cons, if_pos hkeep, List.filter_nil]
  rw [filters_iff_tells (finds_of_implements himp)] at hfilters
  refine hfilters.absent .BITRATE (fun c hc => absurd hc List.not_mem_nil) ?_
  refine ⟨by rw [hpresent]; exact List.cons_ne_nil _ _, by rw [hpresent]; decide, ?_⟩
  have hneg : negatedSets (query [wordA] 7 []) tree = [] := by
    rw [hquery]
    rfl
  have hpicked : picked ⟨[wordA], 0, 0, 0, 0, 0, 0, 7⟩
      (Field.BITRATE.set 1 0 fun _ => ⟨0, 0, ⟨1, 1, 0⟩⟩) ⟨2, 1, 0⟩ false [] 1 = true := by decide
  rw [hpresent, hneg, List.map_singleton, hA, candidates_one, Finset.sort_singleton, hquery,
    List.filter_cons_of_pos hpicked]
  exact List.mem_cons_self

end Napd.Search
