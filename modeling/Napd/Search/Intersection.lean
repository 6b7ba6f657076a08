import Napd.Library.EqualRange
import Napd.Search.Merge

/-!
The merge of a search computes the filtered intersection of its sets.

* `Wanted`: what a file must be to be found; `wanted` lists these files.
* `Collected`: the invariant of the merge: what was found is wanted and below the current value,
  and all of it; when the loop is left, it is the first files of the list.
* `collected_last`, `collected_next`: a set without further elements, and with a next one.
* `collected_round`: every round keeps it.
* `jmerge_eq`: whenever the merge returns, it has found the first `max_matches` wanted files.
-/

namespace Napd.Search

/-- A file that is in every required set and in no exclude set, passes `Compare` on each field,
is not the caller's own, and of which one side has a data port. -/
structure Wanted (q : Search) (files : Files) (caller : Client) (s sExclude : List FileSet)
    (f : ℕ) : Prop where
  required : ∀ t ∈ s, f ∈ t
  not_excluded : ∀ t ∈ sExclude, f ∉ t
  bitrate : compare q.bitrate q.bitrate_cmp (files f).bitrate.toInt32 = true
  frequency : compare q.frequency q.frequency_cmp (files f).frequency.toInt32 = true
  linespeed : compare q.linespeed q.linespeed_cmp
    (Int32.ofNat (files f).client.linespeed.toNat) = true
  not_own : (files f).client.addr ≠ caller.addr
  dataport : caller.dataport ≠ 0 ∨ (files f).client.dataport ≠ 0

/-- The files in all sets that are picked, ascending. -/
def wanted (q : Search) (files : Files) (caller : Client) (s sExclude : List FileSet) : List ℕ :=
  ((s.getD 0 ∅).sort (· ≤ ·)).filter fun f =>
    decide (∀ t ∈ s, f ∈ t) && picked q files caller true sExclude f

section Merge

variable {q : Search} {files : Files} {caller : Client} {s sExclude : List FileSet}

lemma wanted_iff {f : ℕ} : Wanted q files caller s sExclude f ↔
    (∀ t ∈ s, f ∈ t) ∧ picked q files caller true sExclude f = true := by
  simp only [picked, passes, excluded, Bool.and_eq_true, Bool.or_eq_true, bne_iff_ne,
    Bool.not_eq_true', Bool.not_true, Bool.false_or, List.any_eq_false, decide_eq_true_iff]
  constructor
  · rintro ⟨hreq, hexc, hbit, hfreq, hline, hown, hport⟩
    exact ⟨hreq, ⟨⟨⟨⟨hport, hbit⟩, hfreq⟩, hline⟩, hown.symm⟩, hexc⟩
  · rintro ⟨hreq, ⟨⟨⟨⟨hport, hbit⟩, hfreq⟩, hline⟩, hown⟩, hexc⟩
    exact ⟨hreq, hexc, hbit, hfreq, hline, Ne.symm hown, hport⟩

lemma mem_wanted_iff (hs : s ≠ []) {f : ℕ} :
    f ∈ wanted q files caller s sExclude ↔ Wanted q files caller s sExclude f := by
  rw [wanted, List.mem_filter, Finset.mem_sort, Bool.and_eq_true, decide_eq_true_iff, wanted_iff]
  refine and_iff_right_of_imp fun h => ?_
  exact mem_getD (List.length_pos_iff.mpr hs) h.1

lemma wanted_ascending : (wanted q files caller s sExclude).Pairwise (· < ·) :=
  (Finset.sortedLT_sort _).pairwise.sublist List.filter_sublist

/-! ### The invariant of the merge -/

/-- How many files are found at most: the limit is looked at when a file has been found. -/
def limit (q : Search) : ℕ := max 1 q.max_matches.toNat

lemma limit_lt (q : Search) : limit q < 2 ^ 32 := by
  have hmax : q.max_matches.toNat < 2 ^ 32 := q.max_matches.toNat_lt
  rw [limit]
  omega

lemma limit_pos (q : Search) : 0 < limit q := Nat.le_max_left 1 _

lemma limit_eq (hmax : 1 ≤ q.max_matches) : limit q = q.max_matches.toNat :=
  max_eq_right (UInt32.le_iff_toNat_le.mp hmax)

variable (q files caller s sExclude) in
/-- What was found so far is what is wanted below the current value, and less than the limit;
when the loop is left, it is all that is wanted, up to the limit. -/
structure Collected (m : Merge) : Prop where
  running : m.left = false →
    m.found.master_list = ((wanted q files caller s sExclude).filter (· < m.curval)).reverse ∧
      m.found.closematches.toNat = m.found.master_list.length ∧
      m.found.master_list.length < limit q
  stopped : m.left = true → m.found.master_list
    = ((wanted q files caller s sExclude).take (limit q)).reverse

lemma collected_start :
    Collected q files caller s sExclude Merge.start where
  running := fun _ => by
    refine ⟨?_, rfl, limit_pos q⟩
    have hnone : (wanted q files caller s sExclude).filter (· < 0) = [] :=
      List.filter_eq_nil_iff.mpr fun f _ => by simp
    show [] = ((wanted q files caller s sExclude).filter (· < 0)).reverse
    rw [hnone, List.reverse_nil]
  stopped := fun h => by cases h

/-- Nothing wanted lies between a value and the next element of one of the sets. -/
lemma filter_wanted_congr {set : FileSet} (hset : set ∈ s) {P Q : ℕ → Bool}
    (h : ∀ f ∈ set, P f = Q f) :
    (wanted q files caller s sExclude).filter P = (wanted q files caller s sExclude).filter Q := by
  refine List.filter_congr fun f hf => ?_
  have hall : ∀ t ∈ s, f ∈ t :=
    ((mem_wanted_iff (List.ne_nil_of_mem hset)).mp hf).required
  exact h f (hall set hset)

/-- All that is wanted is below a value that no element of a set reaches. -/
lemma filter_wanted_eq_self {set : FileSet} (hset : set ∈ s) {P : ℕ → Bool}
    (h : ∀ f ∈ set, P f = true) :
    (wanted q files caller s sExclude).filter P = wanted q files caller s sExclude := by
  rw [filter_wanted_congr hset (Q := fun _ => true) h, List.filter_true]

/-- Less than the limit is all up to the limit. -/
lemma take_of_lt {l : List ℕ} {n : ℕ} (h : l.length < n) : l.take n = l :=
  List.take_of_length_le (Nat.le_of_lt h)

lemma enough_iff {found : Found} :
    found.enough q = true ↔ q.max_matches.toNat ≤ found.closematches.toNat := by
  rw [Found.enough, decide_eq_true_iff, UInt32.le_iff_toNat_le]

/-- A file that is found below the limit is counted, and it is enough exactly at the limit. -/
lemma push_count {found : Found} {n : ℕ} (f : ℕ) (hcount : found.closematches.toNat = n)
    (hlt : n < limit q) :
    (found.push q f).closematches.toNat = n + 1 ∧
      ((found.push q f).enough q = true ↔ n + 1 = limit q) := by
  have hmax := limit_lt q
  have h1 : UInt32.toNat 1 = 1 := rfl
  have hpush : (found.push q f).closematches.toNat = n + 1 := by
    show (found.closematches + 1).toNat = n + 1
    rw [UInt32.toNat_add, h1]
    omega
  refine ⟨hpush, ?_⟩
  rw [enough_iff, hpush]
  rw [limit] at hlt ⊢
  omega

/-- What a run of matches in all sets has found, before the merge goes on: what is wanted up to
the current value. It stops exactly at the limit. -/
lemma found_all {m : Merge} {found : Found} (hs : s ≠ []) (hall : ∀ t ∈ s, m.curval ∈ t)
    (hmaster : m.found.master_list
      = ((wanted q files caller s sExclude).filter (· < m.curval)).reverse)
    (hclose : m.found.closematches.toNat = m.found.master_list.length)
    (hlt : m.found.master_list.length < limit q)
    (hfound : (if picked q files caller true sExclude m.curval then m.found.push q m.curval
      else m.found) = found) :
    found.master_list = ((wanted q files caller s sExclude).filter (· ≤ m.curval)).reverse ∧
      found.closematches.toNat = found.master_list.length ∧
      found.master_list.length ≤ limit q ∧
      ((picked q files caller true sExclude m.curval && found.enough q) = true
        ↔ found.master_list.length = limit q) := by
  have hmem : m.curval ∈ wanted q files caller s sExclude
      ↔ picked q files caller true sExclude m.curval = true := by
    rw [mem_wanted_iff hs, wanted_iff, and_iff_right hall]
  rw [EqualRange.filter_le_eq wanted_ascending, List.reverse_append, ← hmaster, Bool.and_eq_true]
  subst hfound
  by_cases hp : picked q files caller true sExclude m.curval = true
  · rw [if_pos hp, if_pos (hmem.mpr hp), and_iff_right hp]
    obtain ⟨hcount, henough⟩ := push_count m.curval hclose hlt
    exact ⟨rfl, hcount, hlt, henough⟩
  · rw [if_neg hp, if_neg (mt hmem.mp hp)]
    exact ⟨rfl, hclose, hlt.le, ⟨fun h => absurd h.1 hp, fun h => absurd h hlt.ne⟩⟩

/-- The loop is left at a set without further elements: all that is wanted was found. -/
lemma collected_last {m : Merge} {set : FileSet} {P : ℕ → Bool} (hset : set ∈ s)
    (hleft : m.left = true) (hP : ∀ f ∈ set, P f = true)
    (hlist : m.found.master_list = ((wanted q files caller s sExclude).filter P).reverse)
    (hroom : m.found.master_list.length < limit q) :
    Collected q files caller s sExclude m := by
  refine ⟨fun h => Bool.noConfusion (h.symm.trans hleft), fun _ => ?_⟩
  rw [filter_wanted_eq_self hset hP] at hlist
  have hlen : (wanted q files caller s sExclude).length < limit q := by
    rwa [hlist, List.length_reverse] at hroom
  rw [hlist, take_of_lt hlen]

/-- The merge goes on at the next element of a set: nothing wanted is passed by. -/
lemma collected_next {m : Merge} {set : FileSet} {P : ℕ → Bool} (hset : set ∈ s)
    (hleft : m.left = false) (hP : ∀ f ∈ set, P f = true ↔ f < m.curval)
    (hlist : m.found.master_list = ((wanted q files caller s sExclude).filter P).reverse)
    (hcount : m.found.closematches.toNat = m.found.master_list.length)
    (hroom : m.found.master_list.length < limit q) :
    Collected q files caller s sExclude m := by
  refine ⟨fun _ => ⟨?_, hcount, hroom⟩, fun h => Bool.noConfusion (hleft.symm.trans h)⟩
  rw [hlist]
  refine congrArg List.reverse (filter_wanted_congr hset fun f hf => ?_)
  rw [Bool.eq_iff_iff, hP f hf, decide_eq_true_iff]

/-- What follows when the limit is not reached. -/
lemma collected_follow {m : Merge} {set : FileSet} {found : Found} (hset : set ∈ s)
    (hlist : found.master_list
      = ((wanted q files caller s sExclude).filter (· ≤ m.curval)).reverse)
    (hcount : found.closematches.toNat = found.master_list.length)
    (hroom : found.master_list.length < limit q) :
    Collected q files caller s sExclude (follow s.length set m found) := by
  rw [follow]
  cases hn : next set m.curval with
  | none =>
      have hbelow : ∀ f ∈ set, decide (f ≤ m.curval) = true :=
        fun f hf => decide_eq_true (next_none hn f hf)
      exact collected_last hset rfl hbelow hlist hroom
  | some k =>
      obtain ⟨-, hlt, hleast⟩ := next_some hn
      have hbelow : ∀ f ∈ set, decide (f ≤ m.curval) = true ↔ f < k := by
        intro f hf
        rw [decide_eq_true_iff]
        constructor
        · exact fun hle => lt_of_le_of_lt hle hlt
        · intro hfk
          by_contra hgt
          exact absurd (hleast f hf (Nat.lt_of_not_le hgt)) (Nat.not_le_of_lt hfk)
      exact collected_next hset rfl hbelow hlist hcount hroom

/-- What a run of matches in all sets keeps. -/
lemma collected_hit {m : Merge} {set : FileSet} (hset : set ∈ s) (hall : ∀ t ∈ s, m.curval ∈ t)
    (hmaster : m.found.master_list
      = ((wanted q files caller s sExclude).filter (· < m.curval)).reverse)
    (hclose : m.found.closematches.toNat = m.found.master_list.length)
    (hlt : m.found.master_list.length < limit q) :
    Collected q files caller s sExclude (hit q files caller sExclude s.length set m) := by
  rw [hit]
  generalize hfound : (if picked q files caller true sExclude m.curval then m.found.push q m.curval
    else m.found) = found
  obtain ⟨hlist, hcount, hle, hstop⟩ :=
    found_all (List.ne_nil_of_mem hset) hall hmaster hclose hlt hfound
  by_cases hleft : (picked q files caller true sExclude m.curval && found.enough q) = true
  · -- the limit is reached
    rw [if_pos hleft]
    refine ⟨fun h => (by cases h), fun _ => ?_⟩
    have hlen : limit q
        = ((wanted q files caller s sExclude).filter (· ≤ m.curval)).length := by
      rw [← hstop.mp hleft, hlist, List.length_reverse]
    show found.master_list = _
    rw [hlist, hlen, EqualRange.take_length_filter_le wanted_ascending]
  · rw [if_neg hleft]
    have hroom : found.master_list.length < limit q :=
      lt_of_le_of_ne hle (mt hstop.mpr hleft)
    exact collected_follow hset hlist hcount hroom

/-- **One round** keeps the invariant. -/
lemma collected_round {m m' : Merge} (hi : m.i < s.length)
    (hall : m.count.found.nmatches.toNat = s.length → m.curval ∈ s.getD m.i ∅ →
      ∀ t ∈ s, m.curval ∈ t)
    (hc : Collected q files caller s sExclude m) (hl : m.left = false)
    (h : Round q files caller s sExclude m m') : Collected q files caller s sExclude m' := by
  obtain ⟨hlist, hcount, hlt⟩ := hc.running hl
  have hset : s.getD m.i ∅ ∈ s := getD_mem hi
  cases h with
  | last h => exact collected_last hset rfl (fun f hf => decide_eq_true (h f hf)) hlist hlt
  | greater k hk hltk hleast =>
      have hbelow : ∀ f ∈ s.getD m.i ∅, decide (f < m.curval) = true ↔ f < k := by
        intro f hf
        rw [decide_eq_true_iff]
        constructor
        · exact fun hfc => hfc.trans hltk
        · intro hfk
          by_contra hge
          exact absurd (hleast f hf (Nat.le_of_not_lt hge)) (Nat.not_le_of_lt hfk)
      exact collected_next hset rfl hbelow hlist hcount hlt
  | equal hk hne =>
      exact ⟨fun _ => ⟨hlist, hcount, hlt⟩, fun h => Bool.noConfusion (hl.symm.trans h)⟩
  | all hk heq => exact collected_hit (m := m.count) hset (hall heq hk) hlist hcount hlt

lemma round_inside {m m' : Merge} (hi : m.i < s.length)
    (h : Round q files caller s sExclude m m') (hl : m'.left = false) : m'.i < s.length := by
  cases h with
  | last h => cases hl
  | greater k hk hlt hleast => exact advance_lt hi
  | equal hk hne => exact advance_lt hi
  | all hk heq =>
      obtain ⟨k, -, -, -, found, -, hhit⟩ := hit_of_left q files caller sExclude hl
      rw [hhit]
      exact advance_lt hi

variable (q files caller s sExclude) in
/-- The invariants of the merge. With more sets than a byte counts, a run of matches says
nothing, and none is ever taken for one in all sets. -/
structure Intersecting (m : Merge) : Prop where
  inside : m.left = false → m.i < s.length
  merging : s.length ≤ 255 → Merging q files caller s sExclude m
  collected : Collected q files caller s sExclude m

/-- What a run of matches as long as the list of the sets says of the current value. -/
lemma Intersecting.mem_all {m : Merge} (h : Intersecting q files caller s sExclude m)
    (hl : m.left = false) (heq : m.count.found.nmatches.toNat = s.length)
    (hk : m.curval ∈ s.getD m.i ∅) : ∀ t ∈ s, m.curval ∈ t := by
  have hbyte : m.count.found.nmatches.toNat < 2 ^ 8 := m.count.found.nmatches.toNat_lt
  have hle : s.length ≤ 255 := by omega
  obtain ⟨hi, hn⟩ := (h.merging hle).small hl
  have hcount := toNat_count hn hle
  exact mem_all_of_window hk hi (hcount.symm.trans heq) ((h.merging hle).window hl)

/-- The invariants hold after any number of rounds. -/
lemma intersecting_run (hlists : 2 ≤ s.length) (n : ℕ) :
    Intersecting q files caller s sExclude
      ((mergeStep q files caller s sExclude)^[n] Merge.start) := by
  refine run_keeps (I := Intersecting q files caller s sExclude) ?_ ?_ n
  · exact ⟨fun _ => show 0 < s.length by omega, fun _ => merging_start hlists,
      collected_start⟩
  · intro m m' hm hl h
    have hi := hm.inside hl
    exact ⟨round_inside hi h, fun hle => merging_round hlists hle (hm.merging hle) hl h,
      collected_round hi (hm.mem_all hl) hm.collected hl h⟩

/-! ### The merge returns -/

/-- One round leaves the loop, or comes closer to a bound of the files. -/
lemma round_left_or_closer (hle : s.length ≤ 255) {b : ℕ} (hb : ∀ t ∈ s, ∀ f ∈ t, f ≤ b)
    {m m' : Merge} (hm : Merging q files caller s sExclude m) (hl : m.left = false)
    (h : Round q files caller s sExclude m m') :
    m'.left = true ∨ m'.left = false ∧ distance s.length b m' < distance s.length b m := by
  obtain ⟨hi, hn⟩ := hm.small hl
  have hbound : ∀ k ∈ s.getD m.i ∅, k ≤ b := hb _ (getD_mem hi)
  cases h with
  | last h => exact Or.inl rfl
  | greater k hk hlt hleast => exact Or.inr ⟨rfl, distance_lt_of_curval hlt (hbound k hk) rfl⟩
  | equal hk hne =>
      refine Or.inr ⟨hl, ?_⟩
      rw [distance, distance]
      dsimp only
      rw [toNat_count hn hle, count_curval]
      omega
  | all hk heq =>
      cases hleft : (hit q files caller sExclude s.length (s.getD m.i ∅) m.count).left with
      | true => exact Or.inl rfl
      | false =>
          obtain ⟨k, hks, hlt, -, found, -, hhit⟩ := hit_of_left q files caller sExclude hleft
          rw [hhit]
          exact Or.inr ⟨rfl, distance_lt_of_curval hlt (hbound k hks) rfl⟩

lemma exists_left (hlists : 2 ≤ s.length) (hle : s.length ≤ 255) {b : ℕ}
    (hb : ∀ t ∈ s, ∀ f ∈ t, f ≤ b) (d : ℕ) {m : Merge}
    (hm : Merging q files caller s sExclude m) (hd : distance s.length b m < d) :
    ∃ n, ((mergeStep q files caller s sExclude)^[n] m).left = true := by
  induction d generalizing m with
  | zero => omega
  | succ d ih =>
      cases hl : m.left with
      | true => exact ⟨0, hl⟩
      | false =>
          have hround := round_mergeStep q files caller s sExclude hl
          rcases round_left_or_closer hle hb hm hl hround with hleft | ⟨-, hlt⟩
          · exact ⟨1, hleft⟩
          · obtain ⟨n, hn⟩ := ih (merging_round hlists hle hm hl hround) (by omega)
            exact ⟨n + 1, hn⟩

/-- A bound of the files in some sets. -/
lemma exists_bound (s : List FileSet) : ∃ b, ∀ t ∈ s, ∀ f ∈ t, f ≤ b := by
  induction s with
  | nil => exact ⟨0, fun t ht => absurd ht List.not_mem_nil⟩
  | cons u s ih =>
      obtain ⟨b, hb⟩ := ih
      refine ⟨max (u.sup id) b, fun t ht f hf => ?_⟩
      rcases List.mem_cons.mp ht with rfl | ht
      · exact (Finset.le_sup (f := id) hf).trans (le_max_left _ _)
      · exact (hb t ht f hf).trans (le_max_right _ _)

variable (q files caller s sExclude) in
/-- **With at most 255 sets, the merge returns.** -/
lemma exists_jmerge_returned (hlists : 2 ≤ s.length) (hle : s.length ≤ 255) :
    ∃ n, (jmerge q files caller s sExclude n).2 = true := by
  obtain ⟨b, hb⟩ := exists_bound s
  have hstart : Merging q files caller s sExclude Merge.start := merging_start hlists
  obtain ⟨n, hn⟩ := exists_left hlists hle hb _ hstart (Nat.lt_succ_self _)
  refine ⟨n, ?_⟩
  rw [jmerge, if_neg (by omega)]
  exact hn

end Merge

/-- **The merge computes the filtered intersection**: whenever it returns, what it has found are
the first `max_matches` wanted files in ascending order, or all of them if there are fewer, each
once and in descending order. -/
theorem jmerge_eq (q : Search) (files : Files) (caller : Client) (s sExclude : List FileSet)
    (n : ℕ) (hlists : 2 ≤ s.length) (hmax : 1 ≤ q.max_matches)
    (hreturned : (jmerge q files caller s sExclude n).2 = true) :
    ∃ fs : List ℕ, fs.Pairwise (· < ·) ∧ (∀ f, f ∈ fs ↔ Wanted q files caller s sExclude f) ∧
      (jmerge q files caller s sExclude n).1.master_list
        = (fs.take q.max_matches.toNat).reverse := by
  have hs : s ≠ [] := List.length_pos_iff.mp (by omega)
  have hone : ¬ s.length = 1 := by omega
  refine ⟨wanted q files caller s sExclude, wanted_ascending, fun f => mem_wanted_iff hs, ?_⟩
  rw [jmerge, if_neg hone] at hreturned ⊢
  rw [← limit_eq hmax]
  exact (intersecting_run hlists n).collected.stopped hreturned

/-- A search without words that lets every file pass, up to seven. -/
def anyFile : Search := ⟨[], 0, 1, 0, 1, 0, 1, 7⟩

/-- Files that each belong to the client with their own address. -/
def ownFiles : Files := fun f => ⟨128, 44100, ⟨f, 1, 4⟩⟩

/-- Two sets that share three files, of which one is excluded and one is the caller's own. -/
theorem jmerge_eq_three : ∃ n,
    (jmerge anyFile ownFiles ⟨2, 0, 4⟩ [{1, 2, 3, 5}, {1, 2, 3}] [{3}] n).2 = true ∧
    ∃ fs : List ℕ, fs.Pairwise (· < ·) ∧
      (∀ f, f ∈ fs ↔ Wanted anyFile ownFiles ⟨2, 0, 4⟩ [{1, 2, 3, 5}, {1, 2, 3}] [{3}] f) ∧
      (jmerge anyFile ownFiles ⟨2, 0, 4⟩ [{1, 2, 3, 5}, {1, 2, 3}] [{3}] n).1.master_list
        = (fs.take anyFile.max_matches.toNat).reverse := by
  obtain ⟨n, hn⟩ := exists_jmerge_returned anyFile ownFiles ⟨2, 0, 4⟩
    [{1, 2, 3, 5}, {1, 2, 3}] [{3}] (by decide) (by decide)
  exact ⟨n, hn, jmerge_eq _ _ _ _ _ n (by decide) (by decide) hn⟩

end Napd.Search
