import Napd.Bytes
import Napd.Ternary.Multimap

/-!
The search of `search.cc`, which is compiled out at this commit.

* `Search`, `File`, `Client`: what the search reads of them. A file is known by its address,
  by which the sets of the index are ordered.
* `compare`, `passes`, `excluded`: the filters of a file.
* `scan`, `mergeStep`, `jmerge`: the path with one set, one round of the merge, and both.
* `lookUp`, `go`: `Go`; the merge is cut off after a number of rounds, since it need not end.
-/

namespace Napd

open TernaryTree (Key)

/-- `Search`: the terms, the filters and their options, and the limit. -/
structure Search where
  terms : List Key
  bitrate : I32
  bitrate_cmp : I32
  frequency : I32
  frequency_cmp : I32
  linespeed : I32
  linespeed_cmp : I32
  max_matches : U32

namespace Search

/-- `Client`: which one it is, its data port and its line speed. -/
structure Client where
  addr : ℕ
  dataport : U16
  linespeed : U32
  deriving DecidableEq

/-- `File`. -/
structure File where
  bitrate : U32
  frequency : U32
  client : Client

/-- The files at their addresses. -/
abbrev Files := ℕ → File

abbrev FileSet := Finset ℕ
abbrev FileIndex := TernaryTree ℕ

/-! ### The filters -/

/-- `Compare`, with the value and the option of the field. -/
def compare (value option comparator : I32) : Bool :=
  let cmp := comparator - value
  if option = 0 then cmp = 0
  else if option = -1 then cmp ≤ 0
  else if option = 1 then 0 ≤ cmp
  else false

/-- The condition on a file; only the merge also asks whether it is the caller's own. -/
def passes (q : Search) (files : Files) (caller : Client) (own : Bool) (f : ℕ) : Bool :=
  let curval := files f
  let curuser := curval.client
  (caller.dataport != 0 || curuser.dataport != 0)
    && compare q.bitrate q.bitrate_cmp curval.bitrate.toInt32
    && compare q.frequency q.frequency_cmp curval.frequency.toInt32
    && compare q.linespeed q.linespeed_cmp (Int32.ofNat curuser.linespeed.toNat)
    && (!own || caller.addr != curuser.addr)

/-- The loops over `sExclude`. -/
def excluded (sExclude : List FileSet) (f : ℕ) : Bool := sExclude.any fun s => f ∈ s

/-- A file that passes, and is not excluded. -/
def picked (q : Search) (files : Files) (caller : Client) (own : Bool) (sExclude : List FileSet)
    (f : ℕ) : Bool :=
  passes q files caller own f && !excluded sExclude f

/-! ### `jmerge` -/

/-- What `jmerge` keeps of its matches; `nmatches` is its `matches`, a byte. -/
structure Found where
  nmatches : U8
  closematches : U32
  master_list : List ℕ

/-- A file is found: it is put in front, and it is counted. -/
def Found.push (q : Search) (m : Found) (f : ℕ) : Found :=
  ⟨if m.nmatches.toUInt32 < q.max_matches then m.nmatches + 1 else m.nmatches, m.closematches + 1,
    f :: m.master_list⟩

/-- `closematches >= max_matches`. -/
def Found.enough (q : Search) (m : Found) : Bool := q.max_matches ≤ m.closematches

/-- The path with one set, from one of its files on. -/
def scan (q : Search) (files : Files) (caller : Client) (sExclude : List FileSet) :
    Found → List ℕ → Found
  | m, [] => m
  | m, f :: fs =>
      if picked q files caller false sExclude f then
        let m := m.push q f
        if m.enough q then m else scan q files caller sExclude m fs
      else scan q files caller sExclude m fs

/-- `lower_bound`, in a set that is ordered by address. -/
def lower_bound (s : FileSet) (f : ℕ) : Option ℕ := (s.sort (· ≤ ·)).find? fun k => f ≤ k

/-- `++k`. -/
def next (s : FileSet) (k : ℕ) : Option ℕ := (s.sort (· ≤ ·)).find? fun l => k < l

/-- The merge: the iterator over the sets, the current value, what was found, and whether the
loop is left. -/
structure Merge where
  i : ℕ
  curval : ℕ
  found : Found
  left : Bool

/-- The merge before its first round. -/
def Merge.start : Merge := ⟨0, 0, ⟨0, 0, []⟩, false⟩

/-- `++matches`. -/
def Merge.count (m : Merge) : Merge :=
  { m with found := { m.found with nmatches := m.found.nmatches + 1 } }

/-- `if (++i == i1) i = s.begin()`. -/
def advance (lists i : ℕ) : ℕ := if i + 1 = lists then 0 else i + 1

/-- The element behind `curval` in its set, if there is one, and on to the next set. -/
def follow (lists : ℕ) (s : FileSet) (m : Merge) (found : Found) : Merge :=
  match next s m.curval with
  | none => { m with found := found, left := true }
  | some k => ⟨advance lists m.i, k, { found with nmatches := 1 }, false⟩

/-- A run of matches in all sets, at the element `curval` of the set `s`. -/
def hit (q : Search) (files : Files) (caller : Client) (sExclude : List FileSet) (lists : ℕ)
    (s : FileSet) (m : Merge) : Merge :=
  let pick := picked q files caller true sExclude m.curval
  let found := if pick then m.found.push q m.curval else m.found
  if pick && found.enough q then { m with found := found, left := true }
  else follow lists s m found

/-- One round of the merge. -/
def mergeStep (q : Search) (files : Files) (caller : Client) (s sExclude : List FileSet)
    (m : Merge) : Merge :=
  if m.left then m
  else
    let set := s.getD m.i ∅
    match lower_bound set m.curval with
    | none => { m with left := true }
    | some k =>
        if k ≠ m.curval then
          ⟨advance s.length m.i, k, { m.found with nmatches := 1 }, false⟩
        else
          let m := m.count
          if m.found.nmatches.toNat = s.length then hit q files caller sExclude s.length set m
          else { m with i := advance s.length m.i }

/-- `jmerge`, for `n` rounds of the merge: what was found, and whether it has returned. -/
def jmerge (q : Search) (files : Files) (caller : Client) (s sExclude : List FileSet) (n : ℕ) :
    Found × Bool :=
  if s.length = 1 then
    (scan q files caller sExclude ⟨0, 0, []⟩ ((s.getD 0 ∅).sort (· ≤ ·)), true)
  else
    let m := (mergeStep q files caller s sExclude)^[n] Merge.start
    (m.found, m.left)

/-! ### `Go` -/

/-- `*word != '-'`. -/
def isRequired (word : Key) : Bool := word.val.head? ≠ some 45

/-- `word + 1`. -/
def behind (word : Key) : Key := ⟨word.val.tail, fun h => word.property (List.mem_of_mem_tail h)⟩

/-- `require` and `exclude`: the sets of the words that have one that is not empty. -/
def lookUp (tree : FileIndex) : List Key → Option (List FileSet × List FileSet)
  | [] => some ([], [])
  | word :: words => do
      let fs ← tree.find (if isRequired word then word else behind word)
      let (require, exclude) ← lookUp tree words
      let pushed := (fs.filter fun s => s.card ≠ 0).toList
      if isRequired word then some (pushed ++ require, exclude)
      else some (require, pushed ++ exclude)

/-- What `Go` leaves in the search: `master_list`, and the number of matches once `jmerge` has
returned. -/
structure Result where
  master_list : List ℕ
  nmatches : Option U32

/-- `Go`, for `n` rounds of the merge. -/
def go (q : Search) (files : Files) (caller : Client) (tree : FileIndex) (n : ℕ) :
    Option Result := do
  let (require, exclude) ← lookUp tree q.terms
  if require.isEmpty then some ⟨[], none⟩
  else
    let (found, returned) := jmerge q files caller require exclude n
    some ⟨found.master_list,
      if returned then some (UInt32.ofNat found.master_list.length) else none⟩

end Search

end Napd
