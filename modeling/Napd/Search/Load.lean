import Napd.Numbers
import Napd.Search.Model
import Napd.Users

/-!
How a query sets the filters of a search: the constructor and `Load` of `search.cc`, which are
compiled out at this commit.

* `Search.new`: the constructor.
* `Clause`, `clauses`: the fields of a query, three by three, in the order in which `GetField`
  returns them. `GetField` is not in the source.
* `loadClause`, `loadFields`, `load`: the loop of `Load` and what follows it. What stands in front
  of it sets the limit; the words of a query are not taken out of it, since the call of the
  tokenizer is commented out.
-/

namespace Napd

open TernaryTree (Key)

/-- The constructor. -/
def Search.new (maxres : U32) : Search := ⟨[], 0, 0, 0, 0, 0, 0, maxres⟩

namespace Search

/-- `field`, `op` and `value` of the loop of `Load`. -/
structure Clause where
  field : Text
  op : Text
  value : Text

/-- The clauses of a query with these fields. -/
def clauses : List Text → List Clause
  | field :: op :: value :: fields => ⟨field, op, value⟩ :: clauses fields
  | _ => []

/-- `AT LEAST`. -/
def AT_LEAST : Text := ⟨[65, 84, 32, 76, 69, 65, 83, 84], by decide⟩

/-- `AT BEST`. -/
def AT_BEST : Text := ⟨[65, 84, 32, 66, 69, 83, 84], by decide⟩

/-- `CONVERT_OPTION`. -/
def convertOption (x : Text) : I32 :=
  if strcasecmp x AT_LEAST = 0 then 1 else if strcasecmp x AT_BEST = 0 then -1 else 0

/-- `Search::Field`. -/
inductive Field where
  | LINESPEED
  | BITRATE
  | FREQUENCY
  deriving DecidableEq

/-- `FILENAME`. -/
def FILENAME : Text := ⟨[70, 73, 76, 69, 78, 65, 77, 69], by decide⟩

/-- The name of a field in a query: `LINESPEED`, `BITRATE` or `FREQ`. -/
def Field.name : Field → Text
  | LINESPEED => ⟨[76, 73, 78, 69, 83, 80, 69, 69, 68], by decide⟩
  | BITRATE => ⟨[66, 73, 84, 82, 65, 84, 69], by decide⟩
  | FREQUENCY => ⟨[70, 82, 69, 81], by decide⟩

/-- What one clause sets. -/
def loadClause (q : Search) (c : Clause) : Search :=
  if strcasecmp c.field FILENAME = 0 then q
  else if strcasecmp c.field Field.BITRATE.name = 0 then
    { q with bitrate_cmp := convertOption c.op, bitrate := atoi c.value.val }
  else if strcasecmp c.field Field.FREQUENCY.name = 0 then
    { q with frequency_cmp := convertOption c.op, frequency := atoi c.value.val }
  else if strcasecmp c.field Field.LINESPEED.name = 0 then
    { q with linespeed_cmp := convertOption c.op, linespeed := atoi c.value.val }
  else q

/-- The loop of `Load`: whether it ends with the fields, and what it sets. -/
def loadFields (q : Search) : List Text → Bool × Search
  | [] => (true, q)
  | field :: op :: value :: fields => loadFields (loadClause q ⟨field, op, value⟩) fields
  | _ => (false, q)

/-- The order of strings, by their unsigned characters. -/
def stringLE (s t : Key) : Bool :=
  decide ((s.val.map fun c => c.toUInt8.toNat) ≤ t.val.map fun c => c.toUInt8.toNat)

/-- `largestLengthFirst`, as an order in which equal lengths keep their places. -/
def largestLengthFirst (s t : Key) : Bool := t.val.length ≤ s.val.length

/-- `Load`, from its loop on. -/
def load (q : Search) (fields : List Text) : Bool × Search :=
  let (ended, q) := loadFields q fields
  if !ended || q.terms.isEmpty then (false, q)
  else
    let terms := (q.terms.mergeSort stringLE).destutter (· ≠ ·)
    (true, { q with terms := terms.mergeSort largestLengthFirst })

/-! ### The values of a file -/

/-- The value that `jmerge` gives to `Compare` for a field. -/
def Field.value (F : Field) (f : File) : U32 :=
  match F with
  | LINESPEED => f.client.linespeed
  | BITRATE => f.bitrate
  | FREQUENCY => f.frequency

/-- `Compare`. -/
def Compare (q : Search) (F : Field) (comparator : I32) : Bool :=
  match F with
  | .LINESPEED => compare q.linespeed q.linespeed_cmp comparator
  | .BITRATE => compare q.bitrate q.bitrate_cmp comparator
  | .FREQUENCY => compare q.frequency q.frequency_cmp comparator

/-- The files, where a file has another value; a line speed is that of all files of its owner. -/
def Field.set (F : Field) (f : ℕ) (x : U32) (files : Files) : Files := fun g =>
  match F with
  | LINESPEED =>
      if (files g).client.addr = (files f).client.addr then
        { files g with client := { (files g).client with linespeed := x } }
      else files g
  | BITRATE => if g = f then { files g with bitrate := x } else files g
  | FREQUENCY => if g = f then { files g with frequency := x } else files g

end Search

end Napd
