import Napd.Users
import Napd.Library.Runs

/-!
The ignore list of `ignore.hh` and `ignore.cc`, and the journal of its changes.

* `IgnoreList`: the names and `todo`; `insertAt`, `eraseAt`, `eraseName`, `clear` and `update`
  as in the source. An iterator is the number of the elements in front of it.
* `Op`, `step`, `Call`, `call`: the calls, without `update` and with it; `none` for an iterator
  that points to no element.
* `updateIgnores`: `UpdateIgnores`, on the set of names that the database holds. It compares
  names in upper case; the set holds them in lower case.
-/

namespace Napd

namespace Ignore

/-- `IgnoreDelta::Op`. -/
inductive DeltaOp where
  | ADD
  | REMOVE
  | CLEAR
  deriving DecidableEq

/-- `IgnoreDelta`. -/
structure IgnoreDelta where
  ignoree : Text
  op : DeltaOp

/-- `IgnoreList`. -/
structure IgnoreList where
  names : List Text
  todo : List IgnoreDelta

namespace IgnoreList

/-- `IgnoreList()`. -/
def new : IgnoreList := ⟨[], []⟩

/-- `find`: the iterator, if it is not `end()`. -/
def find (l : IgnoreList) (s : Text) : Option ℕ := l.names.findIdx? fun n => strcasecmp n s = 0

/-- `exists`. -/
def contains (l : IgnoreList) (s : Text) : Bool := (l.find s).isSome

/-- `insert(i, s)`. -/
def insertAt (l : IgnoreList) (i : ℕ) (s : Text) : IgnoreList :=
  if l.contains s then l else ⟨l.names.insertIdx i s, ⟨s, .ADD⟩ :: l.todo⟩

/-- `insert(s)` and `push_back`. -/
def insert (l : IgnoreList) (s : Text) : IgnoreList := l.insertAt l.names.length s

/-- `push_front`. -/
def push_front (l : IgnoreList) (s : Text) : IgnoreList := l.insertAt 0 s

/-- `erase(i)`. -/
def eraseAt (l : IgnoreList) (i : ℕ) : Option IgnoreList :=
  (l.names[i]?).map fun s => ⟨l.names.eraseIdx i, ⟨s, .REMOVE⟩ :: l.todo⟩

/-- `erase(s)`. -/
def eraseName (l : IgnoreList) (s : Text) : Option IgnoreList :=
  match l.find s with
  | some i => l.eraseAt i
  | none => some l

/-- The loop of `clear`: the first element is erased, until there is none. -/
def clearLoop : List Text → List IgnoreDelta → List IgnoreDelta
  | [], todo => todo
  | s :: names, todo => clearLoop names (⟨s, .REMOVE⟩ :: todo)

/-- `clear`. -/
def clear (l : IgnoreList) : IgnoreList := ⟨[], clearLoop l.names l.todo⟩

/-- `update`. -/
def update (l : IgnoreList) : IgnoreList := { l with todo := [] }

end IgnoreList

/-- The calls that change the list. -/
inductive Op where
  | insert (s : Text)
  | push_front (s : Text)
  | push_back (s : Text)
  | eraseAt (i : ℕ)
  | eraseName (s : Text)
  | clear

def step (l : IgnoreList) : Op → Option IgnoreList
  | .insert s => some (l.insert s)
  | .push_front s => some (l.push_front s)
  | .push_back s => some (l.insert s)
  | .eraseAt i => l.eraseAt i
  | .eraseName s => l.eraseName s
  | .clear => some l.clear

/-- All calls. -/
inductive Call where
  | op (o : Op)
  | update

def call (l : IgnoreList) : Call → Option IgnoreList
  | .op o => step l o
  | .update => some l.update

/-- The names of a list as a set, case aside. -/
def nameSet (names : List Text) : Finset (List U8) := (names.map lower).toFinset

/-- One round of the loop of `UpdateIgnores`. -/
def consume (held : Finset (List U8)) (d : IgnoreDelta) : Finset (List U8) :=
  match d.op with
  | .ADD => Insert.insert (lower d.ignoree) held
  | .REMOVE => held.erase (lower d.ignoree)
  | .CLEAR => held

/-- `UpdateIgnores`, from the front of `todo` to its end. -/
def updateIgnores (held : Finset (List U8)) (todo : List IgnoreDelta) : Finset (List U8) :=
  todo.foldl consume held

end Ignore

end Napd
