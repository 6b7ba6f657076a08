import Napd.Bytes
import Napd.Library.Store
import Napd.Library.TernarySearch

/-!
`ternary.hh`: `TernaryTree`, its nodes in a store and its four operations.

Reading or writing through a null pointer or a deleted node is a fault (`none`). The
loops over pointers take a bound on the number of moves, one more than the number of
nodes ever allocated: a cursor that moves more often is on a cycle, and the model calls
that a fault too. `Ternary.Multimap` proves that no run reaches a fault.
-/

namespace Napd

open Linked TernarySearch

/-- `TernaryTree::Node`. The `set<Value>` is a finite set. -/
structure TernaryTree.Node (Value : Type) where
  c : CChar
  lo : Ptr
  eq : Ptr
  hi : Ptr
  values : Finset Value

/-- `TernaryTree`: the root pointer, with the store its nodes live in. -/
structure TernaryTree (Value : Type) where
  heap : Store (TernaryTree.Node Value)
  root : Ptr

namespace TernaryTree

variable {Value : Type}

/-- `Key`: a `const char *` to a NUL-terminated string. -/
abbrev Key := CString

/-- `TernaryTree(NULL)` over a fresh store. -/
def empty : TernaryTree Value := ⟨Store.empty, none⟩

/-- `Node()`. -/
def Node.new : Node Value := ⟨32, none, none, none, ∅⟩

/-- The bound on the moves of a cursor. -/
def moves (t : TernaryTree Value) : ℕ := t.heap.next + 1

/-! ### `find` -/

/-- The loop of `find`, with the cursors `p` and `s`. -/
def findLoop (h : Store (Node Value)) : ℕ → Ptr → List CChar → Option (Option (Finset Value))
  | 0, _, _ => none
  | _ + 1, none, _ => some none
  | fuel + 1, some p, s => do
      let n ← h.read (some p)
      if peek s < n.c then findLoop h fuel n.lo s
      else if peek s = n.c then
        if peek s = 0 then some (some n.values)
        else findLoop h fuel n.eq s.tail
      else findLoop h fuel n.hi s

/-- `find`: the value set of a key, or `NULL`. -/
def find (t : TernaryTree Value) (s : Key) : Option (Option (Finset Value)) :=
  findLoop t.heap t.moves t.root s.val

/-! ### `insert` -/

/-- A place that holds a pointer: what the `Node **` of `insert` points to. -/
inductive Link where
  | root
  | lo (p : ℕ)
  | eq (p : ℕ)
  | hi (p : ℕ)
  deriving DecidableEq, Repr

/-- `*pp`. -/
def Link.get (t : TernaryTree Value) : Link → Option Ptr
  | .root => some t.root
  | .lo p => (t.heap.read (some p)).map Node.lo
  | .eq p => (t.heap.read (some p)).map Node.eq
  | .hi p => (t.heap.read (some p)).map Node.hi

/-- Change the node a pointer refers to. -/
def update (t : TernaryTree Value) (p : Ptr) (f : Node Value → Node Value) :
    Option (TernaryTree Value) := do
  let n ← t.heap.read p
  let h ← t.heap.write p (f n)
  some { t with heap := h }

/-- `*pp = q`. -/
def Link.set (t : TernaryTree Value) (q : Ptr) : Link → Option (TernaryTree Value)
  | .root => some { t with root := q }
  | .lo p => t.update (some p) fun n => { n with lo := q }
  | .eq p => t.update (some p) fun n => { n with eq := q }
  | .hi p => t.update (some p) fun n => { n with hi := q }

/-- The first loop of `insert`: it ends at the node of the whole key, or at a link that
is null, with the rest of the key. -/
def insertLoop (t : TernaryTree Value) :
    ℕ → Link → List CChar → Option (ℕ ⊕ (Link × List CChar))
  | 0, _, _ => none
  | fuel + 1, pp, s => do
      match ← pp.get t with
      | none => some (.inr (pp, s))
      | some p =>
          let n ← t.heap.read (some p)
          let d := (peek s).toInt - n.c.toInt
          if d = 0 then
            if peek s = 0 then some (.inl p)
            else insertLoop t fuel (.eq p) s.tail
          else if d < 0 then insertLoop t fuel (.lo p) s
          else insertLoop t fuel (.hi p) s

/-- One turn of the second loop of `insert`: `p = *pp = new Node; p->c = *s`. -/
def appendNode (t : TernaryTree Value) (pp : Link) (c : CChar) :
    Option (TernaryTree Value × ℕ) := do
  let p := t.heap.next
  let t ← pp.set { t with heap := t.heap.alloc Node.new } (some p)
  let t ← t.update (some p) fun n => { n with c := c }
  some (t, p)

/-- The second loop of `insert`: a node for every character left, the terminator
included. It returns the last node. -/
def appendLoop (t : TernaryTree Value) (pp : Link) : List CChar → Option (TernaryTree Value × ℕ)
  | [] => t.appendNode pp 0
  | c :: s => do
      let (t, p) ← t.appendNode pp c
      appendLoop t (.eq p) s

section

variable [DecidableEq Value]

/-- `insert`. -/
def insert (t : TernaryTree Value) (s : Key) (value : Value) : Option (TernaryTree Value) := do
  match ← t.insertLoop t.moves .root s.val with
  | .inl p => t.update (some p) fun n => { n with values := Insert.insert value n.values }
  | .inr (pp, s) =>
      let (t, p) ← t.appendLoop pp s
      t.update (some p) fun n => { n with values := Insert.insert value n.values }

end

/-! ### `erase` -/

/-- What the first loop of `erase` leaves behind: the node of the key, the last branch
and the parent of the last branch. -/
structure Trail where
  p : Ptr
  lb : Ptr
  lbp : Ptr
  deriving DecidableEq, Repr

/-- The first loop of `erase`, with the cursors `p` and `key`, the parent `pp`, and the
last branch recorded so far. -/
def eraseLoop (h : Store (Node Value)) :
    ℕ → (p pp lb lbp : Ptr) → List CChar → Option Trail
  | 0, _, _, _, _, _ => none
  | _ + 1, none, _, lb, lbp, _ => some ⟨none, lb, lbp⟩
  | fuel + 1, some p, pp, lb, lbp, key => do
      let n ← h.read (some p)
      let compare := (peek key).toInt - n.c.toInt
      if compare = 0 then
        let branch : Bool := n.lo.isSome || n.hi.isSome
        let lb := if branch then some p else lb
        let lbp := if branch then pp else lbp
        if peek key = 0 then some ⟨some p, lb, lbp⟩
        else eraseLoop h fuel n.eq (some p) lb lbp key.tail
      else if compare < 0 then eraseLoop h fuel n.lo (some p) n.lo (some p) key
      else eraseLoop h fuel n.hi (some p) n.hi (some p) key

/-- `for (p = lbr; p->lo; p = p->lo);` -/
def leftmost (h : Store (Node Value)) : ℕ → Ptr → Option Ptr
  | 0, _ => none
  | fuel + 1, p => do
      let n ← h.read p
      match n.lo with
      | none => some p
      | some q => leftmost h fuel (some q)

/-- Unlink a last branch that has neither `lo` nor `hi` from its parent. -/
def unlinkLeaf (t : TernaryTree Value) (lb lbp : Ptr) : Option (TernaryTree Value) := do
  let pn ← t.heap.read lbp
  if pn.lo = lb then t.update lbp fun n => { n with lo := none }
  else t.update lbp fun n => { n with hi := none }

/-- Put `lbr` in the place of the last branch: the root, or the link of its parent. -/
def relink (t : TernaryTree Value) (lb lbp lbr : Ptr) : Option (TernaryTree Value) :=
  match lbp with
  | none => some { t with root := lbr }
  | some q => do
      let pn ← t.heap.read (some q)
      if pn.lo = lb then t.update (some q) fun n => { n with lo := lbr }
      else if pn.hi = lb then t.update (some q) fun n => { n with hi := lbr }
      else t.update (some q) fun n => { n with eq := lbr }

/-- Hang `lbdc`, if it is not null, under the leftmost node of `lbr`. -/
def hangUnder (t : TernaryTree Value) (lbr lbdc : Ptr) : Option (TernaryTree Value) :=
  match lbdc with
  | none => some t
  | some q => do
      let p ← leftmost t.heap t.moves lbr
      t.update p fun n => { n with lo := some q }

/-- Detach what the deleted key leaves without a subtree; the result is the tree and
the pointer `dt` to the first node to delete. -/
def detach (t : TernaryTree Value) (lb lbp : Ptr) : Option (TernaryTree Value × Ptr) :=
  match lb with
  | none => some ({ t with root := none }, t.root)
  | some b => do
      let n ← t.heap.read (some b)
      if n.lo = none ∧ n.hi = none then
        let t ← t.unlinkLeaf lb lbp
        some (t, lb)
      else
        let lbr := if n.hi.isSome then n.hi else n.lo
        let lbdc := if n.lo.isSome && n.hi.isSome then n.lo else none
        let t ← t.relink lb lbp lbr
        let t ← t.hangUnder lbr lbdc
        some (t, lb)

/-- `do { p = dt; dt = p->eq; delete p; } while (dt);` -/
def deleteLoop (h : Store (Node Value)) : ℕ → Ptr → Option (Store (Node Value))
  | 0, _ => none
  | fuel + 1, dt => do
      let n ← h.read dt
      let h ← h.free dt
      match n.eq with
      | none => some h
      | some q => deleteLoop h fuel (some q)

/-- The end of `erase`, once the set at the key is empty. -/
def prune (t : TernaryTree Value) (lb lbp : Ptr) : Option (TernaryTree Value) := do
  let (t, dt) ← t.detach lb lbp
  let h ← deleteLoop t.heap t.moves dt
  some { t with heap := h }

/-- `erase(key, valuep)`; `none` for a null `valuep`. -/
def eraseAt [DecidableEq Value] (t : TernaryTree Value) (key : Key) (valuep : Option Value) :
    Option (TernaryTree Value) := do
  let w ← eraseLoop t.heap t.moves t.root none none none key.val
  match w.p with
  | none => some t
  | some p =>
      match valuep with
      | some value =>
          let t ← t.update (some p) fun n => { n with values := n.values.erase value }
          let n ← t.heap.read (some p)
          if n.values.card ≠ 0 then some t
          else t.prune w.lb w.lbp
      | none =>
          let t ← t.update (some p) fun n => { n with values := ∅ }
          t.prune w.lb w.lbp

/-- `erase(key, value)`. -/
def erase [DecidableEq Value] (t : TernaryTree Value) (key : Key) (value : Value) :
    Option (TernaryTree Value) :=
  t.eraseAt key (some value)

/-- What `erase(key, NULL)` is compiled to. There is one `erase` for a `Value` and one for a
`Value *`: an integer takes the first one, with the value 0 (`some 0`); a type that `NULL` is no
value of takes the second one, with a null pointer (`none`). -/
class OfNull (Value : Type) where
  null : Option Value

/-- `TernaryTree<int>`. -/
instance : OfNull I32 := ⟨some 0⟩

/-- `TernaryTree<File *>`, with the files at their addresses: `erase(key)` is ambiguous there, and
not called. -/
instance : OfNull ℕ := ⟨none⟩

/-- `erase(key)`. -/
def eraseKey [DecidableEq Value] [OfNull Value] (t : TernaryTree Value) (key : Key) :
    Option (TernaryTree Value) :=
  t.eraseAt key OfNull.null

end TernaryTree

end Napd
