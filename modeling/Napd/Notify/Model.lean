import Napd.Channel.Model
import Napd.Library.Store
import Napd.Library.Runs

/-!
Notifies, `notify.hh` and `notify.cc`: who wants to be told about whom.

* `NotifyManager`: the key strings that are allocated, the multimap in its order, and
  `notifies`, the list of keys of each client. Keys and clients are known by their addresses.
* `equal_range`, `lookup`, `insert`: the searches of the multimap. They read keys, and a key
  that is freed cannot be read: `none` stands for an access to freed memory.
* `add`, `remove`, `ClearNotifies`: the functions of the source; `Op`, `step`: their calls.
-/

namespace Napd

namespace Notify

open Linked

/-- `NotifyManager`, with the strings its keys point to and the `notifies` of the clients. -/
structure NotifyManager where
  strings : Store Text
  map : List (ℕ × ℕ)
  notifies : ℕ → List ℕ

def NOTIFY_CLEAR : U16 := 316

/-- The number of elements in front of `lower_bound`. -/
def lower_bound (keys : List Text) (s : Text) : ℕ := (keys.takeWhile fun t => ltistr t s).length

/-- The number of elements in front of `upper_bound`. -/
def upper_bound (keys : List Text) (s : Text) : ℕ := (keys.takeWhile fun t => !ltistr s t).length

namespace NotifyManager

/-- `NotifyManager()`, and clients that have no notifies. -/
def new : NotifyManager := ⟨Store.empty, [], fun _ => []⟩

/-- The texts of the keys, in the order of the map. A search may compare with any of them. -/
def keys (m : NotifyManager) : Option (List Text) :=
  m.map.mapM fun p => m.strings.read (some p.1)

/-- `equal_range`. -/
def equal_range (m : NotifyManager) (s : Text) : Option (ℕ × ℕ) :=
  m.keys.map fun l => (lower_bound l s, upper_bound l s)

/-- `find`: the position, if it is not `end()`. -/
def find (m : NotifyManager) (s : Text) : Option (Option ℕ) :=
  m.keys.map fun l =>
    match l[lower_bound l s]? with
    | none => none
    | some t => if ltistr s t then none else some (lower_bound l s)

/-- `insert(NotifyPair(key, client))`: behind the elements with an equal key. -/
def insert (m : NotifyManager) (key client : ℕ) : Option NotifyManager := do
  let s ← m.strings.read (some key)
  let l ← m.keys
  let i := upper_bound l s
  some { m with map := m.map.take i ++ (key, client) :: m.map.drop i }

/-- `add`, and what it returns. -/
def add (m : NotifyManager) (notifier : Text) (requester : ℕ) :
    Option (Bool × NotifyManager) := do
  let p ← m.equal_range notifier
  if p.1 = p.2 then
    let newkey := m.strings.next
    let m ← { m with strings := m.strings.alloc notifier }.insert newkey requester
    let notifies := Function.update m.notifies requester (newkey :: m.notifies requester)
    some (true, { m with notifies := notifies })
  else
    let newkey ← m.map[p.1]?.map Prod.fst
    if ((m.map.take p.2).drop p.1).any fun e => e.2 = requester then some (false, m)
    else
      let m ← m.insert newkey requester
      let notifies := Function.update m.notifies requester (newkey :: m.notifies requester)
      some (true, { m with notifies := notifies })

/-- The loop of `remove`: what it leaves of a range, and how many elements it erases. -/
def eraseClient (requester : ℕ) : List (ℕ × ℕ) → List (ℕ × ℕ) × ℕ
  | [] => ([], 0)
  | e :: es =>
      let r := eraseClient requester es
      if e.2 = requester then (r.1, r.2 + 1) else (e :: r.1, r.2)

/-- `remove`: the pairs of the requester in a range are erased, and the key leaves the list of
the requester. How many pairs there were comes first. -/
def removePairs (m : NotifyManager) (p : ℕ × ℕ) (oldkey requester : ℕ) : ℕ × NotifyManager :=
  let r := eraseClient requester ((m.map.take p.2).drop p.1)
  let m := { m with map := m.map.take p.1 ++ r.1 ++ m.map.drop p.2 }
  (r.2,
    if r.2 = 0 then m
    else
      { m with
        notifies := Function.update m.notifies requester ((m.notifies requester).erase oldkey) })

/-- `remove`: the key is freed if that was its last pair. -/
def freeUnused (m : NotifyManager) (oldkey : ℕ) : Option NotifyManager := do
  let s ← m.strings.read (some oldkey)
  let i ← m.find s
  if i = none then
    let strings ← m.strings.free (some oldkey)
    some { m with strings := strings }
  else some m

/-- `remove`, and what it returns. -/
def remove (m : NotifyManager) (notifier : Text) (requester : ℕ) :
    Option (Bool × NotifyManager) := do
  let p ← m.equal_range notifier
  if p.1 = p.2 then some (false, m)
  else
    let oldkey ← m.map[p.1]?.map Prod.fst
    let r := m.removePairs p oldkey requester
    let m ← r.2.freeUnused oldkey
    some (decide (r.1 ≠ 0), m)

/-- The loop of `ClearNotifies`. Each key is passed to `remove` as it lies in the list. -/
def removeEach (caller : ℕ) (m : NotifyManager) : List ℕ → Option NotifyManager
  | [] => some m
  | k :: ks => do
      let notifier ← m.strings.read (some k)
      let r ← m.remove notifier caller
      removeEach caller r.2 ks

/-- `ClearNotifies`, and what it says to the caller. -/
def ClearNotifies (m : NotifyManager) (caller : ℕ) : Option (Said × NotifyManager) := do
  let copy := m.notifies caller
  let m ← removeEach caller m copy
  some (⟨NOTIFY_CLEAR, [.integer (Int32.ofNat copy.length)]⟩, m)

end NotifyManager

/-- The calls. -/
inductive Op where
  | add (notifier : Text) (requester : ℕ)
  | remove (notifier : Text) (requester : ℕ)
  | clear (caller : ℕ)

/-- The state after a call. -/
def step (m : NotifyManager) : Op → Option NotifyManager
  | .add notifier requester => (m.add notifier requester).map Prod.snd
  | .remove notifier requester => (m.remove notifier requester).map Prod.snd
  | .clear caller => (m.ClearNotifies caller).map Prod.snd

end Notify

end Napd
