import Napd.Basic
import Napd.Library.Runs

/-!
The server's connections, `server.cc`: the thread that accepts them, and the main loop that
takes them over from it, serves them and drops them.

* `Client`, `State`: the two lists, the mutex of `incoming`, and where each thread is.
* `Step`, `step`: what a thread does next, and what comes of it; any thread may go next. What
  the threads share is `incoming`, so that what happens to `clients` between two accesses to
  `incoming` is one step.
-/

namespace Napd.Server

/-- `Client`: which one it is, the address of its peer, and `flags.bit.dead`. -/
structure Client where
  id : ℕ
  ip : U32
  dead : Bool
  deriving DecidableEq

inductive Thread where
  | acceptLoop
  | main
  deriving DecidableEq

/-- Where `accept_loop` is: in `accept`, before `lock`, before `push_back`, before `unlock`. -/
inductive AcceptAt where
  | accept
  | lock (c : Client)
  | push (c : Client)
  | unlock
  deriving DecidableEq

/-- Where the main loop is: between two calls; in `check_incoming`, at an element of `incoming`
or before `unlock`; in `check_clients`, at an element of `clients`. -/
inductive MainAt where
  | idle
  | add (i : ℕ)
  | unlock
  | check (i : ℕ)
  deriving DecidableEq

/-- The server. `accepted` and `added` record the clients that `accept_loop` made, and those
that `add_connection` was called with. -/
structure State where
  incoming : List Client
  clients : List Client
  mutex : Option Thread
  acceptAt : AcceptAt
  mainAt : MainAt
  accepted : List Client
  added : List Client

/-- The server behind `open`. -/
def start : State := ⟨[], [], none, .accept, .idle, [], []⟩

/-- What a thread may do next. -/
inductive Step where
  /-- `accept` and `nonblock` return. -/
  | accept (ip : U32)
  /-- One of them throws. -/
  | acceptThrows
  | acceptLock
  | acceptPush
  | acceptUnlock
  /-- `check_incoming`, with the lock. -/
  | checkIncoming
  /-- Its loop: one call of `add_connection`. -/
  | addConnection
  /-- `incoming->clear`. -/
  | clearIncoming
  | unlockIncoming
  /-- `check_clients` and its `poll`, which may throw. -/
  | checkClients (pollThrows : Bool)
  /-- Its loop: one client is served, and one of the operations on it may throw. -/
  | serve (throws : Bool)
  /-- `check_clients` returns. -/
  | checked
  deriving DecidableEq

/-- `accept_loop` with a new client. -/
def accept (s : State) (ip : U32) : State :=
  let c : Client := ⟨s.accepted.length, ip, false⟩
  { s with acceptAt := .lock c, accepted := s.accepted ++ [c] }

/-- The loop of `add_connection`. -/
def markDead (ip : U32) (clients : List Client) : List Client :=
  clients.map fun c => if c.ip = ip then { c with dead := true } else c

/-- `add_connection`. -/
def add_connection (s : State) (lc : Client) : State :=
  { s with clients := markDead lc.ip s.clients ++ [lc], added := s.added ++ [lc] }

/-- `remove_connection`. -/
def remove_connection (s : State) (i : ℕ) : State :=
  { s with clients := s.clients.eraseIdx i }

/-- One round of the loop of `check_clients`. -/
def serve (s : State) (i : ℕ) (lc : Client) (throws : Bool) : State :=
  if lc.dead || throws then remove_connection s i else { s with mainAt := .check (i + 1) }

/-- What comes of a step; `none` if no thread is there. -/
def step (s : State) : Step → Option State
  | .accept ip => if s.acceptAt = .accept then some (accept s ip) else none
  | .acceptThrows => if s.acceptAt = .accept then some s else none
  | .acceptLock =>
      match s.acceptAt, s.mutex with
      | .lock c, none => some { s with mutex := some .acceptLoop, acceptAt := .push c }
      | _, _ => none
  | .acceptPush =>
      match s.acceptAt with
      | .push c => some { s with incoming := s.incoming ++ [c], acceptAt := .unlock }
      | _ => none
  | .acceptUnlock =>
      if s.acceptAt = .unlock then some { s with mutex := none, acceptAt := .accept } else none
  | .checkIncoming =>
      if s.mainAt = .idle ∧ s.mutex = none then
        some { s with mutex := some .main, mainAt := .add 0 } else none
  | .addConnection =>
      match s.mainAt with
      | .add i => (s.incoming[i]?).map fun c => { add_connection s c with mainAt := .add (i + 1) }
      | _ => none
  | .clearIncoming =>
      match s.mainAt with
      | .add i =>
          if i = s.incoming.length then some { s with incoming := [], mainAt := .unlock } else none
      | _ => none
  | .unlockIncoming =>
      if s.mainAt = .unlock then some { s with mutex := none, mainAt := .idle } else none
  | .checkClients pollThrows =>
      if s.mainAt = .idle then
        some (if pollThrows then s else { s with mainAt := .check 0 }) else none
  | .serve throws =>
      match s.mainAt with
      | .check i => (s.clients[i]?).map fun c => serve s i c throws
      | _ => none
  | .checked =>
      if s.mainAt = .check s.clients.length then some { s with mainAt := .idle } else none

end Napd.Server
