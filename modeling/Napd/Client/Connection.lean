import Napd.Client.Model
import Napd.Library.Runs

/-!
One `Client` over several connections: `open`, `close` and `_clear` of `client.cc`, and the calls
of `socket.cc` they make.

* `Received`, `wire`: what was received on a connection. The kernel may answer a `recv` with any
  bytes, so that the results hold for every type of socket.
* `Session`: the client, what is left of its flags, and what was received, sent and written since
  the last `open`. `deleted` tells that `rbuffer` points to a command that `close` has deleted.
* `_clear`, `Socket.close`, `Socket.open`, `open`, `read`, `write`, `flush`, `close`: the functions
  of the source. `none` is an access to a command that was deleted.
* `Call`, `step`: the calls, with the kernel's answers to them.
-/

namespace Napd

/-- What was received: what each peek showed, and the bytes that were taken. -/
structure Received where
  peeked : List (List U8)
  taken : List U8

/-- `recv` and `recvfrom`: any bytes, at most `len`, and any address. -/
def Received.recv (k : Received) (a : Recv × Address) (len : ℕ) (peek : Bool) :
    Recv × Address × Received :=
  match a.1 with
  | .bytes bs =>
      if peek then (.bytes (bs.take len), a.2, ⟨k.peeked ++ [bs.take len], k.taken⟩)
      else (.bytes (bs.take len), a.2, ⟨k.peeked, k.taken ++ bs.take len⟩)
  | r => (r, a.2, k)

/-- The receiving side of a connection. -/
def wire : Receiver Received (Recv × Address) := ⟨Received.recv⟩

/-- A client and its connection. -/
structure Session where
  client : Client
  opened : Bool
  deleted : Bool
  received : Received
  sent : List U8
  written : List Command

namespace Session

/-- `Client()`. -/
def new : Session := ⟨Client.opened false, false, false, ⟨[], []⟩, [], []⟩

/-- `_clear`. -/
def _clear (s : Session) : Session :=
  { s with client := { s.client with rbuffer := none }, deleted := false }

/-- `Socket::close`. -/
def Socket.close (s : Session) : Session :=
  { s with client := { s.client with connected := false }, opened := false }

/-- `Socket::open`, if `socket` succeeds or not: a new connection. -/
def Socket.open (s : Session) (socket : Bool) : Session :=
  let s := if s.opened then Socket.close s else s
  { s with opened := socket, received := ⟨[], []⟩, sent := [], written := [] }

/-- The overloads of `open`: without an address, to one, and from one to another. -/
inductive Overload where
  | plain
  | toPeer
  | fromTo

/-- `open`, with what comes of `socket`, `bind` and `connect`: whether it returns, and the
session. -/
def openWith (s : Session) (o : Overload) (socket bind connect : Bool) : Bool × Session :=
  let s := Socket.open s._clear socket
  let connected := { s with client := { s.client with connected := true } }
  if socket then
    match o with
    | .plain => (true, s)
    | .toPeer => if connect then (true, connected) else (false, s)
    | .fromTo => if bind && connect then (true, connected) else (false, s)
  else (false, s)

/-- The kernel's answers on a descriptor that is not open. -/
def recvAnswers (s : Session) (answers : List (Recv × Address)) : List (Recv × Address) :=
  if s.opened then answers else answers.map fun a => (.error, a.2)

def sendAnswers (s : Session) (answers : List Answer) : List Answer :=
  if s.opened then answers else answers.map fun _ => .error

/-- `read`. -/
def read (f : Fresh) (s : Session) (answers : List (Recv × Address)) :
    Option (Client.Result × Session) :=
  if s.deleted then none
  else do
    let (r, c, k) ← s.client.read wire f s.received (s.recvAnswers answers)
    return (r, { s with client := c, received := k })

/-- `write`. -/
def write (f : Fresh) (s : Session) (com : Command) (answers : List Answer) :
    Option (Client.Progress × Session) := do
  let (p, c, sent) ← s.client.write sink f com s.sent (s.sendAnswers answers)
  return (p, { s with client := c, sent := sent, written := s.written ++ [com] })

/-- `flush`. -/
def flush (s : Session) (answers : List Answer) : Option (Client.Progress × Session) := do
  let (p, c, sent) ← s.client.flush sink s.sent (s.sendAnswers answers)
  return (p, { s with client := c, sent := sent })

/-- `close`: `rbuffer` is deleted, and keeps its value. -/
def close (s : Session) : Option Session :=
  if s.deleted then none
  else
    let s := { s with deleted := s.client.rbuffer.isSome, client := { s.client with wqueue := [] } }
    some (Socket.close s)

/-- The calls. The block of a command that is written holds its payload. -/
inductive Call where
  | openWith (o : Overload) (socket bind connect : Bool)
  | read (f : Fresh) (answers : List (Recv × Address))
  | write (f : Fresh) (com : {com : Command // com.Backed}) (answers : List Answer)
  | flush (answers : List Answer)
  | close

/-- The session after a call, and the command it returns. -/
def call (s : Session) : Call → Option (Option Command × Session)
  | .openWith o socket bind connect => some (none, (s.openWith o socket bind connect).2)
  | .read f answers => (s.read f answers).map fun r => (r.1.command?, r.2)
  | .write f com answers => (s.write f com.val answers).map fun r => (none, r.2)
  | .flush answers => (s.flush answers).map fun r => (none, r.2)
  | .close => s.close.map fun s => (none, s)

/-- The session after a call. -/
def step (s : Session) (i : Call) : Option Session := (s.call i).map Prod.snd

end Session

end Napd
