import Napd.Client.Link
import Napd.Pollset

/-!
The main loop of `server.cc` over its connections: `add_connection`, `poll`, `check_clients` and
`remove_connection`, with the `PollSet` the server is, and a whole client at both ends of each
connection.

* `Connection`, `Server`: what the two threads of the server do with `incoming` is modelled in
  `Napd/Server/Model.lean`; here a connection comes in as it is added.
* `Kernel`: the kernel's answers to what is called for one client.
* `check_clients`: the sockets are watched in the order of the list, and each is served once.
* `Event`, `step`: a connection is added, one of its ends calls something, all are checked.
-/

namespace Napd.Serving

open Client Command Link

/-- A connection and the server's `Client` at its right end. `heard` records what the peer wrote
while it was connected. -/
structure Connection where
  id : ℕ
  fd : ℤ
  ip : U32
  dead : Bool
  link : Link
  heard : List Sendable

/-- The server. `removed` keeps the connections that were dropped, as they were then. -/
structure Server where
  clients : List Connection
  pollset : PollSet
  accepted : ℕ
  removed : List Connection

/-- The answers to the calls made for one client. -/
structure Kernel where
  fresh : Fresh
  recv : List Answer
  send : List Answer

/-- `POLLIN | POLLOUT`, what `watch` asks for by default. -/
def events : U16 := PollSet.POLLIN ||| PollSet.POLLOUT

/-- A new connection. -/
def connect (id : ℕ) (fd : ℤ) (ip : U32) : Connection := ⟨id, fd, ip, false, start, []⟩

/-- `add_connection`: connections from the same address are marked dead. -/
def add_connection (s : Server) (fd : ℤ) (ip : U32) : Server :=
  { s with
    clients := s.clients.map (fun c => if c.ip = ip then { c with dead := true } else c)
      ++ [connect s.accepted fd ip]
    accepted := s.accepted + 1 }

/-- Whether a `read` threw. -/
def readThrew : Result → Bool
  | .thrown => true
  | _ => false

/-- Whether a `flush` threw. -/
def flushThrew : Progress → Bool
  | .thrown => true
  | _ => false

/-- `lc->read()` if the client can be read: whether it throws, and the connection after it. -/
def read (k : Kernel) (c : Connection) (readable : Bool) : Option (Bool × Connection) :=
  if readable then do
    let (r, link) ← c.link.readAt .right k.fresh k.recv
    return (readThrew r, { c with link := link })
  else some (false, c)

/-- `lc->flush()` if the client can be written. -/
def flush (k : Kernel) (c : Connection) (writable : Bool) : Option (Bool × Connection) :=
  if writable then do
    let (p, link) ← c.link.sendAt .right (.flush k.send)
    return (flushThrew p, { c with link := link })
  else some (false, c)

/-- The body of the `try` of `check_clients`: whether it throws, and the connection after it. -/
def serve (p : PollSet) (k : Kernel) (c : Connection) : Option (Bool × Connection) :=
  if c.dead then some (true, c)
  else
    (p.can_read c.fd).bind fun readable =>
      (read k c readable).bind fun (throws, c) =>
        if throws then some (true, c)
        else (p.can_write c.fd).bind fun writable => flush k c writable

/-- The loop of `check_clients`: the connections that stay, and those that are removed. -/
def serveAll (p : PollSet) (kernel : ℕ → Kernel) :
    List Connection → Option (List Connection × List Connection)
  | [] => some ([], [])
  | c :: cs => do
      let (throws, c) ← serve p (kernel c.id) c
      let (kept, dropped) ← serveAll p kernel cs
      return if throws then (kept, c :: dropped) else (c :: kept, dropped)

/-- `check_clients`, with what `poll` reports for each entry of its table. -/
def check_clients (s : Server) (revents : ℕ → U16) (kernel : ℕ → Kernel) : Option Server := do
  let p ← s.pollset.round ⟨s.clients.map fun c => (c.fd, events), revents⟩
  let (kept, dropped) ← serveAll p kernel s.clients
  return { s with clients := kept, pollset := p, removed := s.removed ++ dropped }

/-- A call that is not one of `check_clients`: any call of the peer, and `write` at the server,
which is what `SAY` calls. -/
inductive Outside where
  | peerSends (x : Call)
  | peerReads (f : Fresh) (answers : List Answer)
  | write (f : Fresh) (x : Sendable) (answers : List Answer)

def Outside.act : Outside → Act
  | .peerSends x => .send .left x
  | .peerReads f answers => .read .left f answers
  | .write f x answers => .send .right (.write f x answers)

/-- A call on a connection from outside. -/
def Connection.call (c : Connection) (a : Outside) : Option Connection := do
  let link ← c.link.step a.act
  return { c with link := link, heard := c.heard ++ a.act.written .left }

/-- A call on the connection `id`, if there is one. -/
def callAt (id : ℕ) (a : Outside) : List Connection → Option (List Connection)
  | [] => some []
  | c :: cs =>
      if c.id = id then (c.call a).map fun c => c :: cs
      else (callAt id a cs).map fun cs => c :: cs

/-- What happens to the server. -/
inductive Event where
  | connect (fd : ℤ) (ip : U32)
  | call (id : ℕ) (a : Outside)
  | check (revents : ℕ → U16) (kernel : ℕ → Kernel)

/-- One event. -/
def step (s : Server) : Event → Option Server
  | .connect fd ip => some (add_connection s fd ip)
  | .call id a => (callAt id a s.clients).map fun clients => { s with clients := clients }
  | .check revents kernel => check_clients s revents kernel

/-- A server that was just opened, with the arrays of its `PollSet`. -/
def opened (index : List ℕ) (table : List Pollfd) : Server := ⟨[], ⟨index, table, 0⟩, 0, []⟩

/-- The kernel gives a new connection a descriptor that none of the others has, and below the
size of the descriptor table. -/
def Possible (cap : ℕ) (s : Server) : Event → Prop
  | .connect fd _ => PollSet.InTable cap fd ∧ fd ∉ s.clients.map Connection.fd
  | _ => True

end Napd.Serving
