import Napd.Client.Model
import Napd.Library.Runs

/-!
The hello protocol of `napd.cc`, by which the servers of a multicast group find each other.

* `outgoing`: an unconnected datagram socket, sending.
* `Node`: what the main loop works on, the two clients `napnet` and `napdirect` and their
  sockets, with the lines that it logs.
* `sayTo`: `SAY_TO`; `start`, `turn` and `leave`: the hello that is sent before the loop, one turn
  of the loop, and what is done behind it.
* `Network`: nodes and what they sent. A datagram that was sent may reach a node at any time, any
  number of times, or never.
-/

namespace Napd

namespace Napnet

open Client

/-- What `sendto` makes of a datagram: it is taken whole, or it is not. -/
inductive Sendto where
  | taken
  | again
  | error

/-- A datagram that is sent, and where to. -/
structure Packet where
  dest : Address
  bytes : List U8
  deriving DecidableEq

/-- The sending side of an unconnected datagram socket, whose state is what was sent. Without an
address there is nowhere to send to (`EDESTADDRREQ`). -/
def outgoing : Sender (List Packet) Sendto where
  send sent a dest bs :=
    match a, dest with
    | .taken, some dest => (.taken bs.length, sent ++ [⟨dest, bs⟩])
    | .taken, none => (.error, sent)
    | .again, _ => (.again, sent)
    | .error, _ => (.error, sent)

/-- `NAPNET_HELLO`. -/
def NAPNET_HELLO : U16 := 12000

/-- `NAPNET_GOODBYE`. -/
def NAPNET_GOODBYE : U16 := 12666

/-- `Address::multicast`. -/
def multicast (a : Address) : Bool := a.ip >>> 28 == 14

/-- A line of the log: `napnet hello: %s` or `napnet goodbye: %s`. -/
inductive Line where
  | hello (peer : Address)
  | goodbye (peer : Address)
  deriving DecidableEq

/-- How far the program is: in its loop, at its end, or at the `exit(1)` before the loop. -/
inductive Phase where
  | running
  | exited
  | failed
  deriving DecidableEq

/-- The main loop's state. `group` and `addr` are `napnet.addr` and `napdirect.addr`. -/
structure Node where
  group : Address
  addr : Address
  napnet : Client
  napdirect : Client
  net : Datagrams
  direct : Datagrams
  sent : List Packet
  log : List Line
  phase : Phase

/-- `SAY_TO(&napdirect, dest, code)`. -/
def sayTo (n : Node) (f : Fresh) (dest : Address) (code : U16) (answers : List Sendto) :
    Option (Progress × Node) :=
  (Command.pack f (Command.new code) []).bind fun com =>
    (n.napdirect.write outgoing f { com with peer := dest } n.sent answers).map fun r =>
      (r.1, { n with napdirect := r.2.1, sent := r.2.2 })

/-- Both sockets were just opened. -/
def opened (group addr : Address) : Node :=
  ⟨group, addr, .opened false, .opened false, ⟨[], []⟩, ⟨[], []⟩, [], [], .running⟩

/-- What is done before the loop: the hello to the group. -/
def start (group addr : Address) (f : Fresh) (answers : List Sendto) : Option Node :=
  (sayTo (opened group addr) f group NAPNET_HELLO answers).map fun r =>
    if r.1 = .thrown then { r.2 with phase := .failed } else r.2

/-- What the kernel makes of one turn of the loop: which socket is reported readable, and its
answers to what is received and sent. -/
structure Turn where
  netReady : Bool
  netFresh : Fresh
  netRecv : List (Option Address)
  replyFresh : Fresh
  replySend : List Sendto
  directReady : Bool
  directFresh : Fresh
  directRecv : List (Option Address)

/-- The `switch` over the code of a command from the group; whether it throws. -/
def dispatch (n : Node) (t : Turn) (com : Command) : Option (Bool × Node) :=
  if com.code = NAPNET_HELLO then
    let n := { n with log := n.log ++ [.hello com.peer] }
    if com.peer ≠ n.addr then
      (sayTo n t.replyFresh com.peer NAPNET_HELLO t.replySend).map fun r =>
        (decide (r.1 = .thrown), r.2)
    else some (false, n)
  else if com.code = NAPNET_GOODBYE then
    some (false, { n with log := n.log ++ [.goodbye com.peer] })
  else some (false, n)

/-- `if (p.can_read(napnet))`. -/
def hearNet (n : Node) (t : Turn) : Option (Bool × Node) :=
  if t.netReady then
    (n.napnet.read datagrams t.netFresh n.net t.netRecv).bind fun r =>
      let n := { n with napnet := r.2.1, net := r.2.2 }
      match r.1 with
      | .thrown => some (true, n)
      | .null => some (false, n)
      | .command com => dispatch n t com
  else some (false, n)

/-- `if (p.can_read(napdirect))`: the code of the command is not looked at. -/
def hearDirect (n : Node) (t : Turn) : Option (Bool × Node) :=
  if t.directReady then
    (n.napdirect.read datagrams t.directFresh n.direct t.directRecv).map fun r =>
      let n := { n with napdirect := r.2.1, direct := r.2.2 }
      match r.1 with
      | .thrown => (true, n)
      | .null => (false, n)
      | .command com => (false, { n with log := n.log ++ [.hello com.peer] })
  else some (false, n)

/-- What is done behind the loop: the goodbye, and `napnet.flush()` if that did not throw. -/
def leave (n : Node) (f : Fresh) (answers flushed : List Sendto) : Option Node :=
  (sayTo n f n.group NAPNET_GOODBYE answers).bind fun r =>
    let n := { r.2 with phase := .exited }
    if r.1 = .thrown then some n
    else
      (n.napnet.flush outgoing n.sent flushed).map fun r =>
        { n with napnet := r.2.1, sent := r.2.2 }

/-- What happens to a node: a turn of the loop, with what follows where it throws, or the end of
the loop by `do_shutdown` or a `poll` that fails. -/
inductive Event where
  | turn (t : Turn) (f : Fresh) (answers flushed : List Sendto)
  | shutdown (f : Fresh) (answers flushed : List Sendto)

/-- One turn of the loop. -/
def turn (n : Node) (t : Turn) : Option (Bool × Node) :=
  (hearNet n t).bind fun r => if r.1 then some r else hearDirect r.2 t

/-- An event at a node; behind the loop there are none. -/
def step (n : Node) (e : Event) : Option Node :=
  if n.phase = .running then
    match e with
    | .turn t f answers flushed =>
        (turn n t).bind fun r => if r.1 then leave r.2 f answers flushed else some r.2
    | .shutdown f answers flushed => leave n f answers flushed
  else some n

/-! ### The network -/

/-- An address that datagrams come from, which is never that of a group. -/
abbrev Host := {a : Address // multicast a = false}

/-- A node, and the address that its datagrams come from. -/
structure Station where
  host : Host
  node : Node

/-- The stations, in the order in which they were started. -/
abbrev Network := List Station

/-- A datagram reaches a station: from the group it was sent to, or for itself. -/
def Station.deliver (s : Station) (sender : Address) (p : Packet) : Station :=
  if p.dest = s.node.group then
    { s with node := { s.node with
        net := { s.node.net with pending := s.node.net.pending ++ [⟨sender, p.bytes⟩] } } }
  else if p.dest = s.host.val then
    { s with node := { s.node with
        direct := { s.node.direct with pending := s.node.direct.pending ++ [⟨sender, p.bytes⟩] } } }
  else s

/-- What happens in the network: a program is started, a node takes a step, or the `m`-th
datagram of the station `i` reaches the station `j`. -/
inductive Happening where
  | started (host : Host) (group addr : Address) (f : Fresh) (answers : List Sendto)
  | at (i : ℕ) (e : Event)
  | reaches (i m j : ℕ)

/-- A happening. A program whose group is no multicast address exits; a datagram that was not
sent reaches nobody. -/
def happen (s : Network) : Happening → Option Network
  | .started host group addr f answers =>
      if multicast group then
        (start group addr f answers).map fun n => s ++ [⟨host, n⟩]
      else some s
  | .at i e =>
      match s[i]? with
      | some st => (step st.node e).map fun n => s.set i { st with node := n }
      | none => some s
  | .reaches i m j =>
      match s[i]?, s[j]? with
      | some from_, some st =>
          match from_.node.sent[m]? with
          | some p => some (s.set j (st.deliver from_.host p))
          | none => some s
      | _, _ => some s

end Napnet

end Napd
