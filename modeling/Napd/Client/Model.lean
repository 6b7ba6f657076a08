import Napd.Library.Framing
import Napd.Command.Packing

/-!
The `Client` of `client.hh`: commands over a non-blocking socket.

* `Receiver`, `Sender`: what the kernel makes of a `recv` and of a `send`. A call to the client
  comes with the kernel's answers to the calls it makes, in order; where they end, the kernel
  has nothing to give (`EAGAIN`).
* `Client.read`, `Client.flush` and `Client.write` as in the source. An access outside a data
  block is a fault (`none`); a `THROW` is a result, since the client outlives it.
* `Stream`, `Datagrams`: a connected stream socket and an unconnected datagram socket.
* `framing`: the frames of the protocol, for the reference parser.
-/

namespace Napd

/-- What `recv` and `recvfrom` return: the bytes they store, `EAGAIN` or `EINTR`, or an error. -/
inductive Recv where
  | bytes (bs : List U8)
  | again
  | error

/-- What `send` returns: the number of bytes it takes, `EAGAIN` or `EINTR`, or an error. -/
inductive Send where
  | taken (n : ℕ)
  | again
  | error

/-- `recv(fd, buf, len, flags)` on the state of a socket, given the kernel's answer: what it
returns, the address `recvfrom` stores, the state after it. The flag is `MSG_PEEK`. -/
structure Receiver (σ α : Type) where
  recv : σ → α → ℕ → Bool → Recv × Address × σ

/-- `send(fd, buf, len)`, or `sendto` when there is an address. -/
structure Sender (σ α : Type) where
  send : σ → α → Option Address → List U8 → Send × σ

namespace Command

open Memory

/-- `Command::full`. -/
def full (c : Command) : Bool := (c.size.toNat : ℤ) = c.offset

/-- `size - offset`, as the `U32` of a `Data`. -/
def remaining (c : Command) : ℕ := (((c.size.toNat : ℤ) - c.offset) % 4294967296).toNat

/-- `Socket::recv(Command *)`: into `data + offset`, which moves on. -/
def receive {σ α : Type} (K : Receiver σ α) (connected : Bool) (c : Command) (k : σ) (a : α) :
    Option (Recv × Command × σ) :=
  let (r, sender, k) := K.recv k a c.remaining false
  let c := if connected then c else { c with peer := sender }
  match r with
  | .bytes bs => do
      let b ← c.data
      let i ← (c.offset + 4).toNat?
      let bytes ← splice b.bytes i bs
      return (r, { c with data := some { b with bytes := bytes }, offset := c.offset + bs.length },
        k)
  | _ => some (r, c, k)

/-- The bytes up to `data + offset`, the header included. -/
def received (c : Command) : List U8 :=
  match c.data with
  | some b => b.bytes.take (c.offset + 4).toNat
  | none => []

/-- The bytes from `data + offset` on, as many as there are left to send. -/
def unsent (c : Command) : List U8 :=
  match c.data with
  | some b => (b.bytes.drop (c.offset + 4).toNat).take c.remaining
  | none => []

/-- `Socket::send(Command *)`: from `data + offset`, which moves on. -/
def send {σ α : Type} (K : Sender σ α) (c : Command) (k : σ) (a : α) :
    Option (Send × Command × σ) := do
  let b ← c.data
  let i ← (c.offset + 4).toNat?
  if i + c.remaining ≤ b.bytes.length then
    let (r, k) := K.send k a (if c.peer = {} then none else some c.peer) c.unsent
    match r with
    | .taken n => return (r, { c with offset := c.offset + n }, k)
    | _ => return (r, c, k)
  else none

/-- The header, `size` and `code` in network order, written in front of `data`; a command
without data gets a block of four bytes (`new CommandHead + 1`). -/
def putHead (f : Fresh) (c : Command) : Option Command := do
  let b := c.data.getD ⟨f.addr, f.addr_ne, (List.range 4).map f.contents⟩
  let bytes ← splice b.bytes 0 (hton16 c.size ++ hton16 c.code)
  return { c with data := some { b with bytes := bytes }, offset := -4 }

/-- The frame of a command: its header and its payload. -/
def frame (c : Command) : List U8 := hton16 c.size ++ hton16 c.code ++ c.payload

end Command

/-- `Client`: a socket, the command being read, the commands being written. -/
structure Client where
  connected : Bool
  rbuffer : Option Command
  wqueue : List Command

namespace Client

/-- A client that was just opened. -/
def opened (connected : Bool) : Client := ⟨connected, none, []⟩

/-- How `read` ends: it returns a command, returns `NULL`, or throws. -/
inductive Result where
  | command (com : Command)
  | null
  | thrown

/-- How `flush` ends: with an empty queue, by a return at `EAGAIN`, or by a throw. -/
inductive Progress where
  | done
  | again
  | thrown
  deriving DecidableEq

section Reading

variable {σ α : Type} (K : Receiver σ α)

/-- The loop of `read`: receive into `rbuffer` until it is full, then hand it out. -/
def fill (c : Client) (com : Command) (k : σ) (answers : List α) :
    Option (Result × Client × σ) :=
  if com.full then
    some (.command { com with offset := 0 }, { c with rbuffer := none }, k)
  else
    match answers with
    | [] => some (.null, { c with rbuffer := some com }, k)
    | a :: answers => do
        let (r, com, k) ← com.receive K c.connected k a
        match r with
        | .bytes [] => return (.thrown, { c with rbuffer := some com }, k)
        | .error => return (.thrown, { c with rbuffer := some com }, k)
        | .again => return (.null, { c with rbuffer := some com }, k)
        | .bytes (_ :: _) => c.fill com k answers

/-- `Client::read`. -/
def read (f : Fresh) (c : Client) (k : σ) (answers : List α) : Option (Result × Client × σ) :=
  match c.rbuffer with
  | some com => c.fill K com k answers
  | none =>
      match answers with
      | [] => some (.null, c, k)
      | a :: answers =>
          -- peek at the header; nothing is taken off the socket
          let (r, _, k) := K.recv k a 4 true
          match r with
          | .bytes [] => some (.thrown, c, k)
          | .error => some (.thrown, c, k)
          | .bytes [s₁, s₀, c₁, c₀] =>
              let com := (Command.new 0).grow f (ntoh16 s₁ s₀).toNat
              c.fill K { com with code := ntoh16 c₁ c₀, size := ntoh16 s₁ s₀, offset := -4 } k
                answers
          | _ => some (.null, c, k)

/-- Successive calls of `read`, each with the kernel's answers to it. -/
def reads (c : Client) (k : σ) : List (Fresh × List α) → Option (List Result × Client × σ)
  | [] => some ([], c, k)
  | (f, answers) :: calls => do
      let (r, c, k) ← c.read K f k answers
      let (rs, c, k) ← c.reads k calls
      return (r :: rs, c, k)

/-- The command a `read` returned. -/
def Result.command? : Result → Option Command
  | .command com => some com
  | _ => none

/-- The commands among the results of successive calls. -/
def commands (rs : List Result) : List Command := rs.filterMap Result.command?

/-- The bytes that were received into `rbuffer`. -/
def held (c : Client) : List U8 :=
  match c.rbuffer with
  | some com => com.received
  | none => []

end Reading

section Writing

variable {σ α : Type} (K : Sender σ α)

/-- The inner loop of `flush`: send a command until it is full. -/
def sendAll (com : Command) (k : σ) (answers : List α) :
    Option (Progress × Command × σ × List α) :=
  if com.full then
    some (.done, com, k, answers)
  else
    match answers with
    | [] => some (.again, com, k, [])
    | a :: answers => do
        let (r, com, k) ← com.send K k a
        match r with
        | .taken 0 => return (.thrown, com, k, answers)
        | .error => return (.thrown, com, k, answers)
        | .again => return (.again, com, k, answers)
        | .taken (_ + 1) => sendAll com k answers

/-- The outer loop of `flush`: a command that was sent is deleted and erased. -/
def flushQueue (k : σ) (answers : List α) : List Command → Option (Progress × List Command × σ)
  | [] => some (.done, [], k)
  | com :: queue => do
      let (p, com, k, answers) ← sendAll K com k answers
      match p with
      | .done => flushQueue k answers queue
      | p => return (p, com :: queue, k)

/-- `Client::flush`. -/
def flush (c : Client) (k : σ) (answers : List α) : Option (Progress × Client × σ) := do
  let (p, queue, k) ← flushQueue K k answers c.wqueue
  return (p, { c with wqueue := queue }, k)

/-- `Client::write`: queue the command, and flush if the queue was empty. -/
def write (f : Fresh) (c : Client) (com : Command) (k : σ) (answers : List α) :
    Option (Progress × Client × σ) := do
  let com ← com.putHead f
  let c' := { c with wqueue := c.wqueue ++ [com] }
  if c.wqueue.isEmpty then c'.flush K k answers else return (.done, c', k)

end Writing

end Client

/-! ### Sockets -/

/-- The frames of the protocol: `size` and `code`, then `size` bytes. -/
def framing : Framing U8 where
  head := 4
  head_pos := by omega
  announced
    | s₁ :: s₀ :: _ => (ntoh16 s₁ s₀).toNat
    | _ => 0

/-- How the kernel answers a call on a stream: with one byte and up to `n` more, with 0 (the
peer closed the connection), with `EAGAIN` or `EINTR`, or with another error. -/
inductive Answer where
  | bytes (n : ℕ)
  | closed
  | again
  | error

/-- The receiving side of a connected stream: what was received, and what is still to come. -/
structure Stream where
  consumed : List U8
  pending : List U8

/-- `recv` on a stream: some bytes from the front, at most `len`. -/
def Stream.recv (k : Stream) (a : Answer) (len : ℕ) (peek : Bool) : Recv × Address × Stream :=
  match a with
  | .bytes n =>
      let bs := k.pending.take (min (n + 1) len)
      if k.pending = [] then (.again, {}, k)
      else if peek then (.bytes bs, {}, k)
      else (.bytes bs, {}, ⟨k.consumed ++ bs, k.pending.drop (min (n + 1) len)⟩)
  | .closed => (.bytes [], {}, k)
  | .again => (.again, {}, k)
  | .error => (.error, {}, k)

/-- The receiving side of a stream socket. -/
def stream : Receiver Stream Answer := ⟨Stream.recv⟩

/-- `send` on a connected stream, whose state is what the kernel accepted so far. -/
def sink : Sender (List U8) Answer where
  send accepted a _ bs :=
    match a with
    | .bytes n =>
        (.taken (min (n + 1) bs.length), accepted ++ bs.take (min (n + 1) bs.length))
    | .closed => (.taken 0, accepted)
    | .again => (.again, accepted)
    | .error => (.error, accepted)

/-- A datagram, and where it comes from. -/
structure Datagram where
  sender : Address
  bytes : List U8
  deriving DecidableEq

/-- The receiving side of a datagram socket: what was received, and what is still to come. -/
structure Datagrams where
  consumed : List Datagram
  pending : List Datagram

/-- `recvfrom` on a datagram socket, when the kernel is ready or not: the front datagram, cut
to `len`. Where nothing is received, the address stored is whatever stood on the stack. -/
def Datagrams.recv (k : Datagrams) (a : Option Address) (len : ℕ) (peek : Bool) :
    Recv × Address × Datagrams :=
  match a, k.pending with
  | none, d :: ds =>
      (.bytes (d.bytes.take len), d.sender, if peek then k else ⟨k.consumed ++ [d], ds⟩)
  | none, [] => (.again, {}, k)
  | some garbage, _ => (.again, garbage, k)

/-- An unconnected datagram socket. -/
def datagrams : Receiver Datagrams (Option Address) := ⟨Datagrams.recv⟩

end Napd
