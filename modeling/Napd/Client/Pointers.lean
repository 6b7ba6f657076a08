import Napd.Client.Connection
import Napd.Library.Store

/-!
The commands of a program in memory: `client.hh` and `client.cc` with their pointers.

* `Object`: a `Client`, with `rbuffer` and the write queue as pointers to commands.
* `fill`, `read`, `sendAll`, `flushQueue`, `flush`, `write`, `close`: the functions of the source.
  An access to a command that was deleted, or another `delete` of it, is a fault (`none`); an
  address is not used again.
* `Program`: the commands in memory, the clients, and the pointers that the program has in its
  variables: what `new` and `read` gave it. `Call`, `Program.step`: the calls, in any order.
* `Values`, `Values.step`: the same calls, with commands as values in place of pointers.
-/

namespace Napd

namespace Heap

open Linked Client

/-- A `Client`: the flag of its socket, and its pointers. -/
structure Object where
  connected : Bool
  rbuffer : Ptr
  wqueue : List ℕ

/-- How `read` ends. -/
inductive Outcome where
  | command (p : ℕ)
  | null
  | thrown

/-- The pointer that `read` returns. -/
def Outcome.pointer : Outcome → Ptr
  | .command p => some p
  | _ => none

section Reading

variable {σ α : Type} (K : Receiver σ α)

/-- The loop of `read`, on the command that `rbuffer` points to. -/
def fill (o : Object) (p : ℕ) (h : Store Command) (k : σ) (answers : List α) :
    Option (Outcome × Object × Store Command × σ) :=
  (h.read (some p)).bind fun com =>
    if com.full then
      (h.write (some p) { com with offset := 0 }).map fun h =>
        (.command p, { o with rbuffer := none }, h, k)
    else
      match answers with
      | [] => some (.null, o, h, k)
      | a :: answers => do
          let (r, com, k) ← com.receive K o.connected k a
          let h ← h.write (some p) com
          match r with
          | .bytes [] => return (.thrown, o, h, k)
          | .error => return (.thrown, o, h, k)
          | .again => return (.null, o, h, k)
          | .bytes (_ :: _) => fill o p h k answers

/-- `Client::read`. -/
def read (f : Fresh) (o : Object) (h : Store Command) (k : σ) (answers : List α) :
    Option (Outcome × Object × Store Command × σ) :=
  match o.rbuffer with
  | some p => fill K o p h k answers
  | none =>
      match answers with
      | [] => some (.null, o, h, k)
      | a :: answers =>
          let (r, _, k) := K.recv k a 4 true
          match r with
          | .bytes [] => some (.thrown, o, h, k)
          | .error => some (.thrown, o, h, k)
          | .bytes [s₁, s₀, c₁, c₀] =>
              let com := (Command.new 0).grow f (ntoh16 s₁ s₀).toNat
              fill K { o with rbuffer := some h.next } h.next
                (h.alloc { com with code := ntoh16 c₁ c₀, size := ntoh16 s₁ s₀, offset := -4 }) k
                answers
          | _ => some (.null, o, h, k)

end Reading

section Writing

variable {σ α : Type} (K : Sender σ α)

/-- The inner loop of `flush`, on the command at the front of the queue. -/
def sendAll (p : ℕ) (h : Store Command) (k : σ) (answers : List α) :
    Option (Progress × Store Command × σ × List α) :=
  (h.read (some p)).bind fun com =>
    if com.full then
      some (.done, h, k, answers)
    else
      match answers with
      | [] => some (.again, h, k, [])
      | a :: answers => do
          let (r, com, k) ← com.send K k a
          let h ← h.write (some p) com
          match r with
          | .taken 0 => return (.thrown, h, k, answers)
          | .error => return (.thrown, h, k, answers)
          | .again => return (.again, h, k, answers)
          | .taken (_ + 1) => sendAll p h k answers

/-- The outer loop of `flush`: a command that was sent is deleted and erased. -/
def flushQueue (h : Store Command) (k : σ) (answers : List α) :
    List ℕ → Option (Progress × List ℕ × Store Command × σ)
  | [] => some (.done, [], h, k)
  | p :: queue => do
      let (r, h, k, answers) ← sendAll K p h k answers
      match r with
      | .done =>
          let h ← h.free (some p)
          flushQueue h k answers queue
      | r => return (r, p :: queue, h, k)

/-- `Client::flush`. -/
def flush (o : Object) (h : Store Command) (k : σ) (answers : List α) :
    Option (Progress × Object × Store Command × σ) := do
  let (r, queue, h, k) ← flushQueue K h k answers o.wqueue
  return (r, { o with wqueue := queue }, h, k)

/-- `Client::write`. -/
def write (f : Fresh) (o : Object) (p : ℕ) (h : Store Command) (k : σ) (answers : List α) :
    Option (Progress × Object × Store Command × σ) := do
  let com ← h.read (some p)
  let com ← com.putHead f
  let h ← h.write (some p) com
  let o' := { o with wqueue := o.wqueue ++ [p] }
  if o.wqueue.isEmpty then flush K o' h k answers else return (.done, o', h, k)

end Writing

/-- `foreach (i, wqueue) delete *i`. -/
def deleteAll (h : Store Command) (queue : List ℕ) : Option (Store Command) :=
  queue.foldlM (fun h p => h.free (some p)) h

/-- `Client::close`: `rbuffer` keeps its value. -/
def close (o : Object) (h : Store Command) : Option (Object × Store Command) := do
  let h ← if o.rbuffer.isSome then h.free o.rbuffer else some h
  let h ← deleteAll h o.wqueue
  return ({ o with connected := false, wqueue := [] }, h)

/-! ### Programs -/

/-- The commands in memory, the clients that were constructed (`none` once they are destroyed), and
the pointers that the program has. -/
structure Program where
  commands : Store Command
  clients : List (Option Object)
  held : List ℕ

namespace Program

/-- A program at its start. -/
def start : Program := ⟨Store.empty, [], []⟩

/-- A client. -/
def client (s : Program) (i : ℕ) : Option Object := s.clients[i]?.join

/-- The program with a client changed, and the memory as it is then. -/
def put (s : Program) (i : ℕ) (o : Option Object) (h : Store Command) : Program :=
  { s with clients := s.clients.set i o, commands := h }

end Program

/-- The calls, with the kernel's answers: a constructor; `open`, and whether the socket is connected
then; `read`, `write`, `flush`, `close` and the destructor of a client; and `new` and `delete` of a
command by the program. A command is named by its address. -/
inductive Call where
  | construct (connected : Bool)
  | opens (i : ℕ) (connected : Bool)
  | read (i : ℕ) (f : Fresh) (answers : List (Recv × Address))
  | write (i : ℕ) (f : Fresh) (p : ℕ) (answers : List Answer)
  | flush (i : ℕ) (answers : List Answer)
  | close (i : ℕ)
  | destroy (i : ℕ)
  | make (com : {com : Command // com.Backed})
  | delete (p : ℕ)

/-- The sockets of the clients: the kernel may give any bytes, and take any number. -/
def nothing : Received := ⟨[], []⟩

/-- The program after a call. -/
def Program.step (s : Program) : Call → Option Program
  | .construct connected =>
      some { s with clients := s.clients ++ [some ⟨connected, none, []⟩] }
  | .opens i connected => (s.client i).map fun o =>
      s.put i (some { o with connected := connected, rbuffer := none }) s.commands
  | .read i f answers => (s.client i).bind fun o =>
      (Heap.read wire f o s.commands nothing answers).map fun r =>
        { s.put i (some r.2.1) r.2.2.1 with held := s.held ++ r.1.pointer.toList }
  | .write i f p answers => (s.client i).bind fun o =>
      (Heap.write sink f o p s.commands [] answers).map fun r =>
        { s.put i (some r.2.1) r.2.2.1 with held := s.held.erase p }
  | .flush i answers => (s.client i).bind fun o =>
      (Heap.flush sink o s.commands [] answers).map fun r => s.put i (some r.2.1) r.2.2.1
  | .close i => (s.client i).bind fun o =>
      (Heap.close o s.commands).map fun r => s.put i (some r.1) r.2
  | .destroy i => (s.client i).bind fun o =>
      (Heap.close o s.commands).map fun r => s.put i none r.2
  | .make com =>
      some { s with commands := s.commands.alloc com.val, held := s.held ++ [s.commands.next] }
  | .delete p => (s.commands.free (some p)).map fun h =>
      { s with commands := h, held := s.held.erase p }

/-! ### Commands as values -/

/-- The clients, and the commands that the program has. -/
structure Values where
  clients : List (Option Client)
  held : List Command

namespace Values

/-- A program at its start. -/
def start : Values := ⟨[], []⟩

/-- A client. -/
def client (v : Values) (i : ℕ) : Option Client := v.clients[i]?.join

/-- The program with a client changed. -/
def put (v : Values) (i : ℕ) (c : Option Client) : Values :=
  { v with clients := v.clients.set i c }

/-- The same calls. A command that the program has is named by its place among these. -/
def step (v : Values) : Call → Option Values
  | .construct connected => some { v with clients := v.clients ++ [some (Client.opened connected)] }
  | .opens i connected => (v.client i).map fun c =>
      v.put i (some { c with connected := connected, rbuffer := none })
  | .read i f answers => (v.client i).bind fun c =>
      (c.read wire f nothing answers).map fun r =>
        { v.put i (some r.2.1) with held := v.held ++ r.1.command?.toList }
  | .write i f n answers => (v.client i).bind fun c => v.held[n]?.bind fun com =>
      (c.write sink f com [] answers).map fun r =>
        { v.put i (some r.2.1) with held := v.held.eraseIdx n }
  | .flush i answers => (v.client i).bind fun c =>
      (c.flush sink [] answers).map fun r => v.put i (some r.2.1)
  | .close i => (v.client i).map fun _ => v.put i (some (Client.opened false))
  | .destroy i => (v.client i).map fun _ => v.put i none
  | .make com => some { v with held := v.held ++ [com.val] }
  | .delete n => v.held[n]?.map fun _ => { v with held := v.held.eraseIdx n }

end Values

/-- A call, with another name for the command that it names. -/
def Call.rename (name : ℕ → ℕ) : Call → Call
  | .write i f p answers => .write i f (name p) answers
  | .delete p => .delete (name p)
  | call => call

end Heap

end Napd
