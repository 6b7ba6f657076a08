import Napd.Tokenizer
import Napd.Numbers

/-!
The `Command` of `command.hh`: packing arguments into its data block, and unpacking them.

* `Command`: the fields of the class; `grow`, `push`, `flush` and `pack` as in the source.
  An access outside the data block, or a failed `assert`, is a fault (`none`).
* `Message`: what the decoders work on, the bytes `data[0..size]` and the offset. An access
  outside of them is a fault, also where the block is longer.
* `Message.unshift`, `Message.unpack`: the three `_unshift` functions and `UNPACK_COMMAND`.
-/

namespace Napd

/-- `Address`: an IPv4 address and a port. -/
structure Address where
  ip : U32 := 0
  port : U16 := 0
  deriving DecidableEq, Inhabited

/-- The data block of a command: the address of `data`, and the bytes from `data - 4` on
(the four in front of `data` take the header when the command is sent). -/
structure Block where
  addr : ℕ
  addr_ne : addr ≠ 0
  bytes : List U8

/-- What the allocator returns: where `data` comes to lie in it, and its previous contents. -/
structure Fresh where
  addr : ℕ
  addr_ne : addr ≠ 0
  contents : ℕ → U8

/-- What the `data` pointer of an argument points to; for an integer, its value. -/
inductive ArgData where
  | integer (x : I32)
  | string (s : Text)
  | data (bytes : List U8)
  deriving DecidableEq

/-- `Arg`: the 16-bit size it is announced with, and its contents. -/
structure Arg where
  size : U16
  data : ArgData

/-- `Command`. The offset is kept as a number: it never leaves the range of `I32`. -/
structure Command where
  size : U16
  code : U16
  data : Option Block
  offset : ℤ
  writer : List Arg
  peer : Address

namespace Command

open Memory

/-- `F2_CODE_START`: messages from this code on are binary. -/
def f2CodeStart : U16 := 10000

/-- `Command::INTEGER`, `Command::STRING` and `Command::DATA`, the types on the wire. -/
def INTEGER : U16 := 1
def STRING : U16 := 2
def DATA : U16 := 3

/-- `Command(Code)`. -/
def new (code : U16) : Command := ⟨0, code, none, 0, [], {}⟩

/-! ### Packing -/

/-- `sizeof(ArgHead)`. -/
def argHeadSize : ℕ := 4

/-- The type a push gives its argument. -/
def argType : ArgData → U16
  | .integer _ => INTEGER
  | .string _ => STRING
  | .data _ => DATA

/-- The number of bytes a push announces, before it is cut to 16 bits. -/
def argSize : ArgData → ℕ
  | .integer _ => 4
  | .string s => s.val.length + 1
  | .data bytes => bytes.length

/-- The argument a push puts into the writer. -/
def arg (x : ArgData) : Arg := ⟨UInt16.ofNat (argSize x), x⟩

/-- `_push`. -/
def push (c : Command) (x : ArgData) : Command := { c with writer := c.writer ++ [arg x] }

/-- The block of `new U8[s + 5] + 4`, or of `realloc(data - 4, s + 5) + 4` with the old
bytes kept, and `data[s] = 0`. -/
def block (f : Fresh) (old : List U8) (s : ℕ) : Block :=
  ⟨f.addr, f.addr_ne, (old.take (s + 5)
    ++ (List.range' old.length (s + 5 - old.length)).map f.contents).set (s + 4) 0⟩

/-- `_grow`. -/
def grow (f : Fresh) (s : ℕ) (c : Command) : Command :=
  match c.data with
  | some b => if s ≤ c.size.toNat then c else { c with data := some (block f b.bytes s) }
  | none => { c with data := some (block f [] s) }

/-- What `_flush` reserves for an argument, with four bytes for good measure. -/
def reserve (x : Arg) : ℕ := argHeadSize + x.size.toNat + 4

/-- The text of an argument; a `DATA` argument has none, and its `assert` fails. -/
def argText : ArgData → Option (List U8)
  | .integer x => some (formatLong x)
  | .string s =>
      if Tokenizer.space ∈ s.val then some (Tokenizer.quote :: (s.val ++ [Tokenizer.quote]))
      else some s.val
  | .data _ => none

/-- One round of the text loop of `_flush`; `data` is the fifth byte of the block. -/
def flushText (w : Pen U8) (x : Arg) : Option (Pen U8) := do
  let w ← if 4 < w.pos then w.put [Tokenizer.space] else some w
  let s ← argText x.data
  w.putEnd s 0

/-- The bytes `memcpy(p, …, x->size)` copies. -/
def argBytes (x : Arg) : List U8 :=
  match x.data with
  | .integer n => (hton32 n.toUInt32).take x.size.toNat
  | .string s => (s.val ++ [0]).take x.size.toNat
  | .data bytes => bytes.take x.size.toNat

/-- One round of the binary loop of `_flush`. -/
def flushBinary (w : Pen U8) (x : Arg) : Option (Pen U8) := do
  let w ← w.put (hton16 x.size)
  let w ← w.put (hton16 (argType x.data))
  w.put (argBytes x)

/-- The command when `_flush` returns: the bytes written, the size, an empty writer. -/
def stored (c : Command) (b : Block) (bytes : List U8) (size : ℕ) : Command :=
  { c with data := some { b with bytes := bytes }, size := UInt16.ofNat size, writer := [] }

/-- `_flush`. -/
def flush (f : Fresh) (c : Command) : Option Command := do
  let s := c.size.toNat + (c.writer.map reserve).sum
  let b ← (c.grow f s).data
  let w : Pen U8 := ⟨b.bytes, 4 + c.size.toNat⟩
  if c.code < f2CodeStart then
    let w ← c.writer.foldlM flushText w
    return c.stored b w.mem (w.pos - 4)
  else
    let w ← c.writer.foldlM flushBinary w
    return c.stored b w.mem s

/-- `PACK_COMMAND`: push every argument, then flush. -/
def pack (f : Fresh) (c : Command) (args : List ArgData) : Option Command :=
  (args.foldl push c).flush f

/-- The bytes `data[0..size)`. -/
def payload (c : Command) : List U8 :=
  match c.data with
  | some b => (b.bytes.drop 4).take c.size.toNat
  | none => []

/-- The copy constructor, `Command(const Command &)`. -/
def copy (f : Fresh) (c : Command) : Option Command :=
  let x : Command := { new c.code with size := c.size }
  if c.size = 0 then some x
  else if c.payload.length < c.size.toNat then none
  else do
    let b ← (x.grow f (c.size.toNat + 1)).data
    let bytes ← splice b.bytes 4 (c.payload ++ [0])
    return { x with data := some { b with bytes := bytes } }

end Command

/-! ### Unpacking -/

/-- What the decoders work on: the bytes `data[0..size]`, the address of `data`, the offset. -/
structure Message where
  code : U16
  addr : ℕ
  addr_ne : addr ≠ 0
  bytes : List U8
  offset : ℤ

/-- The types of a target: `I32 *`, `char **` and `Data *`. -/
inductive Target where
  | integer
  | string
  | data
  deriving DecidableEq

/-- What a decoder stores in its target: a number, a `char *` or a `Data`; the pointers are
positions in `data`. -/
inductive Value where
  | integer (x : I32)
  | string (p : ℕ)
  | data (p size : ℕ)
  deriving DecidableEq

/-- The message in a command's data block. -/
def Command.message (c : Command) : Option Message :=
  c.data.map fun b =>
    ⟨c.code, b.addr, b.addr_ne, (b.bytes.drop 4).take (c.size.toNat + 1), c.offset⟩

namespace Message

open Command

/-- A message as `Client::read` stores it, with a NUL at `data[size]`. -/
def received (code : U16) (addr : ℕ) (addr_ne : addr ≠ 0) (payload : List U8) : Message :=
  ⟨code, addr, addr_ne, payload ++ [0], 0⟩

lemma toNat?_natCast (p : ℕ) : (p : ℤ).toNat? = some p := rfl

/-- Read a 16-bit word in network order. -/
def read16 (m : List U8) (p : ℕ) : Option U16 := do
  let a ← m[p]?
  let b ← m[p + 1]?
  return ntoh16 a b

/-- Read a 32-bit word in network order. -/
def read32 (m : List U8) (p : ℕ) : Option U32 := do
  let a ← m[p]?
  let b ← m[p + 1]?
  let c ← m[p + 2]?
  let d ← m[p + 3]?
  return ntoh32 a b c d

/-- `offset = reader - data`, for a reader that may have become null. -/
def offsetOf (c : Message) : Option ℕ → ℤ
  | some q => q
  | none => -c.addr

/-- The text branch of `_unshift`, for an integer and a string target. What is stored in
the target is `none` when it is left untouched. -/
def unshiftText (c : Message) (t : Target) : Option (Option Value × Message) := do
  let p ← c.offset.toNat?
  let b ← c.bytes[p]?
  if b = 0 then
    return (none, c)
  else
    let r ← Tokenizer.getNextArgument c.bytes (some p)
    let c := { c with bytes := r.mem, offset := c.offsetOf r.src }
    match t, r.start with
    | .integer, some start =>
        let x := (strtoul (cstring (r.mem.drop start))).toInt32
        return (if r.found then some (.integer x) else none, c)
    | _, start => return (start.map .string, c)

/-- The binary branch of `_unshift(I32 *)`. -/
def unshiftInteger (c : Message) : Option (Option Value × Message) := do
  let p ← c.offset.toNat?
  let s ← read16 c.bytes p
  if s ≠ 4 then
    return (none, c)
  else
    let t ← read16 c.bytes (p + 2)
    if t ≠ INTEGER then
      return (none, c)
    else
      let x ← read32 c.bytes (p + 4)
      return (some (.integer x.toInt32), { c with offset := p + 4 + s.toNat })

/-- The binary branch of `_unshift(char **)`. -/
def unshiftString (c : Message) : Option (Option Value × Message) := do
  let p ← c.offset.toNat?
  let s ← read16 c.bytes p
  let t ← read16 c.bytes (p + 2)
  if t ≠ STRING then
    return (none, c)
  else if s < 1 then
    return (none, c)
  else
    let last ← c.bytes[p + 4 + s.toNat - 1]?
    if last ≠ 0 then
      return (none, c)
    else
      return (some (.string (p + 4)), { c with offset := p + 4 + s.toNat })

/-- `_unshift(Data *)`, which has no text branch. -/
def unshiftData (c : Message) : Option (Option Value × Message) := do
  let p ← c.offset.toNat?
  let s ← read16 c.bytes p
  let t ← read16 c.bytes (p + 2)
  if t ≠ DATA then
    return (none, c)
  else
    return (some (.data (p + 4) s.toNat), { c with offset := p + 4 + s.toNat })

/-- `_unshift`. -/
def unshift (c : Message) (t : Target) : Option (Option Value × Message) :=
  match t with
  | .integer => if c.code < f2CodeStart then c.unshiftText .integer else c.unshiftInteger
  | .string => if c.code < f2CodeStart then c.unshiftText .string else c.unshiftString
  | .data => c.unshiftData

/-- Successive `>>` operators: what each target is left with, and the message after them. -/
def unshiftAll (c : Message) : List Target → Option (List (Option Value) × Message)
  | [] => some ([], c)
  | t :: ts => do
      let (v, c) ← c.unshift t
      let (vs, c) ← unshiftAll c ts
      return (v :: vs, c)

/-- `UNPACK_COMMAND`: from offset 0. -/
def unpack (c : Message) (ts : List Target) : Option (List (Option Value) × Message) :=
  unshiftAll { c with offset := 0 } ts

/-- What a stored value stands for: the number, the C string, or the bytes. -/
def fetch (c : Message) : Value → ArgData
  | .integer x => .integer x
  | .string p => .string ⟨cstring (c.bytes.drop p), zero_notMem_cstring _⟩
  | .data p size => .data ((c.bytes.drop p).take size)

end Message

/-- The target an argument is unpacked into. -/
def ArgData.target : ArgData → Target
  | .integer _ => .integer
  | .string _ => .string
  | .data _ => .data

/-- Packing the arguments in one flush, and unpacking them with the same types, gives back
every argument, in order. -/
def Command.RoundTrips (f : Fresh) (code : U16) (args : List ArgData) : Prop :=
  ∃ c m vs m', pack f (new code) args = some c ∧ c.message = some m ∧
    m.unpack (args.map ArgData.target) = some (vs, m') ∧
      vs.map (Option.map m'.fetch) = args.map some

end Napd
