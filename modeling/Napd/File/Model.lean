import Napd.Command.Model

/-!
The parser of `file.cc` for an `ADD_FILE` command.

* `File`: the fields that `Parse` assigns.
* `Command.memory`: the block of a command from `data` on. The decoders look at no size, so
  what `Parse` reads is the block.
* `File.parse`: `File::Parse`, as it is compiled with `PARANOIA=0`.
-/

namespace Napd

/-- `ADD_FILE`. -/
def ADD_FILE : U16 := 100

/-- The memory the `_unshift` functions read: the block from `data` on. -/
def Command.memory (c : Command) : Option Message :=
  c.data.map fun b => ⟨c.code, b.addr, b.addr_ne, b.bytes.drop 4, c.offset⟩

/-- `File`; a null `name` or `id` is `none`. -/
structure File where
  name : Option Text
  id : Option Text
  bitrate : U32
  frequency : U32
  duration : U32
  size : U32
  deriving DecidableEq

namespace File

open Command Message

/-- `File()`: what `init` makes of the fields. -/
def init : File := ⟨none, none, 0, 0, 0, 0⟩

/-- A number of the file after `_unshift(U32 *)`, which may leave it as it was. -/
def unshifted (old : U32) : Option Value → U32
  | some (.integer x) => x.toUInt32
  | _ => old

/-- `my_strdup` of a `char *` of `Parse`. The pointer is not initialised, so a copy where
nothing was stored in it is a fault; the NUL of a token is inside the block. -/
def strdup (m : Message) (p : Option Value) : Option Text :=
  match p.map m.fetch with
  | some (.string s) => some s
  | _ => none

/-- The targets of the `UNPACK_COMMAND` in `Parse`. -/
def targets : List Target := [.string, .string, .integer, .integer, .integer, .integer]

/-- `File::Parse`: the verdict, the file, and the memory of the command after it. A file of
less than three bytes is refused; the last line of the function is `return 0`. -/
def parse (file : File) (com : Command) : Option (Bool × File × Message) := do
  let m ← com.memory
  let (vs, m) ← m.unpack targets
  match vs with
  | [name, id, size, bitrate, frequency, duration] =>
      let file := { file with
        size := unshifted file.size size
        bitrate := unshifted file.bitrate bitrate
        frequency := unshifted file.frequency frequency
        duration := unshifted file.duration duration }
      if file.size < 3 then
        return (false, file, m)
      else
        let name ← strdup m name
        let id ← strdup m id
        return (false, { file with name := some name, id := some id }, m)
  | _ => none

end File

end Napd
