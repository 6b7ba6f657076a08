import Napd.Command.Text
import Napd.File.Model

/-!
What `Parse` makes of a packed `ADD_FILE` command.

* `Fields`: the arguments of the command, with a name and an id that a text message carries.
* `parse_packed`: the file that is parsed holds the fields that were packed.
* `accepts_iff`: yet the verdict is the right one for files of less than three bytes only.
-/

namespace Napd

namespace File

open Command Message Tokenizer

/-- A string without double quotes, and not empty. -/
abbrev Unquoted := {s : Text // s.val ≠ [] ∧ quote ∉ s.val}

/-- The arguments of an `ADD_FILE` command. -/
structure Fields where
  name : Unquoted
  id : Unquoted
  size : U32
  bitrate : U32
  frequency : U32
  duration : U32

/-- The arguments as they are pushed: `_push(U32)` pushes an `I32`. -/
def Fields.args (x : Fields) : List ArgData :=
  [.string x.name.val, .string x.id.val, .integer x.size.toInt32, .integer x.bitrate.toInt32,
    .integer x.frequency.toInt32, .integer x.duration.toInt32]

/-- The file that has the fields. -/
def Fields.file (x : Fields) : File :=
  ⟨some x.name.val, some x.id.val, x.bitrate, x.frequency, x.duration, x.size⟩

/-- `Parse` returns, with true exactly where the size is at least three, and then the file
has the fields. -/
def Accepts (file : File) (com : Command) (x : Fields) : Prop :=
  ∃ found file' m, file.parse com = some (found, file', m) ∧ (found = true ↔ 3 ≤ x.size) ∧
    (found = true → file' = x.file)

/-! ### The packed command -/

lemma plain_unquoted (s : Unquoted) : Plain (.string s.val) := by
  obtain ⟨s, hne, hquote⟩ := s
  exact ⟨hne, fun hhead => hquote (List.mem_of_mem_head? hhead), fun _ => hquote⟩

lemma plain_args (x : Fields) : ∀ y ∈ x.args, Plain y := by
  intro y hy
  simp only [Fields.args, List.mem_cons, List.not_mem_nil, or_false] at hy
  rcases hy with rfl | rfl | rfl | rfl | rfl | rfl
  · exact plain_unquoted x.name
  · exact plain_unquoted x.id
  all_goals trivial

/-- The memory of a text command that was packed from plain arguments. -/
lemma memory_pack {f : Fresh} {code : U16} {c : Command} {x : ArgData} {xs : List ArgData}
    (hcode : code < f2CodeStart) (h : ∀ y ∈ x :: xs, Plain y)
    (hpack : pack f (new code) (x :: xs) = some c) :
    ∃ m post, c.memory = some m ∧ m.offset = 0 ∧
      BeforeText m [] (word x ++ wordsBehind xs) post := by
  rw [pack_new] at hpack
  obtain ⟨b, header, space, rfl, hheader, hnul⟩ :=
    flush_text_some (backed_pushed code (x :: xs)) hcode rfl (textOf_cons_plain h) hpack
  obtain ⟨post, rfl⟩ := List.head?_eq_some_iff.mp (hnul (List.cons_ne_nil x xs))
  refine ⟨_, post, rfl, rfl, hcode, ?_, rfl⟩
  show (header ++ (word x ++ wordsBehind xs) ++ 0 :: post).drop 4 = _
  rw [List.append_assoc, List.drop_left' hheader, List.nil_append]

/-- Strings that are not cut can be packed. -/
lemma pack_short (f : Fresh) (x : Fields) (hname : x.name.val.val.length < 65535)
    (hid : x.id.val.val.length < 65535) :
    ∃ c, pack f (new ADD_FILE) x.args = some c := by
  have hsize : ∀ y ∈ x.args, argSize y ≤ 65535 := by
    intro y hy
    simp only [Fields.args, List.mem_cons, List.not_mem_nil, or_false] at hy
    rcases hy with rfl | rfl | rfl | rfl | rfl | rfl
    · exact hname
    · exact hid
    all_goals exact (by decide : 4 ≤ 65535)
  obtain ⟨b, header, space, hflush, -⟩ := flush_text f (backed_pushed ADD_FILE x.args)
    (show ADD_FILE < f2CodeStart by decide) rfl hsize (textOf_cons_plain (plain_args x))
  rw [← pack_new] at hflush
  exact ⟨_, hflush⟩

/-- What `Parse` unpacks from a packed command. -/
lemma unpack_pack {f : Fresh} {c : Command} {x : Fields}
    (hpack : pack f (new ADD_FILE) x.args = some c) :
    ∃ m vs m', c.memory = some m ∧ m.unpack targets = some (vs, m') ∧
      vs.map (Option.map m'.fetch) = x.args.map some := by
  have hplain := plain_args x
  obtain ⟨m, post, hmem, hoff, hbefore⟩ := memory_pack (by decide) hplain hpack
  obtain ⟨vs, m', hrun, -, hvs⟩ := unshiftAll_words hplain hbefore
  refine ⟨m, vs, m', hmem, ?_, hvs⟩
  rw [unpack, ← hoff]
  exact hrun

/-! ### The fields -/

lemma unshifted_fetch {m : Message} {v : Option Value} {n : U32} (old : U32)
    (h : v.map m.fetch = some (.integer n.toInt32)) : unshifted old v = n := by
  obtain ⟨w, rfl, hw⟩ := Option.map_eq_some_iff.mp h
  cases w with
  | integer k =>
      rw [fetch, ArgData.integer.injEq] at hw
      rw [unshifted, hw, UInt32.toUInt32_toInt32]
  | string p => simp [fetch] at hw
  | data p size => simp [fetch] at hw

lemma strdup_fetch {m : Message} {v : Option Value} {s : Text}
    (h : v.map m.fetch = some (.string s)) : strdup m v = some s := by
  rw [strdup, h]

/-- **A packed command is parsed**: where its size is at least three, the file has the
fields. The verdict is false. -/
lemma parse_packed {f : Fresh} {c : Command} {x : Fields} (file : File)
    (hpack : pack f (new ADD_FILE) x.args = some c) :
    ∃ file' m, file.parse c = some (false, file', m) ∧ (3 ≤ x.size → file' = x.file) := by
  obtain ⟨m, vs, m', hmem, hrun, hvs⟩ := unpack_pack hpack
  simp only [Fields.args, List.map_cons, List.map_nil, List.map_eq_cons_iff, List.map_eq_nil_iff]
    at hvs
  obtain ⟨name, _, rfl, hname, id, _, rfl, hid, size, _, rfl, hsize, bitrate, _, rfl, hbitrate,
    frequency, _, rfl, hfrequency, duration, _, rfl, hduration, rfl⟩ := hvs
  rw [parse, hmem]
  simp only [Option.bind_eq_bind, Option.bind_some, hrun, unshifted_fetch _ hsize,
    unshifted_fetch _ hbitrate, unshifted_fetch _ hfrequency, unshifted_fetch _ hduration]
  by_cases hsmall : x.size < 3
  · rw [if_pos hsmall]
    exact ⟨_, m', rfl, fun h => absurd hsmall (UInt32.not_lt.mpr h)⟩
  · rw [if_neg hsmall, strdup_fetch hname, strdup_fetch hid]
    exact ⟨_, m', rfl, fun _ => rfl⟩

/-- **The verdict on a packed command** is the right one exactly where the size is below three
bytes. Where it is not, the file has the fields, and is refused. -/
theorem accepts_iff (f : Fresh) (x : Fields) (c : Command)
    (hpack : pack f (new ADD_FILE) x.args = some c) (file : File) :
    (Accepts file c x ↔ x.size < 3) ∧
      (3 ≤ x.size → ∃ m, file.parse c = some (false, x.file, m)) := by
  obtain ⟨file', m, hparse, hfields⟩ := parse_packed file hpack
  refine ⟨?_, fun hle => ⟨m, hfields hle ▸ hparse⟩⟩
  rw [Accepts, hparse]
  constructor
  · rintro ⟨found, file'', m', hsome, hfound, -⟩
    rw [Option.some.injEq, Prod.mk.injEq] at hsome
    obtain ⟨rfl, -⟩ := hsome
    exact UInt32.not_le.mp fun hle => absurd (hfound.mpr hle) Bool.false_ne_true
  · intro hsmall
    refine ⟨false, file', m, rfl, ?_, fun h => absurd h Bool.false_ne_true⟩
    exact ⟨fun h => absurd h Bool.false_ne_true, fun hle => absurd hsmall (UInt32.not_lt.mpr hle)⟩

/-- A file of three bytes with the name `a` and the id `b`. -/
def three : Fields :=
  ⟨⟨⟨[97], by decide⟩, by decide⟩, ⟨⟨[98], by decide⟩, by decide⟩, 3, 128, 44100, 200⟩

/-- It is packed, parsed, and its verdict is false. -/
theorem accepts_iff_three :
    ∃ c, pack ⟨8, by decide, fun _ => 170⟩ (new ADD_FILE) three.args = some c ∧
      (Accepts init c three ↔ three.size < 3) ∧
      ∃ m, init.parse c = some (false, three.file, m) := by
  obtain ⟨c, hpack⟩ := pack_short ⟨8, by decide, fun _ => 170⟩ three (by decide) (by decide)
  obtain ⟨hiff, hparse⟩ := accepts_iff _ three c hpack init
  exact ⟨c, hpack, hiff, hparse (by decide)⟩

/-- `Parse` refuses a file of three bytes. -/
theorem not_accepts_three :
    ∃ c, pack ⟨8, by decide, fun _ => 170⟩ (new ADD_FILE) three.args = some c ∧
      3 ≤ three.size ∧ ¬ Accepts init c three := by
  obtain ⟨c, hpack⟩ := pack_short ⟨8, by decide, fun _ => 170⟩ three (by decide) (by decide)
  obtain ⟨file', m, hparse, -⟩ := parse_packed init hpack
  refine ⟨c, hpack, by decide, ?_⟩
  rintro ⟨found, file'', m', hsome, hfound, -⟩
  rw [hparse, Option.some.injEq, Prod.mk.injEq] at hsome
  have hfalse : found = false := hsome.1.symm
  have htrue : found = true := hfound.mpr (by decide)
  rw [hfalse] at htrue
  exact Bool.false_ne_true htrue

end File

end Napd
