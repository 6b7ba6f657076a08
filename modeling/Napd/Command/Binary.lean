import Napd.Command.Packing

/-!
The round trip of a binary message.

* `unshift_record`: in front of the record of an argument, the decoder for its type takes
  exactly that record and hands back the argument.
* `binary_roundTrips`: a list of arguments packed in one flush is unpacked unchanged.
-/

namespace Napd

namespace Command

open Message

/-! ### Reading a record -/

/-- The bytes of an argument that is not cut. -/
def body : ArgData → List U8
  | .integer x => hton32 x.toUInt32
  | .string s => s.val ++ [0]
  | .data bytes => bytes

lemma body_length (x : ArgData) : (body x).length = argSize x := by
  cases x with
  | integer x => rfl
  | string s => simp [body, argSize]
  | data bytes => rfl

/-- An argument whose size fits in 16 bits is written whole. -/
lemma argRecord_arg {x : ArgData} (h : argSize x ≤ 65535) :
    argRecord (arg x)
      = hton16 (UInt16.ofNat (argSize x)) ++ (hton16 (argType x) ++ body x) := by
  have hsize : (UInt16.ofNat (argSize x)).toNat = argSize x := by
    rw [UInt16.toNat_ofNat']
    omega
  have hbytes : argBytes (arg x) = body x := by
    cases x with
    | integer x => rfl
    | string s =>
        show (s.val ++ [0]).take (UInt16.ofNat (argSize (.string s))).toNat = s.val ++ [0]
        rw [hsize]
        exact List.take_of_length_le (by simp [argSize])
    | data bytes =>
        show bytes.take (UInt16.ofNat (argSize (.data bytes))).toNat = bytes
        rw [hsize]
        exact List.take_of_length_le (le_refl _)
  rw [argRecord, hbytes]
  rfl

lemma read16_append (pre rest : List U8) (x : U16) :
    read16 (pre ++ (hton16 x ++ rest)) pre.length = some x := by
  simpa [read16, hton16] using ntoh16_hton16 x

lemma read32_append (pre rest : List U8) (x : U32) :
    read32 (pre ++ (hton32 x ++ rest)) pre.length = some x := by
  simpa [read32, hton32] using ntoh32_hton32 x

/-- A message decoded up to `rest`. -/
structure Before (m : Message) (pre rest : List U8) : Prop where
  binary : ¬ m.code < f2CodeStart
  bytes : m.bytes = pre ++ rest
  offset : m.offset = pre.length

/-- A decoder hands back the argument in front of it, and stands behind its record. -/
def Hands (m : Message) (x : ArgData) (pre rest : List U8) : Prop :=
  ∃ v m', m.unshift x.target = some (some v, m') ∧ m.fetch v = x ∧
    m'.bytes = m.bytes ∧ Before m' (pre ++ argRecord (arg x)) rest

/-- What a decoder reads of the record in front of it: the two words of its header, and the
bytes of its argument. -/
structure AtRecord (m : Message) (x : ArgData) (pre rest : List U8) : Prop where
  size_le : argSize x ≤ 65535
  before : Before m pre (argRecord (arg x) ++ rest)
  size : read16 m.bytes pre.length = some (UInt16.ofNat (argSize x))
  type : read16 m.bytes (pre.length + 2) = some (argType x)
  body : m.bytes.drop (pre.length + 4) = body x ++ rest

lemma Before.atRecord {m : Message} {x : ArgData} {pre rest : List U8} (hx : argSize x ≤ 65535)
    (h : Before m pre (argRecord (arg x) ++ rest)) : AtRecord m x pre rest := by
  have hbytes : m.bytes = pre ++ (hton16 (UInt16.ofNat (argSize x))
      ++ (hton16 (argType x) ++ (Command.body x ++ rest))) := by
    rw [h.bytes, argRecord_arg hx]
    simp only [List.append_assoc]
  refine ⟨hx, h, ?_, ?_, ?_⟩
  · rw [hbytes]
    exact read16_append _ _ _
  · rw [hbytes, ← List.append_assoc pre]
    have := read16_append (pre ++ hton16 (UInt16.ofNat (argSize x))) (Command.body x ++ rest)
      (argType x)
    rwa [List.length_append, hton16_length] at this
  · rw [hbytes, ← List.append_assoc, ← List.append_assoc]
    exact List.drop_left' (by simp)

namespace AtRecord

variable {m : Message} {x : ArgData} {pre rest : List U8}

lemma size_toNat (h : AtRecord m x pre rest) :
    (UInt16.ofNat (argSize x)).toNat = argSize x := by
  have hx := h.size_le
  rw [UInt16.toNat_ofNat']
  omega

/-- Behind its header and its bytes, the record is taken. -/
lemma next (h : AtRecord m x pre rest) :
    Before { m with offset := (pre.length + 4 + argSize x : ℕ) } (pre ++ argRecord (arg x))
      rest := by
  refine ⟨h.before.binary, ?_, ?_⟩
  · rw [h.before.bytes, List.append_assoc]
  · rw [argRecord_arg h.size_le]
    simp only [List.length_append, hton16_length, body_length]
    omega

lemma read32_body {x : I32} (h : AtRecord m (.integer x) pre rest) :
    read32 m.bytes (pre.length + 4) = some x.toUInt32 := by
  have hlen : (m.bytes.take (pre.length + 4)).length = pre.length + 4 := by
    have hle : pre.length + 4 < m.bytes.length := by
      have := congrArg List.length h.body
      rw [List.length_drop, List.length_append, body_length, argSize] at this
      omega
    rw [List.length_take]
    omega
  have hsplit : m.bytes = m.bytes.take (pre.length + 4) ++ (hton32 x.toUInt32 ++ rest) := by
    conv_lhs => rw [← List.take_append_drop (pre.length + 4) m.bytes, h.body]
    rfl
  calc read32 m.bytes (pre.length + 4)
      = read32 (m.bytes.take (pre.length + 4) ++ (hton32 x.toUInt32 ++ rest))
          (m.bytes.take (pre.length + 4)).length := by rw [← hsplit, hlen]
    _ = some x.toUInt32 := read32_append _ _ _

lemma unshiftInteger {x : I32} (h : AtRecord m (.integer x) pre rest) :
    Hands m (.integer x) pre rest := by
  refine ⟨.integer x, { m with offset := (pre.length + 4 + 4 : ℕ) }, ?_, rfl, rfl, h.next⟩
  rw [ArgData.target, unshift, if_neg h.before.binary, Message.unshiftInteger, h.before.offset]
  simp only [toNat?_natCast, Option.bind_eq_bind, Option.bind_some, h.size, h.type, h.read32_body]
  rfl

lemma unshiftString {s : Text} (h : AtRecord m (.string s) pre rest) :
    Hands m (.string s) pre rest := by
  -- The last byte of the record is the terminator the decoder looks for.
  have hlast : m.bytes[pre.length + 4 + argSize (.string s) - 1]? = some 0 :=
    calc m.bytes[pre.length + 4 + argSize (.string s) - 1]?
        = (m.bytes.drop (pre.length + 4))[s.val.length]? := by rw [List.getElem?_drop]; rfl
      _ = (s.val ++ [0] ++ rest)[s.val.length]? := by rw [h.body]; rfl
      _ = some 0 := by simp
  have hpos : ¬ UInt16.ofNat (argSize (.string s)) < 1 := by
    rw [UInt16.lt_iff_toNat_lt, h.size_toNat]
    simp [argSize]
  have hstr : cstring (m.bytes.drop (pre.length + 4)) = s.val := by
    rw [h.body, Command.body, List.append_assoc]
    exact cstring_append s.property rest
  refine ⟨.string (pre.length + 4),
    { m with offset := (pre.length + 4 + argSize (.string s) : ℕ) }, ?_, ?_, rfl, h.next⟩
  · rw [ArgData.target, unshift, if_neg h.before.binary, Message.unshiftString, h.before.offset]
    simp only [toNat?_natCast, Option.bind_eq_bind, Option.bind_some, h.size, h.type, if_neg hpos,
      h.size_toNat, hlast]
    rfl
  · rw [fetch]
    exact congrArg ArgData.string (Subtype.ext hstr)

lemma unshiftData {bytes : List U8} (h : AtRecord m (.data bytes) pre rest) :
    Hands m (.data bytes) pre rest := by
  refine ⟨.data (pre.length + 4) (argSize (.data bytes)),
    { m with offset := (pre.length + 4 + argSize (.data bytes) : ℕ) }, ?_, ?_, rfl, h.next⟩
  · rw [ArgData.target, unshift, Message.unshiftData, h.before.offset]
    simp only [toNat?_natCast, Option.bind_eq_bind, Option.bind_some, h.size, h.type, h.size_toNat]
    rfl
  · rw [fetch, h.body]
    exact congrArg ArgData.data (List.take_left' rfl)

end AtRecord

/-- **One record**: the decoder takes exactly the record of the argument. -/
lemma unshift_record {m : Message} {x : ArgData} {pre rest : List U8} (hx : argSize x ≤ 65535)
    (h : Before m pre (argRecord (arg x) ++ rest)) : Hands m x pre rest := by
  have hrec := h.atRecord hx
  cases x with
  | integer x => exact hrec.unshiftInteger
  | string s => exact hrec.unshiftString
  | data bytes => exact hrec.unshiftData

/-! ### A list of records -/

/-- **A list of records** is unpacked into the arguments it was packed from. -/
lemma unshiftAll_records {m : Message} {args : List ArgData} {pre rest : List U8}
    (hargs : ∀ x ∈ args, argSize x ≤ 65535)
    (h : Before m pre ((args.map arg).flatMap argRecord ++ rest)) :
    ∃ vs m', m.unshiftAll (args.map ArgData.target) = some (vs, m') ∧
      m'.bytes = m.bytes ∧ vs.map (Option.map m.fetch) = args.map some := by
  induction args generalizing m pre with
  | nil => exact ⟨[], m, rfl, rfl, rfl⟩
  | cons x args ih =>
      rw [List.map_cons, List.flatMap_cons, List.append_assoc] at h
      obtain ⟨v, m₁, hstep, hfetch, hbytes, h₁⟩ := unshift_record (hargs x List.mem_cons_self) h
      obtain ⟨vs, m', hrun, hbytes', hvs⟩ := ih (fun y hy => hargs y (List.mem_cons_of_mem _ hy)) h₁
      have hsame : m₁.fetch = m.fetch := by
        funext w
        cases w <;> simp only [fetch, hbytes]
      refine ⟨some v :: vs, m', ?_, hbytes'.trans hbytes, ?_⟩
      · rw [List.map_cons, unshiftAll, hstep]
        simp only [Option.bind_eq_bind, Option.bind_some, hrun]
        rfl
      · rw [List.map_cons, List.map_cons, Option.map_some, hfetch, ← hsame, hvs]

/-! ### The round trip -/

/-- The message of a list of arguments packed in one flush: their records, and what was
reserved beyond them. -/
lemma pack_binary (f : Fresh) {code : U16} (hbin : ¬ code < f2CodeStart) {args : List ArgData}
    (hfit : (args.map room).sum ≤ 65535) :
    ∃ c addr addr_ne rest, pack f (new code) args = some c ∧
      c.message = some ⟨code, addr, addr_ne, (args.map arg).flatMap argRecord ++ rest, 0⟩ := by
  obtain ⟨b, front, space, -, hgrown, hflush⟩ := flush_binary f (backed_pushed code args) hbin
  have hfront : front.length = 4 := hgrown.front_length
  have hres : reserved (pushed code args) = (args.map room).sum := by
    rw [reserved, pushed, map_reserve_arg (argSize_le_of_room hfit)]
    exact Nat.zero_add _
  have hsize : (UInt16.ofNat (args.map room).sum).toNat = (args.map room).sum := by
    rw [UInt16.toNat_ofNat']
    omega
  have hlen : ((args.map arg).flatMap argRecord).length ≤ (args.map room).sum := by
    rw [← map_reserve_arg (argSize_le_of_room hfit)]
    exact flatMap_argRecord_length_le _
  rw [hres, ← pack_new] at hflush
  refine ⟨_, b.addr, b.addr_ne,
    (space.drop ((args.map arg).flatMap argRecord).length).take
      ((args.map room).sum + 1 - ((args.map arg).flatMap argRecord).length), hflush, ?_⟩
  rw [message, stored, Option.map_some, hsize]
  show some (Message.mk code b.addr b.addr_ne (((front ++ (args.map arg).flatMap argRecord
    ++ space.drop ((args.map arg).flatMap argRecord).length).drop 4).take
      ((args.map room).sum + 1)) 0) = _
  rw [List.append_assoc, List.drop_left' hfront, List.take_append,
    List.take_of_length_le (by omega)]

/-- **The binary round trip**: a list of arguments that fits in a message, packed in one
flush, is unpacked unchanged. -/
theorem binary_roundTrips (f : Fresh) (code : U16) (hcode : f2CodeStart ≤ code)
    (args : List ArgData) (hfit : (args.map room).sum ≤ 65535) : RoundTrips f code args := by
  have hbin : ¬ code < f2CodeStart := UInt16.not_lt.mpr hcode
  obtain ⟨c, addr, addr_ne, rest, hpack, hmessage⟩ := pack_binary f hbin hfit
  have h : Before ⟨code, addr, addr_ne, (args.map arg).flatMap argRecord ++ rest, 0⟩ []
      ((args.map arg).flatMap argRecord ++ rest) := ⟨hbin, rfl, rfl⟩
  obtain ⟨vs, m', hrun, hbytes, hvs⟩ := unshiftAll_records (argSize_le_of_room hfit) h
  refine ⟨c, _, vs, m', hpack, hmessage, hrun, ?_⟩
  rw [← hvs]
  have hsame : ∀ v, m'.fetch v = Message.fetch ⟨code, addr, addr_ne,
      (args.map arg).flatMap argRecord ++ rest, 0⟩ v := by
    intro v
    cases v <;> simp only [fetch, hbytes]
  rw [funext hsame]

/-- Two integers, a string and a `Data` that holds a NUL. -/
theorem binary_roundTrips_test :
    RoundTrips ⟨8, by decide, fun _ => 170⟩ 10001 [.integer 23,
      .string ⟨[47, 106, 100, 98], by decide⟩, .integer 24,
      .data [110, 117, 108, 108, 0, 97, 98, 99]] :=
  binary_roundTrips _ 10001 (by decide) _ (by decide)

end Command

end Napd
