import Napd.Command.Model

/-!
What `_flush` leaves in the data block.

* `Backed`: the block of a command holds its payload and five bytes more; every flush keeps
  this (`flush_backed`).
* `reservation`: what is reserved for a list of arguments; `records_length`: the records leave
  four bytes of it for each.
* `argRecord`, `flush_binary`: a binary flush appends a record for each argument.
* `textOf`, `flush_text_fits`, `flush_text_overrun`: a text flush appends the words, each behind
  a space, and is a fault where they overrun what is reserved.
-/

namespace Napd

namespace Command

open Memory

/-! ### The block -/

lemma block_length (f : Fresh) (old : List U8) (s : ℕ) : (block f old s).bytes.length = s + 5 := by
  rw [block, List.length_set, List.length_append, List.length_take, List.length_map,
    List.length_range']
  omega

/-- The bytes that are kept. -/
lemma take_block (f : Fresh) {old : List U8} {s n : ℕ} (hold : n ≤ old.length) (hs : n ≤ s + 4) :
    (block f old s).bytes.take n = old.take n := by
  rw [block, List.take_set_of_le (by omega), List.take_append_of_le_length, List.take_take,
    min_eq_left (by omega)]
  rw [List.length_take]
  omega

/-- The bytes that were never written. -/
lemma getElem?_block (f : Fresh) {old : List U8} {s i : ℕ} (hold : old.length ≤ i)
    (hs : i < s + 4) : (block f old s).bytes[i]? = some (f.contents i) := by
  have htake : old.take (s + 5) = old := List.take_of_length_le (by omega)
  rw [block, htake, List.getElem?_set_ne (by omega), List.getElem?_append_right hold,
    List.getElem?_map, List.getElem?_range' (by omega)]
  simp
  congr 1
  omega

/-- Behind them nothing of the old bytes shows. -/
lemma drop_block (f : Fresh) {old : List U8} (s : ℕ) {n : ℕ} (hold : old.length ≤ n) :
    (block f old s).bytes.drop n = (block f [] s).bytes.drop n := by
  refine List.ext_getElem? fun i => ?_
  rw [List.getElem?_drop, List.getElem?_drop]
  rcases lt_trichotomy (n + i) (s + 4) with hlt | heq | hgt
  · rw [getElem?_block f (by omega) hlt, getElem?_block f (Nat.zero_le _) hlt]
  · have hlen := block_length f old s
    have hlen' := block_length f [] s
    rw [block, List.length_set] at hlen hlen'
    rw [block, block, heq, List.getElem?_set_self (by omega), List.getElem?_set_self (by omega)]
  · rw [List.getElem?_eq_none (by rw [block_length]; omega),
      List.getElem?_eq_none (by rw [block_length]; omega)]

/-- The block holds the payload, four bytes in front of it and one behind it. -/
def Backed (c : Command) : Prop :=
  match c.data with
  | some b => c.size.toNat + 5 ≤ b.bytes.length
  | none => c.size = 0

lemma backed_new (code : U16) : Backed (new code) := rfl

/-- A block in front of which the payload stands. -/
structure Grown (c : Command) (s : ℕ) (b : Block) (front room : List U8) : Prop where
  bytes : b.bytes = front ++ room
  front_length : front.length = 4 + c.size.toNat
  room_length : s + 1 ≤ c.size.toNat + room.length
  payload : front.drop 4 = c.payload

/-- `_grow` leaves room for what `_flush` reserves, behind the payload. -/
lemma grow_grown (f : Fresh) {c : Command} (h : Backed c) {s : ℕ} (hs : c.size.toNat ≤ s) :
    ∃ b front room, (c.grow f s).data = some b ∧ Grown c s b front room := by
  have hview : ∀ b : Block, s + 5 ≤ b.bytes.length →
      (b.bytes.take (4 + c.size.toNat)).drop 4 = c.payload →
      Grown c s b (b.bytes.take (4 + c.size.toNat)) (b.bytes.drop (4 + c.size.toNat)) := by
    intro b hlen hpay
    refine ⟨(List.take_append_drop _ _).symm, ?_, ?_, hpay⟩
    · rw [List.length_take]
      omega
    · rw [List.length_drop]
      omega
  rw [Backed] at h
  rw [grow]
  cases hdata : c.data with
  | none =>
      rw [hdata] at h
      refine ⟨block f [] s, _, _, rfl, hview _ (by rw [block_length]) ?_⟩
      rw [payload, hdata, h]
      simp
  | some b =>
      rw [hdata] at h
      have hpay : (b.bytes.take (4 + c.size.toNat)).drop 4 = c.payload := by
        rw [payload, hdata, List.drop_take, Nat.add_sub_cancel_left]
      split_ifs with hle
      · refine ⟨b, _, _, hdata, hview b ?_ hpay⟩
        have hlen : c.size.toNat + 5 ≤ b.bytes.length := h
        omega
      · refine ⟨block f b.bytes s, _, _, rfl, hview _ (by rw [block_length]) ?_⟩
        have hlen : c.size.toNat + 5 ≤ b.bytes.length := h
        rw [take_block f (by omega) (by omega), hpay]

/-- A block that had to grow has just the size that was asked for. -/
lemma grow_length {f : Fresh} {c : Command} {s : ℕ} {b : Block} (hs : c.size.toNat < s)
    (hdata : (c.grow f s).data = some b) : b.bytes.length = s + 5 := by
  rw [grow] at hdata
  cases hc : c.data with
  | none =>
      rw [hc] at hdata
      rw [← Option.some.inj hdata, block_length]
  | some b' =>
      rw [hc] at hdata
      simp only [if_neg (Nat.not_le.mpr hs)] at hdata
      rw [← Option.some.inj hdata, block_length]

/-- What `_flush` reserves altogether. -/
def reserved (c : Command) : ℕ := c.size.toNat + (c.writer.map reserve).sum

/-- `_flush`, once the block is known. -/
lemma flush_of_data {f : Fresh} {c : Command} {b : Block}
    (hdata : (c.grow f (reserved c)).data = some b) :
    c.flush f = if c.code < f2CodeStart then
        (c.writer.foldlM flushText ⟨b.bytes, 4 + c.size.toNat⟩).map fun w =>
          c.stored b w.mem (w.pos - 4)
      else
        (c.writer.foldlM flushBinary ⟨b.bytes, 4 + c.size.toNat⟩).map fun w =>
          c.stored b w.mem (reserved c) := by
  rw [reserved] at hdata
  rw [flush, hdata]
  simp only [Option.bind_eq_bind, Option.bind_some]
  split_ifs
  · cases c.writer.foldlM flushText ⟨b.bytes, 4 + c.size.toNat⟩ <;> rfl
  · cases c.writer.foldlM flushBinary ⟨b.bytes, 4 + c.size.toNat⟩ <;> rfl

/-- A block in front of which the payload stands, as a pen. -/
lemma Grown.pen {c : Command} {s : ℕ} {b : Block} {front room : List U8}
    (h : Grown c s b front room) :
    (⟨b.bytes, 4 + c.size.toNat⟩ : Pen U8) = Pen.between front room := by
  rw [Pen.between, h.bytes, h.front_length]

lemma foldl_push (c : Command) (args : List ArgData) :
    args.foldl push c = { c with writer := c.writer ++ args.map arg } := by
  induction args generalizing c with
  | nil => simp
  | cons x args ih =>
      rw [List.foldl_cons, ih, push]
      simp

/-- A fresh command with its arguments in the writer. -/
def pushed (code : U16) (args : List ArgData) : Command :=
  ⟨0, code, none, 0, args.map arg, {}⟩

lemma pack_new (f : Fresh) (code : U16) (args : List ArgData) :
    pack f (new code) args = (pushed code args).flush f := by
  rw [pack, foldl_push]
  rfl

lemma backed_pushed (code : U16) (args : List ArgData) : Backed (pushed code args) := rfl

/-- What a flush reserves for the arguments of a fresh command. -/
def reservation (args : List ArgData) : ℕ := (args.map fun x => reserve (arg x)).sum

lemma sum_map_reserve (args : List ArgData) :
    ((args.map arg).map reserve).sum = reservation args := by
  rw [List.map_map]
  rfl

@[simp] lemma reservation_nil : reservation [] = 0 := rfl

lemma reservation_append (xs ys : List ArgData) :
    reservation (xs ++ ys) = reservation xs + reservation ys := by
  rw [reservation, List.map_append, List.sum_append]
  rfl

lemma reserved_pushed (code : U16) (args : List ArgData) :
    reserved (pushed code args) = reservation args := by
  show 0 + ((args.map arg).map reserve).sum = reservation args
  rw [Nat.zero_add, sum_map_reserve]

/-! ### Binary records -/

/-- The bytes a binary flush writes for an argument. -/
def argRecord (x : Arg) : List U8 := hton16 x.size ++ (hton16 (argType x.data) ++ argBytes x)

lemma argBytes_length_le (x : Arg) : (argBytes x).length ≤ x.size.toNat := by
  rw [argBytes]
  split <;> exact List.length_take_le _ _

/-- A record fits in what is reserved for it, with the four bytes to spare. -/
lemma argRecord_length_le (x : Arg) : (argRecord x).length + 4 ≤ reserve x := by
  have := argBytes_length_le x
  simp only [argRecord, reserve, argHeadSize, List.length_append, hton16_length]
  omega

lemma flatMap_argRecord_length_le (xs : List Arg) :
    (xs.flatMap argRecord).length ≤ (xs.map reserve).sum := by
  induction xs with
  | nil => simp
  | cons x xs ih =>
      have := argRecord_length_le x
      rw [List.flatMap_cons, List.length_append, List.map_cons, List.sum_cons]
      omega

/-- The record of a pushed argument leaves four bytes of what is reserved for it. -/
lemma argRecord_arg_length (x : ArgData) : (argRecord (arg x)).length + 4 = reserve (arg x) := by
  have hbytes : (argBytes (arg x)).length = (arg x).size.toNat := by
    have hle : (UInt16.ofNat (argSize x)).toNat ≤ argSize x := by
      rw [UInt16.toNat_ofNat']
      exact Nat.mod_le _ _
    cases x with
    | integer n => rfl
    | string s =>
        rw [argBytes]
        simpa [argSize, arg] using hle
    | data bytes =>
        rw [argBytes]
        simpa [argSize, arg] using hle
  simp only [argRecord, reserve, argHeadSize, List.length_append, hton16_length, hbytes]
  omega

/-- The records and four bytes for each: what is reserved, eight bytes at least for each. -/
lemma records_length (xs : List ArgData) :
    ((xs.map arg).flatMap argRecord).length + 4 * xs.length = reservation xs ∧
      8 * xs.length ≤ reservation xs := by
  induction xs with
  | nil => exact ⟨rfl, le_refl _⟩
  | cons x xs ih =>
      have hx := argRecord_arg_length x
      have h8 : 8 ≤ reserve (arg x) := by
        rw [reserve, argHeadSize]
        omega
      simp only [reservation, List.map_cons, List.flatMap_cons, List.length_append, List.sum_cons,
        List.length_cons] at ih ⊢
      omega

lemma flushBinary_between (done room : List U8) (x : Arg)
    (h : (argRecord x).length ≤ room.length) :
    flushBinary (Pen.between done room) x
      = some (Pen.between (done ++ argRecord x) (room.drop (argRecord x).length)) := by
  simp only [argRecord, List.length_append, hton16_length] at h ⊢
  have h2 : (room.drop 2).length = room.length - 2 := List.length_drop
  have h4 : ((room.drop 2).drop 2).length = room.length - 4 := by
    rw [List.length_drop, List.length_drop]
    omega
  rw [flushBinary, Pen.put_between _ _ _ (by rw [hton16_length]; omega)]
  simp only [Option.bind_eq_bind, Option.bind_some, hton16_length]
  rw [Pen.put_between _ _ _ (by rw [hton16_length]; omega)]
  simp only [Option.bind_some, hton16_length]
  rw [Pen.put_between _ _ _ (by omega)]
  simp only [List.append_assoc, List.drop_drop, Nat.add_assoc]

/-- **A binary flush** never faults; it appends the records of the arguments. -/
lemma flush_binary (f : Fresh) {c : Command} (h : Backed c) (hcode : ¬ c.code < f2CodeStart) :
    ∃ b front room, (c.grow f (reserved c)).data = some b ∧ Grown c (reserved c) b front room ∧
      c.flush f = some (c.stored b (front ++ c.writer.flatMap argRecord
        ++ room.drop (c.writer.flatMap argRecord).length) (reserved c)) := by
  obtain ⟨b, front, room, hdata, hgrown⟩ := grow_grown f h (s := reserved c) (Nat.le_add_right _ _)
  refine ⟨b, front, room, hdata, hgrown, ?_⟩
  have hfit : (c.writer.flatMap argRecord).length ≤ room.length := by
    have h₁ := flatMap_argRecord_length_le c.writer
    have h₂ := hgrown.room_length
    rw [reserved] at h₂
    omega
  rw [flush_of_data hdata, hgrown.pen, if_neg hcode,
    Pen.foldlM_between flushBinary_between c.writer front room hfit]
  rfl

/-! ### Arguments that are not cut -/

/-- What an argument takes of the block: its head, its bytes and four bytes more. -/
def room (x : ArgData) : ℕ := argHeadSize + argSize x + 4

lemma argSize_le_of_room {args : List ArgData} (h : (args.map room).sum ≤ 65535) :
    ∀ x ∈ args, argSize x ≤ 65535 := by
  intro x hx
  have hle : room x ≤ (args.map room).sum :=
    List.single_le_sum (fun _ _ => Nat.zero_le _) _ (List.mem_map_of_mem hx)
  rw [room] at hle
  omega

/-- Arguments that are not cut reserve what they take. -/
lemma map_reserve_arg {args : List ArgData} (h : ∀ x ∈ args, argSize x ≤ 65535) :
    (args.map arg).map reserve = args.map room := by
  rw [List.map_map]
  refine List.map_congr_left fun x hx => ?_
  have hsize : (UInt16.ofNat (argSize x)).toNat = argSize x := by
    have := h x hx
    rw [UInt16.toNat_ofNat']
    omega
  show argHeadSize + (UInt16.ofNat (argSize x)).toNat + 4 = room x
  rw [hsize, room]

/-! ### Text -/

/-- A text and a further word: the words stand behind one another, each behind a space. -/
def joinText (text t : List U8) : List U8 :=
  if text = [] then t else text ++ Tokenizer.space :: t

/-- The text with the words of the arguments; none when one of them has no text. -/
def textOf (text : List U8) : List ArgData → Option (List U8)
  | [] => some text
  | x :: xs => do
      let t ← argText x
      textOf (joinText text t) xs

lemma length_le_joinText (text t : List U8) : text.length ≤ (joinText text t).length := by
  rw [joinText]
  split_ifs with h
  · simp [h]
  · simp

lemma joinText_length_le (text t : List U8) :
    (joinText text t).length ≤ text.length + (t.length + 1) := by
  rw [joinText]
  split_ifs with h
  · omega
  · simp

lemma length_le_textOf {xs : List ArgData} {text text' : List U8}
    (h : textOf text xs = some text') :
    text.length ≤ text'.length := by
  induction xs generalizing text with
  | nil => rw [Option.some.inj h]
  | cons x xs ih =>
      rw [textOf] at h
      cases ht : argText x with
      | none => simp [ht] at h
      | some t =>
          rw [ht] at h
          exact (length_le_joinText text t).trans (ih h)

/-- An argument that is not cut has room for its text, a space in front and a NUL behind. -/
lemma argText_length_lt {x : ArgData} {t : List U8} (ht : argText x = some t) :
    t.length + 1 ≤ room x := by
  cases x with
  | integer n =>
      have := formatLong_length_le n
      rw [argText, Option.some.injEq] at ht
      subst ht
      simp only [room, argHeadSize, argSize]
      omega
  | string s =>
      rw [argText] at ht
      split_ifs at ht <;> rw [Option.some.injEq] at ht <;> subst ht <;>
        simp only [room, argHeadSize, argSize, List.length_cons, List.length_append,
          List.length_nil] <;> omega
  | data bytes => simp [argText] at ht

lemma textOf_length_le {xs : List ArgData} {text text' : List U8}
    (h : textOf text xs = some text') :
    text'.length ≤ text.length + (xs.map room).sum := by
  induction xs generalizing text with
  | nil =>
      rw [← Option.some.inj h]
      simp
  | cons x xs ih =>
      rw [textOf] at h
      cases ht : argText x with
      | none => simp [ht] at h
      | some t =>
          rw [ht] at h
          have h₁ := ih h
          have h₂ := joinText_length_le text t
          have h₃ := argText_length_lt ht
          rw [List.map_cons, List.sum_cons]
          omega

/-- A pen behind the header and a text. -/
def Writes (w : Pen U8) (text room : List U8) : Prop :=
  ∃ header, header.length = 4 ∧ w = Pen.between (header ++ text) room

/-- One round of the text loop, with room for the word, its space and a NUL. -/
lemma flushText_writes {w : Pen U8} {text space : List U8} {x : Arg} {t : List U8}
    (h : Writes w text space) (ht : argText x.data = some t)
    (hfit : (joinText text t).length < text.length + space.length) :
    ∃ w' space', flushText w x = some w' ∧ Writes w' (joinText text t) (0 :: space') ∧
      (joinText text t).length + (space'.length + 1) = text.length + space.length := by
  obtain ⟨header, hheader, rfl⟩ := h
  rw [joinText] at hfit ⊢
  by_cases hnil : text = []
  · subst hnil
    rw [if_pos rfl] at hfit ⊢
    have hpos : ¬ 4 < (header ++ []).length := by simp [hheader]
    rw [flushText, Pen.between_pos, if_neg hpos]
    simp only [Option.bind_eq_bind, Option.bind_some, ht]
    rw [Pen.putEnd_between _ _ _ _ (by simpa using hfit)]
    refine ⟨_, space.drop (t.length + 1), rfl, ⟨header, hheader, by simp⟩, ?_⟩
    rw [List.length_drop]
    simp only [List.length_nil] at hfit ⊢
    omega
  · rw [if_neg hnil] at hfit ⊢
    have hpos : 4 < (header ++ text).length := by
      have := List.length_pos_of_ne_nil hnil
      rw [List.length_append]
      omega
    simp only [List.length_append, List.length_cons] at hfit
    rw [flushText, Pen.between_pos, if_pos hpos, Pen.put_between _ _ _ (by simp; omega)]
    simp only [Option.bind_eq_bind, Option.bind_some, ht]
    rw [Pen.putEnd_between _ _ _ _ (by rw [List.length_drop]; simp; omega)]
    refine ⟨_, space.drop (t.length + 1 + 1), rfl, ⟨header, hheader, by simp⟩, ?_⟩
    simp only [List.length_append, List.length_cons, List.length_drop]
    omega

/-- The text loop, with room for all words. -/
lemma foldlM_flushText {w : Pen U8} {text space : List U8} {xs : List ArgData} {text' : List U8}
    (h : Writes w text space) (ht : textOf text xs = some text')
    (hfit : text'.length < text.length + space.length) :
    ∃ w' space', (xs.map arg).foldlM flushText w = some w' ∧ Writes w' text' space' ∧
      text'.length + space'.length = text.length + space.length ∧
      (xs ≠ [] ∨ space.head? = some 0 → space'.head? = some 0) := by
  induction xs generalizing w text space with
  | nil =>
      obtain rfl := Option.some.inj ht
      exact ⟨w, space, rfl, h, rfl, fun hnul => hnul.resolve_left (fun hne => hne rfl)⟩
  | cons x xs ih =>
      rw [textOf] at ht
      cases hx : argText x with
      | none => simp [hx] at ht
      | some t =>
          rw [hx] at ht
          have hle : (joinText text t).length ≤ text'.length := length_le_textOf ht
          obtain ⟨w₁, space₁, hstep, h₁, hlen₁⟩ :=
            flushText_writes (x := arg x) h hx (lt_of_le_of_lt hle hfit)
          have hlen : (0 :: space₁ : List U8).length = space₁.length + 1 := rfl
          obtain ⟨w', space', hrun, h', hlen', hnul⟩ := ih h₁ ht (by omega)
          refine ⟨w', space', ?_, h', by omega, fun _ => hnul (.inr rfl)⟩
          rw [List.map_cons, List.foldlM_cons, hstep]
          exact hrun

/-- One round of the text loop that does not fault had room for its word. -/
lemma flushText_room {w w' : Pen U8} {text space : List U8} {x : Arg} {t : List U8}
    (h : Writes w text space) (ht : argText x.data = some t) (hrun : flushText w x = some w') :
    (joinText text t).length < text.length + space.length := by
  obtain ⟨header, hheader, rfl⟩ := h
  rw [flushText, Pen.between_pos] at hrun
  rw [joinText]
  by_cases hnil : text = []
  · subst hnil
    rw [if_neg (by simp [hheader])] at hrun
    simp only [Option.bind_eq_bind, Option.bind_some, ht] at hrun
    obtain ⟨hlen, hpos, hlt⟩ := Pen.putEnd_bounds hrun
    simp only [Pen.between_pos, Pen.between_mem, List.length_append] at hlen hpos
    rw [if_pos rfl]
    omega
  · have hlen := List.length_pos_of_ne_nil hnil
    rw [if_pos (by rw [List.length_append]; omega)] at hrun
    obtain ⟨w₁, h₁, hrun⟩ := Option.bind_eq_some_iff.mp hrun
    simp only [Option.bind_eq_bind, Option.bind_some, ht] at hrun
    obtain ⟨hlen₁, hpos₁, -⟩ := Pen.put_bounds h₁
    obtain ⟨hlen', hpos', hlt⟩ := Pen.putEnd_bounds hrun
    simp only [Pen.between_pos, Pen.between_mem, List.length_append, List.length_singleton]
      at hlen₁ hpos₁
    rw [if_neg hnil, List.length_append, List.length_cons]
    omega

lemma flushText_bounds {w w' : Pen U8} {x : Arg} (h : flushText w x = some w') :
    w'.mem.length = w.mem.length ∧ w.pos ≤ w'.pos ∧ w'.pos < w'.mem.length := by
  rw [flushText] at h
  split_ifs at h
  · obtain ⟨w₁, h₁, h⟩ := Option.bind_eq_some_iff.mp h
    obtain ⟨t, -, h⟩ := Option.bind_eq_some_iff.mp h
    obtain ⟨hlen₁, hpos₁, -⟩ := Pen.put_bounds h₁
    obtain ⟨hlen, hpos, hlt⟩ := Pen.putEnd_bounds h
    exact ⟨hlen.trans hlen₁, by omega, hlt⟩
  · obtain ⟨w₁, h₁, h⟩ := Option.bind_eq_some_iff.mp h
    obtain rfl := Option.some.inj h₁
    obtain ⟨t, -, h⟩ := Option.bind_eq_some_iff.mp h
    obtain ⟨hlen, hpos, hlt⟩ := Pen.putEnd_bounds h
    exact ⟨hlen, by omega, hlt⟩

/-- The text loop, where it does not fault. -/
lemma foldlM_flushText_some {w w' : Pen U8} {text space : List U8} {xs : List ArgData}
    {text' : List U8} (h : Writes w text space) (ht : textOf text xs = some text')
    (hrun : (xs.map arg).foldlM flushText w = some w') :
    ∃ space', Writes w' text' space' ∧
      (xs ≠ [] ∨ space.head? = some 0 → space'.head? = some 0) := by
  induction xs generalizing w text space with
  | nil =>
      obtain rfl := Option.some.inj ht
      obtain rfl := Option.some.inj hrun
      exact ⟨space, h, fun hnul => hnul.resolve_left (fun hne => hne rfl)⟩
  | cons x xs ih =>
      rw [textOf] at ht
      obtain ⟨t, hx, ht⟩ := Option.bind_eq_some_iff.mp ht
      rw [List.map_cons, List.foldlM_cons] at hrun
      obtain ⟨w₁, hstep, hrun⟩ := Option.bind_eq_some_iff.mp hrun
      obtain ⟨w₁', space₁, hstep', h₁, -⟩ :=
        flushText_writes (x := arg x) h hx (flushText_room h hx hstep)
      obtain rfl := Option.some.inj (hstep.symm.trans hstep')
      obtain ⟨space', h', hnul⟩ := ih h₁ ht hrun
      exact ⟨space', h', fun _ => hnul (.inr rfl)⟩

lemma payload_length {c : Command} (h : Backed c) : c.payload.length = c.size.toNat := by
  rw [Backed] at h
  rw [payload]
  cases hdata : c.data with
  | none =>
      rw [hdata] at h
      rw [h]
      rfl
  | some b =>
      rw [hdata] at h
      have hlen : c.size.toNat + 5 ≤ b.bytes.length := h
      rw [List.length_take, List.length_drop]
      omega

/-- The pen behind the payload. -/
lemma Grown.writes {c : Command} {s : ℕ} {b : Block} {front room : List U8}
    (h : Grown c s b front room) : Writes (Pen.between front room) c.payload room := by
  refine ⟨front.take 4, ?_, ?_⟩
  · have := h.front_length
    rw [List.length_take]
    omega
  · rw [← h.payload, List.take_append_drop]

/-- **A text flush** whose text does not overrun what is reserved appends the words. -/
lemma flush_text_fits (f : Fresh) {c : Command} {xs : List ArgData} {text : List U8}
    (h : Backed c) (hcode : c.code < f2CodeStart) (hw : c.writer = xs.map arg)
    (ht : textOf c.payload xs = some text) (hfit : text.length ≤ reserved c) :
    ∃ b header space, c.flush f = some (c.stored b (header ++ text ++ space) text.length) ∧
      header.length = 4 ∧ space ≠ [] ∧ (xs ≠ [] → space.head? = some 0) := by
  obtain ⟨b, front, space, hdata, hgrown⟩ :=
    grow_grown f h (s := reserved c) (Nat.le_add_right _ _)
  have hlen := payload_length h
  have hroom := hgrown.room_length
  obtain ⟨w, space', hrun, ⟨header, hheader, rfl⟩, hlen', hnul⟩ :=
    foldlM_flushText hgrown.writes ht (by omega)
  refine ⟨b, header, space', ?_, hheader, ?_, fun hne => hnul (.inl hne)⟩
  · rw [flush_of_data hdata, hgrown.pen, if_pos hcode, hw, hrun, Option.map_some, Pen.between_pos,
      Pen.between_mem, List.length_append, hheader, Nat.add_sub_cancel_left]
  · intro hnil
    rw [hnil, List.length_nil] at hlen'
    omega

/-- A text flush of arguments that are not cut never faults. -/
lemma flush_text (f : Fresh) {c : Command} {xs : List ArgData} {text : List U8} (h : Backed c)
    (hcode : c.code < f2CodeStart) (hw : c.writer = xs.map arg)
    (hargs : ∀ x ∈ xs, argSize x ≤ 65535) (ht : textOf c.payload xs = some text) :
    ∃ b header space, c.flush f = some (c.stored b (header ++ text ++ space) text.length) ∧
      header.length = 4 ∧ space ≠ [] ∧ (xs ≠ [] → space.head? = some 0) := by
  refine flush_text_fits f h hcode hw ht ?_
  have hlen := payload_length h
  have hle := textOf_length_le ht
  rw [reserved, hw, map_reserve_arg hargs]
  omega

/-- A text flush that does not fault has appended the words, whatever it reserved. -/
lemma flush_text_some {f : Fresh} {c c' : Command} {xs : List ArgData} {text : List U8}
    (h : Backed c) (hcode : c.code < f2CodeStart) (hw : c.writer = xs.map arg)
    (ht : textOf c.payload xs = some text) (hrun : c.flush f = some c') :
    ∃ b header space, c' = c.stored b (header ++ text ++ space) text.length ∧
      header.length = 4 ∧ (xs ≠ [] → space.head? = some 0) := by
  obtain ⟨b, front, space, hdata, hgrown⟩ :=
    grow_grown f h (s := reserved c) (Nat.le_add_right _ _)
  rw [flush_of_data hdata, hgrown.pen, if_pos hcode, hw] at hrun
  obtain ⟨w, hloop, rfl⟩ := Option.map_eq_some_iff.mp hrun
  obtain ⟨space', ⟨header, hheader, rfl⟩, hnul⟩ :=
    foldlM_flushText_some hgrown.writes ht hloop
  refine ⟨b, header, space', ?_, hheader, fun hne => hnul (.inl hne)⟩
  rw [Pen.between_pos, Pen.between_mem, List.length_append, hheader, Nat.add_sub_cancel_left]

/-- A text that overruns what is reserved is a fault: the block ends there. -/
lemma flush_text_overrun (f : Fresh) {c : Command} {xs : List ArgData} {text : List U8}
    (h : Backed c) (hcode : c.code < f2CodeStart) (hw : c.writer = xs.map arg)
    (ht : textOf c.payload xs = some text) (hover : reserved c < text.length) :
    c.flush f = none := by
  cases hrun : c.flush f with
  | none => rfl
  | some c' =>
      have hlen := payload_length h
      have hne : xs ≠ [] := by
        rintro rfl
        rw [← Option.some.inj ht, hlen, reserved] at hover
        omega
      have hgt : c.size.toNat < reserved c := by
        obtain ⟨x, xs, rfl⟩ := List.exists_cons_of_ne_nil hne
        rw [reserved, hw, List.map_cons, List.map_cons, List.sum_cons, reserve]
        omega
      obtain ⟨b, front, space, hdata, hgrown⟩ := grow_grown f h (s := reserved c) hgt.le
      have hblock := grow_length hgt hdata
      rw [flush_of_data hdata, hgrown.pen, if_pos hcode, hw] at hrun
      obtain ⟨w, hloop, -⟩ := Option.map_eq_some_iff.mp hrun
      obtain ⟨space', ⟨header, hheader, rfl⟩, hnul⟩ :=
        foldlM_flushText_some hgrown.writes ht hloop
      -- the NUL of the last `sprintf` lies in the block, behind the text
      obtain ⟨rest, rfl⟩ := List.head?_eq_some_iff.mp (hnul (.inl hne))
      have hkeep := Pen.foldlM_keeps (P := fun w => w.mem.length = b.bytes.length)
        (fun w x w' hw hstep => (flushText_bounds hstep).1.trans hw) _
        (congrArg List.length hgrown.bytes.symm) hloop
      simp only [Pen.between_mem, List.length_append, List.length_cons] at hkeep
      omega

/-- What the 16-bit size leaves of a text. -/
def cutText (text : List U8) : List U8 := text.take (text.length % 65536)

lemma cutText_of_le {text : List U8} (h : text.length ≤ 65535) : cutText text = text := by
  rw [cutText, Nat.mod_eq_of_lt (by omega), List.take_length]

/-- The payload of a command whose block begins with a text. -/
lemma payload_stored_cut (c : Command) (b : Block) {header text space : List U8}
    (hheader : header.length = 4) :
    (c.stored b (header ++ text ++ space) text.length).payload = cutText text := by
  have hsize : (UInt16.ofNat text.length).toNat = text.length % 65536 := UInt16.toNat_ofNat'
  show ((header ++ text ++ space).drop 4).take (UInt16.ofNat text.length).toNat = _
  rw [hsize, List.append_assoc, List.drop_left' hheader,
    List.take_append_of_le_length (Nat.mod_le _ _), cutText]

/-- The payload of a command whose block begins with it. -/
lemma payload_stored (c : Command) (b : Block) {header text space : List U8}
    (hheader : header.length = 4) (hfit : text.length ≤ 65535) :
    (c.stored b (header ++ text ++ space) text.length).payload = text := by
  rw [payload_stored_cut c b hheader, cutText_of_le hfit]

/-! ### Every flush keeps the block -/

lemma backed_stored {c : Command} {b : Block} {bytes : List U8} {n : ℕ}
    (h : n + 5 ≤ bytes.length) : Backed (c.stored b bytes n) := by
  show (UInt16.ofNat n).toNat + 5 ≤ bytes.length
  rw [UInt16.toNat_ofNat']
  omega

lemma flushBinary_length {w w' : Pen U8} {x : Arg} (h : flushBinary w x = some w') :
    w'.mem.length = w.mem.length := by
  rw [flushBinary] at h
  obtain ⟨w₁, h₁, h⟩ := Option.bind_eq_some_iff.mp h
  obtain ⟨w₂, h₂, h⟩ := Option.bind_eq_some_iff.mp h
  exact (Pen.put_bounds h).1.trans ((Pen.put_bounds h₂).1.trans (Pen.put_bounds h₁).1)

/-- **Every flush** that returns leaves a backed block, whatever the arguments. -/
lemma flush_backed {f : Fresh} {c c' : Command} (h : Backed c) (hrun : c.flush f = some c') :
    Backed c' ∧ c'.writer = [] ∧ c'.code = c.code ∧ ∃ b, c'.data = some b := by
  obtain ⟨b, front, space, hdata, hgrown⟩ :=
    grow_grown f h (s := reserved c) (Nat.le_add_right _ _)
  have hfront := hgrown.front_length
  have hspace := hgrown.room_length
  have hlen : (Pen.between front space).mem.length = front.length + space.length :=
    List.length_append
  have hres : c.size.toNat ≤ reserved c := Nat.le_add_right _ _
  rw [flush_of_data hdata, hgrown.pen] at hrun
  split_ifs at hrun
  · obtain ⟨w, hw, rfl⟩ := Option.map_eq_some_iff.mp hrun
    have hkeep : w.mem.length = front.length + space.length ∧ 4 ≤ w.pos ∧ w.pos < w.mem.length := by
      refine Pen.foldlM_keeps (P := fun w => w.mem.length = front.length + space.length ∧
        4 ≤ w.pos ∧ w.pos < w.mem.length) ?_ _ ?_ hw
      · rintro w x w' ⟨hl, h4, -⟩ hstep
        obtain ⟨hl', hle, hlt⟩ := flushText_bounds hstep
        exact ⟨hl'.trans hl, h4.trans hle, hlt⟩
      · refine ⟨hlen, ?_, ?_⟩
        · rw [Pen.between_pos]
          omega
        · rw [hlen, Pen.between_pos]
          omega
    exact ⟨backed_stored (by omega), rfl, rfl, _, rfl⟩
  · obtain ⟨w, hw, rfl⟩ := Option.map_eq_some_iff.mp hrun
    have hkeep : w.mem.length = front.length + space.length := by
      refine Pen.foldlM_keeps (P := fun w => w.mem.length = front.length + space.length)
        ?_ _ hlen hw
      intro w x w' hl hstep
      exact (flushBinary_length hstep).trans hl
    exact ⟨backed_stored (by omega), rfl, rfl, _, rfl⟩

end Command

end Napd
