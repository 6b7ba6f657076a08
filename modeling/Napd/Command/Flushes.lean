import Napd.Command.Packing

/-!
Packing arguments behind what an earlier flush has left.

* `encoding`: what becomes of a command on the wire.
* `Flushed`: a command between two flushes; `pack_kept`: it is one again after the next.
* `flushedText`, `pack_flushedText`: what a text flush makes of the text in front of it.
* `pack_binary_flushed`: a binary flush appends the records and what the allocator left behind
  them, and the 16-bit size cuts it.
-/

namespace Napd

namespace Command

open Memory

/-- The size and the bytes `data[0..size)` of a command. -/
def encoding (r : Option Command) : Option (U16 × List U8) := r.map fun c => (c.size, c.payload)

/-- The state between flushes: a backed block and an empty writer. -/
structure Flushed (c : Command) : Prop where
  backed : Backed c
  writer : c.writer = []

lemma flushed_new (code : U16) : Flushed (new code) := ⟨backed_new code, rfl⟩

/-- A flushed command with a group in its writer. -/
lemma pack_flushed (f : Fresh) {c : Command} (h : Flushed c) (g : List ArgData) :
    pack f c g = ({ c with writer := g.map arg } : Command).flush f := by
  rw [pack, foldl_push, h.writer, List.nil_append]

lemma pack_kept {f : Fresh} {c c' : Command} {g : List ArgData} (h : Flushed c)
    (hrun : pack f c g = some c') :
    Flushed c' ∧ c'.code = c.code ∧ ∃ b, c'.data = some b := by
  rw [pack_flushed f h] at hrun
  have hback : Backed { c with writer := g.map arg } := h.backed
  obtain ⟨hb, hw, hcode, hdata⟩ := flush_backed hback hrun
  exact ⟨⟨hb, hw⟩, hcode, hdata⟩

lemma reserved_group (c : Command) (g : List ArgData) :
    reserved { c with writer := g.map arg } = c.size.toNat + reservation g := by
  rw [reserved, sum_map_reserve]

lemma eq_ofNat_of_mod {s : U16} {n : ℕ} (h : s.toNat = n % 65536) : s = UInt16.ofNat n := by
  rw [← UInt16.toNat_inj, h, UInt16.toNat_ofNat']

/-- The size is the length of the payload. -/
lemma size_eq {c : Command} (h : Backed c) : c.size = UInt16.ofNat c.payload.length := by
  rw [payload_length h, UInt16.ofNat_toNat]

lemma encoding_eq {r : Option Command} (h : ∀ c, r = some c → Backed c) :
    encoding r = (r.map payload).map fun t => (UInt16.ofNat t.length, t) := by
  cases r with
  | none => rfl
  | some c => simp only [encoding, Option.map_some, size_eq (h c rfl)]

/-- A flush with nothing to write. -/
lemma pack_new_nil (f : Fresh) (code : U16) :
    pack f (new code) [] = some { new code with data := some (block f [] 0) } := by
  have hgrow : ((new code).grow f (reserved (new code))).data = some (block f [] 0) := rfl
  rw [pack, List.foldl_nil, flush_of_data hgrow]
  split_ifs <;> rfl

/-- A further flush with nothing to write leaves the command as it is. -/
lemma pack_nil (f : Fresh) {c : Command} {b : Block} (h : Flushed c) (hdata : c.data = some b) :
    pack f c [] = some c := by
  have hw := h.writer
  have hgrow : (c.grow f (reserved c)).data = some b := by
    have hidle : reserved c ≤ c.size.toNat := by
      rw [reserved, hw]
      exact le_refl _
    simp only [grow, hdata, if_pos hidle]
  rw [pack, List.foldl_nil, flush_of_data hgrow, reserved, hw]
  obtain ⟨size, code, data, offset, writer, peer⟩ := c
  simp only at hw hdata
  subst hw hdata
  split_ifs <;> simp [stored]

/-! ### Text -/

lemma textOf_append (text : List U8) (g gs : List ArgData) :
    textOf text (g ++ gs) = (textOf text g).bind fun t => textOf t gs := by
  induction g generalizing text with
  | nil => rfl
  | cons x g ih =>
      rw [List.cons_append, textOf, textOf]
      cases argText x with
      | none => rfl
      | some t => exact ih _

lemma textOf_eq_none_iff {xs : List ArgData} (text : List U8) :
    textOf text xs = none ↔ ∃ x ∈ xs, argText x = none := by
  induction xs generalizing text with
  | nil => simp [textOf]
  | cons x xs ih =>
      rw [textOf]
      cases hx : argText x with
      | none => simp [hx]
      | some t => simpa [hx] using ih _

lemma foldlM_flushText_none {xs : List ArgData} (h : ∃ x ∈ xs, argText x = none) (w : Pen U8) :
    (xs.map arg).foldlM flushText w = none := by
  induction xs generalizing w with
  | nil => simp at h
  | cons x xs ih =>
      rw [List.map_cons, List.foldlM_cons]
      cases hstep : flushText w (arg x) with
      | none => rfl
      | some w' =>
          refine ih ?_ w'
          obtain ⟨y, hy, hnone⟩ := h
          rcases List.mem_cons.mp hy with rfl | hy
          · have htext : argText (arg y).data = none := hnone
            rw [flushText, htext] at hstep
            simp at hstep
          · exact ⟨y, hy, hnone⟩

/-- A text flush stops at an argument that has no text. -/
lemma pack_noText (f : Fresh) {c : Command} {g : List ArgData} (h : Flushed c)
    (hcode : c.code < f2CodeStart) (hx : ∃ x ∈ g, argText x = none) : pack f c g = none := by
  rw [pack_flushed f h, flush]
  cases (grow f _ _).data with
  | none => rfl
  | some b =>
      simp only [Option.bind_eq_bind, Option.bind_some]
      rw [if_pos hcode, foldlM_flushText_none hx]
      rfl

/-- What a text flush makes of the text in front of it: the words of the group behind it, cut to
the 16-bit size, unless they overrun what is reserved. -/
def flushedText (text : List U8) (g : List ArgData) : Option (List U8) := do
  let t ← textOf text g
  if t.length ≤ text.length + reservation g then some (cutText t) else none

/-- **A text flush**, whatever the arguments are. -/
lemma pack_flushedText (f : Fresh) {c : Command} (h : Flushed c) (hcode : c.code < f2CodeStart)
    (g : List ArgData) : (pack f c g).map payload = flushedText c.payload g := by
  have hback : Backed { c with writer := g.map arg } := h.backed
  have hres : reserved { c with writer := g.map arg } = c.payload.length + reservation g := by
    rw [reserved_group, payload_length h.backed]
  rw [flushedText]
  cases ht : textOf c.payload g with
  | none =>
      rw [pack_noText f h hcode ((textOf_eq_none_iff c.payload).mp ht)]
      rfl
  | some t =>
      simp only [Option.bind_eq_bind, Option.bind_some]
      split_ifs with hfit
      · obtain ⟨b, header, space, hflush, hheader, -, -⟩ :=
          flush_text_fits f hback hcode rfl ht (hres ▸ hfit)
        rw [pack_flushed f h, hflush, Option.map_some, payload_stored_cut _ b hheader]
      · rw [pack_flushed f h, flush_text_overrun f hback hcode rfl ht (by omega)]
        rfl

/-- A group is appended to the text. -/
lemma pack_text (f : Fresh) {c : Command} {g : List ArgData} {text : List U8} (h : Flushed c)
    (hcode : c.code < f2CodeStart) (hargs : ∀ x ∈ g, argSize x ≤ 65535)
    (ht : textOf c.payload g = some text) (hfit : text.length ≤ 65535) :
    ∃ c', pack f c g = some c' ∧ Flushed c' ∧ c'.code = c.code ∧
      c'.size = UInt16.ofNat text.length ∧ c'.payload = text := by
  have hback : Backed { c with writer := g.map arg } := h.backed
  obtain ⟨b, header, space, hflush, hheader, -, -⟩ :=
    flush_text f hback hcode rfl hargs ht
  rw [← pack_flushed f h] at hflush
  exact ⟨_, hflush, (pack_kept h hflush).1, rfl, rfl, payload_stored _ b hheader hfit⟩

/-! ### Binary -/

lemma grow_writer (f : Fresh) (s : ℕ) (c : Command) (w : List Arg) :
    (grow f s { c with writer := w }).data = (grow f s c).data := by
  obtain ⟨size, code, data, offset, writer, peer⟩ := c
  cases data with
  | none => rfl
  | some b =>
      simp only [grow]
      split_ifs <;> rfl

/-- **A binary flush**: the payload, the records, and the block as it was behind them, cut to the
low 16 bits of what was reserved. -/
lemma pack_binary_flushed (f : Fresh) {c : Command} (h : Flushed c) (hcode : ¬ c.code < f2CodeStart)
    (g : List ArgData) :
    ∃ b c', (c.grow f (c.size.toNat + reservation g)).data = some b ∧ pack f c g = some c' ∧
      c'.size.toNat = (c.size.toNat + reservation g) % 65536 ∧
      c'.payload = (c.payload ++ ((g.map arg).flatMap argRecord
        ++ b.bytes.drop (4 + c.size.toNat + ((g.map arg).flatMap argRecord).length))).take
          ((c.size.toNat + reservation g) % 65536) := by
  have hback : Backed { c with writer := g.map arg } := h.backed
  obtain ⟨b, front, space, hdata, hgrown, hflush⟩ := flush_binary f hback hcode
  rw [reserved_group] at hdata hflush
  rw [grow_writer] at hdata
  rw [← pack_flushed f h] at hflush
  have hsize : (UInt16.ofNat (c.size.toNat + reservation g)).toNat
      = (c.size.toNat + reservation g) % 65536 := UInt16.toNat_ofNat'
  have hfront : front.length = 4 + c.size.toNat := hgrown.front_length
  have hpay : front.drop 4 = c.payload := hgrown.payload
  refine ⟨b, _, hdata, hflush, hsize, ?_⟩
  show ((front ++ (g.map arg).flatMap argRecord
    ++ space.drop ((g.map arg).flatMap argRecord).length).drop 4).take
      (UInt16.ofNat (c.size.toNat + reservation g)).toNat = _
  rw [hsize, List.append_assoc, List.drop_append_of_le_length (by omega), hpay, hgrown.bytes,
    ← hfront, List.drop_length_add_append]

/-- A group is appended to a binary message, behind all that was reserved before it. -/
lemma pack_binary_append (f : Fresh) {c : Command} {g : List ArgData} (h : Flushed c)
    (hcode : ¬ c.code < f2CodeStart) (hfit : c.size.toNat + (g.map room).sum ≤ 65535) :
    ∃ c', pack f c g = some c' ∧ Flushed c' ∧ c'.code = c.code ∧
      c'.size.toNat = c.size.toNat + (g.map room).sum ∧
      c.payload ++ (g.map arg).flatMap argRecord <+: c'.payload := by
  obtain ⟨b, c', -, hpack, hsize, hpay⟩ := pack_binary_flushed f h hcode g
  obtain ⟨hc', hcode', -⟩ := pack_kept h hpack
  have hres : reservation g = (g.map room).sum := by
    rw [← sum_map_reserve, map_reserve_arg (argSize_le_of_room (by omega))]
  rw [hres, Nat.mod_eq_of_lt (by omega)] at hsize hpay
  refine ⟨c', hpack, hc', hcode', hsize, ?_⟩
  have hlen := (records_length g).1
  have hcpay := payload_length h.backed
  rw [hpay, List.prefix_take_iff, List.length_append]
  exact ⟨by rw [← List.append_assoc]; exact List.prefix_append _ _, by omega⟩

/-- The encoding of a fresh binary message: its records, and behind them what the allocator
left, cut to the low 16 bits of what was reserved. -/
lemma encoding_fresh (f : Fresh) {code : U16} (hcode : ¬ code < f2CodeStart)
    (args : List ArgData) :
    encoding (pack f (new code) args) = some (UInt16.ofNat (reservation args),
      ((args.map arg).flatMap argRecord ++ (block f [] (reservation args)).bytes.drop
        (4 + ((args.map arg).flatMap argRecord).length)).take (reservation args % 65536)) := by
  obtain ⟨b, c', hdata, hpack, hsize, hpay⟩ := pack_binary_flushed f (flushed_new code) hcode args
  have hzero : (new code).size.toNat = 0 := rfl
  have hnil : (new code).payload = [] := rfl
  rw [hzero, Nat.zero_add] at hdata hsize
  rw [hzero, hnil, List.nil_append, Nat.zero_add, Nat.add_zero] at hpay
  obtain rfl : block f [] (reservation args) = b := Option.some.inj hdata
  rw [hpack, encoding, Option.map_some, eq_ofNat_of_mod hsize, hpay]

/-- A message that is cut within its records. -/
lemma encoding_cut (f : Fresh) {code : U16} (hcode : ¬ code < f2CodeStart) {args : List ArgData}
    (hcut : reservation args % 65536 ≤ ((args.map arg).flatMap argRecord).length) :
    encoding (pack f (new code) args)
      = some (UInt16.ofNat (reservation args),
          ((args.map arg).flatMap argRecord).take (reservation args % 65536)) := by
  rw [encoding_fresh f hcode args, List.take_append_of_le_length hcut]

end Command

end Napd
