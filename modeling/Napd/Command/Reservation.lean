import Napd.Command.Flushes
import Napd.Command.Text
import Napd.Library.Runs
import Napd.Users

/-!
What `_flush` stores and what `_grow` has reserved for it, over any run of pushes and flushes.

* `Call`, `call`: the pushes and the flush, as steps of a machine.
* `Extent`, `textExtent`, `flushExtent`: how far a flush writes, whatever the block holds.
* `Sound`: the stores lie in the reservation, and the 16-bit size covers what was encoded.
* `run_sound_iff`: a run is sound where every flush fits, and only there.
-/

namespace Napd

namespace Command

open Memory Runs

/-! ### Runs -/

/-- `_push(User *)`. -/
def pushUser (c : Command) (u : User) : Command := push c (.string u.name)

/-- A push of a number, a string or a `Data`, a push of a user, or a flush. -/
inductive Call where
  | push (x : ArgData)
  | pushUser (u : User)
  | flush (f : Fresh)

/-- One call; a store outside the block and a failed `assert` end the run. -/
def call (c : Command) : Call → Option Command
  | .push x => some (c.push x)
  | .pushUser u => some (c.pushUser u)
  | .flush f => c.flush f

/-! ### How far a flush writes -/

/-- Where the pointer of `_flush` stands, and the end of what it has stored, the NUL of a
`sprintf` included; both are counted from `data`. -/
structure Extent where
  p : ℕ
  high : ℕ

/-- The text loop of `_flush`, which ends at the `assert` of a `DATA` argument. -/
def textExtent (e : Extent) : List Arg → Extent
  | [] => e
  | x :: xs =>
      let q := if 0 < e.p then e.p + 1 else e.p
      match argText x.data with
      | some t => textExtent ⟨q + t.length, max e.high (q + t.length + 1)⟩ xs
      | none => ⟨q, max e.high q⟩

/-- How far `_flush` writes. -/
def flushExtent (c : Command) : Extent :=
  if c.code < f2CodeStart then textExtent ⟨c.size.toNat, c.size.toNat⟩ c.writer
  else
    ⟨c.size.toNat + (c.writer.flatMap argRecord).length,
      c.size.toNat + (c.writer.flatMap argRecord).length⟩

/-- The number of bytes `_flush` stores at `data + size`. -/
def stores (c : Command) : ℕ := (flushExtent c).high - c.size.toNat

/-- The number of bytes at `data + size` in the block of `_grow`. -/
def capacity (f : Fresh) (c : Command) : ℕ :=
  match (c.grow f (reserved c)).data with
  | some b => b.bytes.length - (4 + c.size.toNat)
  | none => 0

/-- A text flush that meets a `DATA` argument fails its `assert`. -/
def Aborts (c : Command) : Prop := c.code < f2CodeStart ∧ ∃ x ∈ c.writer, argText x.data = none

/-- The stores of a flush lie in the reservation; it returns, unless an `assert` fails, and
then the size is not smaller than what was encoded. -/
def Sound (f : Fresh) (c : Command) : Prop :=
  stores c ≤ capacity f c ∧
    (¬ Aborts c → ∃ c', c.flush f = some c' ∧ (flushExtent c).p ≤ c'.size.toNat)

/-- A string whose size with its NUL is not cut to 16 bits. -/
def Short : ArgData → Prop
  | .string s => s.val.length < 65535
  | _ => True

/-- The pending arguments fit in the message: in text, no string is cut and the text is not
longer than a message may be; in binary, what is reserved is not. -/
def Fits (c : Command) : Prop :=
  if c.code < f2CodeStart then
    (∀ x ∈ c.writer, Short x.data) ∧
      ∀ text, textOf c.payload (c.writer.map Arg.data) = some text → text.length ≤ 65535
  else reserved c ≤ 65535

/-- What a call is asked for: a flush, to be sound. -/
def SoundCall (c : Command) : Call → Prop
  | .flush f => Sound f c
  | _ => True

/-- The condition on a call: what a flush finds pending fits. -/
def FitsCall (c : Command) : Call → Prop
  | .flush _ => Fits c
  | _ => True

/-- A call that pushes no string whose size is cut. -/
def Call.Short : Call → Prop
  | .push x => Command.Short x
  | .pushUser u => Command.Short (.string u.name)
  | .flush _ => True

/-! ### What every call keeps -/

/-- A command between calls: its block holds the payload, its writer what was pushed. -/
structure Pushed (c : Command) : Prop where
  backed : Backed c
  args : ∀ x ∈ c.writer, x = arg x.data

lemma pushed_push {c : Command} (h : Pushed c) (x : ArgData) : Pushed (c.push x) := by
  refine ⟨h.backed, fun y hy => ?_⟩
  rcases List.mem_append.mp hy with hy | hy
  · exact h.args y hy
  · rw [List.mem_singleton.mp hy]
    rfl

lemma pushed_call {c c' : Command} {x : Call} (h : Pushed c) (hrun : c.call x = some c') :
    Pushed c' ∧ c'.code = c.code := by
  cases x with
  | push x => exact Option.some.inj hrun ▸ ⟨pushed_push h x, rfl⟩
  | pushUser u => exact Option.some.inj hrun ▸ ⟨pushed_push h _, rfl⟩
  | flush f =>
      obtain ⟨hback, hw, hcode, -⟩ := flush_backed h.backed hrun
      refine ⟨⟨hback, fun y hy => ?_⟩, hcode⟩
      rw [hw] at hy
      exact absurd hy List.not_mem_nil

lemma short_call {c c' : Command} {x : Call} (hback : Backed c)
    (h : ∀ y ∈ c.writer, Short y.data) (hx : x.Short) (hrun : c.call x = some c') :
    ∀ y ∈ c'.writer, Short y.data := by
  have hpush : ∀ z : ArgData, Short z → ∀ y ∈ (c.push z).writer, Short y.data := by
    intro z hz y hy
    rcases List.mem_append.mp hy with hy | hy
    · exact h y hy
    · rw [List.mem_singleton.mp hy]
      exact hz
  cases x with
  | push x => exact Option.some.inj hrun ▸ hpush x hx
  | pushUser u => exact Option.some.inj hrun ▸ hpush _ hx
  | flush f =>
      obtain ⟨-, hw, -⟩ := flush_backed hback hrun
      intro y hy
      rw [hw] at hy
      exact absurd hy List.not_mem_nil

lemma map_arg_data {c : Command} (h : Pushed c) : (c.writer.map Arg.data).map arg = c.writer := by
  calc (c.writer.map Arg.data).map arg
      = c.writer.map (arg ∘ Arg.data) := List.map_map
    _ = c.writer.map id := List.map_congr_left fun x hx => (h.args x hx).symm
    _ = c.writer := List.map_id _

/-- The block of `_grow` has room for what is reserved, and one byte more. -/
lemma reserve_lt_capacity (f : Fresh) {c : Command} (h : Backed c) :
    (c.writer.map reserve).sum + 1 ≤ capacity f c := by
  obtain ⟨b, front, room, hdata, hgrown⟩ := grow_grown f h (s := reserved c) (Nat.le_add_right _ _)
  have hlen : b.bytes.length = front.length + room.length := by
    rw [hgrown.bytes, List.length_append]
  have hfront := hgrown.front_length
  have hroom := hgrown.room_length
  rw [reserved] at hroom
  rw [capacity, hdata]
  show _ ≤ b.bytes.length - (4 + c.size.toNat)
  omega

/-! ### Text -/

/-- An argument that has a text, and is not cut, has a size of 16 bits. -/
lemma argSize_le_of_short {x : ArgData} (hs : Short x) (ht : argText x ≠ none) :
    argSize x ≤ 65535 := by
  cases x with
  | integer n => exact (by decide : 4 ≤ 65535)
  | string s => exact hs
  | data bytes => exact absurd rfl ht

/-- The text of an argument that is not cut, with a space in front, fits in what is reserved
for it. -/
lemma argText_length_lt_reserve {x : Arg} {t : List U8} (hx : x = arg x.data) (hs : Short x.data)
    (ht : argText x.data = some t) : t.length + 1 ≤ reserve x := by
  have hroom : [x].map reserve = [x.data].map room := by
    have hshort : ∀ y ∈ [x.data], argSize y ≤ 65535 := by
      intro y hy
      rw [List.mem_singleton.mp hy]
      exact argSize_le_of_short hs (by rw [ht]; exact Option.some_ne_none t)
    have hmap := map_reserve_arg hshort
    rwa [List.map_singleton, ← hx] at hmap
  have hlt := argText_length_lt ht
  rw [List.map_singleton, List.map_singleton, List.singleton_inj] at hroom
  omega

/-- The text loop stays in what is reserved, with one byte for the last NUL. -/
lemma textExtent_high_le {e : Extent} {n : ℕ} {xs : List Arg} (hp : e.p ≤ n) (hh : e.high ≤ n + 1)
    (hargs : ∀ x ∈ xs, x = arg x.data) (hs : ∀ x ∈ xs, Short x.data) :
    (textExtent e xs).high ≤ n + (xs.map reserve).sum + 1 := by
  induction xs generalizing e n with
  | nil => simpa [textExtent] using hh
  | cons x xs ih =>
      have hq : (if 0 < e.p then e.p + 1 else e.p) ≤ n + 1 := by
        split_ifs <;> omega
      have h4 : 4 ≤ reserve x := by
        rw [reserve]
        omega
      rw [List.map_cons, List.sum_cons, textExtent]
      cases ht : argText x.data with
      | none =>
          simp only
          omega
      | some t =>
          have hlt := argText_length_lt_reserve (hargs x List.mem_cons_self)
            (hs x List.mem_cons_self) ht
          simp only
          have := ih (e := ⟨(if 0 < e.p then e.p + 1 else e.p) + t.length,
              max e.high ((if 0 < e.p then e.p + 1 else e.p) + t.length + 1)⟩) (n := n + reserve x)
            (by simp only; omega) (by simp only; omega)
            (fun y hy => hargs y (List.mem_cons_of_mem _ hy))
            (fun y hy => hs y (List.mem_cons_of_mem _ hy))
          omega

/-- The text loop ends behind the text. -/
lemma textExtent_p {e : Extent} {xs : List Arg} {text text' : List U8} (hp : e.p = text.length)
    (ht : textOf text (xs.map Arg.data) = some text') : (textExtent e xs).p = text'.length := by
  induction xs generalizing e text with
  | nil => rw [textExtent, hp, Option.some.inj ht]
  | cons x xs ih =>
      rw [List.map_cons, textOf] at ht
      rw [textExtent]
      cases hx : argText x.data with
      | none => simp [hx] at ht
      | some t =>
          rw [hx] at ht
          refine ih ?_ ht
          rw [joinText, hp]
          by_cases hnil : text = []
          · simp [hnil]
          · rw [if_neg hnil, if_pos (List.length_pos_of_ne_nil hnil), List.length_append,
              List.length_cons]
            show text.length + 1 + t.length = _
            omega

lemma stores_text_le (f : Fresh) {c : Command} (h : Pushed c) (hcode : c.code < f2CodeStart)
    (hs : ∀ x ∈ c.writer, Short x.data) : stores c ≤ capacity f c := by
  have hhigh := textExtent_high_le (e := ⟨c.size.toNat, c.size.toNat⟩)
    (le_refl c.size.toNat) (Nat.le_succ c.size.toNat) h.args hs
  have hcap := reserve_lt_capacity f h.backed
  rw [stores, flushExtent, if_pos hcode]
  omega

/-- An `assert` fails exactly where the arguments have no text. -/
lemma aborts_iff {c : Command} (hcode : c.code < f2CodeStart) :
    Aborts c ↔ textOf c.payload (c.writer.map Arg.data) = none := by
  rw [Aborts, and_iff_right hcode, textOf_eq_none_iff]
  simp

/-- A text flush whose arguments are not cut ends behind the text, and sets the size to the low
16 bits of its length. -/
lemma flush_text_ends (f : Fresh) {c : Command} {text : List U8} (h : Pushed c)
    (hcode : c.code < f2CodeStart) (hs : ∀ x ∈ c.writer, Short x.data)
    (htext : textOf c.payload (c.writer.map Arg.data) = some text) :
    (flushExtent c).p = text.length ∧
      ∃ c', c.flush f = some c' ∧ c'.size.toNat = text.length % 65536 := by
  have hnone : ∀ x ∈ c.writer.map Arg.data, argText x ≠ none := by
    intro x hx hno
    have hnotext := (textOf_eq_none_iff c.payload).mpr ⟨x, hx, hno⟩
    rw [htext] at hnotext
    cases hnotext
  have hsize : ∀ x ∈ c.writer.map Arg.data, argSize x ≤ 65535 := by
    intro d hd
    obtain ⟨x, hx, rfl⟩ := List.mem_map.mp hd
    exact argSize_le_of_short (hs x hx) (hnone x.data hd)
  obtain ⟨b, header, room, hrun, -, -, -⟩ :=
    flush_text f h.backed hcode (map_arg_data h).symm hsize htext
  refine ⟨?_, _, hrun, UInt16.toNat_ofNat'⟩
  rw [flushExtent, if_pos hcode]
  exact textExtent_p (payload_length h.backed).symm htext

/-- A text flush of arguments that are not cut. -/
lemma sound_text_iff (f : Fresh) {c : Command} (h : Pushed c) (hcode : c.code < f2CodeStart)
    (hs : ∀ x ∈ c.writer, Short x.data) :
    Sound f c ↔
      ∀ text, textOf c.payload (c.writer.map Arg.data) = some text → text.length ≤ 65535 := by
  constructor
  · intro hsound text htext
    have hreturns : ¬ Aborts c := by
      rw [aborts_iff hcode, htext]
      exact Option.some_ne_none text
    obtain ⟨hp, c', hrun, hsize⟩ := flush_text_ends f h hcode hs htext
    obtain ⟨c'', hrun', hle⟩ := hsound.2 hreturns
    rw [hrun, Option.some.injEq] at hrun'
    subst hrun'
    omega
  · refine fun hfit => ⟨stores_text_le f h hcode hs, fun hreturns => ?_⟩
    cases htext : textOf c.payload (c.writer.map Arg.data) with
    | none => exact absurd ((aborts_iff hcode).mpr htext) hreturns
    | some text =>
        obtain ⟨hp, c', hrun, hsize⟩ := flush_text_ends f h hcode hs htext
        have hlen := hfit text htext
        exact ⟨c', hrun, by omega⟩

/-! ### Binary -/

/-- The records of pushed arguments are behind the size exactly when the reservation wraps. -/
lemma encoded_le_iff {c : Command} (h : Pushed c) :
    c.size.toNat + (c.writer.flatMap argRecord).length ≤ reserved c % 65536 ↔
      reserved c ≤ 65535 := by
  obtain ⟨hlen, h8⟩ := records_length (c.writer.map Arg.data)
  rw [← sum_map_reserve, map_arg_data h] at hlen h8
  have hsize : c.size.toNat < 2 ^ 16 := c.size.toNat_lt
  rw [reserved]
  constructor
  · intro hle
    by_contra hwrap
    omega
  · intro hle
    omega

lemma sound_binary_iff (f : Fresh) {c : Command} (h : Pushed c) (hcode : ¬ c.code < f2CodeStart) :
    Sound f c ↔ reserved c ≤ 65535 := by
  have hextent : flushExtent c = ⟨c.size.toNat + (c.writer.flatMap argRecord).length,
      c.size.toNat + (c.writer.flatMap argRecord).length⟩ := by
    rw [flushExtent, if_neg hcode]
  have hstores : stores c ≤ capacity f c := by
    have hle := flatMap_argRecord_length_le c.writer
    have hcap := reserve_lt_capacity f h.backed
    rw [stores, hextent]
    simp only
    omega
  obtain ⟨b, front, room, -, -, hflush⟩ := flush_binary f h.backed hcode
  have hsize : (c.stored b (front ++ c.writer.flatMap argRecord
      ++ room.drop (c.writer.flatMap argRecord).length) (reserved c)).size.toNat
      = reserved c % 65536 := UInt16.toNat_ofNat'
  rw [← encoded_le_iff h, ← hsize]
  constructor
  · rintro ⟨-, hsound⟩
    obtain ⟨c', hrun, hle⟩ := hsound (fun ha => hcode ha.1)
    rw [hflush, Option.some.injEq] at hrun
    subst hrun
    rwa [hextent] at hle
  · intro hle
    exact ⟨hstores, fun _ => ⟨_, hflush, by rwa [hextent]⟩⟩

/-! ### Runs of pushes and flushes -/

/-- **One flush** that fits is sound. -/
lemma sound_of_fits (f : Fresh) {c : Command} (h : Pushed c) (hfit : Fits c) : Sound f c := by
  rw [Fits] at hfit
  split_ifs at hfit with hcode
  · exact (sound_text_iff f h hcode hfit.1).mpr hfit.2
  · exact (sound_binary_iff f h hcode).mpr hfit

/-- One flush that is sound fits, in text where no string is cut. -/
lemma fits_of_sound {f : Fresh} {c : Command} (h : Pushed c)
    (hs : c.code < f2CodeStart → ∀ x ∈ c.writer, Short x.data) (hsound : Sound f c) : Fits c := by
  rw [Fits]
  split_ifs with hcode
  · exact ⟨hs hcode, (sound_text_iff f h hcode (hs hcode)).mp hsound⟩
  · exact (sound_binary_iff f h hcode).mp hsound

lemma pushed_new (code : U16) : Pushed (new code) :=
  ⟨backed_new code, fun _ hx => absurd hx List.not_mem_nil⟩

/-- A command of a run that pushes no string whose size is cut: none is pending either. -/
structure Uncut (code : U16) (c : Command) : Prop where
  pushed : Pushed c
  code_eq : c.code = code
  short : code < f2CodeStart → ∀ y ∈ c.writer, Short y.data

lemma uncut_new (code : U16) : Uncut code (new code) :=
  ⟨pushed_new code, rfl, fun _ _ hy => absurd hy List.not_mem_nil⟩

lemma uncut_call {code : U16} {c c' : Command} {x : Call} (h : Uncut code c)
    (hx : code < f2CodeStart → x.Short) (hrun : c.call x = some c') : Uncut code c' := by
  obtain ⟨hpushed, hcode⟩ := pushed_call h.pushed hrun
  refine ⟨hpushed, hcode.trans h.code_eq, fun htext => ?_⟩
  exact short_call h.pushed.backed (h.short htext) (hx htext) hrun

lemma soundCall_of_fitsCall {c : Command} {x : Call} (h : Pushed c) (hfit : FitsCall c x) :
    SoundCall c x := by
  cases x with
  | flush f => exact sound_of_fits f h hfit
  | _ => trivial

lemma fitsCall_of_soundCall {code : U16} {c : Command} {x : Call} (h : Uncut code c)
    (hsound : SoundCall c x) : FitsCall c x := by
  cases x with
  | flush f =>
      exact fits_of_sound h.pushed (fun htext => h.short (h.code_eq ▸ htext)) hsound
  | _ => trivial

/-- **Every run** of pushes and flushes is sound in which every flush fits; and where no
string is cut, or in binary, only those are. -/
theorem run_sound_iff (code : U16) (calls : List Call) :
    (Always call FitsCall (new code) calls → Always call SoundCall (new code) calls) ∧
    ((code < f2CodeStart → ∀ x ∈ calls, x.Short) →
      (Always call SoundCall (new code) calls ↔ Always call FitsCall (new code) calls)) := by
  have hsound : Always call FitsCall (new code) calls →
      Always call SoundCall (new code) calls :=
    Always.of_keeps (fun _ _ _ h _ hrun => (pushed_call h hrun).1)
      (fun _ _ h hfit => soundCall_of_fitsCall h hfit) (pushed_new code)
  refine ⟨hsound, fun hshort => ⟨fun hall => ?_, hsound⟩⟩
  have hinputs : Always call (fun _ x => code < f2CodeStart → x.Short) (new code) calls :=
    Always.of_forall (fun x hx hcode => hshort hcode x hx) _
  refine Always.of_keeps ?_ ?_ (uncut_new code) (hall.and hinputs)
  · rintro c x c' h ⟨-, hx⟩ hrun
    exact uncut_call h hx hrun
  · rintro c x h ⟨hs, -⟩
    exact fitsCall_of_soundCall h hs

/-- A string of 65535 bytes reserves as much as an empty one. -/
lemma not_sound_string (f : Fresh) {s : Text} (hlen : s.val.length = 65535)
    (hspace : Tokenizer.space ∉ s.val) : ¬ Sound f ((new 1).push (.string s)) := by
  have hsize : UInt16.ofNat (argSize (.string s)) = 0 := by
    rw [argSize, hlen]
    rfl
  have hres : reserved ((new 1).push (.string s)) = 8 := by
    show 0 + (argHeadSize + (UInt16.ofNat (argSize (.string s))).toNat + 4 + 0) = 8
    rw [hsize]
    rfl
  have hcap : capacity f ((new 1).push (.string s)) = 9 := by
    rw [capacity, hres]
    show (block f [] 8).bytes.length - (4 + 0) = 9
    rw [block_length]
  have hextent : flushExtent ((new 1).push (.string s)) = textExtent ⟨0, 0⟩ [arg (.string s)] := rfl
  have htext : argText (arg (.string s)).data = some s.val := if_neg hspace
  have hstores : stores ((new 1).push (.string s)) = 65536 := by
    rw [stores, hextent, textExtent, htext]
    show max 0 (0 + s.val.length + 1) - 0 = 65536
    rw [hlen]
    rfl
  intro hsound
  have hle := hsound.1
  omega

/-- A `Data` of 65535 bytes reserves more than the size of a command can say. -/
lemma not_sound_data (f : Fresh) {bytes : List U8} (hlen : bytes.length = 65535) :
    ¬ Sound f ((new 10000).push (.data bytes)) := by
  have hres : reserved ((new 10000).push (.data bytes)) = 65543 := by
    show 0 + (argHeadSize + (UInt16.ofNat bytes.length).toNat + 4 + 0) = 65543
    rw [hlen]
    rfl
  have hcode : ¬ ((new 10000).push (.data bytes)).code < f2CodeStart :=
    show ¬ (10000 : U16) < f2CodeStart by decide
  rw [sound_binary_iff f (pushed_push (pushed_new 10000) _) hcode, hres]
  omega

/-- A text with one string of 65535 bytes, and a binary message with a `Data` of as many. -/
theorem not_sound_long :
    ¬ Always call SoundCall (new 1)
        [.push (.string (letters 65535)), .flush ⟨8, by decide, fun _ => 170⟩] ∧
    ¬ Always call SoundCall (new 10000)
        [.push (.data (List.replicate 65535 0)), .flush ⟨8, by decide, fun _ => 170⟩] := by
  constructor
  · rintro ⟨-, h⟩
    exact not_sound_string _ (letters_length _) (space_notMem_letters _) (h _ rfl).1
  · rintro ⟨-, h⟩
    exact not_sound_data _ List.length_replicate (h _ rfl).1

end Command

end Napd
