import Mathlib.Data.List.TakeWhile
import Napd.Basic

/-!
Bytes of a message: C strings, and words in network order.

* `Text`: a NUL-terminated string of bytes, as it is put into and taken out of a message.
* `hton16`, `hton32`: the bytes of a word in network order; `ntoh16`, `ntoh32` read them
  back (`ntoh16_hton16`, `hton16_ntoh16`, `ntoh32_hton32`).
-/

namespace Napd

/-- `long` and `I32`: the program's target has 32-bit `long`. -/
abbrev I32 := Int32

/-- A NUL-terminated string of bytes: what stands before the NUL. -/
abbrev Text := {s : List U8 // 0 ∉ s}

lemma zero_notMem_nil : (0 : U8) ∉ ([] : List U8) := List.not_mem_nil

/-- The C string that begins a list of bytes, without its NUL. -/
def cstring (m : List U8) : List U8 := m.takeWhile (· ≠ 0)

lemma cstring_append {s : List U8} (h : 0 ∉ s) (m : List U8) :
    cstring (s ++ 0 :: m) = s := by
  have hne : ∀ b ∈ s, decide (b ≠ 0) = true := by
    intro b hb
    rw [decide_eq_true_iff]
    exact ne_of_mem_of_not_mem hb h
  rw [cstring, List.takeWhile_append_of_pos hne]
  simp

/-- A string with its NUL is what a block begins with. -/
lemma eq_append_of_take {l s : List U8} (h : l.take (s.length + 1) = s ++ [0]) :
    ∃ rest, l = s ++ 0 :: rest := by
  refine ⟨l.drop (s.length + 1), ?_⟩
  calc l
      = l.take (s.length + 1) ++ l.drop (s.length + 1) := (List.take_append_drop _ _).symm
    _ = s ++ 0 :: l.drop (s.length + 1) := by
        rw [h, List.append_assoc, List.singleton_append]

lemma cstring_append_zero (l : List U8) : cstring (l ++ [0]) = cstring l := by
  induction l with
  | nil => rfl
  | cons b l ih =>
      simp only [cstring, List.cons_append, List.takeWhile_cons] at ih ⊢
      rw [ih]

lemma zero_notMem_cstring (m : List U8) : 0 ∉ cstring m := by
  intro h
  simpa using List.mem_takeWhile_imp h

/-! ### Network order -/

/-- The bytes of `htons(x)`. -/
def hton16 (x : U16) : List U8 := [UInt8.ofNat (x.toNat / 256), UInt8.ofNat x.toNat]

/-- `ntohs` of the word with these bytes. -/
def ntoh16 (a b : U8) : U16 := UInt16.ofNat (a.toNat * 256 + b.toNat)

/-- The bytes of `htonl(x)`. -/
def hton32 (x : U32) : List U8 :=
  [UInt8.ofNat (x.toNat / 16777216), UInt8.ofNat (x.toNat / 65536),
    UInt8.ofNat (x.toNat / 256), UInt8.ofNat x.toNat]

/-- `ntohl` of the word with these bytes. -/
def ntoh32 (a b c d : U8) : U32 :=
  UInt32.ofNat (a.toNat * 16777216 + b.toNat * 65536 + c.toNat * 256 + d.toNat)

@[simp] lemma hton16_length (x : U16) : (hton16 x).length = 2 := rfl

@[simp] lemma hton32_length (x : U32) : (hton32 x).length = 4 := rfl

lemma ntoh16_hton16 (x : U16) :
    ntoh16 (UInt8.ofNat (x.toNat / 256)) (UInt8.ofNat x.toNat) = x := by
  have hx : x.toNat < 2 ^ 16 := x.toNat_lt
  rw [ntoh16, ← UInt16.toNat_inj]
  simp only [UInt16.toNat_ofNat', UInt8.toNat_ofNat']
  omega

lemma ntoh32_hton32 (x : U32) :
    ntoh32 (UInt8.ofNat (x.toNat / 16777216)) (UInt8.ofNat (x.toNat / 65536))
      (UInt8.ofNat (x.toNat / 256)) (UInt8.ofNat x.toNat) = x := by
  have hx : x.toNat < 2 ^ 32 := x.toNat_lt
  rw [ntoh32, ← UInt32.toNat_inj]
  simp only [UInt32.toNat_ofNat', UInt8.toNat_ofNat']
  omega

lemma hton16_ntoh16 (a b : U8) : hton16 (ntoh16 a b) = [a, b] := by
  have ha : a.toNat < 2 ^ 8 := a.toNat_lt
  have hb : b.toNat < 2 ^ 8 := b.toNat_lt
  have hword : (ntoh16 a b).toNat = a.toNat * 256 + b.toNat := by
    rw [ntoh16, UInt16.toNat_ofNat']
    omega
  have hhigh : UInt8.ofNat ((a.toNat * 256 + b.toNat) / 256) = a := by
    rw [← UInt8.toNat_inj, UInt8.toNat_ofNat']
    omega
  have hlow : UInt8.ofNat (a.toNat * 256 + b.toNat) = b := by
    rw [← UInt8.toNat_inj, UInt8.toNat_ofNat']
    omega
  rw [hton16, hword, hhigh, hlow]

end Napd
