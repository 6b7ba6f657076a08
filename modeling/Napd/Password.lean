import Napd.Library.Memory
import Napd.Numbers

/-!
The hash of a password, `crypt_password` of `functions.cc`, for a `ulong` of any width.

* `Hash.step`: one round of the loop; `crypt_password`: the function of the source.
* `Agrees`: accumulators of two widths that are the same modulo 2^32. `agrees_step`: a round
  keeps that, as addition, multiplication, exclusive or and the shift to the left do.
* `hex08`: what `%08lx` prints; `hex08_length`: eight digits, for a number of 32 bits.
* `crypt_password_width`: **the hash is sixteen hexadecimal digits, the same for 32 and 64 bits.**
-/

namespace Napd

/-- The accumulators `nr`, `add` and `nr2` of `crypt_password`, of `w` bits each. -/
structure Hash (w : ℕ) where
  nr : BitVec w
  add : BitVec w
  nr2 : BitVec w

namespace Hash

variable {v w : ℕ}

/-- Before the first character. -/
def new : Hash w := ⟨1345345333#w, 7#w, 0x12345671#w⟩

/-- One round of the loop: blanks and tabs are passed over. -/
def step (h : Hash w) (c : U8) : Hash w :=
  if c = 32 ∨ c = 9 then h
  else
    let tmp := BitVec.ofNat w c.toNat
    let nr := h.nr ^^^ (((h.nr &&& 63#w) + h.add) * tmp + (h.nr <<< 8))
    let nr2 := h.nr2 + ((h.nr2 <<< 8) ^^^ nr)
    ⟨nr, h.add + tmp, nr2⟩

/-- `x & (((ulong) 1L << 31) - 1L)`. -/
def mask (x : BitVec w) : BitVec w := x &&& ((1#w <<< 31) - 1#w)

end Hash

/-- A lower-case hexadecimal digit. -/
def hexChar (d : ℕ) : U8 := UInt8.ofNat (if d < 10 then 48 + d else 87 + d)

/-- What `%lx` prints. -/
def hexadecimal (n : ℕ) : List U8 :=
  if n = 0 then [48] else (Nat.digits 16 n).reverse.map hexChar

/-- What `%08lx` prints: zeros in front, up to eight digits. -/
def hex08 (n : ℕ) : List U8 :=
  List.replicate (8 - (hexadecimal n).length) 48 ++ hexadecimal n

/-- `crypt_password`, with a `ulong` of `w` bits: the buffer `crypted` after it, unless it is
written past its end. -/
def crypt_password (w : ℕ) (password : Text) : Option (List U8) :=
  let h : Hash w := password.val.foldl Hash.step Hash.new
  Memory.splice (List.replicate 17 0) 0
    (hex08 (Hash.mask h.nr).toNat ++ hex08 (Hash.mask h.nr2).toNat ++ [0])

/-! ### Two widths -/

namespace Hash

variable {v w : ℕ}

/-- The accumulators of a wider word, cut down to the narrower. -/
def Agrees (h : Hash w) (k : Hash v) : Prop :=
  h.nr.setWidth v = k.nr ∧ h.add.setWidth v = k.add ∧ h.nr2.setWidth v = k.nr2

lemma agrees_new (hvw : v ≤ w) : Agrees (new : Hash w) (new : Hash v) :=
  ⟨BitVec.setWidth_ofNat_of_le hvw _, BitVec.setWidth_ofNat_of_le hvw _,
    BitVec.setWidth_ofNat_of_le hvw _⟩

/-- A round keeps the agreement: no operation brings a high bit down. -/
lemma agrees_step (hvw : v ≤ w) {h : Hash w} {k : Hash v} (hk : Agrees h k) (c : U8) :
    Agrees (h.step c) (k.step c) := by
  obtain ⟨hnr, hadd, hnr2⟩ := hk
  rw [step, step]
  split_ifs with hblank
  · exact ⟨hnr, hadd, hnr2⟩
  · have htmp : (BitVec.ofNat w c.toNat).setWidth v = BitVec.ofNat v c.toNat :=
      BitVec.setWidth_ofNat_of_le hvw _
    have h63 : (63#w).setWidth v = 63#v := BitVec.setWidth_ofNat_of_le hvw _
    have hnr' : (h.nr ^^^ (((h.nr &&& 63#w) + h.add) * BitVec.ofNat w c.toNat
        + (h.nr <<< 8))).setWidth v
        = k.nr ^^^ (((k.nr &&& 63#v) + k.add) * BitVec.ofNat v c.toNat + (k.nr <<< 8)) := by
      rw [BitVec.setWidth_xor, BitVec.setWidth_add _ _ hvw, BitVec.setWidth_mul _ _ hvw,
        BitVec.setWidth_add _ _ hvw, BitVec.setWidth_and, BitVec.setWidth_shiftLeft_of_le hvw,
        hnr, hadd, htmp, h63]
    refine ⟨hnr', ?_, ?_⟩
    · rw [BitVec.setWidth_add _ _ hvw, hadd, htmp]
    · rw [BitVec.setWidth_add _ _ hvw, BitVec.setWidth_xor, BitVec.setWidth_shiftLeft_of_le hvw,
        hnr2, hnr']

/-- The whole password keeps it. -/
lemma agrees_foldl (hvw : v ≤ w) {h : Hash w} {k : Hash v} (hk : Agrees h k) (s : List U8) :
    Agrees (s.foldl step h) (s.foldl step k) := by
  induction s generalizing h k with
  | nil => exact hk
  | cons c s ih => exact ih (agrees_step hvw hk c)

/-- The mask keeps 31 bits, whatever the width. -/
lemma toNat_mask (hw : 32 ≤ w) (x : BitVec w) : (mask x).toNat = x.toNat % 2 ^ 31 := by
  have hpow : 2 ^ 32 ≤ 2 ^ w := Nat.pow_le_pow_right (by decide) hw
  have hone : (1#w).toNat = 1 := by
    rw [BitVec.toNat_ofNat, Nat.mod_eq_of_lt (by omega)]
  have hbit : (1#w <<< 31).toNat = 2 ^ 31 := by
    rw [BitVec.toNat_shiftLeft, hone, Nat.shiftLeft_eq, one_mul, Nat.mod_eq_of_lt (by omega)]
  have hmask : ((1#w <<< 31) - 1#w).toNat = 2 ^ 31 - 1 := by
    rw [BitVec.toNat_sub_of_le (by rw [BitVec.le_def, hone, hbit]; decide), hone, hbit]
  rw [mask, BitVec.toNat_and, hmask, Nat.and_two_pow_sub_one_eq_mod]

/-- Accumulators that agree on 32 bits have the same masked values. -/
lemma toNat_mask_eq (hw : 32 ≤ w) {x : BitVec w} {y : BitVec 32} (h : x.setWidth 32 = y) :
    (mask x).toNat = (mask y).toNat := by
  calc (mask x).toNat
      = x.toNat % 2 ^ 31 := toNat_mask hw x
    _ = x.toNat % 2 ^ 32 % 2 ^ 31 := (Nat.mod_mod_of_dvd _ (by decide)).symm
    _ = (mask y).toNat := by rw [toNat_mask (le_refl 32), ← h, BitVec.toNat_setWidth]

end Hash

/-- The hash does not depend on the width of `ulong`, from 32 bits on. -/
lemma crypt_password_eq {w : ℕ} (hw : 32 ≤ w) (password : Text) :
    crypt_password w password = crypt_password 32 password := by
  obtain ⟨hnr, -, hnr2⟩ := Hash.agrees_foldl hw (Hash.agrees_new hw) password.val
  rw [crypt_password, crypt_password, Hash.toNat_mask_eq hw hnr, Hash.toNat_mask_eq hw hnr2]

/-! ### The digits -/

/-- A digit of `0123456789abcdef`. -/
def IsHex (c : U8) : Prop := ∃ d < 16, c = hexChar d

lemma isHex_of_mem_hexadecimal {n : ℕ} {c : U8} (h : c ∈ hexadecimal n) : IsHex c := by
  rw [hexadecimal] at h
  split_ifs at h with hn
  · exact ⟨0, by decide, List.mem_singleton.mp h⟩
  · obtain ⟨d, hd, rfl⟩ := List.mem_map.mp h
    exact ⟨d, Nat.digits_lt_base (by decide) (List.mem_reverse.mp hd), rfl⟩

lemma hexadecimal_length_le {n : ℕ} (h : n < 16 ^ 8) : (hexadecimal n).length ≤ 8 := by
  rw [hexadecimal]
  split_ifs with hn
  · decide
  · rw [List.length_map, List.length_reverse, Nat.digits_length_le_iff (by decide)]
    exact h

/-- Eight digits. -/
lemma hex08_length {n : ℕ} (h : n < 16 ^ 8) : (hex08 n).length = 8 := by
  have hlen := hexadecimal_length_le h
  rw [hex08, List.length_append, List.length_replicate]
  omega

lemma isHex_of_mem_hex08 {n : ℕ} {c : U8} (h : c ∈ hex08 n) : IsHex c := by
  rcases List.mem_append.mp h with h | h
  · exact ⟨0, by decide, List.eq_of_mem_replicate h⟩
  · exact isHex_of_mem_hexadecimal h

/-- A masked value has 31 bits, so its digits are eight. -/
lemma hex08_mask_length {w : ℕ} (hw : 32 ≤ w) (x : BitVec w) :
    (hex08 (Hash.mask x).toNat).length = 8 := by
  refine hex08_length ?_
  rw [Hash.toNat_mask hw]
  exact lt_trans (Nat.mod_lt _ (by decide)) (by decide)

/-- **Password hashes are independent of the word size**: sixteen digits, which fill the buffer
together with their terminator. -/
theorem crypt_password_width (password : Text) : ∃ digits : List U8, digits.length = 16 ∧
    (∀ c ∈ digits, IsHex c) ∧ crypt_password 32 password = some (digits ++ [0]) ∧
    crypt_password 64 password = some (digits ++ [0]) := by
  rw [crypt_password_eq (w := 64) (by decide)]
  set h : Hash 32 := password.val.foldl Hash.step Hash.new with hh
  have h₁ := hex08_mask_length (le_refl 32) h.nr
  have h₂ := hex08_mask_length (le_refl 32) h.nr2
  refine ⟨hex08 (Hash.mask h.nr).toNat ++ hex08 (Hash.mask h.nr2).toNat, ?_, ?_, ?_⟩
  · rw [List.length_append, h₁, h₂]
  · intro c hc
    rcases List.mem_append.mp hc with hc | hc
    · exact isHex_of_mem_hex08 hc
    · exact isHex_of_mem_hex08 hc
  · rw [and_self, crypt_password, ← hh]
    exact Memory.splice_all (by rw [List.length_append, List.length_append, h₁, h₂]; rfl)

end Napd
