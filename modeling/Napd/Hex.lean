import Napd.CidClient.Model

/-!
Bytes in hexadecimal, `hex_to_bin` and `bin_to_hex` of `functions.cc`.

* `write`: a byte of a buffer is written, at an index that is an `int`.
* `hexLoop`, `hex_to_bin`, `binStep`, `bin_to_hex`: the functions of the source.
* `decode`, `encode`: what they make of digits and bytes. `decode_encode` and `encode_decode`: the
  two are inverse, but for the case of the digits and a missing last one.
* `hex_to_bin_eq`, `bin_to_hex_eq`: the functions write `decode` and `encode`, of as much as an
  `int` can index. `bin_to_hex_fault`: more than that is written in front of the buffer.
* `roundTrips_iff`: **bytes come back if and only if there are at most `2 ^ 30` of them, and digits
  if and only if there are at most `2 ^ 31`.**
-/

namespace Napd

namespace Hex

/-- `_hex_to_bin`. -/
def hexToBin : List U8 := [
  0, 0, 0, 0, 0, 0, 0, 0, 0, 0, 0, 0, 0, 0, 0, 0,
  0, 0, 0, 0, 0, 0, 0, 0, 0, 0, 0, 0, 0, 0, 0, 0,
  0, 0, 0, 0, 0, 0, 0, 0, 0, 0, 0, 0, 0, 0, 0, 0,
  0, 1, 2, 3, 4, 5, 6, 7, 8, 9, 0, 0, 0, 0, 0, 0,
  0, 10, 11, 12, 13, 14, 15, 0, 0, 0, 0, 0, 0, 0, 0, 0,
  0, 0, 0, 0, 0, 0, 0, 0, 0, 0, 0, 0, 0, 0, 0, 0,
  0, 10, 11, 12, 13, 14, 15, 0, 0, 0, 0, 0, 0, 0, 0, 0,
  0, 0, 0, 0, 0, 0, 0, 0, 0, 0, 0, 0, 0, 0, 0, 0,
  0, 0, 0, 0, 0, 0, 0, 0, 0, 0, 0, 0, 0, 0, 0, 0,
  0, 0, 0, 0, 0, 0, 0, 0, 0, 0, 0, 0, 0, 0, 0, 0,
  0, 0, 0, 0, 0, 0, 0, 0, 0, 0, 0, 0, 0, 0, 0, 0,
  0, 0, 0, 0, 0, 0, 0, 0, 0, 0, 0, 0, 0, 0, 0, 0,
  0, 0, 0, 0, 0, 0, 0, 0, 0, 0, 0, 0, 0, 0, 0, 0,
  0, 0, 0, 0, 0, 0, 0, 0, 0, 0, 0, 0, 0, 0, 0, 0,
  0, 0, 0, 0, 0, 0, 0, 0, 0, 0, 0, 0, 0, 0, 0, 0,
  0, 0, 0, 0, 0, 0, 0, 0, 0, 0, 0, 0, 0, 0, 0, 0]

/-- `_bin_to_hex`: the digits `0123456789abcdef`. -/
def binToHex : List U8 :=
  [48, 49, 50, 51, 52, 53, 54, 55, 56, 57, 97, 98, 99, 100, 101, 102]

/-- `_hex_to_bin[c]`: a `char` is signed, and from 128 on stands for an index in front of the
table. -/
def nibble (c : U8) : Option U8 := if c < 128 then hexToBin[c.toNat]? else none

/-- `_bin_to_hex[n]`. -/
def digit (n : U8) : Option U8 := binToHex[n.toNat]?

/-- `out[i] = x`. -/
def write (out : List U8) (i : ℤ) (x : U8) : Option (List U8) :=
  if 0 ≤ i ∧ i.toNat < out.length then some (out.set i.toNat x) else none

/-- `out[i]`. -/
def read (out : List U8) (i : ℤ) : Option U8 := if 0 ≤ i then out[i.toNat]? else none

/-- The loop of `hex_to_bin`, at the characters that are left before the NUL: it ends behind the
first nibble of a byte if there is no second. -/
def hexLoop (out : List U8) (i : I32) : List U8 → Option (List U8 × I32)
  | [] => some (out, i)
  | [c] =>
      (nibble c).bind fun n => (write out i.toInt (n <<< 4)).bind fun out => some (out, i + 1)
  | c :: d :: s =>
      (nibble c).bind fun n => (write out i.toInt (n <<< 4)).bind fun out =>
        (nibble d).bind fun k => (read out i.toInt).bind fun x =>
          (write out i.toInt (x ||| k)).bind fun out => hexLoop out (i + 1) s

/-- `hex_to_bin`: the buffer after it, and `*out_len`. -/
def hex_to_bin (s : List U8) (out : List U8) : Option (List U8 × U32) :=
  (hexLoop out 0 s).map fun r => (r.1, r.2.toUInt32)

/-- The body of the loop of `bin_to_hex`, where `j` is an `int`. -/
def binStep (bytes : List U8) (out : List U8) (i : ℕ) : Option (List U8) :=
  let j : I32 := (UInt32.ofNat i <<< 1).toInt32
  bytes[i]?.bind fun b =>
    (digit (b >>> 4)).bind fun x => (write out (j + 0).toInt x).bind fun out =>
      (digit (b &&& 15)).bind fun y => write out (j + 1).toInt y

/-- `bin_to_hex`: the buffer after it. -/
def bin_to_hex (bytes : List U8) (in_len : U32) (out : List U8) : Option (List U8) :=
  ((List.range in_len.toNat).foldlM (binStep bytes) out).bind fun out =>
    write out (in_len <<< 1).toNat 0

/-! ### Digits -/

/-- `isxdigit`. -/
def isxdigit (c : U8) : Bool :=
  (48 ≤ c && c ≤ 57) || (65 ≤ c && c ≤ 70) || (97 ≤ c && c ≤ 102)

/-- `tolower`. -/
def tolower (c : U8) : U8 := if 65 ≤ c ∧ c ≤ 90 then c + 32 else c

/-- A string of hexadecimal digits, of either case. -/
abbrev Digits := {s : List U8 // ∀ c ∈ s, isxdigit c = true}

/-- The number of a digit. -/
def value (c : U8) : U8 := (nibble c).getD 0

/-- The digit of a number. -/
def letter (n : U8) : U8 := (digit n).getD 0

/-- What digits stand for, two by two. -/
def decode : List U8 → List U8
  | [] => []
  | [c] => [value c <<< 4]
  | c :: d :: s => (value c <<< 4 ||| value d) :: decode s

/-- The digits of bytes. -/
def encode (bytes : List U8) : List U8 :=
  bytes.flatMap fun b : U8 => [letter (b >>> 4), letter (b &&& 15)]

/-- The two tables agree on the digits. -/
lemma nibble_of_isxdigit {c : U8} (h : isxdigit c = true) :
    nibble c = some (value c) ∧ (value c).toNat < 16 ∧ letter (value c) = tolower c := by
  have hall : ∀ n : Fin 256, isxdigit (UInt8.ofNat n) = true →
      nibble (UInt8.ofNat n) = some (value (UInt8.ofNat n)) ∧ (value (UInt8.ofNat n)).toNat < 16 ∧
        letter (value (UInt8.ofNat n)) = tolower (UInt8.ofNat n) := by decide +kernel
  have hc := hall ⟨c.toNat, c.toNat_lt⟩
  rw [UInt8.ofNat_toNat] at hc
  exact hc h

lemma digit_of_lt {n : U8} (h : n.toNat < 16) :
    digit n = some (letter n) ∧ isxdigit (letter n) = true ∧ value (letter n) = n := by
  have hall : ∀ n : Fin 16, digit (UInt8.ofNat n) = some (letter (UInt8.ofNat n)) ∧
      isxdigit (letter (UInt8.ofNat n)) = true ∧
        value (letter (UInt8.ofNat n)) = UInt8.ofNat n := by decide +kernel
  have hn := hall ⟨n.toNat, h⟩
  rw [UInt8.ofNat_toNat] at hn
  exact hn

/-- A byte is its two halves. -/
lemma halves (b : U8) :
    (b >>> 4).toNat < 16 ∧ (b &&& 15).toNat < 16 ∧ (b >>> 4) <<< 4 ||| (b &&& 15) = b := by
  have hall : ∀ n : Fin 256, (UInt8.ofNat n >>> 4).toNat < 16 ∧ (UInt8.ofNat n &&& 15).toNat < 16 ∧
      (UInt8.ofNat n >>> 4) <<< 4 ||| (UInt8.ofNat n &&& 15) = UInt8.ofNat n := by decide +kernel
  have hb := hall ⟨b.toNat, b.toNat_lt⟩
  rwa [UInt8.ofNat_toNat] at hb

/-- The halves of a byte put together of two numbers below 16. -/
lemma halves_or {m n : U8} (hm : m.toNat < 16) (hn : n.toNat < 16) :
    (m <<< 4 ||| n) >>> 4 = m ∧ (m <<< 4 ||| n) &&& 15 = n := by
  have hall : ∀ m n : Fin 16, (UInt8.ofNat m <<< 4 ||| UInt8.ofNat n) >>> 4 = UInt8.ofNat m ∧
      (UInt8.ofNat m <<< 4 ||| UInt8.ofNat n) &&& 15 = UInt8.ofNat n := by decide +kernel
  have h := hall ⟨m.toNat, hm⟩ ⟨n.toNat, hn⟩
  rwa [UInt8.ofNat_toNat, UInt8.ofNat_toNat] at h

lemma encode_cons (b : U8) (bytes : List U8) :
    encode (b :: bytes) = letter (b >>> 4) :: letter (b &&& 15) :: encode bytes := rfl

lemma encode_length (bytes : List U8) : (encode bytes).length = 2 * bytes.length := by
  induction bytes with
  | nil => rfl
  | cons b bytes ih =>
      calc (encode (b :: bytes)).length
          = (encode bytes).length + 2 := by rw [encode_cons, List.length_cons, List.length_cons]
        _ = 2 * bytes.length + 2 := by rw [ih]
        _ = 2 * (b :: bytes).length := by rw [List.length_cons]; ring

lemma isxdigit_of_mem_encode {bytes : List U8} {c : U8} (h : c ∈ encode bytes) :
    isxdigit c = true := by
  obtain ⟨b, -, hc⟩ := List.mem_flatMap.mp h
  obtain ⟨hhi, hlo, -⟩ := halves b
  rcases List.mem_cons.mp hc with rfl | hc
  · exact (digit_of_lt hhi).2.1
  · rw [List.mem_singleton.mp hc]
    exact (digit_of_lt hlo).2.1

/-- Bytes come back from their digits. -/
lemma decode_encode (bytes : List U8) : decode (encode bytes) = bytes := by
  induction bytes with
  | nil => rfl
  | cons b bytes ih =>
      obtain ⟨hhi, hlo, hb⟩ := halves b
      calc decode (encode (b :: bytes))
          = (value (letter (b >>> 4)) <<< 4 ||| value (letter (b &&& 15)))
              :: decode (encode bytes) := by rw [encode_cons, decode]
        _ = ((b >>> 4) <<< 4 ||| (b &&& 15)) :: bytes := by
            rw [(digit_of_lt hhi).2.2, (digit_of_lt hlo).2.2, ih]
        _ = b :: bytes := by rw [hb]

lemma decode_length : ∀ s : List U8, (decode s).length = (s.length + 1) / 2
  | [] => rfl
  | [c] => by simp [decode]
  | c :: d :: s => by
      rw [decode, List.length_cons, decode_length s]
      simp only [List.length_cons]
      omega

/-- Digits come back from their bytes in lower case, with a zero for a missing last one. -/
lemma encode_decode : ∀ s : List U8, (∀ c ∈ s, isxdigit c = true) →
    encode (decode s) = s.map tolower ++ if s.length % 2 = 1 then [48] else []
  | [], _ => rfl
  | [c], h => by
      obtain ⟨-, hlt, hletter⟩ := nibble_of_isxdigit (h c List.mem_cons_self)
      obtain ⟨hhi, hlo⟩ := halves_or (n := 0) hlt (by decide)
      rw [UInt8.or_zero] at hhi hlo
      rw [decode, encode_cons, hhi, hlo, hletter]
      rfl
  | c :: d :: s, h => by
      obtain ⟨-, hc, hcl⟩ := nibble_of_isxdigit (h c List.mem_cons_self)
      obtain ⟨-, hd, hdl⟩ := nibble_of_isxdigit (h d (List.mem_cons_of_mem _ List.mem_cons_self))
      obtain ⟨hhi, hlo⟩ := halves_or hc hd
      have ih := encode_decode s fun x hx =>
        h x (List.mem_cons_of_mem _ (List.mem_cons_of_mem _ hx))
      calc encode (decode (c :: d :: s))
          = letter (value c) :: letter (value d) :: encode (decode s) := by
            rw [decode, encode_cons, hhi, hlo]
        _ = tolower c :: tolower d
              :: (s.map tolower ++ if s.length % 2 = 1 then [48] else []) := by rw [hcl, hdl, ih]
        _ = (c :: d :: s).map tolower ++ if (c :: d :: s).length % 2 = 1 then [48] else [] := by
            simp only [List.length_cons, List.map_cons, List.cons_append,
              show (s.length + 1 + 1) % 2 = s.length % 2 by omega]

/-! ### The loops -/

/-- A write behind `done`. -/
lemma write_append (done : List U8) (y : U8) (room : List U8) {i : ℤ} (hi : i = done.length)
    (x : U8) : write (done ++ y :: room) i x = some (done ++ x :: room) := by
  subst hi
  rw [write, if_pos ⟨Int.natCast_nonneg _, by simp⟩, Int.toNat_natCast,
    List.set_append_right _ _ (le_refl _), Nat.sub_self, List.set_cons_zero]

lemma read_append (done : List U8) (y : U8) (room : List U8) {i : ℤ} (hi : i = done.length) :
    read (done ++ y :: room) i = some y := by
  subst hi
  rw [read, if_pos (Int.natCast_nonneg _), Int.toNat_natCast,
    List.getElem?_append_right (le_refl _), Nat.sub_self, List.getElem?_cons_zero]

/-- An `int` counts up to `2 ^ 31`. -/
lemma toInt_succ {i : I32} {n : ℕ} (hi : i.toInt = n) (hn : n + 1 < 2 ^ 31) :
    (i + 1).toInt = (n + 1 : ℕ) := by
  rw [Int32.toInt_add, hi, show (1 : I32).toInt = 1 from rfl]
  rw [Int.bmod_eq_of_le (by omega) (by omega)]
  push_cast
  ring

/-- The loop of `hex_to_bin` writes one byte for two digits, as long as an `int` can count
them. -/
lemma hexLoop_eq : ∀ (s : List U8), (∀ c ∈ s, isxdigit c = true) →
    ∀ (done room : List U8) (i : I32), i.toInt = done.length → 
    (s.length + 1) / 2 ≤ room.length → done.length + (s.length + 1) / 2 < 2 ^ 31 →
    ∃ k, hexLoop (done ++ room) i s
        = some (done ++ decode s ++ room.drop ((s.length + 1) / 2), k) ∧
      k.toInt = (done.length + (s.length + 1) / 2 : ℕ)
  | [], _, done, room, i, hi, _, _ => ⟨i, by simp [hexLoop, decode], by simpa using hi⟩
  | [c], h, done, room, i, hi, hroom, hlt => by
      obtain ⟨hc, -, -⟩ := nibble_of_isxdigit (h c List.mem_cons_self)
      simp only [List.length_singleton] at hroom hlt
      obtain ⟨y, room, rfl⟩ := List.exists_cons_of_length_pos (show 0 < room.length by omega)
      refine ⟨i + 1, ?_, ?_⟩
      · rw [hexLoop, hc, Option.bind_some, write_append done y room hi]
        simp [decode]
      · rw [toInt_succ hi hlt]
        simp
  | c :: d :: s, h, done, room, i, hi, hroom, hlt => by
      obtain ⟨hc, -, -⟩ := nibble_of_isxdigit (h c List.mem_cons_self)
      obtain ⟨hd, -, -⟩ := nibble_of_isxdigit (h d (List.mem_cons_of_mem _ List.mem_cons_self))
      simp only [List.length_cons] at hroom hlt
      obtain ⟨y, room, rfl⟩ := List.exists_cons_of_length_pos (show 0 < room.length by omega)
      have hdone : (done ++ [value c <<< 4 ||| value d]).length = done.length + 1 := by simp
      rw [List.length_cons] at hroom
      obtain ⟨k, hk, hkn⟩ := hexLoop_eq s
        (fun x hx => h x (List.mem_cons_of_mem _ (List.mem_cons_of_mem _ hx)))
        (done ++ [value c <<< 4 ||| value d]) room (i + 1)
        (by rw [hdone]; exact toInt_succ hi (by omega)) (by omega) (by rw [hdone]; omega)
      refine ⟨k, ?_, ?_⟩
      · rw [hexLoop, hc, Option.bind_some, write_append done y room hi, Option.bind_some, hd,
          Option.bind_some, read_append done _ room hi, Option.bind_some,
          write_append done _ room hi, Option.bind_some, ← List.singleton_append (l := room),
          ← List.append_assoc, hk]
        simp only [decode, List.append_assoc, List.cons_append, List.nil_append, List.length_cons]
        rw [show (s.length + 1 + 1 + 1) / 2 = (s.length + 1) / 2 + 1 by omega, List.drop_succ_cons]
      · rw [hkn, hdone]
        simp only [List.length_cons]
        omega

/-- `hex_to_bin` of digits. -/
lemma hex_to_bin_eq {s : List U8} (h : ∀ c ∈ s, isxdigit c = true) {out : List U8}
    (hout : (s.length + 1) / 2 ≤ out.length) (hlt : (s.length + 1) / 2 < 2 ^ 31) :
    ∃ len, hex_to_bin s out = some (decode s ++ out.drop ((s.length + 1) / 2), len) ∧
      len.toNat = (s.length + 1) / 2 := by
  obtain ⟨k, hk, hkn⟩ := hexLoop_eq s h [] out 0 rfl hout (by simpa using hlt)
  refine ⟨k.toUInt32, ?_, ?_⟩
  · rw [hex_to_bin]
    rw [List.nil_append, List.nil_append] at hk
    rw [hk, Option.map_some]
  · rw [List.length_nil, Nat.zero_add] at hkn
    have hk0 : 0 ≤ k := Int32.le_iff_toInt_le.mpr (by rw [hkn]; exact Int.natCast_nonneg _)
    rw [Int32.toNat_toUInt32_of_le hk0, Int32.toNatClampNeg, hkn, Int.toNat_natCast]

/-- The index of a byte is twice its number, as an `int`, as long as that is positive. -/
lemma toInt_shift {i : ℕ} (hi : i < 2 ^ 30) :
    ((UInt32.ofNat i <<< 1).toInt32).toInt = (2 * i : ℕ) := by
  have hshift : UInt32.ofNat i <<< 1 = UInt32.ofNat (2 * i) := by
    refine UInt32.toNat_inj.mp ?_
    rw [UInt32.toNat_shiftLeft, UInt32.toNat_ofNat', UInt32.toNat_ofNat', Nat.shiftLeft_eq,
      Nat.mod_eq_of_lt (show i < 2 ^ 32 by omega), show (1 : U32).toNat % 32 = 1 from rfl]
    omega
  rw [hshift, UInt32.toInt32_ofNat', Int32.toInt_ofNat', show Int32.size = 2 ^ 32 from rfl,
    Int.bmod_eq_of_le (by omega) (by omega)]

/-- From `2 ^ 30` on it is negative. -/
lemma toInt_shift_neg : ((UInt32.ofNat (2 ^ 30) <<< 1).toInt32).toInt < 0 := by decide

/-- A round writes the two digits of its byte. -/
lemma binStep_eq {bytes : List U8} {i : ℕ} {b : U8} (hb : bytes[i]? = some b) (hi : i < 2 ^ 30)
    {done : List U8} (hdone : done.length = 2 * i) (y z : U8) (room : List U8) :
    binStep bytes (done ++ y :: z :: room) i
      = some (done ++ letter (b >>> 4) :: letter (b &&& 15) :: room) := by
  obtain ⟨hhi, hlo, -⟩ := halves b
  have hj := toInt_shift hi
  have hj0 : ((UInt32.ofNat i <<< 1).toInt32 + 0).toInt = done.length := by
    rw [Int32.add_zero, hj, hdone]
  have hj1 : ((UInt32.ofNat i <<< 1).toInt32 + 1).toInt
      = (done ++ [letter (b >>> 4)]).length := by
    rw [toInt_succ hj (by omega), List.length_append, List.length_singleton, hdone]
  have hsnd : write (done ++ letter (b >>> 4) :: z :: room)
      ((UInt32.ofNat i <<< 1).toInt32 + 1).toInt (letter (b &&& 15))
      = some (done ++ letter (b >>> 4) :: letter (b &&& 15) :: room) := by
    have h := write_append (done ++ [letter (b >>> 4)]) z room hj1 (letter (b &&& 15))
    rwa [List.append_assoc, List.append_assoc, List.singleton_append, List.singleton_append] at h
  rw [binStep, hb, Option.bind_some, (digit_of_lt hhi).1, Option.bind_some,
    write_append done y _ hj0, Option.bind_some, (digit_of_lt hlo).1, Option.bind_some, hsnd]

/-- The loop of `bin_to_hex` writes the digits of the bytes so far. -/
lemma foldlM_binStep {bytes : List U8} {out : List U8} {n : ℕ} (hn : n ≤ bytes.length)
    (hlt : n ≤ 2 ^ 30) (hout : 2 * n < out.length) :
    (List.range n).foldlM (binStep bytes) out
      = some (encode (bytes.take n) ++ out.drop (2 * n)) := by
  induction n with
  | zero => rfl
  | succ n ih =>
      have hlen : (encode (bytes.take n)).length = 2 * n := by
        rw [encode_length, List.length_take, Nat.min_eq_left (by omega)]
      obtain ⟨b, hb⟩ : ∃ b, bytes[n]? = some b := ⟨_, List.getElem?_eq_getElem (by omega)⟩
      have htake : encode (bytes.take (n + 1))
          = encode (bytes.take n) ++ [letter (b >>> 4), letter (b &&& 15)] := by
        rw [List.take_add_one, hb, encode, encode, List.flatMap_append]
        rfl
      obtain ⟨y, z, room, hroom⟩ : ∃ y z room, out.drop (2 * n) = y :: z :: room :=
        ⟨_, _, _, by
          rw [List.drop_eq_getElem_cons (show 2 * n < out.length by omega),
            List.drop_eq_getElem_cons (show 2 * n + 1 < out.length by omega)]⟩
      have hdrop : out.drop (2 * (n + 1)) = room := by
        rw [show 2 * (n + 1) = 2 * n + 2 by ring, ← List.drop_drop, hroom]
        rfl
      rw [List.range_succ, List.foldlM_append, ih (by omega) (by omega) (by omega), hroom, htake,
        hdrop]
      simp only [Option.bind_eq_bind, Option.bind_some, List.foldlM_cons, List.foldlM_nil]
      rw [binStep_eq hb (by omega) hlen]
      simp

/-- `bin_to_hex` of as many bytes as an `int` can index the digits of. -/
lemma bin_to_hex_eq {bytes : List U8} {in_len : U32} {out : List U8}
    (hn : in_len.toNat ≤ bytes.length) (hlt : in_len.toNat ≤ 2 ^ 30)
    (hout : 2 * in_len.toNat < out.length) :
    bin_to_hex bytes in_len out
      = some (encode (bytes.take in_len.toNat) ++ 0 :: out.drop (2 * in_len.toNat + 1)) := by
  have hlen : (encode (bytes.take in_len.toNat)).length = 2 * in_len.toNat := by
    rw [encode_length, List.length_take, Nat.min_eq_left hn]
  have hindex : ((in_len <<< 1).toNat : ℤ) = (encode (bytes.take in_len.toNat)).length := by
    rw [hlen, UInt32.toNat_shiftLeft, Nat.shiftLeft_eq, show (1 : U32).toNat % 32 = 1 from rfl,
      Nat.mod_eq_of_lt (by omega), pow_one, Nat.mul_comm]
  rw [bin_to_hex, foldlM_binStep hn hlt hout, Option.bind_some,
    List.drop_eq_getElem_cons hout, write_append _ _ _ hindex]

lemma toNat_ofNat_of_le {n : ℕ} (h : n ≤ 2 ^ 30) : (UInt32.ofNat n).toNat = n := by
  rw [UInt32.toNat_ofNat', Nat.mod_eq_of_lt (by omega)]

/-- The digits of a checksum, as a response hands them out, are those that `bin_to_hex` writes. -/
lemma bin_to_hex_checksum {bytes out : List U8} (hlt : bytes.length ≤ 2 ^ 30)
    (hout : 2 * bytes.length < out.length) : bin_to_hex bytes (UInt32.ofNat bytes.length) out
      = some (CidClient.bin_to_hex bytes ++ out.drop (2 * bytes.length + 1)) := by
  have hlen := toNat_ofNat_of_le hlt
  have hletter : ∀ n : U8, n.toNat < 16 → letter n = CidClient.hexDigit n := by
    intro n hn
    have hall : ∀ n : Fin 16, letter (UInt8.ofNat n) = CidClient.hexDigit (UInt8.ofNat n) := by
      decide +kernel
    have h := hall ⟨n.toNat, hn⟩
    rwa [UInt8.ofNat_toNat] at h
  have hencode : CidClient.bin_to_hex bytes = encode bytes ++ [0] := by
    rw [CidClient.bin_to_hex, encode]
    congr 1
    refine List.flatMap_congr fun b _ => ?_
    obtain ⟨hhi, hlo, -⟩ := halves b
    rw [hletter _ hhi, hletter _ hlo]
  rw [bin_to_hex_eq (by rw [hlen]) (by rw [hlen]; exact hlt) (by rw [hlen]; exact hout), hlen,
    List.take_length, hencode, List.append_assoc, List.singleton_append]

/-- A round that cannot be made ends the loop. -/
lemma foldlM_eq_none {bytes : List U8} {i : ℕ} (h : ∀ out, binStep bytes out i = none)
    {l : List ℕ} (hi : i ∈ l) (out : List U8) : l.foldlM (binStep bytes) out = none := by
  induction l generalizing out with
  | nil => exact absurd hi List.not_mem_nil
  | cons j l ih =>
      rw [List.foldlM_cons, Option.bind_eq_bind]
      rcases List.mem_cons.mp hi with rfl | hi
      · rw [h, Option.bind_none]
      · exact Option.bind_eq_none_iff.mpr fun out' _ => ih hi out'

/-- More bytes than that: the digits of byte `2 ^ 30` go in front of the buffer. -/
lemma bin_to_hex_fault {bytes : List U8} {in_len : U32} (h : 2 ^ 30 < in_len.toNat)
    (out : List U8) : bin_to_hex bytes in_len out = none := by
  have hneg := toInt_shift_neg
  have hstep : ∀ out, binStep bytes out (2 ^ 30) = none := by
    intro out
    have hwrite : ∀ x, write out ((UInt32.ofNat (2 ^ 30) <<< 1).toInt32 + 0).toInt x = none := by
      intro x
      rw [Int32.add_zero, write, if_neg]
      exact fun hw => absurd hw.1 (not_le.mpr hneg)
    rw [binStep]
    simp only [hwrite, Option.bind_none, Option.bind_fun_none]
  rw [bin_to_hex, foldlM_eq_none hstep (List.mem_range.mpr h), Option.bind_none]

/-! ### There and back -/

/-- `hex_to_bin` of `bin_to_hex` gives the bytes and their number, in buffers that have room for
what is written. -/
def RoundTrips (bytes : List U8) : Prop :=
  ∀ hex out : List U8, 2 * bytes.length < hex.length → bytes.length ≤ out.length →
    ∃ hex' out' len, bin_to_hex bytes (UInt32.ofNat bytes.length) hex = some hex' ∧
      hex_to_bin (cstring hex') out = some (out', len) ∧ len.toNat = bytes.length ∧
      out'.take bytes.length = bytes

/-- `hex_to_bin` gives a byte for two digits, and `bin_to_hex` of these the digits in lower case,
with a zero behind an odd number of them. -/
def ComesBack (s : Digits) : Prop :=
  ∀ out hex : List U8, (s.val.length + 1) / 2 ≤ out.length →
    2 * ((s.val.length + 1) / 2) < hex.length →
    ∃ out' len hex', hex_to_bin s.val out = some (out', len) ∧
      len.toNat = (s.val.length + 1) / 2 ∧ bin_to_hex out' len hex = some hex' ∧
      cstring hex' = s.val.map tolower ++ if s.val.length % 2 = 1 then [48] else []

lemma cstring_encode (bytes rest : List U8) : cstring (encode bytes ++ 0 :: rest) = encode bytes :=
  cstring_append (fun h => absurd (isxdigit_of_mem_encode h) (by decide)) rest

lemma roundTrips_of_le {bytes : List U8} (h : bytes.length ≤ 2 ^ 30) : RoundTrips bytes := by
  intro hex out hhex hout
  have hlen := toNat_ofNat_of_le h
  have hhalf : ((encode bytes).length + 1) / 2 = bytes.length := by
    rw [encode_length]
    omega
  have hbin : bin_to_hex bytes (UInt32.ofNat bytes.length) hex
      = some (encode bytes ++ 0 :: hex.drop (2 * bytes.length + 1)) := by
    rw [bin_to_hex_eq (by rw [hlen]) (by rw [hlen]; exact h) (by rw [hlen]; exact hhex), hlen,
      List.take_length]
  have hdigits : ∀ c ∈ encode bytes, isxdigit c = true := fun _ hc => isxdigit_of_mem_encode hc
  obtain ⟨len, hhexbin, hlenlen⟩ :=
    hex_to_bin_eq hdigits (hhalf.le.trans hout) (by rw [hhalf]; omega)
  refine ⟨_, _, len, hbin, by rw [cstring_encode, hhexbin], hlenlen.trans hhalf, ?_⟩
  rw [decode_encode, List.take_left]

/-- A length that `in_len` does not hold, or one beyond the reach of an `int`. -/
lemma le_of_roundTrips {bytes : List U8} (h : RoundTrips bytes) : bytes.length ≤ 2 ^ 30 := by
  obtain ⟨hex', out', len, hbin, -, hlen, -⟩ := h (List.replicate (2 * bytes.length + 1) 0) bytes
    (by rw [List.length_replicate]; exact Nat.lt_succ_self _) (le_refl _)
  have hlt : bytes.length < 2 ^ 32 := hlen ▸ len.toNat_lt
  by_contra hle
  rw [bin_to_hex_fault] at hbin
  · exact absurd hbin (Option.some_ne_none _).symm
  · rw [UInt32.toNat_ofNat', Nat.mod_eq_of_lt hlt]
    omega

lemma comesBack_of_le {s : Digits} (h : s.val.length ≤ 2 ^ 31) : ComesBack s := by
  intro out hex hout hhex
  obtain ⟨len, hbin, hlen⟩ := hex_to_bin_eq s.property hout (by omega)
  have hdecode := decode_length s.val
  have htake : (decode s.val ++ out.drop ((s.val.length + 1) / 2)).take len.toNat
      = decode s.val := by
    rw [hlen, ← hdecode, List.take_left]
  have hhexeq : bin_to_hex (decode s.val ++ out.drop ((s.val.length + 1) / 2)) len hex
      = some (encode (decode s.val) ++ 0 :: hex.drop (2 * len.toNat + 1)) := by
    rw [bin_to_hex_eq (by rw [List.length_append]; omega) (by omega) (by omega), htake]
  refine ⟨_, len, _, hbin, hlen, hhexeq, ?_⟩
  rw [cstring_encode, encode_decode s.val s.property]

lemma le_of_comesBack {s : Digits} (h : ComesBack s) : s.val.length ≤ 2 ^ 31 := by
  obtain ⟨out', len, hex', -, hlen, hbin, -⟩ := h (List.replicate ((s.val.length + 1) / 2) 0)
    (List.replicate (2 * ((s.val.length + 1) / 2) + 1) 0) (List.length_replicate).ge
    (by rw [List.length_replicate]; exact Nat.lt_succ_self _)
  by_contra hle
  rw [bin_to_hex_fault (by omega)] at hbin
  exact absurd hbin (Option.some_ne_none _).symm

/-- One byte more than an `int` can index the digits of. -/
theorem not_roundTrips_gigabyte : ¬ RoundTrips (List.replicate (2 ^ 30 + 1) 0) := by
  intro h
  have hle := le_of_roundTrips h
  rw [List.length_replicate] at hle
  omega

/-- **Hexadecimal round-trips both ways, as far as an `int` can index the digits.** -/
theorem roundTrips_iff (bytes : List U8) (s : Digits) :
    (RoundTrips bytes ↔ bytes.length ≤ 2 ^ 30) ∧ (ComesBack s ↔ s.val.length ≤ 2 ^ 31) :=
  ⟨⟨le_of_roundTrips, roundTrips_of_le⟩, ⟨le_of_comesBack, comesBack_of_le⟩⟩

end Hex

end Napd
