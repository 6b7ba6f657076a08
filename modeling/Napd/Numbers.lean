import Mathlib.Data.Nat.Digits.Lemmas
import Napd.Bytes

/-!
Numbers in text messages: `sprintf("%ld", x)` and `strtoul(s, NULL, 10)`, for 32-bit `long`.

* `formatLong`: the text of a number. It is not empty, and holds digits and a leading minus
  sign only (`mem_formatLong`); it has at most 11 bytes (`formatLong_length_le`).
* `strtoul`, `strtol`, `atoi`: the number a text begins with, in 32 bits; `number`: the number
  itself, which `strtol` cuts off at both ends (`toInt_strtol`). `strtoul_formatLong`: the round
  trip, in which a negative number comes back as the same 32 bits.
-/

namespace Napd

/-- The decimal digits of `n`, as text. -/
def decimal (n : ℕ) : List U8 :=
  if n = 0 then [48] else (Nat.digits 10 n).reverse.map fun d => UInt8.ofNat (48 + d)

/-- What `sprintf(p, "%ld", x)` writes before the NUL. -/
def formatLong (x : I32) : List U8 :=
  if x.toInt < 0 then 45 :: decimal x.toInt.natAbs else decimal x.toInt.natAbs

/-- `isspace` in the C locale. -/
def isspace (b : U8) : Bool := b = 32 || (9 ≤ b && b ≤ 13)

/-- `isdigit`. -/
def isdigit (b : U8) : Bool := 48 ≤ b && b ≤ 57

/-- The value of a run of digits. -/
def digitsValue (s : List U8) : ℕ := s.foldl (fun n d => n * 10 + (d.toNat - 48)) 0

/-- The optional sign of a number: whether it is a minus, and what follows it. -/
def sign : List U8 → Bool × List U8
  | [] => (false, [])
  | b :: s => if b = 45 then (true, s) else if b = 43 then (false, s) else (false, b :: s)

/-- `strtoul(s, NULL, 10)`: white space, a sign, digits. A number too large gives
`ULONG_MAX`, a minus sign negates in unsigned arithmetic. -/
def strtoul (s : List U8) : U32 :=
  let (negative, s) := sign (s.dropWhile isspace)
  let n := digitsValue (s.takeWhile isdigit)
  if n ≤ 4294967295 then (if negative then -UInt32.ofNat n else UInt32.ofNat n) else 4294967295

/-- `strtol(s, NULL, 10)`: a number too large gives `LONG_MAX` or `LONG_MIN`. -/
def strtol (s : List U8) : I32 :=
  let (negative, s) := sign (s.dropWhile isspace)
  let n := digitsValue (s.takeWhile isdigit)
  if negative then (if n ≤ 2147483648 then Int32.ofInt (-n) else Int32.minValue)
  else (if n ≤ 2147483647 then Int32.ofNat n else Int32.maxValue)

/-- `atoi`. -/
def atoi (s : List U8) : I32 := strtol s

/-- The number that a text begins with, as it is read by a person. -/
def number (s : List U8) : ℤ :=
  let (negative, s) := sign (s.dropWhile isspace)
  let n := digitsValue (s.takeWhile isdigit)
  if negative then -n else n

/-- A number that is read in 32 bits. -/
def saturated (n : ℤ) : ℤ := max (-2 ^ 31) (min (2 ^ 31 - 1) n)

/-- **`strtol`** reads the number of a text, as far as it fits. -/
lemma toInt_strtol (s : List U8) : (strtol s).toInt = saturated (number s) := by
  rw [strtol, number, saturated]
  obtain ⟨negative, digits⟩ := sign (s.dropWhile isspace)
  dsimp only
  generalize digitsValue (digits.takeWhile isdigit) = n
  cases negative with
  | true =>
      rw [if_pos rfl, if_pos rfl]
      split_ifs with hn
      · rw [Int32.toInt_ofInt_of_le (by omega) (by omega)]
        omega
      · rw [Int32.toInt_minValue]
        omega
  | false =>
      rw [if_neg Bool.false_ne_true, if_neg Bool.false_ne_true]
      split_ifs with hn
      · rw [Int32.toInt_ofNat_of_lt (by omega)]
        omega
      · rw [Int32.toInt_maxValue]
        omega

/-! ### Decimal text -/

lemma isdigit_ofNat {d : ℕ} (hd : d < 10) : isdigit (UInt8.ofNat (48 + d)) = true := by
  interval_cases d <;> decide

lemma isdigit_of_mem_decimal {n : ℕ} {b : U8} (h : b ∈ decimal n) : isdigit b = true := by
  rw [decimal] at h
  split_ifs at h with hn
  · rw [List.mem_singleton] at h
    subst h
    decide
  · obtain ⟨d, hd, rfl⟩ := List.mem_map.mp h
    exact isdigit_ofNat (Nat.digits_lt_base (by omega) (List.mem_reverse.mp hd))

lemma decimal_ne_nil (n : ℕ) : decimal n ≠ [] := by
  rw [decimal]
  split_ifs with hn
  · simp
  · simpa using Nat.digits_ne_nil_iff_ne_zero.mpr hn

/-- A number below `10 ^ k` has at most `k` digits. -/
lemma decimal_length_le {n k : ℕ} (hk : 0 < k) (h : n < 10 ^ k) : (decimal n).length ≤ k := by
  rw [decimal]
  split_ifs with hn
  · exact hk
  · rw [List.length_map, List.length_reverse, Nat.digits_length_le_iff (by omega)]
    exact h

/-- The digits of a number have its value. -/
lemma digitsValue_decimal (n : ℕ) : digitsValue (decimal n) = n := by
  rw [digitsValue, decimal]
  split_ifs with hn
  · simp [hn]
  · have hdigit : ∀ d ∈ Nat.digits 10 n, (UInt8.ofNat (48 + d)).toNat - 48 = d := by
      intro d hd
      have : d < 10 := Nat.digits_lt_base (by omega) hd
      rw [UInt8.toNat_ofNat']
      omega
    calc (((Nat.digits 10 n).reverse.map fun d => UInt8.ofNat (48 + d)).foldl
          (fun n d => n * 10 + (d.toNat - 48)) 0)
        = (Nat.digits 10 n).foldr (fun d n => n * 10 + ((UInt8.ofNat (48 + d)).toNat - 48)) 0 := by
          rw [List.foldl_map, List.foldl_reverse]
      _ = (Nat.digits 10 n).foldr (fun d n => d + 10 * n) 0 := by
          refine List.foldr_ext _ _ _ fun d hd k => ?_
          rw [hdigit d hd, Nat.add_comm, Nat.mul_comm]
      _ = n := by
          have h := Nat.ofDigits_digits 10 n
          rw [Nat.ofDigits_eq_foldr] at h
          simpa using h

/-! ### The text of a `long` -/

lemma natAbs_toInt_le (x : I32) : x.toInt.natAbs ≤ 2 ^ 31 := by
  have h₁ := x.toInt_lt
  have h₂ := x.le_toInt
  omega

lemma formatLong_ne_nil (x : I32) : formatLong x ≠ [] := by
  rw [formatLong]
  split_ifs
  · simp
  · exact decimal_ne_nil _

lemma formatLong_length_le (x : I32) : (formatLong x).length ≤ 11 := by
  have h : (decimal x.toInt.natAbs).length ≤ 10 := by
    refine decimal_length_le (by omega) ?_
    have := natAbs_toInt_le x
    omega
  rw [formatLong]
  split_ifs
  · rw [List.length_cons]
    omega
  · omega

lemma mem_formatLong {x : I32} {b : U8} (h : b ∈ formatLong x) : b = 45 ∨ isdigit b = true := by
  rw [formatLong] at h
  split_ifs at h
  · rcases List.mem_cons.mp h with h | h
    · exact .inl h
    · exact .inr (isdigit_of_mem_decimal h)
  · exact .inr (isdigit_of_mem_decimal h)

/-- Neither NUL nor a space, a quote or another character with a meaning of its own. -/
lemma notMem_formatLong {x : I32} {b : U8} (h45 : b ≠ 45) (hd : isdigit b = false) :
    b ∉ formatLong x := by
  intro h
  rcases mem_formatLong h with h | h
  · exact h45 h
  · exact Bool.false_ne_true (hd.symm.trans h)

lemma zero_notMem_formatLong (x : I32) : 0 ∉ formatLong x := notMem_formatLong (by decide) rfl

/-! ### The round trip -/

lemma takeWhile_decimal (n : ℕ) : (decimal n).takeWhile isdigit = decimal n :=
  List.takeWhile_eq_self_iff.mpr fun _ hb => isdigit_of_mem_decimal hb

lemma isdigit_iff (b : U8) : isdigit b = true ↔ 48 ≤ b.toNat ∧ b.toNat ≤ 57 := by
  rw [isdigit, Bool.and_eq_true, decide_eq_true_iff, decide_eq_true_iff, UInt8.le_iff_toNat_le,
    UInt8.le_iff_toNat_le]
  rfl

/-- A digit is neither white space nor a sign. -/
lemma not_isspace_of_isdigit {b : U8} (h : isdigit b = true) :
    isspace b = false ∧ b ≠ 45 ∧ b ≠ 43 := by
  rw [isdigit_iff] at h
  have hne : ∀ c : U8, c.toNat < 48 → b ≠ c := by
    rintro c hc rfl
    omega
  have h13 : ¬ b ≤ 13 := by
    rw [UInt8.le_iff_toNat_le, show (13 : U8).toNat = 13 from rfl]
    omega
  refine ⟨?_, hne 45 (by decide), hne 43 (by decide)⟩
  simp [isspace, hne 32 (by decide), h13]

lemma decimal_eq_cons (n : ℕ) :
    ∃ b s, decimal n = b :: s ∧ isspace b = false ∧ b ≠ 45 ∧ b ≠ 43 := by
  obtain ⟨b, s, hbs⟩ := List.exists_cons_of_ne_nil (decimal_ne_nil n)
  have hb : isdigit b = true := isdigit_of_mem_decimal (hbs ▸ List.mem_cons_self)
  exact ⟨b, s, hbs, not_isspace_of_isdigit hb⟩

lemma strtoul_decimal {n : ℕ} (h : n ≤ 4294967295) : strtoul (decimal n) = UInt32.ofNat n := by
  obtain ⟨b, s, hbs, hspace, h45, h43⟩ := decimal_eq_cons n
  have hdrop : (decimal n).dropWhile isspace = decimal n := by
    rw [hbs, List.dropWhile_cons_of_neg (by simp [hspace])]
  have hsign : sign (decimal n) = (false, decimal n) := by
    rw [hbs, sign, if_neg h45, if_neg h43]
  simp only [strtoul, hdrop, hsign, takeWhile_decimal, digitsValue_decimal, if_pos h]
  rfl

lemma strtoul_minus_decimal {n : ℕ} (h : n ≤ 4294967295) :
    strtoul (45 :: decimal n) = -UInt32.ofNat n := by
  have hdrop : (45 :: decimal n).dropWhile isspace = 45 :: decimal n :=
    List.dropWhile_cons_of_neg (by decide)
  have hsign : sign (45 :: decimal n) = (true, decimal n) := rfl
  simp only [strtoul, hdrop, hsign, takeWhile_decimal, digitsValue_decimal, if_pos h]
  rfl

/-- **The round trip of a number**: its text is read back as the same 32 bits. -/
lemma strtoul_formatLong (x : I32) : (strtoul (formatLong x)).toInt32 = x := by
  have hle : x.toInt.natAbs ≤ 4294967295 := by
    have := natAbs_toInt_le x
    omega
  rw [formatLong]
  split_ifs with hneg
  · have habs : -(x.toInt.natAbs : ℤ) = x.toInt := by omega
    calc (strtoul (45 :: decimal x.toInt.natAbs)).toInt32
        = (-UInt32.ofNat x.toInt.natAbs).toInt32 := by rw [strtoul_minus_decimal hle]
      _ = Int32.ofInt (-(x.toInt.natAbs : ℤ)) := by
          rw [UInt32.toInt32_neg, UInt32.toInt32_ofNat', ← Int32.ofInt_eq_ofNat, Int32.ofInt_neg]
      _ = x := by rw [habs, Int32.ofInt_toInt]
  · have habs : (x.toInt.natAbs : ℤ) = x.toInt := by omega
    calc (strtoul (decimal x.toInt.natAbs)).toInt32
        = (UInt32.ofNat x.toInt.natAbs).toInt32 := by rw [strtoul_decimal hle]
      _ = Int32.ofInt x.toInt.natAbs := by rw [UInt32.toInt32_ofNat', Int32.ofInt_eq_ofNat]
      _ = x := by rw [habs, Int32.ofInt_toInt]

end Napd
