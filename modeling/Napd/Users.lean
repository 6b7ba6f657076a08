import Napd.Bytes

/-!
Users, and names that are compared without case.

* `User`: what the channels read of `user.hh`; users are told apart by their address.
* `strcasecmp`, `ltistr`: the comparison of names, and the order of a `strimap`.
* `lower`, `strcasecmp_eq_zero_iff`: names that differ only in case compare as equal;
  `not_ltistr_iff`: a `strimap` does not tell them apart.
* `fold`, `ltistr_iff`: the order of a `strimap` is that of the names in lower case.
-/

namespace Napd

/-- `User`: where the object lies, its name and its line speed. -/
structure User where
  addr : ℕ
  name : Text
  linespeed : U8
  deriving DecidableEq

/-- `tolower`, in the C locale. -/
def tolower (b : U8) : U8 := if 65 ≤ b ∧ b ≤ 90 then b + 32 else b

/-- The difference of the first bytes in which two strings differ, case aside. -/
def diffLower : List U8 → List U8 → ℤ
  | [], [] => 0
  | [], b :: _ => -(tolower b).toNat
  | a :: _, [] => (tolower a).toNat
  | a :: s, b :: t =>
      if tolower a = tolower b then diffLower s t else (tolower a).toNat - (tolower b).toNat

/-- `strcasecmp`. -/
def strcasecmp (s t : Text) : ℤ := diffLower s.val t.val

/-- `ltistr`, the order of a `strimap`. -/
def ltistr (s t : Text) : Bool := strcasecmp s t < 0

/-- The bytes of a name in lower case. -/
def lower (s : Text) : List U8 := s.val.map tolower

lemma tolower_ne_zero {b : U8} (h : b ≠ 0) : tolower b ≠ 0 := by
  rw [tolower]
  split_ifs with hb
  · intro h0
    have hnat := congrArg UInt8.toNat h0
    have hle := UInt8.le_iff_toNat_le.mp hb.2
    rw [UInt8.toNat_add] at hnat
    simp at hnat hle
    omega
  · exact h

lemma diffLower_eq_zero_iff {s t : List U8} (hs : 0 ∉ s) (ht : 0 ∉ t) :
    diffLower s t = 0 ↔ s.map tolower = t.map tolower := by
  induction s generalizing t with
  | nil =>
      cases t with
      | nil => simp [diffLower]
      | cons b t =>
          have hb := tolower_ne_zero fun h => ht (h ▸ List.mem_cons_self)
          simpa [diffLower, ← UInt8.toNat_inj] using hb
  | cons a s ih =>
      cases t with
      | nil =>
          have ha := tolower_ne_zero fun h => hs (h ▸ List.mem_cons_self)
          simpa [diffLower, ← UInt8.toNat_inj] using ha
      | cons b t =>
          rw [List.mem_cons, not_or] at hs ht
          rw [diffLower, List.map_cons, List.map_cons, List.cons.injEq]
          by_cases hab : tolower a = tolower b
          · rw [if_pos hab, ih hs.2 ht.2, and_iff_right hab]
          · have hne : (tolower a).toNat ≠ (tolower b).toNat :=
              fun h => hab (UInt8.toNat_inj.mp h)
            rw [if_neg hab]
            constructor
            · intro h
              omega
            · intro h
              exact absurd h.1 hab

/-- `strcasecmp` returns 0 for the names that are equal up to case. -/
lemma strcasecmp_eq_zero_iff {s t : Text} : strcasecmp s t = 0 ↔ lower s = lower t :=
  diffLower_eq_zero_iff s.property t.property

lemma diffLower_swap (s t : List U8) : diffLower t s = -diffLower s t := by
  induction s generalizing t with
  | nil => cases t <;> simp [diffLower]
  | cons a s ih =>
      cases t with
      | nil => simp [diffLower]
      | cons b t =>
          rw [diffLower, diffLower]
          by_cases hab : tolower a = tolower b
          · rw [if_pos hab, if_pos hab.symm, ih]
          · rw [if_neg hab, if_neg fun h => hab h.symm]
            omega

/-- A `strimap` tells two keys apart if they differ in more than case. -/
lemma not_ltistr_iff {s t : Text} :
    (ltistr s t = false ∧ ltistr t s = false) ↔ lower s = lower t := by
  have hswap : strcasecmp t s = -strcasecmp s t := diffLower_swap s.val t.val
  rw [← strcasecmp_eq_zero_iff, ltistr, ltistr, decide_eq_false_iff_not, decide_eq_false_iff_not,
    hswap]
  omega

/-- A name in lower case, as a `strimap` orders it. -/
def fold (s : Text) : List ℕ := (lower s).map UInt8.toNat

lemma fold_eq_iff {s t : Text} : fold s = fold t ↔ lower s = lower t := by
  refine ⟨fun h => ?_, fun h => congrArg (List.map UInt8.toNat) h⟩
  exact List.map_injective_iff.mpr (fun _ _ hab => UInt8.toNat_inj.mp hab) h

lemma diffLower_lt_zero_iff {s t : List U8} (hs : 0 ∉ s) (ht : 0 ∉ t) :
    diffLower s t < 0 ↔ (s.map tolower).map UInt8.toNat < (t.map tolower).map UInt8.toNat := by
  induction s generalizing t with
  | nil =>
      cases t with
      | nil => simp [diffLower]
      | cons b t =>
          have hb := tolower_ne_zero fun h => ht (h ▸ List.mem_cons_self)
          have hpos : 0 < (tolower b).toNat :=
            Nat.pos_of_ne_zero fun h => hb (UInt8.toNat_inj.mp h)
          simpa [diffLower] using hpos
  | cons a s ih =>
      cases t with
      | nil => simp [diffLower]
      | cons b t =>
          rw [List.mem_cons, not_or] at hs ht
          rw [diffLower, List.map_cons, List.map_cons, List.map_cons, List.map_cons,
            List.cons_lt_cons_iff]
          by_cases hab : tolower a = tolower b
          · rw [if_pos hab, ih hs.2 ht.2, hab]
            simp
          · have hne : (tolower a).toNat ≠ (tolower b).toNat :=
              fun h => hab (UInt8.toNat_inj.mp h)
            rw [if_neg hab, or_iff_left fun h => hne h.1]
            omega

/-- A `strimap` orders its keys as their texts in lower case are ordered. -/
lemma ltistr_iff {s t : Text} : ltistr s t = true ↔ fold s < fold t := by
  rw [ltistr, decide_eq_true_iff]
  exact diffLower_lt_zero_iff s.property t.property

end Napd
