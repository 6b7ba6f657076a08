import Mathlib.Tactic

/-!
The C types of `defines.hh` that the model uses, and NUL-terminated strings.

`char` is signed on the target, so it is `Int8`; the unsigned types are the fixed-width
ones. A C string is the list of its characters before the terminator.
-/

namespace Napd

/-- `char`: signed on the target, as comparisons of characters depend on. -/
abbrev CChar := Int8

abbrev U8 := UInt8
abbrev U16 := UInt16
abbrev U32 := UInt32

/-- Characters are ordered as the signed numbers they are. -/
instance : LinearOrder CChar where
  le_refl a := Int8.le_refl a
  le_trans _ _ _ := Int8.le_trans
  le_antisymm _ _ := Int8.le_antisymm
  le_total := Int8.le_total
  lt_iff_le_not_ge a b := by
    rw [Int8.lt_iff_toInt_lt, Int8.le_iff_toInt_le, Int8.le_iff_toInt_le]
    omega
  toDecidableLE := inferInstance

/-- The sign of a difference of characters is the order of the characters. -/
lemma toInt_sub_eq_zero_iff {a b : CChar} : a.toInt - b.toInt = 0 ↔ a = b := by
  rw [sub_eq_zero, Int8.toInt_inj]

lemma toInt_sub_neg_iff {a b : CChar} : a.toInt - b.toInt < 0 ↔ a < b := by
  rw [sub_neg, Int8.lt_iff_toInt_lt]

/-- Where each element has a result, `mapM` has the list of them. -/
lemma mapM_of_map {α β : Type*} {f : α → Option β} {l : List α} {l' : List β}
    (h : l.map f = l'.map some) : l.mapM f = some l' := by
  induction l generalizing l' with
  | nil =>
      cases l' with
      | nil => rfl
      | cons b l' => cases h
  | cons a l ih =>
      cases l' with
      | nil => cases h
      | cons b l' =>
          obtain ⟨ha, hl⟩ := List.cons.inj h
          rw [List.mapM_cons, ha, ih hl]
          rfl

/-- A NUL-terminated string: its characters, none of which is NUL. -/
abbrev CString := {s : List CChar // 0 ∉ s}

end Napd
