import Napd.Certificate.Fields

/-!
How far the parser of a song certificate reads.

* `Inside`: the parser throws, or the head, the strings and the signature lie in the buffer, and
  they are what it reads, whatever stands behind the buffer.
* `inside_iff`: **the parser stays inside the buffers that are shorter than its check, and those
  with six NULs between the head and the last twenty bytes**.
-/

namespace Napd

namespace SongCert

/-- `getFromBytes` throws, or everything it reads lies in the buffer. -/
def Inside (buffer : List U8) : Prop :=
  getFromBytes buffer buffer.length = .error .thrown ∨
    ∃ (f : Fields) (s : Signature) (rest : List U8), buffer = f.bytes ++ (s.val ++ rest) ∧
      ∀ behind, getFromBytes (buffer ++ behind) buffer.length = .ok (f.received s)

/-! ### Strings and their NULs -/

/-- A block with NULs begins with a string, and has one NUL less behind it. -/
lemma exists_terminated {k : ℕ} {m : List U8} (h : k + 1 ≤ m.count 0) :
    ∃ (s : Text) (rest : List U8), m = terminated s ++ rest ∧ k ≤ rest.count 0 := by
  have hmem : 0 ∈ m := List.count_pos_iff.mp (by omega)
  let s : Text := ⟨cstring m, zero_notMem_cstring m⟩
  have hm : m = terminated s ++ m.drop ((cstring m).length + 1) := by
    rw [terminated_append]
    exact cstring_append_drop hmem
  refine ⟨s, m.drop ((cstring m).length + 1), hm, ?_⟩
  have hcount := congrArg (List.count 0) hm
  rw [terminated, List.count_append, List.count_append, List.count_singleton_self,
    List.count_eq_zero_of_not_mem s.property] at hcount
  omega

lemma count_terminated (s : Text) : (terminated s).count 0 = 1 := by
  rw [terminated, List.count_append, List.count_singleton_self,
    List.count_eq_zero_of_not_mem s.property]

/-- A head and a block with six NULs are the layout of some fields, and more. -/
lemma exists_fields {m : List U8} (hlen : 24 ≤ m.length) (h : 6 ≤ (m.drop 24).count 0) :
    ∃ (f : Fields) (rest : List U8), m = f.bytes ++ rest := by
  obtain ⟨artist, m₁, e₁, h⟩ := exists_terminated h
  obtain ⟨title, m₂, e₂, h⟩ := exists_terminated h
  obtain ⟨album, m₃, e₃, h⟩ := exists_terminated h
  obtain ⟨composer, m₄, e₄, h⟩ := exists_terminated h
  obtain ⟨orchestra, m₅, e₅, h⟩ := exists_terminated h
  obtain ⟨soloist, m₆, e₆, -⟩ := exists_terminated h
  refine ⟨⟨⟨m.take 24, List.length_take_of_le hlen⟩, artist, title, album, composer, orchestra,
    soloist⟩, m₆, ?_⟩
  simp only [Fields.bytes, List.append_assoc]
  rw [← e₆, ← e₅, ← e₄, ← e₃, ← e₂, ← e₁, List.take_append_drop]

/-- The layout of fields has six NULs behind the head. -/
lemma count_bytes (f : Fields) : (f.bytes.drop 24).count 0 = 6 := by
  rw [Fields.bytes, List.drop_left' f.head.property]
  simp only [List.count_append, count_terminated]

/-! ### The condition -/

lemma orFault_ne_thrown {α : Type} (o : Option α) : orFault o ≠ .error .thrown := by
  cases o with
  | none => exact fun h => nomatch h
  | some a => exact fun h => nomatch h

lemma bind_ne_thrown {α β : Type} {x : Except Stop α} {f : α → Except Stop β}
    (hx : x ≠ .error .thrown) (hf : ∀ a, f a ≠ .error .thrown) : (x >>= f) ≠ .error .thrown := by
  cases x with
  | error e => exact fun h => hx (congrArg Except.error (Except.error.inj h))
  | ok a => exact hf a

/-- The parser throws at its check, and nowhere else. -/
lemma getFromBytes_thrown_iff (m : List U8) (size : ℕ) :
    getFromBytes m size = .error .thrown ↔ size < 50 := by
  by_cases hsize : size < 50
  · rw [iff_true_right hsize, getFromBytes, if_pos hsize]
  · rw [iff_false_right hsize, getFromBytes, if_neg hsize]
    refine bind_ne_thrown (orFault_ne_thrown _) fun head => ?_
    refine bind_ne_thrown (orFault_ne_thrown _) ?_
    rintro ⟨artist, p₁⟩
    refine bind_ne_thrown (orFault_ne_thrown _) ?_
    rintro ⟨title, p₂⟩
    refine bind_ne_thrown (orFault_ne_thrown _) ?_
    rintro ⟨album, p₃⟩
    refine bind_ne_thrown (orFault_ne_thrown _) ?_
    rintro ⟨composer, p₄⟩
    refine bind_ne_thrown (orFault_ne_thrown _) ?_
    rintro ⟨orchestra, p₅⟩
    refine bind_ne_thrown (orFault_ne_thrown _) ?_
    rintro ⟨soloist, p₆⟩
    refine bind_ne_thrown (orFault_ne_thrown _) ?_
    rintro signature ⟨⟩

/-- A buffer that begins with fields and has room for a signature behind them is read as it
is. -/
lemma inside_of_bytes {buffer tail : List U8} {f : Fields} (hbuffer : buffer = f.bytes ++ tail)
    (htail : 20 ≤ tail.length) : Inside buffer := by
  let s : Signature := ⟨tail.take 20, List.length_take_of_le htail⟩
  have hsplit : buffer = f.bytes ++ (s.val ++ tail.drop 20) := by
    rw [hbuffer, List.take_append_drop]
  refine Or.inr ⟨f, s, tail.drop 20, hsplit, fun behind => ?_⟩
  have hsize : 50 ≤ buffer.length := by
    have hlen := congrArg List.length hbuffer
    rw [List.length_append, f.length_bytes] at hlen
    omega
  have hall : buffer ++ behind = f.bytes ++ (s.val ++ (tail.drop 20 ++ behind)) := by
    conv_lhs => rw [hsplit]
    simp only [List.append_assoc]
  rw [hall]
  exact getFromBytes_bytes f s _ hsize

/-- A buffer that the parser stays inside of and does not refuse has its six NULs. -/
lemma six_nuls_of_inside {buffer : List U8} (h : Inside buffer) (hsize : ¬buffer.length < 50) :
    6 ≤ ((buffer.take (buffer.length - 20)).drop 24).count 0 := by
  rcases h with hthrown | ⟨f, s, rest, hbuffer, -⟩
  · exact absurd ((getFromBytes_thrown_iff buffer buffer.length).mp hthrown) hsize
  · have hlen : buffer.length - 20 = f.bytes.length + rest.length := by
      have hlen := congrArg List.length hbuffer
      rw [List.length_append, List.length_append, s.property] at hlen
      omega
    have hfields := f.length_bytes
    rw [hlen, hbuffer, List.take_length_add_append, List.drop_append_of_le_length (by omega),
      List.count_append, count_bytes]
    exact Nat.le_add_right 6 _

/-- **The parser stays inside a buffer if and only if the buffer is too short for its check, or
six NULs stand between the head and the last twenty bytes.** -/
theorem inside_iff (buffer : List U8) :
    Inside buffer ↔ buffer.length < 50 ∨
      6 ≤ ((buffer.take (buffer.length - 20)).drop 24).count 0 := by
  by_cases hsize : buffer.length < 50
  · rw [iff_true_right (Or.inl hsize)]
    exact Or.inl ((getFromBytes_thrown_iff buffer buffer.length).mpr hsize)
  · rw [or_iff_right hsize]
    refine ⟨fun h => six_nuls_of_inside h hsize, fun hnuls => ?_⟩
    have hlen : 24 ≤ (buffer.take (buffer.length - 20)).length := by
      rw [List.length_take]
      omega
    obtain ⟨f, rest, hfront⟩ := exists_fields hlen hnuls
    have hsplit : buffer = f.bytes ++ (rest ++ buffer.drop (buffer.length - 20)) := by
      rw [← List.append_assoc, ← hfront, List.take_append_drop]
    refine inside_of_bytes hsplit ?_
    rw [List.length_append, List.length_drop]
    omega

/-- Fifty bytes without a NUL pass the check, and are read past their end. -/
theorem not_inside_without_nul : ¬∀ buffer : List U8, Inside buffer := by
  intro h
  have hnuls := six_nuls_of_inside (h (List.replicate 50 65)) (by decide)
  rw [List.take_replicate, List.drop_replicate, List.count_replicate] at hnuls
  simp at hnuls

end SongCert

end Napd
