import Napd.Certificate.Model

/-!
The fields of a song certificate, and the bytes that carry them.

* `Fields`: the head and six strings, none of them `NULL`; `Fields.bytes` lays them out.
* `hmacInput_eq_bytes`: what is signed is the layout of the fields.
* `getFromBytes_bytes`, `exists_of_getFromBytes`: the parser reads the fields back from their
  layout, and accepts nothing else.
* `bytes_append_inj`: no layout begins another one.
-/

namespace Napd

open Memory

/-- The head and the strings of a certificate that was received. -/
structure Fields where
  head : SongCertHead
  artist : Text
  title : Text
  album : Text
  composer : Text
  orchestra : Text
  soloist : Text

/-- The empty string. -/
def emptyText : Text := ⟨[], List.not_mem_nil⟩

/-! ### Strings with their NULs -/

/-- A string with its NUL. -/
def terminated (s : Text) : List U8 := s.val ++ [0]

@[simp] lemma terminated_length (s : Text) : (terminated s).length = s.val.length + 1 := by
  rw [terminated, List.length_append, List.length_singleton]

lemma terminated_append (s : Text) (m : List U8) : terminated s ++ m = s.val ++ 0 :: m := by
  rw [terminated, List.append_assoc, List.singleton_append]

/-- The first NUL ends the string: two strings that begin one list are the same. -/
lemma terminated_append_inj {s t : Text} {m n : List U8}
    (h : terminated s ++ m = terminated t ++ n) : s = t ∧ m = n := by
  have hst : s = t := by
    apply Subtype.ext
    have hc := congrArg cstring h
    rwa [terminated_append, terminated_append, cstring_append s.property,
      cstring_append t.property] at hc
  subst hst
  exact ⟨rfl, List.append_cancel_left h⟩

/-! ### The layout -/

namespace Fields

/-- The layout of the fields: the head, and the strings with their NULs. -/
def bytes (f : Fields) : List U8 :=
  f.head.val ++ (terminated f.artist ++ (terminated f.title ++ (terminated f.album
    ++ (terminated f.composer ++ (terminated f.orchestra ++ terminated f.soloist)))))

/-- The certificate with these fields and a signature. -/
def received (f : Fields) (s : Signature) : SongCert :=
  ⟨f.head, some f.artist, some f.title, some f.album, some f.composer, some f.orchestra,
    some f.soloist, s⟩

lemma length_bytes (f : Fields) :
    f.bytes.length = 24 + (f.artist.val.length + 1) + (f.title.val.length + 1)
      + (f.album.val.length + 1) + (f.composer.val.length + 1) + (f.orchestra.val.length + 1)
      + (f.soloist.val.length + 1) := by
  simp only [bytes, List.length_append, terminated_length, f.head.property]
  omega

/-- No layout begins another one. -/
lemma bytes_append_inj {f g : Fields} {m n : List U8} (h : f.bytes ++ m = g.bytes ++ n) :
    f = g ∧ m = n := by
  obtain ⟨head, artist, title, album, composer, orchestra, soloist⟩ := f
  obtain ⟨head', artist', title', album', composer', orchestra', soloist'⟩ := g
  simp only [bytes, List.append_assoc] at h
  obtain ⟨h₀, h⟩ := List.append_inj h (head.property.trans head'.property.symm)
  obtain ⟨h₁, h⟩ := terminated_append_inj h
  obtain ⟨h₂, h⟩ := terminated_append_inj h
  obtain ⟨h₃, h⟩ := terminated_append_inj h
  obtain ⟨h₄, h⟩ := terminated_append_inj h
  obtain ⟨h₅, h⟩ := terminated_append_inj h
  obtain ⟨h₆, h⟩ := terminated_append_inj h
  rw [Subtype.ext h₀, h₁, h₂, h₃, h₄, h₅, h₆]
  exact ⟨rfl, h⟩

lemma bytes_injective {f g : Fields} (h : f.bytes = g.bytes) : f = g :=
  (bytes_append_inj (m := []) (n := []) (by rw [h])).1

/-- What is signed of a received certificate is the layout of its fields. -/
lemma hmacInput_received (f : Fields) (s : Signature) : (f.received s).hmacInput = f.bytes := rfl

end Fields

/-! ### Reading the layout -/

lemma drop_of_eq_append {m a b : List U8} {n : ℕ} (h : m = a ++ b) (hn : a.length = n) :
    m.drop n = b := by
  rw [h, ← hn, List.drop_left]

lemma readBytes_of_drop {m b : List U8} {i n : ℕ} {s : Raw n} (h : m.drop i = s.val ++ b) :
    readBytes m i n = some s := by
  have htake : (m.drop i).take n = s.val := by
    rw [h, List.take_append_of_le_length s.property.ge, List.take_of_length_le s.property.le]
  rw [readBytes, dif_pos (by rw [htake, s.property])]
  exact congrArg some (Subtype.ext htake)

lemma eq_of_readBytes {m : List U8} {i n : ℕ} {s : Raw n} (h : readBytes m i n = some s) :
    m.drop i = s.val ++ m.drop (i + n) := by
  rw [readBytes] at h
  split_ifs at h with hlen
  obtain rfl := Option.some.inj h
  rw [← List.drop_drop, List.take_append_drop]

lemma readString_of_drop {m b : List U8} {i : ℕ} {s : Text} (h : m.drop i = terminated s ++ b) :
    readString m i = some (s, i + (terminated s).length) := by
  have hmem : 0 ∈ m.drop i := by
    rw [h, terminated_append]
    exact List.mem_append_right _ List.mem_cons_self
  have hs : cstring (m.drop i) = s.val := by
    rw [h, terminated_append, cstring_append s.property]
  rw [readString, if_pos hmem]
  simp only [hs, terminated_length, Nat.add_assoc]

lemma cstring_append_drop {m : List U8} (h : 0 ∈ m) :
    m = cstring m ++ 0 :: m.drop ((cstring m).length + 1) := by
  induction m with
  | nil => exact absurd h List.not_mem_nil
  | cons b m ih =>
      rcases eq_or_ne b 0 with rfl | hb
      · simp [cstring]
      · have hm : 0 ∈ m := (List.mem_cons.mp h).resolve_left hb.symm
        have hc : cstring (b :: m) = b :: cstring m := by
          simp [cstring, hb]
        rw [hc, List.cons_append, List.length_cons, List.drop_succ_cons, ← ih hm]

lemma eq_of_readString {m : List U8} {i j : ℕ} {s : Text} (h : readString m i = some (s, j)) :
    m.drop i = terminated s ++ m.drop j := by
  rw [readString] at h
  split_ifs at h with hmem
  obtain ⟨rfl, rfl⟩ := Prod.mk.inj (Option.some.inj h)
  rw [terminated_append, Nat.add_assoc, ← List.drop_drop]
  exact cstring_append_drop hmem

namespace SongCert

/-- One string is read, and the rest is what stands behind it. -/
lemma nextString_of_drop {m b : List U8} {i : ℕ} {s : Text} (h : m.drop i = terminated s ++ b) :
    nextString m i = .ok (s, i + (terminated s).length)
      ∧ m.drop (i + (terminated s).length) = b := by
  constructor
  · rw [nextString, readString_of_drop h]
    rfl
  · rw [← List.drop_drop, h, List.drop_left]

/-- The parser reads the fields, and the signature behind them. -/
lemma getFromBytes_bytes (f : Fields) (s : Signature) (rest : List U8) {size : ℕ}
    (hsize : 50 ≤ size) :
    getFromBytes (f.bytes ++ (s.val ++ rest)) size = .ok (f.received s) := by
  set m := f.bytes ++ (s.val ++ rest) with hm
  simp only [Fields.bytes, List.append_assoc] at hm
  have d₀ := drop_of_eq_append hm f.head.property
  obtain ⟨e₁, d₁⟩ := nextString_of_drop d₀
  obtain ⟨e₂, d₂⟩ := nextString_of_drop d₁
  obtain ⟨e₃, d₃⟩ := nextString_of_drop d₂
  obtain ⟨e₄, d₄⟩ := nextString_of_drop d₃
  obtain ⟨e₅, d₅⟩ := nextString_of_drop d₄
  obtain ⟨e₆, d₆⟩ := nextString_of_drop d₅
  have e₀ : readBytes m 0 24 = some f.head := readBytes_of_drop hm
  rw [getFromBytes, if_neg (by omega), e₀, e₁]
  simp only [orFault, e₂, e₃, e₄, e₅, e₆, readBytes_of_drop d₆, bind, Except.bind]
  rfl

/-- What the parser accepts is the layout of some fields, with a signature behind it. -/
lemma exists_of_getFromBytes {m : List U8} {size : ℕ} {c : SongCert}
    (h : getFromBytes m size = .ok c) :
    ∃ f s rest, m = Fields.bytes f ++ (s.val ++ rest) ∧ c = f.received s := by
  rw [getFromBytes] at h
  split_ifs at h with hsize
  obtain ⟨head, h₀, h⟩ := bind_eq_ok h
  obtain ⟨⟨artist, p₁⟩, h₁, h⟩ := bind_eq_ok h
  obtain ⟨⟨title, p₂⟩, h₂, h⟩ := bind_eq_ok h
  obtain ⟨⟨album, p₃⟩, h₃, h⟩ := bind_eq_ok h
  obtain ⟨⟨composer, p₄⟩, h₄, h⟩ := bind_eq_ok h
  obtain ⟨⟨orchestra, p₅⟩, h₅, h⟩ := bind_eq_ok h
  obtain ⟨⟨soloist, p₆⟩, h₆, h⟩ := bind_eq_ok h
  obtain ⟨signature, h₇, h⟩ := bind_eq_ok h
  have e₀ := eq_of_readBytes (orFault_eq_ok h₀)
  have e₁ := eq_of_readString (orFault_eq_ok h₁)
  have e₂ := eq_of_readString (orFault_eq_ok h₂)
  have e₃ := eq_of_readString (orFault_eq_ok h₃)
  have e₄ := eq_of_readString (orFault_eq_ok h₄)
  have e₅ := eq_of_readString (orFault_eq_ok h₅)
  have e₆ := eq_of_readString (orFault_eq_ok h₆)
  have e₇ := eq_of_readBytes (orFault_eq_ok h₇)
  refine ⟨⟨head, artist, title, album, composer, orchestra, soloist⟩, signature,
    m.drop (p₆ + 20), ?_, (Except.ok.inj h).symm⟩
  simp only [Fields.bytes, List.append_assoc]
  rw [← e₇, ← e₆, ← e₅, ← e₄, ← e₃, ← e₂, ← e₁, ← e₀, List.drop_zero]

end SongCert

/-! ### Parts of concrete certificates -/

/-- A sum of the bytes in the place of the HMAC. -/
def sumHmac : Hmac := fun m => ⟨List.replicate 20 (m.foldl (· + ·) 0), List.length_replicate⟩

/-- A name, and a head. -/
def someName : Text := ⟨[65, 98], by decide⟩
def someHead : SongCertHead := ⟨List.replicate 24 9, List.length_replicate⟩

end Napd
