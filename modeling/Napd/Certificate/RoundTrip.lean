import Napd.Certificate.Fields

/-!
A song certificate that `copyToBytes` writes is read back by `getFromBytes` with a valid
signature, for every HMAC.

* `fields`: the fields of a certificate, `""` for a string that is `NULL`. The size, the HMAC
  input and what is written are all read off them: `getByteSize_eq`, `hmacInput_eq_bytes`,
  `copyToBytes_eq`.
* `copyToBytes_getFromBytes`: the round trip.
-/

namespace Napd

open Memory

namespace SongCert

/-- The string that a string of a certificate is received as: `""` for `NULL`. -/
def text (s : Option Text) : Text := s.getD emptyText

/-- The fields that a certificate is received with. -/
def fields (c : SongCert) : Fields :=
  ⟨c.head, text c.artist, text c.title, text c.album, text c.composer, text c.orchestra,
    text c.soloist⟩

lemma update_eq_terminated (s : Option Text) : update s = terminated (text s) := by
  cases s with
  | none => rfl
  | some s => rfl

lemma length_eq (s : Option Text) : length s = (text s).val.length := by
  cases s with
  | none => rfl
  | some s => rfl

/-- What is signed is the layout of the fields. -/
lemma hmacInput_eq_bytes (c : SongCert) : c.hmacInput = c.fields.bytes := by
  simp only [hmacInput, update_eq_terminated, Fields.bytes, fields]

/-- The size is that of the layout and of a signature. -/
lemma getByteSize_eq (c : SongCert) : c.getByteSize = c.fields.bytes.length + 20 := by
  rw [Fields.length_bytes]
  simp only [getByteSize, length_eq, fields]
  omega

/-- The version has no part in the size. -/
lemma getByteSize_setVersion (c : SongCert) (v : U8) :
    getByteSize { c with head := c.head.setVersion v } = c.getByteSize := rfl

/-! ### Writing the layout -/

lemma copyString_eq (w : Pen U8) (s : Option Text) :
    copyString w s = orFault (w.put (terminated (text s))) := by
  cases s with
  | none => rfl
  | some s => rfl

/-- One write through a pen that stands at position `i` of a buffer, behind `done`. -/
lemma put_at {w : Pen U8} {done buffer : List U8} {i : ℕ}
    (h : w = Pen.between done (buffer.drop i)) (xs : List U8)
    (hfit : i + xs.length ≤ buffer.length) :
    ∃ w', orFault (w.put xs) = .ok w'
      ∧ w' = Pen.between (done ++ xs) (buffer.drop (i + xs.length)) := by
  have hroom : xs.length ≤ (buffer.drop i).length := by
    rw [List.length_drop]
    omega
  refine ⟨_, ?_, rfl⟩
  rw [h, Pen.put_between done _ xs hroom, List.drop_drop]
  rfl

/-- `copyToBytes` writes the layout of the fields with version 0 and its signature, and leaves
the rest of the buffer as it is. -/
lemma copyToBytes_eq (H : Hmac) (c : SongCert) (buffer : List U8)
    (hfit : c.getByteSize ≤ buffer.length) :
    c.copyToBytes H buffer
      = .ok ({ c with head := c.head.setVersion 0 },
          ({ c with head := c.head.setVersion 0 } : SongCert).fields.bytes
            ++ (H ({ c with head := c.head.setVersion 0 } : SongCert).fields.bytes).val
            ++ buffer.drop c.getByteSize) := by
  have hsize := getByteSize_setVersion c 0
  rw [copyToBytes, if_neg (by omega)]
  rw [← hsize] at hfit ⊢
  generalize ({ c with head := c.head.setVersion 0 } : SongCert) = c₀ at hfit ⊢
  have hlen := getByteSize_eq c₀
  rw [Fields.length_bytes] at hlen
  simp only [fields] at hlen
  have hhead := c₀.head.property
  have hsig := (c₀.createSignature H).property
  have h₀ : (⟨buffer, 0⟩ : Pen U8) = Pen.between [] (buffer.drop 0) := rfl
  obtain ⟨w₁, e₁, h₁⟩ := put_at h₀ c₀.head.val (by omega)
  obtain ⟨w₂, e₂, h₂⟩ := put_at h₁ (terminated (text c₀.artist)) (by simp; omega)
  obtain ⟨w₃, e₃, h₃⟩ := put_at h₂ (terminated (text c₀.title)) (by simp; omega)
  obtain ⟨w₄, e₄, h₄⟩ := put_at h₃ (terminated (text c₀.album)) (by simp; omega)
  obtain ⟨w₅, e₅, h₅⟩ := put_at h₄ (terminated (text c₀.composer)) (by simp; omega)
  obtain ⟨w₆, e₆, h₆⟩ := put_at h₅ (terminated (text c₀.orchestra)) (by simp; omega)
  obtain ⟨w₇, e₇, h₇⟩ := put_at h₆ (terminated (text c₀.soloist)) (by simp; omega)
  obtain ⟨w₈, e₈, h₈⟩ := put_at h₇ ((c₀.createSignature H).val) (by simp; omega)
  simp only [copyString_eq, e₁, e₂, e₃, e₄, e₅, e₆, e₇, e₈, bind, Except.bind]
  rw [h₈]
  refine congrArg (fun m => Except.ok (c₀, m)) (congrArg₂ (· ++ ·) ?_ ?_)
  · simp [createSignature, hmacInput_eq_bytes, Fields.bytes, fields]
  · congr 1
    simp only [terminated_length]
    omega

/-- **Round trip.** A certificate fills `getByteSize` bytes of the buffer, whatever strings it
has, and what is read from these bytes alone has its head with version 0, its strings, and a
signature that is valid. -/
theorem copyToBytes_getFromBytes (H : Hmac) (c : SongCert) (buffer : List U8)
    (hfit : c.getByteSize ≤ buffer.length) :
    ∃ bytes, bytes.length = c.getByteSize
      ∧ (∃ c', c.copyToBytes H buffer = .ok (c', bytes ++ buffer.drop c.getByteSize))
      ∧ ∃ r, getFromBytes bytes bytes.length = .ok r
        ∧ r.head = c.head.setVersion 0
        ∧ r.artist = some (text c.artist) ∧ r.title = some (text c.title)
        ∧ r.album = some (text c.album) ∧ r.composer = some (text c.composer)
        ∧ r.orchestra = some (text c.orchestra) ∧ r.soloist = some (text c.soloist)
        ∧ r.validSignature H = true := by
  set c₀ : SongCert := { c with head := c.head.setVersion 0 } with hc₀
  set s := H c₀.fields.bytes with hs
  have hlen : (c₀.fields.bytes ++ s.val).length = c.getByteSize := by
    rw [List.length_append, s.property, ← getByteSize_setVersion c 0, getByteSize_eq]
  refine ⟨c₀.fields.bytes ++ s.val, hlen, ⟨c₀, copyToBytes_eq H c buffer hfit⟩, ?_⟩
  have hsize : 50 ≤ (c₀.fields.bytes ++ s.val).length := by
    rw [List.length_append, s.property, Fields.length_bytes]
    omega
  have hread := getFromBytes_bytes c₀.fields s [] hsize
  rw [List.append_nil] at hread
  refine ⟨c₀.fields.received s, hread, rfl, rfl, rfl, rfl, rfl, rfl, rfl, ?_⟩
  rw [validSignature, createSignature, Fields.hmacInput_received, decide_eq_true_iff]
  rfl

/-- A certificate with an artist and no other string. -/
def artistOnly : SongCert :=
  ⟨someHead, some someName, none, none, none, none, none, sumHmac []⟩

theorem copyToBytes_getFromBytes_artistOnly :
    ∃ bytes, bytes.length = artistOnly.getByteSize
      ∧ (∃ c', artistOnly.copyToBytes sumHmac (List.replicate 60 7)
        = .ok (c', bytes ++ (List.replicate 60 7).drop artistOnly.getByteSize))
      ∧ ∃ r, getFromBytes bytes bytes.length = .ok r
        ∧ r.head = artistOnly.head.setVersion 0
        ∧ r.artist = some (text artistOnly.artist) ∧ r.title = some (text artistOnly.title)
        ∧ r.album = some (text artistOnly.album) ∧ r.composer = some (text artistOnly.composer)
        ∧ r.orchestra = some (text artistOnly.orchestra)
        ∧ r.soloist = some (text artistOnly.soloist)
        ∧ r.validSignature sumHmac = true :=
  copyToBytes_getFromBytes sumHmac artistOnly (List.replicate 60 7) (by decide)

end SongCert

end Napd
