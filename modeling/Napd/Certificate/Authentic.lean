import Napd.Certificate.Fields

/-!
A song certificate that was received validates if and only if its bytes are authentic.

* `validSignature_received`: the signature is compared with the HMAC of the layout of the
  fields.
* `validSignature_iff_authentic`: for every buffer that carries a certificate, this is the HMAC
  of all bytes of the buffer before the signature, and no other fields have these bytes.
-/

namespace Napd

namespace SongCert

lemma validSignature_received (H : Hmac) (f : Fields) (s : Signature) :
    (f.received s).validSignature H = true ↔ s.val = (H f.bytes).val := by
  rw [validSignature, createSignature, Fields.hmacInput_received, decide_eq_true_iff, eq_comm,
    Subtype.ext_iff]
  exact Iff.rfl

/-- What is signed of two certificates that the parser accepts is the same only if their fields
are the same. -/
lemma fields_eq_of_hmacInput_eq {m n : List U8} {k l : ℕ} {c d : SongCert}
    (hc : getFromBytes m k = .ok c) (hd : getFromBytes n l = .ok d)
    (h : c.hmacInput = d.hmacInput) : { c with signature := d.signature } = d := by
  obtain ⟨f, s, rest, -, rfl⟩ := exists_of_getFromBytes hc
  obtain ⟨g, t, rest', -, rfl⟩ := exists_of_getFromBytes hd
  rw [Fields.hmacInput_received, Fields.hmacInput_received] at h
  rw [Fields.bytes_injective h]
  rfl

/-- **A certificate validates exactly when its bytes are authentic**: a head, six strings with
their NULs and at least 20 more bytes are read as the certificate with these fields, which is
valid if and only if the 20 bytes behind the last NUL are the HMAC of all the bytes before
them; and no other fields that the parser accepts are signed as these bytes. -/
theorem validSignature_iff_authentic (H : Hmac) (f : Fields) (behind : List U8)
    (h : 20 ≤ behind.length) :
    ∃ c, getFromBytes (f.bytes ++ behind) (f.bytes ++ behind).length = .ok c
      ∧ c.head = f.head ∧ c.artist = some f.artist ∧ c.title = some f.title
      ∧ c.album = some f.album ∧ c.composer = some f.composer
      ∧ c.orchestra = some f.orchestra ∧ c.soloist = some f.soloist
      ∧ c.hmacInput = f.bytes
      ∧ (c.validSignature H = true ↔ behind.take 20 = (H f.bytes).val)
      ∧ ∀ m k d, getFromBytes m k = .ok d → d.hmacInput = c.hmacInput →
          { d with signature := c.signature } = c := by
  have hsig : (behind.take 20).length = 20 := List.length_take_of_le h
  have hsize : 50 ≤ (f.bytes ++ behind).length := by
    rw [List.length_append, Fields.length_bytes]
    omega
  have hread : getFromBytes (f.bytes ++ behind) (f.bytes ++ behind).length
      = .ok (f.received ⟨behind.take 20, hsig⟩) := by
    have hb := getFromBytes_bytes f ⟨behind.take 20, hsig⟩ (behind.drop 20) hsize
    rwa [List.take_append_drop] at hb
  refine ⟨_, hread, rfl, rfl, rfl, rfl, rfl, rfl, rfl, rfl, ?_, ?_⟩
  · exact validSignature_received H f ⟨behind.take 20, hsig⟩
  · intro m k d hd hin
    exact fields_eq_of_hmacInput_eq hd hread hin

/-- Fields with an artist and a soloist. -/
def duet : Fields :=
  ⟨someHead, someName, emptyText, emptyText, emptyText, emptyText, ⟨[67], by decide⟩⟩

theorem validSignature_iff_authentic_duet :
    ∃ c, getFromBytes (duet.bytes ++ List.replicate 21 0)
        (duet.bytes ++ List.replicate 21 0).length = .ok c
      ∧ c.head = duet.head ∧ c.artist = some duet.artist ∧ c.title = some duet.title
      ∧ c.album = some duet.album ∧ c.composer = some duet.composer
      ∧ c.orchestra = some duet.orchestra ∧ c.soloist = some duet.soloist
      ∧ c.hmacInput = duet.bytes
      ∧ (c.validSignature sumHmac = true
        ↔ (List.replicate 21 0).take 20 = (sumHmac duet.bytes).val)
      ∧ ∀ m k d, getFromBytes m k = .ok d → d.hmacInput = c.hmacInput →
          { d with signature := c.signature } = c :=
  validSignature_iff_authentic sumHmac duet (List.replicate 21 0) (by decide)

end SongCert

end Napd
