import Napd.Bytes
import Napd.Library.Memory

/-!
The certificates of `filecert.hh` and `filecert.cc`.

* `Raw`: the bytes of an object without padding, as `memcpy` moves them. On the target the
  words of a field lie in memory with their low byte first.
* `FileCert`, `SongCertHead`: their fields and `ntoh`.
* `SongCert`: the head, six strings, the signature; `getFromBytes`, `copyToBytes`,
  `getByteSize`, `createSignature` and `validSignature` as in the source.

HMAC-SHA1 with the fixed key, which both kinds of certificate share, is a parameter: a
function of the bytes that were fed to `HMAC_Update`.
-/

namespace Napd

open Memory

/-- The bytes of an object of size `n`. -/
abbrev Raw (n : ℕ) := {b : List U8 // b.length = n}

/-- The digest of `HMAC_Final`. -/
abbrev Signature := Raw 20

/-- HMAC-SHA1 with the fixed key. -/
abbrev Hmac := List U8 → Signature

/-- How a function may end other than by returning: it throws, or it reads or writes where it
must not. -/
inductive Stop where
  | thrown
  | fault
  deriving DecidableEq

/-- An access that may be outside. -/
def orFault {α : Type} : Option α → Except Stop α
  | some a => .ok a
  | none => .error .fault

lemma orFault_eq_ok {α : Type} {o : Option α} {a : α} (h : orFault o = .ok a) : o = some a := by
  cases o with
  | none => cases h
  | some b => exact congrArg some (Except.ok.inj h)

lemma bind_eq_ok {α β : Type} {x : Except Stop α} {f : α → Except Stop β} {b : β}
    (h : (x >>= f) = .ok b) : ∃ a, x = .ok a ∧ f a = .ok b := by
  cases x with
  | error e => cases h
  | ok a => exact ⟨a, rfl, h⟩

/-! ### Words in memory -/

/-- The byte at a position. -/
def byteAt (m : List U8) (i : ℕ) : U8 := m.getD i 0

/-- The `U32` at a position, its low byte first. -/
def load32 (m : List U8) (i : ℕ) : U32 :=
  ntoh32 (byteAt m (i + 3)) (byteAt m (i + 2)) (byteAt m (i + 1)) (byteAt m i)

/-- `ntohl` of the `U32` at a position. -/
def loadNet32 (m : List U8) (i : ℕ) : U32 :=
  ntoh32 (byteAt m i) (byteAt m (i + 1)) (byteAt m (i + 2)) (byteAt m (i + 3))

/-- The `U64` at a position, its low byte first. -/
def load64 (m : List U8) (i : ℕ) : UInt64 :=
  (load32 m (i + 4)).toUInt64 * 4294967296 + (load32 m i).toUInt64

/-- The bytes from `i` on, `n` of them, in reverse: `ntohs`, `ntohl` and `ntohll` of a field
in place. -/
def swapBytes (i n : ℕ) (m : List U8) : List U8 :=
  m.take i ++ (((m.drop i).take n).reverse ++ m.drop (i + n))

/-- The bytes from `i` on, `n` of them, if they are there. -/
def readBytes (m : List U8) (i n : ℕ) : Option (Raw n) :=
  if h : ((m.drop i).take n).length = n then some ⟨(m.drop i).take n, h⟩ else none

/-- `strlen` and `memcpy` of the string at a position: the string, and what is behind it. -/
def readString (m : List U8) (i : ℕ) : Option (Text × ℕ) :=
  if 0 ∈ m.drop i then
    some (⟨cstring (m.drop i), zero_notMem_cstring _⟩, i + (cstring (m.drop i)).length + 1)
  else none

/-! ### Words converted in place -/

lemma swapBytes_length (i n : ℕ) (m : List U8) : (swapBytes i n m).length = m.length := by
  simp only [swapBytes, List.length_append, List.length_take, List.length_reverse,
    List.length_drop]
  omega

/-- A byte of the field comes from its mirror image. -/
lemma byteAt_swapBytes {i n k : ℕ} {m : List U8} (hfit : i + n ≤ m.length) (hi : i ≤ k)
    (hk : k < i + n) : byteAt (swapBytes i n m) k = byteAt m (2 * i + n - 1 - k) := by
  have htake : (m.take i).length = i := List.length_take_of_le (by omega)
  have hfield : ((m.drop i).take n).length = n := by
    rw [List.length_take, List.length_drop]
    omega
  simp only [byteAt, swapBytes, List.getD_eq_getElem?_getD]
  rw [List.getElem?_append_right (by omega), htake,
    List.getElem?_append_left (by rw [List.length_reverse]; omega),
    List.getElem?_reverse (by omega), hfield, List.getElem?_take_of_lt (by omega),
    List.getElem?_drop]
  congr 2
  omega

/-- Bytes outside the field stay. -/
lemma byteAt_swapBytes_of_outside {i n k : ℕ} {m : List U8} (h : k < i ∨ i + n ≤ k) :
    byteAt (swapBytes i n m) k = byteAt m k := by
  simp only [byteAt, List.getD_eq_getElem?_getD]
  rcases lt_or_ge k m.length with hk | hk
  · rcases h with h | h
    · have htake : k < (m.take i).length := by
        rw [List.length_take]
        omega
      rw [swapBytes, List.getElem?_append_left htake, List.getElem?_take_of_lt h]
    · have htake : (m.take i).length = i := List.length_take_of_le (by omega)
      have hfield : (((m.drop i).take n).reverse).length = n := by
        rw [List.length_reverse, List.length_take, List.length_drop]
        omega
      rw [swapBytes, List.getElem?_append_right (by omega), List.getElem?_append_right (by omega),
        htake, hfield, List.getElem?_drop]
      congr 2
      omega
  · rw [List.getElem?_eq_none hk, List.getElem?_eq_none (by rw [swapBytes_length]; exact hk)]

lemma load32_swapBytes {i : ℕ} {m : List U8} (hfit : i + 4 ≤ m.length) :
    load32 (swapBytes i 4 m) i = loadNet32 m i := by
  have hbyte : ∀ k < 4, byteAt (swapBytes i 4 m) (i + k) = byteAt m (i + (3 - k)) := by
    intro k hk
    rw [byteAt_swapBytes hfit (by omega) (by omega)]
    congr 1
    omega
  rw [load32, loadNet32, hbyte 3 (by omega), hbyte 2 (by omega), hbyte 1 (by omega)]
  exact congrArg (ntoh32 _ _ _) (hbyte 0 (by omega))

lemma load32_swapBytes_of_outside {i j n : ℕ} {m : List U8} (h : j + 4 ≤ i ∨ i + n ≤ j) :
    load32 (swapBytes i n m) j = load32 m j := by
  rw [load32, load32, byteAt_swapBytes_of_outside (by omega),
    byteAt_swapBytes_of_outside (by omega), byteAt_swapBytes_of_outside (by omega),
    byteAt_swapBytes_of_outside (by omega)]

/-! ### File certificates -/

/-- `FileCert`, 68 bytes: version and padding, five words, the song id, the MD5 and the
signature. -/
abbrev FileCert := Raw 68

namespace FileCert

def end_date (c : FileCert) : U32 := load32 c.val 4
def date (c : FileCert) : U32 := load32 c.val 8
def bitrate (c : FileCert) : U32 := load32 c.val 16
def frequency (c : FileCert) : U32 := load32 c.val 20
def songid (c : FileCert) : UInt64 := load64 c.val 24
def md5 (c : FileCert) : List U8 := (c.val.drop 32).take 16
def signature (c : FileCert) : List U8 := c.val.drop 48

/-- `end_date` as `ntoh` decodes it (`end_date_ntoh`). -/
def netEndDate (c : FileCert) : U32 := loadNet32 c.val 4

/-- `ntoh`, of the certificate at position `i`. -/
def ntoh (i : ℕ) (m : List U8) : List U8 :=
  swapBytes (i + 24) 8 (swapBytes (i + 20) 4 (swapBytes (i + 16) 4 (swapBytes (i + 12) 4
    (swapBytes (i + 8) 4 (swapBytes (i + 4) 4 m)))))

lemma end_date_ntoh (c : FileCert) : load32 (ntoh 0 c.val) 4 = c.netEndDate := by
  have hlen : 4 + 4 ≤ c.val.length := by rw [c.property]; decide
  rw [ntoh, load32_swapBytes_of_outside (by omega), load32_swapBytes_of_outside (by omega),
    load32_swapBytes_of_outside (by omega), load32_swapBytes_of_outside (by omega),
    load32_swapBytes_of_outside (by omega)]
  exact load32_swapBytes hlen

/-- `createSignature`: all bytes but the last twenty. -/
def createSignature (H : Hmac) (c : FileCert) : Signature := H (c.val.take 48)

/-- `getFromBytes`. -/
def getFromBytes (mem : List U8) (bufferSize : ℕ) : Except Stop FileCert :=
  if bufferSize < 68 then .error .thrown else orFault (readBytes mem 0 68)

/-- `validSignature`. -/
def validSignature (H : Hmac) (c : FileCert) : Bool := (c.createSignature H).val = c.signature

/-- `getFileTypeAsString`: `"mp3"`, `"wma"` or `""`. This word goes through `ntohl`. -/
def getFileTypeAsString (c : FileCert) : List U8 :=
  if loadNet32 c.val 12 = 1 then [109, 112, 51]
  else if loadNet32 c.val 12 = 2 then [119, 109, 97]
  else []

end FileCert

/-! ### Song certificates -/

/-- `SongCertHead`, 24 bytes: version and padding, three words, the song id. -/
abbrev SongCertHead := Raw 24

namespace SongCertHead

def end_date (h : SongCertHead) : U32 := load32 h.val 4
def date (h : SongCertHead) : U32 := load32 h.val 8
def duration (h : SongCertHead) : U32 := load32 h.val 12
def songid (h : SongCertHead) : UInt64 := load64 h.val 16

/-- `end_date` as `ntoh` decodes it (`end_date_ntoh`). -/
def netEndDate (h : SongCertHead) : U32 := loadNet32 h.val 4

/-- `version = v`. -/
def setVersion (h : SongCertHead) (v : U8) : SongCertHead :=
  ⟨h.val.set 0 v, by rw [List.length_set, h.property]⟩

/-- `ntoh`, of the head at position `i`. -/
def ntoh (i : ℕ) (m : List U8) : List U8 :=
  swapBytes (i + 16) 8 (swapBytes (i + 12) 4 (swapBytes (i + 8) 4 (swapBytes (i + 4) 4 m)))

lemma end_date_ntoh (h : SongCertHead) : load32 (ntoh 0 h.val) 4 = h.netEndDate := by
  have hlen : 4 + 4 ≤ h.val.length := by rw [h.property]; decide
  rw [ntoh, load32_swapBytes_of_outside (by omega), load32_swapBytes_of_outside (by omega),
    load32_swapBytes_of_outside (by omega)]
  exact load32_swapBytes hlen

end SongCertHead

/-- `SongCert`; a string may be `NULL`. -/
structure SongCert where
  head : SongCertHead
  artist : Option Text
  title : Option Text
  album : Option Text
  composer : Option Text
  orchestra : Option Text
  soloist : Option Text
  signature : Signature

namespace SongCert

/-- What `HMAC_Update` takes of a string: the string with its NUL, or `""` for `NULL`. -/
def update : Option Text → List U8
  | some s => s.val ++ [0]
  | none => [0]

/-- What is fed to the HMAC, in order. -/
def hmacInput (c : SongCert) : List U8 :=
  c.head.val ++ (update c.artist ++ (update c.title ++ (update c.album ++ (update c.composer
    ++ (update c.orchestra ++ update c.soloist)))))

/-- `createSignature`. -/
def createSignature (H : Hmac) (c : SongCert) : Signature := H c.hmacInput

/-- `validSignature`. -/
def validSignature (H : Hmac) (c : SongCert) : Bool := c.createSignature H = c.signature

/-- `(s ? strlen(s) : 0)`. -/
def length : Option Text → ℕ
  | some s => s.val.length
  | none => 0

/-- `getByteSize`. The strings are blocks of a 32-bit address space, so that the sum does
not wrap. -/
def getByteSize (c : SongCert) : ℕ :=
  24 + 20 + (1 + length c.artist) + (1 + length c.title) + (1 + length c.album)
    + (1 + length c.composer) + (1 + length c.orchestra) + (1 + length c.soloist)

/-- One string of `getFromBytes`: copied with its NUL, and the pointer put behind it. -/
def nextString (mem : List U8) (ptr : ℕ) : Except Stop (Text × ℕ) := orFault (readString mem ptr)

/-- `getFromBytes`: the fields in the order of the source. -/
def getFromBytes (mem : List U8) (bufferSize : ℕ) : Except Stop SongCert :=
  if bufferSize < 24 + 20 + 6 then .error .thrown
  else do
    let head ← orFault (readBytes mem 0 24)
    let (artist, ptr) ← nextString mem 24
    let (title, ptr) ← nextString mem ptr
    let (album, ptr) ← nextString mem ptr
    let (composer, ptr) ← nextString mem ptr
    let (orchestra, ptr) ← nextString mem ptr
    let (soloist, ptr) ← nextString mem ptr
    let signature ← orFault (readBytes mem ptr 20)
    return ⟨head, some artist, some title, some album, some composer, some orchestra,
      some soloist, signature⟩

/-- One string of `copyToBytes`: copied with its NUL, or `""` for `NULL`. -/
def copyString (w : Pen U8) : Option Text → Except Stop (Pen U8)
  | some s => orFault (w.put (s.val ++ [0]))
  | none => orFault (w.put [0])

/-- `copyToBytes`: the certificate, whose version it sets, and the buffer. -/
def copyToBytes (H : Hmac) (c : SongCert) (buffer : List U8) : Except Stop (SongCert × List U8) :=
  if buffer.length < c.getByteSize then .error .thrown
  else do
    let c := { c with head := c.head.setVersion 0 }
    let w ← orFault ((⟨buffer, 0⟩ : Pen U8).put c.head.val)
    let w ← copyString w c.artist
    let w ← copyString w c.title
    let w ← copyString w c.album
    let w ← copyString w c.composer
    let w ← copyString w c.orchestra
    let w ← copyString w c.soloist
    let w ← orFault (w.put (c.createSignature H).val)
    return (c, w.mem)

end SongCert

end Napd
