import Napd.Certificate.Model

/-!
The content-id client of `cidclient.cc`: how a response is received and taken apart.

* `Recv`: what the socket has for the client; `receive` puts a datagram into a new buffer.
* `responseReceive`: `ResponseReceive` with the certificates. Its pointers are positions in
  `in_buf`, and an access outside the buffer is a fault.
-/

namespace Napd.CidClient

/-- `recv_size`, an `int` that is not negative. -/
abbrev RecvSize := {n : ℕ // n < 2147483648}

/-- What `recv` finds: a datagram, or an error, which says that there is none or not. -/
inductive Recv where
  | datagram (bytes : List U8)
  | failed (wouldBlock : Bool)

/-- What a call leaves behind: the value that it returns and the buffer. -/
structure Received where
  len : ℤ
  in_buf : List U8

/-- `Receive`, into a new buffer that holds anything. A datagram that is longer than
`recv_size` is cut off. -/
def receive (recv_size : RecvSize) (fresh : Raw (recv_size.val + 1)) : Recv → Received
  | .datagram bytes =>
      let d := bytes.take recv_size.val
      ⟨d.length, d ++ fresh.val.drop d.length⟩
  | .failed wouldBlock => ⟨if wouldBlock then 0 else -1, fresh.val⟩

/-- The `U16` at a position, its low byte first. -/
def load16 (m : List U8) (i : ℕ) : U16 := ntoh16 (byteAt m (i + 1)) (byteAt m i)

/-- An operation on the bytes of the buffer before position `n`. -/
def within (n : ℕ) (f : List U8 → List U8) (m : List U8) : Except Stop (List U8) :=
  if n ≤ m.length then .ok (f m) else .error .fault

namespace ContentPktHeader

/-- `NtoH`: the message type and the length. The header stands first. -/
def NtoH (m : List U8) : List U8 := swapBytes 6 2 (swapBytes 4 2 m)

def body_len (m : List U8) : U16 := load16 m 6

end ContentPktHeader

namespace ContentPktBodyHeader

/-- `NtoH`: the two offsets. The header stands behind the first one, at 8. -/
def NtoH (m : List U8) : List U8 := swapBytes 14 2 (swapBytes 12 2 m)

def username_offset (m : List U8) : U16 := load16 m 12
def certs_offset (m : List U8) : U16 := load16 m 14

end ContentPktBodyHeader

/-- A digit of `bin_to_hex`. -/
def hexDigit (b : U8) : U8 := if b < 10 then 48 + b else 87 + b

/-- `bin_to_hex`, with its NUL. -/
def bin_to_hex (bytes : List U8) : List U8 :=
  bytes.flatMap (fun b : U8 => [hexDigit (b >>> 4), hexDigit (b &&& 15)]) ++ [0]

/-- What a call that accepts a response hands out. -/
structure Response where
  username : ℕ
  fcert : ℕ
  scert : ℕ
  scert_hd : ℕ
  scert_size : Int32
  md5txt : Option (List U8)

/-- The value that is returned, the buffer, and what is handed out. -/
structure Outcome where
  returned : ℤ
  in_buf : List U8
  response : Option Response

/-- `scert_size`: a difference of unsigned numbers, as an `int`. -/
def scertSize (len : ℕ) (certs_offset : U16) : Int32 :=
  (UInt32.ofNat len - 8 - 16 - certs_offset.toUInt32 - 68).toInt32

/-- `if (net_to_host)`: both certificates in place, the song's head behind the file's. -/
def convert (net_to_host : Bool) (fc : ℕ) (m : List U8) : Except Stop (List U8) :=
  if net_to_host then do
    let m ← within (fc + 32) (FileCert.ntoh fc) m
    within (fc + 68 + 24) (SongCertHead.ntoh (fc + 68)) m
  else .ok m

/-- `if (md5txtbuf)`: the MD5 of the file certificate, in hex. -/
def md5Text (md5txtbuf : Bool) (fc : ℕ) (m : List U8) : Except Stop (Option (List U8)) :=
  if md5txtbuf then do
    let md5 ← orFault (readBytes m (fc + 32) 16)
    return some (bin_to_hex md5.val)
  else .ok none

/-- `ResponseReceive` once the length is accepted. -/
def handOut (net_to_host md5txtbuf : Bool) (len : ℕ) (m : List U8) : Except Stop Outcome := do
  let username := 24 + (ContentPktBodyHeader.username_offset m).toNat
  let fc := 24 + (ContentPktBodyHeader.certs_offset m).toNat
  let m ← convert net_to_host fc m
  let md5txt ← md5Text md5txtbuf fc m
  return ⟨1, m, some ⟨username, fc, fc + 68, fc + 68,
    scertSize len (ContentPktBodyHeader.certs_offset m), md5txt⟩⟩

/-- `ResponseReceive`, from the buffer with `len` bytes that `Receive` filled. -/
def takeApart (net_to_host md5txtbuf : Bool) (len : ℕ) (in_buf : List U8) :
    Except Stop Outcome := do
  let m := in_buf.set len 0
  let m ← within 8 ContentPktHeader.NtoH m
  let m ← within 16 ContentPktBodyHeader.NtoH m
  if UInt32.ofNat len - 8 ≠ (ContentPktHeader.body_len m).toUInt32 then
    return ⟨-1, m, none⟩
  handOut net_to_host md5txtbuf len m

/-- `ResponseReceive`. -/
def responseReceive (net_to_host md5txtbuf : Bool) (recv_size : RecvSize)
    (fresh : Raw (recv_size.val + 1)) (r : Recv) : Except Stop Outcome :=
  let received := receive recv_size fresh r
  if received.len ≤ 0 then .ok ⟨received.len, received.in_buf, none⟩
  else takeApart net_to_host md5txtbuf received.len.toNat received.in_buf

end Napd.CidClient
