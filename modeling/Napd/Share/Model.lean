import Mathlib.Data.Finset.Basic
import Mathlib.Data.List.AList
import Napd.Certificate.Model
import Napd.Hex
import Napd.Library.Runs
import Napd.Numbers

/-!
Sharing a file by its certificates: `AddSong`, `AddSong2`, `AddSongCert` and `AddSongCert2` of
`share.cc`, and `TimeoutSongCertificates` of `scheduled.cc`.

* `Server`: the song certificates the server has stored, by their song ids, and the rest of its
  state that the handlers read and write.
* `addSongText` and its likes: what each handler makes the text of `ADD_FILE` with, between its
  last check and `AddFile`; a fault in its buffers or its division ends it.
* `withFileCert`: the checks of the file certificate, which the four handlers share;
  `addKnown` and `addCarried`: what the handlers without and with a song certificate do then.
* `Event`, `step`: the server takes one message after another.

The dates of a certificate are compared as the words that `memcpy` has put into it.
-/

namespace Napd.Share

/-- `SongID`. -/
abbrev SongID := UInt64

/-! ### The server -/

/-- `pair<SongCert *, time_t>`: a certificate, and when it was last used. `inserted` records when
it was stored. -/
structure Entry where
  cert : SongCert
  used : I32
  inserted : I32

/-- `SongCertIndex`. -/
abbrev SongCertIndex := AList fun _ : SongID => Entry

/-- What of the server the handlers read and write. -/
structure Server where
  songCertificates : SongCertIndex
  blockedSongs : Finset SongID
  minCertDate : I32
  songCertTimeout : I32
  numSongQueries : U32
  numSongBlocks : U32
  totalSongAdds : U32

/-- The server before the first message. -/
def start : Server := ⟨∅, ∅, 0, 0, 0, 0, 0⟩

/-- `Client`: its name, and `can(Client::CAN_IDENTIFY)`. -/
structure Caller where
  name : Text
  canIdentify : Bool

/-- `Command`: the size, and the memory from `data` on. -/
structure Message where
  size : U16
  data : List U8
  le : size.toNat ≤ data.length

/-- One call of a handler: who calls, the message, `NOW`, and what lies on the stack where the
handler has its `char *charmd5`, which it does not initialise: a pointer to a live array of `new[]`
with these contents that nothing else will use, or something else. -/
structure Request where
  caller : Caller
  com : Message
  now : I32
  charmd5 : Option (List U8)

/-- What a handler does besides changing the server. -/
inductive Effect where
  /-- `cidclient->QuerySend(fcert.md5, caller->name)`. -/
  | querySend (md5 : List U8) (name : Text)
  /-- `caller->say(SONG_CERT, 16, fcert.md5)`. -/
  | say (md5 : List U8)
  /-- `AddFile(caller, &c, fcert.songid, true)`. -/
  | addFile (text : List U8) (songid : SongID) (identified : Bool)

/-- How a handler ends: it returns, or it faults. -/
abbrev Outcome := Except Stop (Server × List Effect)

/-! ### The parts of a message -/

namespace Request

/-- `file_size`: the first word, through `ntohl`. -/
def file_size (r : Request) : I32 := (loadNet32 r.com.data 0).toInt32

/-- `file_duration`: the second word, as it is. -/
def file_duration (r : Request) : I32 := (load32 r.com.data 4).toInt32

/-- `file_size = ntohl(file_duration)`. -/
def file_size2 (r : Request) : I32 := (loadNet32 r.com.data 4).toInt32

/-- The file certificate, behind the first word. -/
def fileCert (r : Request) : Except Stop FileCert :=
  FileCert.getFromBytes (r.com.data.drop 4) (r.com.size.toNat - 4)

/-- The song certificate, behind the file certificate. -/
def songCert (r : Request) : Except Stop SongCert :=
  SongCert.getFromBytes (r.com.data.drop (4 + 68)) (r.com.size.toNat - 4 - 68)

end Request

/-! ### Steps of the handlers -/

/-- `try { … } CATCH { return; }`. -/
def caught {α : Type} (x : Except Stop α) (s : Server) (k : α → Outcome) : Outcome :=
  match x with
  | .ok a => k a
  | .error .thrown => .ok (s, [])
  | .error .fault => .error .fault

/-- What follows a certificate that is not accepted: a query, if the caller can identify. -/
def query (s : Server) (caller : Caller) (fcert : FileCert) : Outcome :=
  if caller.canIdentify then
    .ok ({ s with numSongQueries := s.numSongQueries + 1 }, [.querySend fcert.md5 caller.name])
  else .ok (s, [])

/-- `(time_t)date < now`. -/
def expired (date : U32) (now : I32) : Bool := date.toInt32 < now

/-- `MinCertDate && (time_t)date < (time_t)MinCertDate`. -/
def tooOld (s : Server) (date : U32) : Bool := s.minCertDate ≠ 0 ∧ date.toInt32 < s.minCertDate

/-- `(*sci).second.second = now`. -/
def Server.touch (s : Server) (id : SongID) (e : Entry) (now : I32) : Server :=
  { s with songCertificates := s.songCertificates.insert id { e with used := now } }

/-- `SongCertificates.insert`, which keeps what is there. -/
def Server.insert (s : Server) (scert : SongCert) (now : I32) : Server :=
  if (s.songCertificates.lookup scert.head.songid).isSome then s
  else
    { s with songCertificates := s.songCertificates.insert scert.head.songid ⟨scert, now, now⟩ }

/-- `fcert.bitrate ? (file_size / 1024) / (fcert.bitrate / 8) : scert->head.duration`; a division
by zero does not return. -/
def playingTime (file_size : I32) (fcert : FileCert) (scert : SongCert) : Option U32 :=
  if fcert.bitrate = 0 then some scert.head.duration
  else if fcert.bitrate / 8 = 0 then none
  else some ((file_size / 1024).toUInt32 / (fcert.bitrate / 8))

/-- `PACKET_MAXBUF`. -/
def PACKET_MAXBUF : ℕ := 16384

/-- `%u`. -/
def formatUnsigned (x : U32) : List U8 := decimal x.toNat

/-- `sprintf` into `addfile_str`: `"` `bitrate` ` ` album `:\` artist ` - ` title `.` type `" ` and
the numbers behind it, if that fits with its NUL. -/
def addfile_str (bitrate file_size : List U8) (fcert : FileCert) (scert : SongCert)
    (charmd5 : List U8) (last : U32) : Option (List U8) := do
  let album ← scert.album
  let artist ← scert.artist
  let title ← scert.title
  let text := [34] ++ bitrate ++ [32] ++ album.val ++ [58, 92] ++ artist.val ++ [32, 45, 32]
    ++ title.val ++ [46] ++ fcert.getFileTypeAsString ++ [34, 32] ++ cstring charmd5 ++ [32]
    ++ file_size ++ [32] ++ formatUnsigned fcert.bitrate ++ [32] ++ formatUnsigned fcert.frequency
    ++ [32] ++ formatUnsigned last
  if text.length < PACKET_MAXBUF then some text else none

namespace Request

/-- From `TotalSongAdds++` on, `AddSong`: `delete[]` of an array on the stack is a fault. -/
def addSongText (r : Request) (fcert : FileCert) (scert : SongCert) : Option (List U8) := do
  let charmd5 ← Hex.bin_to_hex fcert.md5 16 (List.replicate 33 0)
  let last ← playingTime r.file_size fcert scert
  let _ ← addfile_str (formatLong fcert.bitrate.toInt32) (formatUnsigned r.file_size.toUInt32) fcert
    scert charmd5 last
  none

/-- `AddSong2`, where `charmd5` is a pointer that was not initialised. -/
def addSong2Text (r : Request) (fcert : FileCert) (scert : SongCert) : Option (List U8) := do
  let charmd5 ← Hex.bin_to_hex fcert.md5 16 (← r.charmd5)
  addfile_str (formatUnsigned fcert.bitrate) (formatLong r.file_size2) fcert scert charmd5
    r.file_duration.toUInt32

/-- `AddSongCert`. -/
def addSongCertText (r : Request) (fcert : FileCert) (scert : SongCert) : Option (List U8) := do
  let charmd5 ← Hex.bin_to_hex fcert.md5 16 (← r.charmd5)
  let last ← playingTime r.file_size fcert scert
  addfile_str (formatUnsigned fcert.bitrate) (formatUnsigned r.file_size.toUInt32) fcert scert
    charmd5 last

/-- `AddSongCert2`. -/
def addSongCert2Text (r : Request) (fcert : FileCert) (scert : SongCert) : Option (List U8) := do
  let charmd5 ← Hex.bin_to_hex fcert.md5 16 (← r.charmd5)
  addfile_str (formatUnsigned fcert.bitrate) (formatUnsigned r.file_size2.toUInt32) fcert scert
    charmd5 r.file_duration.toUInt32

end Request

/-- From `TotalSongAdds++` on. -/
def share (s : Server) (fcert : FileCert) (scert : SongCert)
    (text : FileCert → SongCert → Option (List U8)) : Outcome := do
  let text ← orFault (text fcert scert)
  return ({ s with totalSongAdds := s.totalSongAdds + 1 }, [.addFile text fcert.songid true])

section
variable (H : Hmac)

/-- The handlers up to the look-up: the size of the message, the file certificate, its
signature, its dates and the list of blocked songs. -/
def withFileCert (minimum : ℕ) (s : Server) (r : Request) (k : FileCert → Outcome) : Outcome :=
  if r.com.size.toNat < minimum then .ok (s, [])
  else caught r.fileCert s fun fcert =>
    if ¬ fcert.validSignature H then query s r.caller fcert
    else if expired fcert.end_date r.now then query s r.caller fcert
    else if tooOld s fcert.date then query s r.caller fcert
    else if fcert.songid ∈ s.blockedSongs then
      .ok ({ s with numSongBlocks := s.numSongBlocks + 1 }, [])
    else k fcert

/-- A handler of a message with a file certificate only: the client is asked for a song
certificate that the server does not have. -/
def addKnown (text : FileCert → SongCert → Option (List U8)) (s : Server) (r : Request) : Outcome :=
  withFileCert H 72 s r fun fcert =>
    match s.songCertificates.lookup fcert.songid with
    | none => .ok (s, [.say fcert.md5])
    | some e => share (s.touch fcert.songid e r.now) fcert e.cert text

/-- A handler of a message with both certificates: a song certificate that the server does not
have is read from the message, checked and stored. -/
def addCarried (text : FileCert → SongCert → Option (List U8)) (s : Server) (r : Request) :
    Outcome :=
  withFileCert H 122 s r fun fcert =>
    match s.songCertificates.lookup fcert.songid with
    | none => caught r.songCert s fun scert =>
        if scert.head.songid ≠ fcert.songid then .ok (s, [])
        else if ¬ scert.validSignature H then query s r.caller fcert
        else if expired scert.head.end_date r.now then query s r.caller fcert
        else if tooOld s scert.head.date then query s r.caller fcert
        else share (s.insert scert r.now) fcert scert text
    | some e => share (s.touch fcert.songid e r.now) fcert e.cert text

/-- `AddSong`. -/
def addSong (s : Server) (r : Request) : Outcome := addKnown H r.addSongText s r

/-- `AddSong2`. -/
def addSong2 (s : Server) (r : Request) : Outcome := addKnown H r.addSong2Text s r

/-- `AddSongCert`. -/
def addSongCert (s : Server) (r : Request) : Outcome := addCarried H r.addSongCertText s r

/-- `AddSongCert2`. -/
def addSongCert2 (s : Server) (r : Request) : Outcome := addCarried H r.addSongCert2Text s r

end

/-- The condition under which `TimeoutSongCertificates` erases an entry. -/
def timedOut (s : Server) (now : I32) (e : Entry) : Bool :=
  s.songCertTimeout < now - e.used || expired e.cert.head.end_date now

/-- `TimeoutSongCertificates`. Its loop advances an iterator that it has erased, which is a
fault. -/
def timeoutSongCertificates (s : Server) (now : I32) : Option Server :=
  if s.songCertificates.entries.any fun p => timedOut s now p.2 then none else some s

/-! ### Runs -/

inductive Handler where
  | addSong
  | addSong2
  | addSongCert
  | addSongCert2
  deriving DecidableEq

/-- A message, a run of `TimeoutSongCertificates`, or a change of what an administrator sets. -/
inductive Event where
  | message (h : Handler) (r : Request)
  | timeoutSongCertificates (now : I32)
  | configure (blockedSongs : Finset SongID) (minCertDate songCertTimeout : I32)

/-- One call of a handler. -/
def Handler.call (H : Hmac) : Handler → Server → Request → Outcome
  | .addSong => Share.addSong H
  | .addSong2 => Share.addSong2 H
  | .addSongCert => Share.addSongCert H
  | .addSongCert2 => Share.addSongCert2 H

/-- One event; a fault ends the run. -/
def step (H : Hmac) (s : Server) : Event → Option Server
  | .message h r => (h.call H s r).toOption.map Prod.fst
  | .timeoutSongCertificates now => timeoutSongCertificates s now
  | .configure blockedSongs minCertDate songCertTimeout =>
      some { s with
        blockedSongs := blockedSongs
        minCertDate := minCertDate
        songCertTimeout := songCertTimeout }

end Napd.Share
