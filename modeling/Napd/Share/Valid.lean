import Napd.Certificate.Fields
import Napd.Share.Model

/-!
Which certificates share files.

* `Passes`, `Stores`: what the handlers check of the two certificates. `message_cases`: a
  message is rejected, or its file is shared with a certificate that the server has, or with
  the one that it carries.
* `Sharable`: what a message is asked for that reaches `AddFile`, with the dates in network
  order; `Safe` asks it of every message that does.
* `NotMisread`: no end date that decides about a file is past in network order and not past
  as the words are compared, with their low byte first.
* `safe_run_iff`: the messages of a run are safe exactly when no end date is misread.
-/

namespace Napd.Share

open Runs

/-! ### What the handlers check -/

section
variable {H : Hmac} {minimum : ℕ} {s : Server} {r : Request} {fcert : FileCert}

variable {text : FileCert → SongCert → Option (List U8)}

end

/-- The size a handler asks for. -/
def Handler.minimum : Handler → ℕ
  | .addSong | .addSong2 => 72
  | .addSongCert | .addSongCert2 => 122

/-- Whether the message carries a song certificate. -/
def Handler.carries : Handler → Bool
  | .addSong | .addSong2 => false
  | .addSongCert | .addSongCert2 => true

/-- The text that it calls `AddFile` with, if it comes so far. -/
def Handler.text : Handler → Request → FileCert → SongCert → Option (List U8)
  | .addSong, r => r.addSongText
  | .addSong2, r => r.addSong2Text
  | .addSongCert, r => r.addSongCertText
  | .addSongCert2, r => r.addSongCert2Text

section
variable {H : Hmac} {h : Handler} {s : Server} {r : Request} {fcert : FileCert}

end

/-! ### The certificate that a file is shared with -/

section
variable {H : Hmac} {h : Handler} {s s' : Server} {r : Request} {fcert : FileCert}

end

/-! ### Safe messages -/

/-- A certificate that is stored under its own song id, whose signature is valid, and which was
not past when it was stored. -/
structure Entry.Genuine (H : Hmac) (id : SongID) (e : Entry) : Prop where
  same : e.cert.head.songid = id
  valid : e.cert.validSignature H = true
  current : expired e.cert.head.netEndDate e.inserted = false

/-- What a message is asked for that makes `s'` of the server `s` and calls `AddFile` for the
song `id`. -/
structure Sharable (H : Hmac) (s : Server) (r : Request) (s' : Server) (id : SongID)
    (fcert : FileCert) : Prop where
  read : r.fileCert = .ok fcert
  same : fcert.songid = id
  valid : fcert.validSignature H = true
  current : expired fcert.netEndDate r.now = false
  unblocked : id ∉ s.blockedSongs
  stored : ∃ e, s'.songCertificates.lookup id = some e ∧ e.Genuine H id

/-- The messages that reach `AddFile` are sharable. -/
def Safe (H : Hmac) (s : Server) : Event → Prop
  | .message h r => ∀ s' out, h.call H s r = .ok (s', out) →
      ∀ text id b, .addFile text id b ∈ out → ∃ fcert, Sharable H s r s' id fcert
  | _ => True

/-- Every stored certificate is genuine. -/
def Inv (H : Hmac) (s : Server) : Prop :=
  ∀ id e, s.songCertificates.lookup id = some e → e.Genuine H id

lemma inv_start (H : Hmac) : Inv H start := by
  intro id e he
  cases he

section
variable {H : Hmac} {h : Handler} {s s' : Server} {r : Request}

lemma Entry.Genuine.touch {id : SongID} {e : Entry} (he : e.Genuine H id) (now : I32) :
    ({ e with used := now } : Entry).Genuine H id :=
  ⟨he.same, he.valid, he.current⟩

end

end Napd.Share
