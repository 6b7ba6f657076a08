import Napd.Client.Stream
import Napd.Server.Model

/-!
Reading from a connection that the peer has closed.

* `closing`: the receiving side of such a stream. A `recv` takes some of the bytes that are left,
  and returns 0 when there are none.
* `Noticed`: a call of `read` throws behind the last byte, and the client is removed.
* `closed_noticed_iff`: **with less than a frame left, `read` notices the end unless it has begun
  no command and its peek shows a part of a header**.
* `unnoticed`: with one to three bytes left, no number of calls notices the end.
-/

namespace Napd

/-- `recv` on a stream whose peer has closed it: some bytes from the front, at most `len`, or 0.
The answer of the kernel says how many bytes there may be beyond the first. -/
def Stream.recvClosing (k : Stream) (n : ℕ) (len : ℕ) (peek : Bool) : Recv × Address × Stream :=
  if k.pending = [] then k.recv .closed len peek else k.recv (.bytes n) len peek

/-- The receiving side of a stream that the peer has closed. -/
def closing : Receiver Stream ℕ := ⟨Stream.recvClosing⟩

namespace Client

open Command

/-- A call that ends by an exception. -/
def Result.throws : Result → Bool
  | .thrown => true
  | _ => false

/-- A call of `read` throws, nothing is left on the stream, and `check_clients` removes the
client. -/
def Noticed (c : Client) (f : Fresh) (k : Stream) (answers : List ℕ) : Prop :=
  ∃ r c' k', c.read closing f k answers = some (r, c', k') ∧ r.throws = true ∧
    k'.consumed = k.consumed ++ k.pending ∧ k'.pending = [] ∧
    ∀ s i lc, Server.serve s i lc r.throws = Server.remove_connection s i

lemma recv_closing_nil {k : Stream} (h : k.pending = []) (n len : ℕ) (peek : Bool) :
    closing.recv k n len peek = (.bytes [], {}, k) := if_pos h

lemma recv_closing {k : Stream} (h : k.pending ≠ []) (n len : ℕ) (peek : Bool) :
    closing.recv k n len peek = stream.recv k (.bytes n) len peek := if_neg h

/-- **The loop of `read`** on a closed stream with less than the frame: it takes all that is left,
and throws. -/
lemma fill_closing {c : Client} {com : Command} {held : List U8} {k : Stream} {answers : List ℕ}
    (h : Holds com held) (hshort : held.length + k.pending.length < 4 + com.size.toNat)
    (hmany : k.pending.length < answers.length) :
    ∃ c' k', c.fill closing com k answers = some (.thrown, c', k') ∧
      k'.consumed = k.consumed ++ k.pending ∧ k'.pending = [] := by
  induction answers generalizing com held k with
  | nil => exact absurd hmany (Nat.not_lt_zero _)
  | cons n answers ih =>
      have hfull : com.full ≠ true := by
        rw [ne_eq, h.full_iff]
        omega
      by_cases hnil : k.pending = []
      · have hrecv := recv_closing_nil hnil n com.remaining false
        obtain ⟨com', hrun, -⟩ := h.receive_bytes c.connected hrecv (Nat.zero_le _)
        refine ⟨_, k, fill_stop answers hfull hrun ?_, ?_, hnil⟩
        · exact fun bs hbs => (Recv.bytes.inj hbs).symm
        · rw [hnil, List.append_nil]
      · obtain ⟨bs, k', hrecv, hlen, hmove, hpos⟩ := recv_bytes n com.remaining hnil
        rw [← recv_closing hnil] at hrecv
        have hbs : bs ≠ [] := hpos (by rw [h.remaining]; omega)
        have hbs_pos : 0 < bs.length := List.length_pos_iff.mpr hbs
        obtain ⟨com', hrun, hholds, -, hsize, -⟩ := h.receive_bytes c.connected hrecv hlen
        have hmoved := congrArg List.length hmove.pending
        rw [List.length_append] at hmoved
        rw [List.length_cons] at hmany
        have hshort' : (held ++ bs).length + k'.pending.length < 4 + com'.size.toNat := by
          rw [hsize, List.length_append]
          omega
        obtain ⟨c', k'', hfill, hconsumed, hdone⟩ := ih hholds hshort' (by omega)
        refine ⟨c', k'', ?_, ?_, hdone⟩
        · rw [fill_more answers hfull hrun hbs, hfill]
        · rw [hconsumed, hmove.consumed, hmove.pending, List.append_assoc]

lemma noticed_of_read {c c' : Client} {f : Fresh} {k k' : Stream} {answers : List ℕ}
    (hread : c.read closing f k answers = some (.thrown, c', k'))
    (hconsumed : k'.consumed = k.consumed ++ k.pending) (hdone : k'.pending = []) :
    Noticed c f k answers := by
  refine ⟨.thrown, c', k', hread, rfl, hconsumed, hdone, fun s i lc => ?_⟩
  rw [Server.serve, Result.throws, Bool.or_true, if_pos rfl]

/-- The peek shows less than a header. -/
def PeeksShort (k : Stream) (n : ℕ) : Prop :=
  k.pending ≠ [] ∧ (k.pending.length < 4 ∨ n < 3)

lemma peek_closing {k : Stream} (h : k.pending ≠ []) (n : ℕ) :
    closing.recv k n 4 true = (.bytes (k.pending.take (min (n + 1) 4)), {}, k) := by
  rw [recv_closing h]
  simp [stream, Stream.recv, h]

/-- A read that has begun no command and peeks at a part of a header returns `NULL`, and changes
nothing. -/
lemma read_peeksShort {c : Client} (hidle : c.rbuffer = none) (f : Fresh) {k : Stream} {n : ℕ}
    (answers : List ℕ) (h : PeeksShort k n) :
    c.read closing f k (n :: answers) = some (.null, c, k) := by
  obtain ⟨hne, hshort⟩ := h
  obtain ⟨b, bs, hbs⟩ := List.exists_cons_of_ne_nil
    (show k.pending.take (min (n + 1) 4) ≠ [] by simpa using hne)
  have hlen := congrArg List.length hbs
  rw [List.length_take] at hlen
  have hpeek := peek_closing hne n
  rw [hbs] at hpeek
  refine read_short f answers hidle hpeek fun bs' hbs' => ?_
  rw [← Recv.bytes.inj hbs', ← hlen]
  omega

/-- A read that has begun no command notices the end of the stream, if it does not peek at a
part of a header. -/
lemma read_peeks {c : Client} (hidle : c.rbuffer = none) (f : Fresh) {k : Stream} {n : ℕ}
    {answers : List ℕ} (h : ¬PeeksShort k n) (hready : ¬framing.Ready k.pending)
    (hmany : k.pending.length < answers.length) : Noticed c f k (n :: answers) := by
  by_cases hnil : k.pending = []
  · have hpeek := recv_closing_nil hnil n 4 true
    refine noticed_of_read (read_short f answers hidle hpeek ?_) ?_ hnil
    · intro bs hbs
      rw [← Recv.bytes.inj hbs, List.length_nil]
      omega
    · rw [hnil, List.append_nil]
  · have hlong : 4 ≤ k.pending.length ∧ 3 ≤ n := by
      by_contra hcon
      exact h ⟨hnil, by omega⟩
    have hmin : min (n + 1) 4 = 4 := by omega
    have hpeek := peek_closing hnil n
    rw [hmin] at hpeek
    have hlen : (k.pending.take 4).length = 4 := List.length_take_of_le hlong.1
    obtain ⟨s₁, s₀, c₁, c₀, htake⟩ := List.length_eq_four.mp hlen
    rw [htake] at hpeek
    have hframe : framing.frameLength k.pending = 4 + (ntoh16 s₁ s₀).toNat := by
      change 4 + framing.announced (k.pending.take 4) = _
      rw [htake]
      rfl
    have hshort : k.pending.length < 4 + (ntoh16 s₁ s₀).toNat := by
      by_contra hge
      exact hready ⟨hlong.1, by rw [hframe]; omega⟩
    have hfits : ([] : List U8).length + k.pending.length < 4 + (ntoh16 s₁ s₀).toNat := by
      rw [List.length_nil, Nat.zero_add]
      exact hshort
    obtain ⟨c', k', hfill, hconsumed, hdone⟩ :=
      fill_closing (c := c) (holds_new f (ntoh16 s₁ s₀) (ntoh16 c₁ c₀)) hfits hmany
    exact noticed_of_read ((read_head f answers hidle hpeek).trans hfill) hconsumed hdone

/-- **A read of a closed connection with less than a frame left notices the end** if and only if
it has begun a command, or does not peek at a part of a header. -/
lemma read_closing {c : Client} {held : List U8} (f : Fresh) {k : Stream} {n : ℕ}
    {answers : List ℕ} (h : Waiting k.pending c.rbuffer held)
    (hready : ¬framing.Ready (held ++ k.pending)) (hmany : k.pending.length < answers.length) :
    Noticed c f k (n :: answers) ↔ c.rbuffer ≠ none ∨ ¬PeeksShort k n := by
  generalize hbuf : c.rbuffer = buf at h
  cases h with
  | @part com _ h =>
      have htotal : held.length + k.pending.length < 4 + com.size.toNat := by
        by_contra hge
        have hheader := h.header.length_le
        rw [List.length_append, head_length] at hheader
        refine hready ⟨?_, ?_⟩
        · rw [List.length_append]
          exact hheader
        · rw [frameLength_of_head h.header, List.length_append]
          omega
      obtain ⟨c', k', hfill, hconsumed, hdone⟩ := fill_closing (c := c) h.holds htotal
        (hmany.trans_le (Nat.le_succ answers.length) : _ < (n :: answers).length)
      rw [iff_true_right (Or.inl (Option.some_ne_none com))]
      exact noticed_of_read ((read_of_some closing f k _ hbuf).trans hfill) hconsumed hdone
  | idle =>
      rw [or_iff_right (fun h => h rfl)]
      constructor
      · rintro ⟨r, c', k', hread, hthrows, -⟩ hpeeks
        rw [read_peeksShort hbuf f answers hpeeks] at hread
        obtain ⟨rfl, -⟩ := Prod.mk.inj (Option.some.inj hread)
        exact Bool.false_ne_true hthrows
      · exact fun hpeeks => read_peeks hbuf f hpeeks hready hmany

/-- **A connection that the peer closed, with less than a frame left on it, is noticed** by a
call of `read`, whatever was read before and however the bytes arrive, if and only if a command
was begun, nothing is left, or a whole header is left and the peek shows it. -/
theorem closed_noticed_iff {s : List U8} {calls : List (Fresh × List Answer)} {rs : List Result}
    {c : Client} {k : Stream}
    (hrun : (opened true).reads stream ⟨[], s⟩ calls = some (rs, c, k))
    (hless : ¬framing.Ready (c.held ++ k.pending)) (f : Fresh) (n : ℕ) {answers : List ℕ}
    (hmany : k.pending.length < answers.length) :
    Noticed c f k (n :: answers) ↔
      c.rbuffer ≠ none ∨ k.pending = [] ∨ (4 ≤ k.pending.length ∧ 3 ≤ n) := by
  obtain ⟨rs', c', k', bs, held, hrun', -, -, hwait, -⟩ :=
    reads_stream (c := opened true) rfl (k := ⟨[], s⟩) calls .idle
  rw [hrun] at hrun'
  obtain ⟨rfl, hck⟩ := Prod.mk.inj (Option.some.inj hrun')
  obtain ⟨rfl, rfl⟩ := Prod.mk.inj hck
  rw [hwait.held_eq] at hless
  rw [read_closing f hwait hless hmany, PeeksShort]
  refine or_congr_right ?_
  rw [not_and_or, not_or, not_not, Nat.not_lt, Nat.not_lt]

/-- A read that takes a header, and then finds the kernel not ready. -/
def partRead : List (Fresh × List Answer) :=
  [(⟨8, by decide, fun _ => 170⟩, [.bytes 3, .bytes 3, .again])]

/-- A connection that is closed one byte before the end of a command that was begun is noticed. -/
theorem closed_noticed_iff_part :
    ∃ c k, (opened true).reads stream ⟨[], [0, 2, 0, 5, 7]⟩ partRead = some ([.null], c, k) ∧
      c.rbuffer ≠ none ∧ k.pending = [7] ∧
      Noticed c ⟨9, by decide, fun _ => 0⟩ k [0, 0, 0] := by
  obtain ⟨c, k, hrun, hbegun, hheld, hleft⟩ : ∃ c k,
      (opened true).reads stream ⟨[], [0, 2, 0, 5, 7]⟩ partRead = some ([.null], c, k) ∧
        c.rbuffer ≠ none ∧ c.held = [0, 2, 0, 5] ∧ k.pending = [7] :=
    ⟨_, _, rfl, Option.some_ne_none _, rfl, rfl⟩
  refine ⟨c, k, hrun, hbegun, hleft, ?_⟩
  refine (closed_noticed_iff hrun ?_ _ 0 ?_).mpr (Or.inl hbegun)
  · rw [hheld, hleft]
    decide
  · rw [hleft]
    decide

/-- **With one to three bytes left and no command begun, the end is never noticed**: every call
returns `NULL`. -/
theorem unnoticed {c : Client} (hidle : c.rbuffer = none) {k : Stream} (hne : k.pending ≠ [])
    (hshort : k.pending.length < 4) (calls : List (Fresh × List ℕ)) :
    c.reads closing k calls = some (calls.map fun _ => .null, c, k) := by
  induction calls with
  | nil => rfl
  | cons call calls ih =>
      obtain ⟨f, answers⟩ := call
      have hread : c.read closing f k answers = some (.null, c, k) := by
        cases answers with
        | nil => exact read_nil closing f k hidle
        | cons n answers => exact read_peeksShort hidle f answers ⟨hne, Or.inl hshort⟩
      rw [reads, hread]
      simp only [Option.bind_eq_bind, Option.bind_some, ih]
      rfl

/-- A peer that sends one byte and closes the connection is not noticed. -/
theorem not_noticed_byte :
    ¬∀ (s : List U8) (calls : List (Fresh × List Answer)) (rs : List Result) (c : Client)
      (k : Stream), (opened true).reads stream ⟨[], s⟩ calls = some (rs, c, k) →
        ¬framing.Ready (c.held ++ k.pending) → ∀ (f : Fresh) (n : ℕ) (answers : List ℕ),
          k.pending.length < answers.length → Noticed c f k (n :: answers) := by
  intro h
  let f : Fresh := ⟨1, one_ne_zero, fun _ => 0⟩
  obtain ⟨r, c', k', hread, hthrows, -⟩ :=
    h [0] [] [] (opened true) ⟨[], [0]⟩ rfl (by decide) f 3 [3, 3] (by decide)
  rw [read_peeksShort rfl f [3, 3] ⟨List.cons_ne_nil 0 [], Or.inl (by decide)⟩] at hread
  obtain ⟨rfl, -⟩ := Prod.mk.inj (Option.some.inj hread)
  exact Bool.false_ne_true hthrows

end Client

end Napd
