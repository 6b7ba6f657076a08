import Napd.Client.Connection
import Napd.Client.Queue

/-!
What a client sends and reads over several connections.

* `FromConnection`: a command that was received on a connection, header and payload.
* `Safe`: a call is defined, what was sent on the connection is the beginning of the frames that
  were written since it was opened, and a command that is returned was received on it.
* `Clean`: the write queue is empty at an `open`, and `rbuffer` was not deleted before a `read` or
  a `close`.
* `clean_safe`: **calls that are clean are safe**.
-/

namespace Napd

namespace Session

open Command Client

/-- The header was peeked at, and the message taken, on this connection. -/
def FromConnection (com : Command) (k : Received) : Prop :=
  com.head ∈ k.peeked ∧
    ∃ b, com.data = some b ∧ b.bytes.take (4 + com.size.toNat) <:+ k.taken

/-- What a call should do. -/
def Safe (s : Session) (i : Call) : Prop :=
  ∃ out s', s.call i = some (out, s') ∧ s'.sent <+: s'.written.flatMap frame ∧
    ∀ com, out = some com → FromConnection com s'.received

/-- The calls that find the client as they expect it. -/
def Clean (s : Session) : Call → Prop
  | .openWith .. => s.client.wqueue = []
  | .read .. => s.deleted = false
  | .close => s.deleted = false
  | _ => True

/-! ### Reading -/

/-- How a `read` may end, on a connection. -/
inductive Reads (k : Received) : Result → Option Command → Prop
  | command {com} (h : FromConnection com k) : Reads k (.command com) none
  | idle {r} (hr : r.command? = none) : Reads k r none
  | waiting {r com held} (hr : r.command? = none) (h : Holds com held) (htaken : held <:+ k.taken)
      (hhead : com.head ∈ k.peeked) : Reads k r (some com)

/-- Bytes are taken, or nothing is. -/
lemma recv_wire (k : Received) (a : Recv × Address) (len : ℕ) :
    (∃ bs, wire.recv k a len false = (.bytes bs, a.2, ⟨k.peeked, k.taken ++ bs⟩) ∧
      bs.length ≤ len) ∨
    ∃ r, wire.recv k a len false = (r, a.2, k) ∧ ∀ bs, r ≠ .bytes bs := by
  obtain ⟨r, sender⟩ := a
  cases r with
  | bytes bs => exact Or.inl ⟨bs.take len, rfl, List.length_take_le len bs⟩
  | again => exact Or.inr ⟨.again, rfl, nofun⟩
  | error => exact Or.inr ⟨.error, rfl, nofun⟩

/-- A whole header is peeked at, or none. -/
lemma peek_wire (k : Received) (a : Recv × Address) :
    (∃ s₁ s₀ c₁ c₀, wire.recv k a 4 true
        = (.bytes [s₁, s₀, c₁, c₀], a.2, ⟨k.peeked ++ [[s₁, s₀, c₁, c₀]], k.taken⟩)) ∨
    ∃ r k', wire.recv k a 4 true = (r, a.2, k') ∧ ∀ bs, r = .bytes bs → bs.length ≠ 4 := by
  obtain ⟨r, sender⟩ := a
  cases r with
  | bytes bs =>
      by_cases hlen : (bs.take 4).length = 4
      · obtain ⟨s₁, s₀, c₁, c₀, htake⟩ := List.length_eq_four.mp hlen
        refine Or.inl ⟨s₁, s₀, c₁, c₀, ?_⟩
        rw [← htake]
        rfl
      · refine Or.inr ⟨.bytes (bs.take 4), _, rfl, fun bs' hbs' => ?_⟩
        rwa [← Recv.bytes.inj hbs']
  | again => exact Or.inr ⟨.again, k, rfl, nofun⟩
  | error => exact Or.inr ⟨.error, k, rfl, nofun⟩

/-- A full block was taken on the connection that its bytes were taken on. -/
lemma fromConnection_of_full {com : Command} {held : List U8} {k : Received} (h : Holds com held)
    (hfull : com.full = true) (htaken : held <:+ k.taken) (hhead : com.head ∈ k.peeked) :
    FromConnection { com with offset := 0 } k := by
  obtain ⟨b, room, hdata, hbytes, -⟩ := h.block
  refine ⟨hhead, b, hdata, ?_⟩
  change b.bytes.take (4 + com.size.toNat) <:+ k.taken
  rw [hbytes, ← h.full_iff.mp hfull, List.take_left]
  exact htaken

/-- **The loop of `read`** takes what it needs on one connection. -/
lemma fill_wire {c : Client} {com : Command} {held : List U8} {k : Received}
    (answers : List (Recv × Address)) (h : Holds com held) (htaken : held <:+ k.taken)
    (hhead : com.head ∈ k.peeked) :
    ∃ r c' k', c.fill wire com k answers = some (r, c', k') ∧ c'.wqueue = c.wqueue ∧
      Reads k' r c'.rbuffer := by
  induction answers generalizing com held k with
  | nil =>
      by_cases hfull : com.full = true
      · exact ⟨_, _, _, fill_of_full _ _ _ _ hfull, rfl,
          .command (fromConnection_of_full h hfull htaken hhead)⟩
      · exact ⟨_, _, _, fill_nil _ _ _ hfull, rfl, .waiting rfl h htaken hhead⟩
  | cons a answers ih =>
      by_cases hfull : com.full = true
      · exact ⟨_, _, _, fill_of_full _ _ _ _ hfull, rfl,
          .command (fromConnection_of_full h hfull htaken hhead)⟩
      rcases recv_wire k a com.remaining with ⟨bs, hrecv, hlen⟩ | ⟨r, hrecv, hr⟩
      · obtain ⟨com', hrun, hholds, hhead', -⟩ := h.receive_bytes c.connected hrecv hlen
        have htaken' : held ++ bs <:+ k.taken ++ bs := by
          obtain ⟨t, ht⟩ := htaken
          exact ⟨t, by rw [← ht, List.append_assoc]⟩
        by_cases hnil : bs = []
        · refine ⟨_, _, _, fill_stop answers hfull hrun ?_, rfl,
            .waiting (stop_command? _) hholds htaken' (hhead' ▸ hhead)⟩
          intro bs' hbs'
          rw [← Recv.bytes.inj hbs', hnil]
        · obtain ⟨r, c', k', hfill, hqueue, hreads⟩ :=
            ih (k := ⟨k.peeked, k.taken ++ bs⟩) hholds htaken' (hhead' ▸ hhead)
          exact ⟨r, c', k', (fill_more answers hfull hrun hnil).trans hfill, hqueue, hreads⟩
      · obtain ⟨com', hrun, hholds, hhead', -⟩ := h.receive_none c.connected hrecv hr
        exact ⟨_, _, k, fill_stop answers hfull hrun (fun bs hbs => absurd hbs (hr bs)), rfl,
          .waiting (stop_command? r) hholds htaken (hhead' ▸ hhead)⟩

/-- **A `read`** returns and keeps what was received on one connection. -/
lemma read_wire {c : Client} {k : Received} (f : Fresh) (answers : List (Recv × Address))
    (h : ∀ com, c.rbuffer = some com →
      ∃ held, Holds com held ∧ held <:+ k.taken ∧ com.head ∈ k.peeked) :
    ∃ r c' k', c.read wire f k answers = some (r, c', k') ∧ c'.wqueue = c.wqueue ∧
      Reads k' r c'.rbuffer := by
  cases hbuf : c.rbuffer with
  | some com =>
      obtain ⟨held, hholds, htaken, hhead⟩ := h com hbuf
      rw [read_of_some wire f k answers hbuf]
      exact fill_wire answers hholds htaken hhead
  | none =>
      cases answers with
      | nil => exact ⟨.null, c, k, read_nil wire f k hbuf, rfl, hbuf ▸ .idle rfl⟩
      | cons a answers =>
          rcases peek_wire k a with ⟨s₁, s₀, c₁, c₀, hpeek⟩ | ⟨r, k', hpeek, hr⟩
          · rw [read_head f answers hbuf hpeek]
            refine fill_wire answers (holds_new f _ _) List.nil_suffix ?_
            rw [head, hton16_ntoh16, hton16_ntoh16]
            exact List.mem_append_right _ (List.mem_singleton.mpr rfl)
          · exact ⟨_, c, k', read_short f answers hbuf hpeek hr, rfl,
              hbuf ▸ .idle (stop_command? r)⟩

/-! ### Writing -/

/-- Nothing is sent when the descriptor is not open. -/
lemma sendAll_errors {com : Command} (h : Queued com) (accepted : List U8) (as : List Answer) :
    ∃ p rest, sendAll sink com accepted (as.map fun _ => .error)
        = some (p, com, accepted, rest) ∧ (p = .done → rest = as.map fun _ => .error) := by
  cases as with
  | nil =>
      rw [sendAll.eq_def]
      split_ifs
      · exact ⟨_, _, rfl, fun _ => rfl⟩
      · exact ⟨_, _, rfl, fun h => by cases h⟩
  | cons a as =>
      rw [List.map_cons, sendAll.eq_def]
      split_ifs
      · exact ⟨_, _, rfl, fun _ => rfl⟩
      · have hsend := h.send_eq (K := sink) (k := accepted) (a := .error) rfl
        simp only [hsend, Option.bind_eq_bind, Option.bind_some]
        exact ⟨_, _, rfl, fun h => by cases h⟩

lemma flushQueue_errors {queue : List Command} (h : ∀ com ∈ queue, Queued com)
    (accepted : List U8) (as : List Answer) :
    ∃ p queue', flushQueue sink accepted (as.map fun _ => .error) queue
        = some (p, queue', accepted) ∧ ∀ com ∈ queue', Queued com := by
  induction queue with
  | nil => exact ⟨_, _, rfl, h⟩
  | cons com queue ih =>
      obtain ⟨hcom, hqueue⟩ := List.forall_mem_cons.mp h
      obtain ⟨p, rest, hrun, hdone⟩ := sendAll_errors hcom accepted as
      rw [flushQueue, hrun]
      simp only [Option.bind_eq_bind, Option.bind_some]
      cases p with
      | done =>
          rw [hdone rfl]
          exact ih hqueue
      | again => exact ⟨_, _, rfl, h⟩
      | thrown => exact ⟨_, _, rfl, h⟩

/-- What was written, what of it was sent, and what waits in the queue. On an open descriptor
they are the same bytes. -/
structure Sending (s : Session) : Prop where
  queued : ∀ com ∈ s.client.wqueue, Queued com
  whole : s.opened = true →
    s.sent ++ s.client.wqueue.flatMap unsent = s.written.flatMap frame
  first : s.sent <+: s.written.flatMap frame

/-- **A `flush`** sends from the queue, in order. -/
lemma Sending.flush {s : Session} (h : Sending s) (answers : List Answer) :
    ∃ p c sent, s.client.flush sink s.sent (s.sendAnswers answers) = some (p, c, sent) ∧
      c.rbuffer = s.client.rbuffer ∧ Sending { s with client := c, sent := sent } := by
  rw [Client.flush, sendAnswers]
  by_cases hopen : s.opened = true
  · obtain ⟨p, queue, sent, hrun, hqueue, hkeep⟩ := flushQueue_keeps h.queued s.sent answers
    have hwhole := hkeep.trans (h.whole hopen)
    rw [if_pos hopen, hrun]
    exact ⟨p, _, sent, rfl, rfl, hqueue, fun _ => hwhole, ⟨_, hwhole⟩⟩
  · obtain ⟨p, queue, hrun, hqueue⟩ := flushQueue_errors h.queued s.sent answers
    rw [if_neg hopen, hrun]
    exact ⟨p, _, s.sent, rfl, rfl, hqueue, fun ho => absurd ho hopen, h.first⟩

/-- The command is put into the queue, and counted as written. -/
lemma Sending.enqueue {s : Session} (h : Sending s) {com com' : Command} (hqueued : Queued com')
    (hunsent : com'.unsent = com.frame) :
    Sending { s with client := { s.client with wqueue := s.client.wqueue ++ [com'] },
                     written := s.written ++ [com] } := by
  have hwritten : (s.written ++ [com]).flatMap frame = s.written.flatMap frame ++ com.frame := by
    rw [List.flatMap_append, List.flatMap_singleton]
  refine ⟨List.forall_mem_append.mpr ⟨h.queued, List.forall_mem_singleton.mpr hqueued⟩,
    fun hopen => ?_, ?_⟩
  · calc s.sent ++ (s.client.wqueue ++ [com']).flatMap unsent
        = (s.sent ++ s.client.wqueue.flatMap unsent) ++ com'.unsent := by
          rw [List.flatMap_append, List.flatMap_singleton, List.append_assoc]
      _ = s.written.flatMap frame ++ com.frame := by rw [h.whole hopen, hunsent]
      _ = (s.written ++ [com]).flatMap frame := hwritten.symm
  · change s.sent <+: (s.written ++ [com]).flatMap frame
    rw [hwritten]
    exact h.first.trans (List.prefix_append _ _)

/-! ### Calls -/

/-- What holds between two calls. -/
structure Inv (s : Session) : Prop where
  reading : s.deleted = false → ∀ com, s.client.rbuffer = some com →
    ∃ held, Holds com held ∧ held <:+ s.received.taken ∧ com.head ∈ s.received.peeked
  sending : Sending s

lemma new_inv : Inv new := ⟨nofun, nofun, nofun, List.nil_prefix⟩

/-- What an `open` does wherever it fails: it forgets `rbuffer`, and keeps the write queue. -/
lemma openWith_fresh (s : Session) (o : Overload) (socket bind connect : Bool) :
    (s.openWith o socket bind connect).2.client.rbuffer = none ∧
      (s.openWith o socket bind connect).2.client.wqueue = s.client.wqueue ∧
      (s.openWith o socket bind connect).2.sent = [] ∧
      (s.openWith o socket bind connect).2.written = [] := by
  have hsocket : (Socket.open s._clear socket).client.rbuffer = none ∧
      (Socket.open s._clear socket).client.wqueue = s.client.wqueue := by
    rw [Socket.open]
    split_ifs <;> exact ⟨rfl, rfl⟩
  unfold openWith
  cases socket with
  | false => exact ⟨hsocket.1, hsocket.2, rfl, rfl⟩
  | true =>
      cases o with
      | plain => exact ⟨hsocket.1, hsocket.2, rfl, rfl⟩
      | toPeer => cases connect <;> exact ⟨hsocket.1, hsocket.2, rfl, rfl⟩
      | fromTo => cases bind <;> cases connect <;> exact ⟨hsocket.1, hsocket.2, rfl, rfl⟩

/-- An `open` that finds the write queue empty begins afresh. -/
lemma openWith_inv {s : Session} (h : s.client.wqueue = []) (o : Overload)
    (socket bind connect : Bool) : Inv (s.openWith o socket bind connect).2 := by
  obtain ⟨hbuf, hqueue, hsent, hwritten⟩ := openWith_fresh s o socket bind connect
  rw [h] at hqueue
  refine ⟨fun _ com hcom => ?_, ?_, fun _ => ?_, ?_⟩
  · rw [hbuf] at hcom
    exact absurd hcom nofun
  · rw [hqueue]
    exact nofun
  · rw [hsent, hqueue, hwritten]
    rfl
  · rw [hsent]
    exact List.nil_prefix

/-- What is read and kept keeps the invariant. -/
lemma read_inv {s : Session} (h : Inv s) (hdeleted : s.deleted = false) (f : Fresh)
    (answers : List (Recv × Address)) :
    ∃ r s', s.read f answers = some (r, s') ∧ Inv s' ∧
      ∀ com, r.command? = some com → FromConnection com s'.received := by
  obtain ⟨r, c, k, hread, hqueue, hreads⟩ :=
    read_wire f (s.recvAnswers answers) (h.reading hdeleted)
  have hrun : s.read f answers = some (r, { s with client := c, received := k }) := by
    rw [Session.read, hdeleted, hread]
    rfl
  have hsending : Sending { s with client := c, received := k } := by
    refine ⟨?_, fun hopen => ?_, h.sending.first⟩
    · change ∀ com ∈ c.wqueue, Queued com
      rw [hqueue]
      exact h.sending.queued
    · change s.sent ++ c.wqueue.flatMap unsent = _
      rw [hqueue]
      exact h.sending.whole hopen
  refine ⟨r, _, hrun, ⟨fun _ com hcom => ?_, hsending⟩, fun com hcom => ?_⟩
  · change c.rbuffer = some com at hcom
    rw [hcom] at hreads
    cases hreads with
    | waiting hr hholds htaken hhead => exact ⟨_, hholds, htaken, hhead⟩
  · generalize c.rbuffer = buf at hreads
    cases hreads with
    | command hfrom =>
        obtain rfl := Option.some.inj hcom
        exact hfrom
    | idle hr => exact absurd (hr.symm.trans hcom) nofun
    | waiting hr => exact absurd (hr.symm.trans hcom) nofun

lemma flush_inv {s : Session} (h : Inv s) (answers : List Answer) :
    ∃ p s', s.flush answers = some (p, s') ∧ Inv s' := by
  obtain ⟨p, c, sent, hrun, hbuf, hsending⟩ := h.sending.flush answers
  refine ⟨p, { s with client := c, sent := sent }, ?_, fun hdeleted com hcom => ?_, hsending⟩
  · rw [Session.flush, hrun]
    rfl
  · exact h.reading hdeleted com (hbuf ▸ hcom)

lemma write_inv {s : Session} (h : Inv s) (f : Fresh) {com : Command} (hback : com.Backed)
    (answers : List Answer) : ∃ p s', s.write f com answers = some (p, s') ∧ Inv s' := by
  obtain ⟨com', hhead, hqueued, hunsent⟩ := putHead_queued hback f
  have henqueue := h.sending.enqueue hqueued hunsent
  rw [Session.write, Client.write, hhead]
  simp only [Option.bind_eq_bind, Option.bind_some]
  split_ifs
  · obtain ⟨p, c, sent, hrun, hbuf, hsending⟩ := henqueue.flush answers
    change Client.flush sink { s.client with wqueue := s.client.wqueue ++ [com'] } s.sent
      (s.sendAnswers answers) = some (p, c, sent) at hrun
    rw [hrun]
    exact ⟨p, _, rfl, fun hdeleted com hcom => h.reading hdeleted com (hbuf ▸ hcom), hsending⟩
  · exact ⟨_, _, rfl, h.reading, henqueue⟩

lemma close_inv {s : Session} (h : Inv s) (hdeleted : s.deleted = false) :
    ∃ s', s.close = some s' ∧ Inv s' := by
  have hrun : s.close = some (Socket.close { s with
      deleted := s.client.rbuffer.isSome, client := { s.client with wqueue := [] } }) := by
    rw [Session.close, hdeleted]
    rfl
  refine ⟨_, hrun, fun hkept com hcom => ?_, ?_, ?_, h.sending.first⟩
  · change s.client.rbuffer.isSome = false at hkept
    change s.client.rbuffer = some com at hcom
    rw [hcom] at hkept
    exact absurd hkept nofun
  · intro com hcom
    exact absurd hcom List.not_mem_nil
  · intro hopen
    exact absurd hopen Bool.false_ne_true

lemma call_inv {s : Session} (h : Inv s) {i : Call} (hclean : Clean s i) :
    ∃ out s', s.call i = some (out, s') ∧ Inv s' ∧
      ∀ com, out = some com → FromConnection com s'.received := by
  cases i with
  | openWith o socket bind connect =>
      exact ⟨none, _, rfl, openWith_inv hclean o socket bind connect, nofun⟩
  | read f answers =>
      obtain ⟨r, s', hrun, hinv, hfrom⟩ := read_inv h hclean f answers
      exact ⟨r.command?, s', by rw [call, hrun]; rfl, hinv, hfrom⟩
  | write f com answers =>
      obtain ⟨p, s', hrun, hinv⟩ := write_inv h f com.property answers
      exact ⟨none, s', by rw [call, hrun]; rfl, hinv, nofun⟩
  | flush answers =>
      obtain ⟨p, s', hrun, hinv⟩ := flush_inv h answers
      exact ⟨none, s', by rw [call, hrun]; rfl, hinv, nofun⟩
  | close =>
      obtain ⟨s', hrun, hinv⟩ := close_inv h hclean
      exact ⟨none, s', by rw [call, hrun]; rfl, hinv, nofun⟩

lemma step_inv {s s' : Session} {i : Call} (h : Inv s) (hclean : Clean s i)
    (hstep : step s i = some s') : Inv s' := by
  obtain ⟨out, t, hcall, hinv, -⟩ := call_inv h hclean
  rw [step, hcall] at hstep
  exact Option.some.inj hstep ▸ hinv

/-- **Over every sequence of calls that are clean, the connections do not mix**: no call touches a
deleted command, what is sent on a connection begins the frames that were written since it was
opened, and a command that is read was received on it. -/
theorem clean_safe (calls : List Call) (h : Runs.Always step Clean new calls) :
    Runs.Always step Safe new calls := by
  refine Runs.Always.of_keeps (I := Inv) (fun s i s' hI hclean hstep => step_inv hI hclean hstep)
    (fun s i hI hclean => ?_) new_inv h
  obtain ⟨out, s', hcall, hinv, hfrom⟩ := call_inv hI hclean
  exact ⟨out, s', hcall, hinv.sending.first, hfrom⟩

/-- A client that sends a command, is closed, and is opened again. -/
theorem clean_safe_again :
    Runs.Always step Safe new
      [.openWith .toPeer true true true,
        .write ⟨1, one_ne_zero, fun _ => 0⟩ ⟨Command.new 1, rfl⟩ [.bytes 3], .close,
        .openWith .toPeer true true true] := by
  refine clean_safe _ ⟨rfl, fun s₁ h₁ => ⟨trivial, fun s₂ h₂ => ?_⟩⟩
  obtain rfl := Option.some.inj h₁
  obtain rfl := Option.some.inj h₂
  refine ⟨rfl, fun s₃ h₃ => ?_⟩
  obtain rfl := Option.some.inj h₃
  exact ⟨rfl, fun _ _ => trivial⟩

/-- A client that is opened again while a command waits in its queue sends that command on the
new connection. -/
theorem not_safe_reopened : ¬∀ calls : List Call, Runs.Always step Safe new calls := by
  intro h
  let f : Fresh := ⟨1, one_ne_zero, fun _ => 0⟩
  have hrun := h
    [.openWith .toPeer true true true, .write f ⟨Command.new 1, rfl⟩ [.again],
      .openWith .toPeer true true true, .flush [.bytes 3]]
  obtain ⟨out, s', hcall, hsent, -⟩ := ((((hrun.2 _ rfl).2 _ rfl).2 _ rfl).1)
  obtain ⟨-, rfl⟩ := Prod.mk.inj (Option.some.inj hcall)
  exact absurd hsent (by decide)

/-- A client that is closed within a command, and is closed or read again, touches the command that
was deleted. -/
theorem closed_within_command {s : Session} (h : s.deleted = true) (f : Fresh)
    (answers : List (Recv × Address)) :
    step s (.read f answers) = none ∧ step s .close = none := by
  constructor
  · rw [step, call, Session.read, h]
    rfl
  · rw [step, call, Session.close, h]
    rfl

end Session

end Napd
