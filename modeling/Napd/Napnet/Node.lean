import Napd.Client.Datagram
import Napd.Client.Link
import Napd.Command.Flushes
import Napd.Napnet.Model

/-!
What one node says and hears, over every run of its main loop.

* `Waits`: a command in the queue of `napdirect`, of which nothing was sent. `flushQueue_packets`:
  a flush sends commands from the front, each as one datagram.
* `sayTo_spec`, `read_spec`: what a `SAY_TO` and a `read` do to a node.
* `Node.answers`, `Node.farewell`, `Node.heard`: what a node is to say and to log, given what it
  received; `Inv`: that this is what it said and logged; `step_keeps`.
* `Follows`, `Sends`: what an event leaves as it is. Nothing is sent while the queue is not empty.
-/

namespace Napd

namespace Napnet

open Client Command
open scoped List

/-- The frame of a command without arguments. -/
def bare (code : U16) : List U8 := hton16 0 ++ hton16 code

/-- The code in a datagram. -/
def codeOf (bytes : List U8) : U16 :=
  match bytes with
  | _ :: _ :: c₁ :: c₀ :: _ => ntoh16 c₁ c₀
  | _ => 0

lemma codeOf_frame (com : Command) : codeOf com.frame = com.code := ntoh16_hton16 com.code

lemma codeOf_bare (code : U16) : codeOf (bare code) = code := ntoh16_hton16 code

lemma whole_bare (code : U16) : framing.Whole (bare code) := ⟨le_rfl, rfl⟩

/-! ### Sending -/

/-- The datagram that a command is sent as. -/
def packet (com : Command) : Packet := ⟨com.peer, com.unsent⟩

/-- A command that waits in the queue, and of which nothing was sent. -/
structure Waits (com : Command) : Prop where
  queued : Queued com
  offset : com.offset = -4

lemma Waits.length (h : Waits com) : com.unsent.length = 4 + com.size.toNat := by
  have hlen := h.queued.unsent_length
  rw [h.offset] at hlen
  omega

lemma Waits.not_full (h : Waits com) : com.full ≠ true := by
  intro hfull
  have hlen := h.length
  rw [h.queued.unsent_of_full hfull, List.length_nil] at hlen
  omega

/-- One `sendto`: the command is sent whole, or nothing is sent. -/
lemma send_packet {com : Command} (h : Waits com) (sent : List Packet) (a : Sendto) :
    ∃ r sent', com.send outgoing sent a = some (r, com.sentBy r, sent') ∧
      (r = .taken (com.size.toNat + 3 + 1) ∧ sent' = sent ++ [packet com] ∨
        (r = .again ∨ r = .error) ∧ sent' = sent) := by
  cases a with
  | again => exact ⟨_, _, h.queued.send_eq rfl, .inr ⟨.inl rfl, rfl⟩⟩
  | error => exact ⟨_, _, h.queued.send_eq rfl, .inr ⟨.inr rfl, rfl⟩⟩
  | taken =>
      by_cases hpeer : com.peer = {}
      · refine ⟨_, sent, h.queued.send_eq ?_, .inr ⟨.inr rfl, rfl⟩⟩
        rw [if_pos hpeer]
        rfl
      · refine ⟨_, sent ++ [packet com], h.queued.send_eq ?_, .inl ⟨rfl, rfl⟩⟩
        have hlen : com.size.toNat + 3 + 1 = com.unsent.length := by
          rw [h.length]
          omega
        rw [if_neg hpeer, hlen]
        rfl

/-- A command is sent as one datagram, or stays as it is. -/
lemma sendAll_packet {com : Command} (h : Waits com) (sent : List Packet)
    (answers : List Sendto) :
    ∃ p com' sent' rest, sendAll outgoing com sent answers = some (p, com', sent', rest) ∧
      (p = .done ∧ sent' = sent ++ [packet com] ∨ p ≠ .done ∧ com' = com ∧ sent' = sent) := by
  rw [sendAll.eq_def, if_neg h.not_full]
  cases answers with
  | nil => exact ⟨_, com, sent, _, rfl, .inr ⟨Progress.noConfusion, rfl, rfl⟩⟩
  | cons a answers =>
      obtain ⟨r, sent', hsend, ⟨rfl, hsent⟩ | ⟨rfl | rfl, hsent⟩⟩ := send_packet h sent a
      · have hfull : (com.sentBy (.taken (com.size.toNat + 3 + 1))).full = true := by
          show decide ((com.size.toNat : ℤ) = com.offset + (com.size.toNat + 3 + 1 : ℕ)) = true
          rw [h.offset, decide_eq_true_iff]
          omega
        simp only [hsend, Option.bind_eq_bind, Option.bind_some]
        rw [sendAll.eq_def, if_pos hfull]
        exact ⟨_, _, sent', _, rfl, .inl ⟨rfl, hsent⟩⟩
      · simp only [hsend, Option.bind_eq_bind, Option.bind_some]
        exact ⟨_, _, sent', _, rfl, .inr ⟨Progress.noConfusion, rfl, hsent⟩⟩
      · simp only [hsend, Option.bind_eq_bind, Option.bind_some]
        exact ⟨_, _, sent', _, rfl, .inr ⟨Progress.noConfusion, rfl, hsent⟩⟩

/-- **A flush** sends commands from the front of the queue, and changes no other. -/
lemma flushQueue_packets {queue : List Command} (h : ∀ com ∈ queue, Waits com)
    (sent : List Packet) (answers : List Sendto) :
    ∃ p queue' sent', flushQueue outgoing sent answers queue = some (p, queue', sent') ∧
      (∀ com ∈ queue', Waits com) ∧ sent' ++ queue'.map packet = sent ++ queue.map packet ∧
      sent <+: sent' := by
  induction queue generalizing sent answers with
  | nil => exact ⟨.done, [], sent, rfl, h, rfl, List.prefix_rfl⟩
  | cons com queue ih =>
      obtain ⟨hcom, hqueue⟩ := List.forall_mem_cons.mp h
      obtain ⟨p, com', sent₁, rest, hrun, ⟨rfl, rfl⟩ | ⟨hp, rfl, rfl⟩⟩ :=
        sendAll_packet hcom sent answers
      · obtain ⟨p, queue', sent', hrun', hqueue', hkeep, hpre⟩ :=
          ih hqueue (sent ++ [packet com]) rest
        refine ⟨p, queue', sent', ?_, hqueue', ?_, (List.prefix_append _ _).trans hpre⟩
        · rw [flushQueue, hrun]
          exact hrun'
        · rw [hkeep, List.append_assoc]
          rfl
      · refine ⟨p, com' :: queue, sent₁, ?_, h, rfl, List.prefix_rfl⟩
        rw [flushQueue, hrun]
        cases p with
        | done => exact absurd rfl hp
        | again => rfl
        | thrown => rfl

/-- The command that `SAY_TO` writes. -/
lemma putHead_bare (f : Fresh) (dest : Address) (code : U16) :
    ∃ com com', pack f (Command.new code) [] = some com ∧
      { com with peer := dest }.putHead f = some com' ∧ Waits com' ∧
      packet com' = ⟨dest, bare code⟩ := by
  refine ⟨_, _, pack_new_nil f code, rfl, ⟨⟨⟨_, rfl, ?_⟩, ⟨0, rfl, Nat.zero_le _⟩⟩, rfl⟩, rfl⟩
  exact Nat.le_of_ble_eq_true rfl

/-! ### What is said -/

/-- What was sent, and what is still queued behind it. -/
def Node.spoken (n : Node) : List Packet := n.sent ++ n.napdirect.wqueue.map packet

/-- Every command in the queue waits, and `napnet` has none. -/
structure Speaks (n : Node) : Prop where
  waits : ∀ com ∈ n.napdirect.wqueue, Waits com
  unused : n.napnet.wqueue = []

/-- A node after something was said by it: what was sent, and the queue. -/
def Node.after (n : Node) (queue : List Command) (sent : List Packet) : Node :=
  { n with napdirect := { n.napdirect with wqueue := queue }, sent := sent }

/-- What a node does to its queue and to what it sent: nothing is taken back, and nothing is sent
while the queue is not empty. -/
structure Sends (n n' : Node) : Prop where
  sent : n.sent <+: n'.sent
  blocked : n.napdirect.wqueue ≠ [] → n'.napdirect.wqueue ≠ [] ∧ n'.sent = n.sent

lemma Sends.refl (n : Node) : Sends n n := ⟨List.prefix_rfl, fun h => ⟨h, rfl⟩⟩

lemma Sends.trans {n₁ n₂ n₃ : Node} (h : Sends n₁ n₂) (h' : Sends n₂ n₃) : Sends n₁ n₃ := by
  refine ⟨h.sent.trans h'.sent, fun hne => ?_⟩
  obtain ⟨hne₂, hsent₂⟩ := h.blocked hne
  obtain ⟨hne₃, hsent₃⟩ := h'.blocked hne₂
  exact ⟨hne₃, hsent₃.trans hsent₂⟩

/-- **`SAY_TO`**: one datagram more is sent or queued. -/
lemma sayTo_spec {n : Node} (h : Speaks n) (f : Fresh) (dest : Address) (code : U16)
    (answers : List Sendto) :
    ∃ p queue sent, sayTo n f dest code answers = some (p, n.after queue sent) ∧
      Speaks (n.after queue sent) ∧ Sends n (n.after queue sent) ∧
      (n.after queue sent).spoken = n.spoken ++ [⟨dest, bare code⟩] := by
  obtain ⟨com, com', hpack, hhead, hwaits, hpacket⟩ := putHead_bare f dest code
  have hqueue : ∀ x ∈ n.napdirect.wqueue ++ [com'], Waits x := by
    rw [List.forall_mem_append, List.forall_mem_singleton]
    exact ⟨h.waits, hwaits⟩
  have hspoken : n.sent ++ (n.napdirect.wqueue ++ [com']).map packet
      = n.spoken ++ [⟨dest, bare code⟩] := by
    rw [List.map_append, List.map_singleton, hpacket, ← List.append_assoc]
    rfl
  rw [sayTo, hpack, Option.bind_some, write, hhead]
  simp only [Option.bind_eq_bind, Option.bind_some]
  by_cases hempty : n.napdirect.wqueue = []
  · obtain ⟨p, queue, sent, hrun, hwaits', hkeep, hpre⟩ :=
      flushQueue_packets hqueue n.sent answers
    refine ⟨p, queue, sent, ?_, ⟨hwaits', h.unused⟩, ⟨hpre, fun hne => absurd hempty hne⟩,
      hkeep.trans hspoken⟩
    rw [if_pos (List.isEmpty_iff.mpr hempty), Client.flush]
    simp only [hrun, Option.bind_eq_bind, Option.bind_some]
    rfl
  · refine ⟨.done, n.napdirect.wqueue ++ [com'], n.sent, ?_, ⟨hqueue, h.unused⟩,
      ⟨List.prefix_rfl, fun _ => ⟨?_, rfl⟩⟩, hspoken⟩
    · rw [if_neg fun hnil => hempty (List.isEmpty_iff.mp hnil)]
      rfl
    · exact List.append_ne_nil_of_right_ne_nil _ (List.cons_ne_nil _ _)

/-! ### What is heard -/

/-- A client on an unconnected socket that only whole frames reach. -/
structure Listens (c : Client) (k : Datagrams) : Prop where
  unconnected : c.connected = false
  awaits : Awaits k.pending c.rbuffer
  wellFormed : ∀ d ∈ k.pending, d.WellFormed

/-- One more datagram arrives. -/
lemma Listens.arrives {c : Client} {k : Datagrams} (h : Listens c k) {d : Datagram}
    (hd : d.WellFormed) : Listens c { k with pending := k.pending ++ [d] } := by
  refine ⟨h.unconnected, ?_, ?_⟩
  · generalize hbuf : c.rbuffer = buf
    have hawaits := h.awaits
    rw [hbuf] at hawaits
    cases hawaits with
    | idle => exact .idle
    | peeked hp hholds hhead => exact .peeked (congrArg (· ++ [d]) hp) hholds hhead
  · rw [List.forall_mem_append, List.forall_mem_singleton]
    exact ⟨h.wellFormed, hd⟩

/-- **A `read`** returns nothing and leaves the socket alone, or it returns the front datagram. -/
lemma read_spec {c : Client} {k : Datagrams} (h : Listens c k) (f : Fresh)
    (answers : List (Option Address)) :
    ∃ r c' k', c.read datagrams f k answers = some (r, c', k') ∧ Listens c' k' ∧
      c'.wqueue = c.wqueue ∧ k'.consumed ++ k'.pending = k.consumed ++ k.pending ∧
      (r = .null ∧ k' = k ∨
        ∃ com, r = .command com ∧ k'.consumed = k.consumed ++ [com.datagram]) := by
  rcases read_wellFormed h.unconnected h.awaits h.wellFormed f answers with
    ⟨c', hread, hc', hawaits⟩ | ⟨d, ds, hp, com, c', hread, hc', hbuf, rfl⟩
  · exact ⟨_, c', k, hread, ⟨hc', hawaits, h.wellFormed⟩, (read_frame hread).1, rfl,
      .inl ⟨rfl, rfl⟩⟩
  · refine ⟨_, c', _, hread, ⟨hc', hbuf ▸ .idle, ?_⟩, (read_frame hread).1, ?_,
      .inr ⟨com, rfl, rfl⟩⟩
    · intro d hd
      exact h.wellFormed d (hp ▸ List.mem_cons_of_mem _ hd)
    · rw [hp, List.append_assoc]
      rfl

/-! ### A node -/

/-- The hello back to the sender of a datagram from the group. -/
def reply (addr : Address) (d : Datagram) : Option Packet :=
  if codeOf d.bytes = NAPNET_HELLO ∧ d.sender ≠ addr then some ⟨d.sender, bare NAPNET_HELLO⟩
  else none

/-- The line that is logged for a datagram from the group. -/
def line (d : Datagram) : Option Line :=
  if codeOf d.bytes = NAPNET_HELLO then some (.hello d.sender)
  else if codeOf d.bytes = NAPNET_GOODBYE then some (.goodbye d.sender)
  else none

/-- What a node is to say in its loop. -/
def Node.answers (n : Node) : List Packet :=
  ⟨n.group, bare NAPNET_HELLO⟩ :: n.net.consumed.filterMap (reply n.addr)

/-- What a node is to say at its end. -/
def Node.farewell (n : Node) : List Packet :=
  if n.phase = .exited then [⟨n.group, bare NAPNET_GOODBYE⟩] else []

/-- What a node is to log. -/
def Node.heard (n : Node) : List Line :=
  n.net.consumed.filterMap line ++ n.direct.consumed.map fun d => .hello d.sender

/-- The state of a node between two events. -/
structure Inv (n : Node) : Prop where
  net : Listens n.napnet n.net
  direct : Listens n.napdirect n.direct
  speaks : Speaks n
  spoken : n.spoken = n.answers ++ n.farewell
  log : n.log ~ n.heard

/-- What an event leaves as it is: who the node is, and what arrived. -/
structure Follows (n n' : Node) : Prop where
  group : n'.group = n.group
  addr : n'.addr = n.addr
  net : n'.net.consumed ++ n'.net.pending = n.net.consumed ++ n.net.pending
  direct : n'.direct.consumed ++ n'.direct.pending = n.direct.consumed ++ n.direct.pending
  sends : Sends n n'

lemma Follows.refl (n : Node) : Follows n n := ⟨rfl, rfl, rfl, rfl, .refl n⟩

lemma Follows.trans {n₁ n₂ n₃ : Node} (h : Follows n₁ n₂) (h' : Follows n₂ n₃) :
    Follows n₁ n₃ :=
  ⟨h'.group.trans h.group, h'.addr.trans h.addr, h'.net.trans h.net, h'.direct.trans h.direct,
    h.sends.trans h'.sends⟩

/-- A line more is logged. -/
lemma Follows.logged (n : Node) (l : Line) : Follows n { n with log := n.log ++ [l] } :=
  ⟨rfl, rfl, rfl, rfl, ⟨List.prefix_rfl, fun h => ⟨h, rfl⟩⟩⟩

/-- Something is said. -/
lemma Follows.said {n : Node} {queue : List Command} {sent : List Packet}
    (h : Sends n (n.after queue sent)) : Follows n (n.after queue sent) := ⟨rfl, rfl, rfl, rfl, h⟩

/-- A call of `read` at `napnet`. -/
lemma Follows.read_net {n : Node} {c : Client} {k : Datagrams}
    (h : k.consumed ++ k.pending = n.net.consumed ++ n.net.pending) :
    Follows n { n with napnet := c, net := k } :=
  ⟨rfl, rfl, h, rfl, ⟨List.prefix_rfl, fun hne => ⟨hne, rfl⟩⟩⟩

/-- A call of `read` at `napdirect`, whose queue it leaves alone. -/
lemma Follows.read_direct {n : Node} {c : Client} {k : Datagrams}
    (hqueue : c.wqueue = n.napdirect.wqueue)
    (h : k.consumed ++ k.pending = n.direct.consumed ++ n.direct.pending) :
    Follows n { n with napdirect := c, direct := k } :=
  ⟨rfl, rfl, rfl, h, ⟨List.prefix_rfl, fun hne => ⟨hqueue.symm ▸ hne, rfl⟩⟩⟩

/-- A node that has received a datagram from the group, and has not dealt with it. -/
structure Owes (n : Node) (d : Datagram) : Prop where
  net : Listens n.napnet n.net
  direct : Listens n.napdirect n.direct
  speaks : Speaks n
  phase : n.phase = .running
  before : ∃ consumed, n.net.consumed = consumed ++ [d] ∧
    n.spoken = ⟨n.group, bare NAPNET_HELLO⟩ :: consumed.filterMap (reply n.addr) ∧
    n.log ~ consumed.filterMap line ++ n.direct.consumed.map fun d => .hello d.sender

/-- The datagram is dealt with when it is answered and logged. -/
lemma Owes.settled {n n' : Node} {d : Datagram} (h : Owes n d) (hfollows : Follows n n')
    (hnet : Listens n'.napnet n.net ∧ n'.net = n.net)
    (hdirect : Listens n'.napdirect n.direct ∧ n'.direct = n.direct) (hspeaks : Speaks n')
    (hphase : n'.phase = n.phase)
    (hspoken : n'.spoken = n.spoken ++ [d].filterMap (reply n.addr))
    (hlog : n'.log = n.log ++ [d].filterMap line) : Inv n' := by
  obtain ⟨consumed, hconsumed, hspoken₀, hlog₀⟩ := h.before
  have hfarewell : n'.farewell = [] := by
    rw [Node.farewell, hphase, h.phase]
    rfl
  refine ⟨hnet.2.symm ▸ hnet.1, hdirect.2.symm ▸ hdirect.1, hspeaks, ?_, ?_⟩
  · rw [hspoken, hspoken₀, hfarewell, List.append_nil, Node.answers, hnet.2, hconsumed,
      hfollows.addr, hfollows.group, List.filterMap_append]
    rfl
  · rw [hlog, Node.heard, hnet.2, hdirect.2, hconsumed, List.filterMap_append]
    calc n.log ++ [d].filterMap line
        ~ (consumed.filterMap line ++ n.direct.consumed.map fun d => .hello d.sender)
            ++ [d].filterMap line := hlog₀.append_right _
      _ = consumed.filterMap line ++ ((n.direct.consumed.map fun d => .hello d.sender)
            ++ [d].filterMap line) := List.append_assoc _ _ _
      _ ~ consumed.filterMap line ++ ([d].filterMap line
            ++ n.direct.consumed.map fun d => .hello d.sender) :=
          List.perm_append_comm.append_left _
      _ = (consumed.filterMap line ++ [d].filterMap line)
            ++ n.direct.consumed.map fun d => .hello d.sender := (List.append_assoc _ _ _).symm

/-- **The `switch`**: the node answers and logs the datagram. -/
lemma dispatch_keeps {n : Node} {com : Command} (h : Owes n com.datagram) (t : Turn) :
    ∃ b n', dispatch n t com = some (b, n') ∧ Inv n' ∧ Follows n n' ∧ n'.phase = .running := by
  have hcode : codeOf com.datagram.bytes = com.code := codeOf_frame com
  have hlogged : ∀ l, Speaks { n with log := n.log ++ [l] } :=
    fun _ => ⟨h.speaks.waits, h.speaks.unused⟩
  rw [dispatch]
  by_cases hhello : com.code = NAPNET_HELLO
  · have hline : [com.datagram].filterMap line = [.hello com.peer] := by
      rw [List.filterMap_cons_some (b := .hello com.peer) (by rw [line, hcode, if_pos hhello]; rfl)]
      rfl
    rw [if_pos hhello]
    by_cases hpeer : com.peer = n.addr
    · -- its own hello, which comes back from the group
      have hreply : reply n.addr com.datagram = none := if_neg fun hother => hother.2 hpeer
      refine ⟨false, { n with log := n.log ++ [.hello com.peer] }, if_neg (not_not_intro hpeer),
        ?_, .logged n _, h.phase⟩
      refine h.settled (.logged n _) ⟨h.net, rfl⟩ ⟨h.direct, rfl⟩ (hlogged _) rfl ?_ (by rw [hline])
      rw [List.filterMap_cons_none hreply, List.filterMap_nil, List.append_nil]
      rfl
    · have hreply : reply n.addr com.datagram = some ⟨com.peer, bare NAPNET_HELLO⟩ :=
        if_pos ⟨hcode.trans hhello, hpeer⟩
      obtain ⟨p, queue, sent, hsay, hspeaks, hsends, hafter⟩ :=
        sayTo_spec (hlogged (.hello com.peer)) t.replyFresh com.peer NAPNET_HELLO t.replySend
      have hfollows := (Follows.logged n (.hello com.peer)).trans (.said hsends)
      refine ⟨decide (p = .thrown), _, ?_, ?_, hfollows, h.phase⟩
      · rw [if_pos hpeer, hsay]
        rfl
      · refine h.settled hfollows ⟨h.net, rfl⟩
          ⟨⟨h.direct.unconnected, h.direct.awaits, h.direct.wellFormed⟩, rfl⟩ hspeaks rfl ?_
          (by rw [hline]; rfl)
        rw [List.filterMap_cons_some hreply]
        exact hafter
  · have hreply : reply n.addr com.datagram = none :=
      if_neg fun hother => hhello (hcode.symm.trans hother.1)
    have hsaid : n.spoken = n.spoken ++ [com.datagram].filterMap (reply n.addr) := by
      rw [List.filterMap_cons_none hreply, List.filterMap_nil, List.append_nil]
    rw [if_neg hhello]
    by_cases hbye : com.code = NAPNET_GOODBYE
    · refine ⟨false, _, if_pos hbye, ?_, .logged n _, h.phase⟩
      refine h.settled (.logged n _) ⟨h.net, rfl⟩ ⟨h.direct, rfl⟩ (hlogged _) rfl hsaid ?_
      have hline : line com.datagram = some (.goodbye com.peer) := by
        rw [line, hcode, if_neg hhello, if_pos hbye]
        rfl
      rw [List.filterMap_cons_some hline]
      rfl
    · refine ⟨false, n, if_neg hbye, ?_, .refl n, h.phase⟩
      refine h.settled (.refl n) ⟨h.net, rfl⟩ ⟨h.direct, rfl⟩ h.speaks rfl hsaid ?_
      have hline : line com.datagram = none := by
        rw [line, hcode, if_neg hhello, if_neg hbye]
      rw [List.filterMap_cons_none hline, List.filterMap_nil, List.append_nil]

/-- A node in its loop has said what it is to say there. -/
lemma Inv.running {n : Node} (h : Inv n) (hphase : n.phase = .running) : n.spoken = n.answers := by
  rw [h.spoken, Node.farewell, hphase]
  exact List.append_nil _

lemma hearNet_keeps {n : Node} (h : Inv n) (hphase : n.phase = .running) (t : Turn) :
    ∃ b n', hearNet n t = some (b, n') ∧ Inv n' ∧ Follows n n' ∧ n'.phase = .running := by
  rw [hearNet]
  split_ifs with hready
  · obtain ⟨r, c, k, hread, hlistens, hqueue, htotal, hcases⟩ :=
      read_spec h.net t.netFresh t.netRecv
    have hfollows : Follows n { n with napnet := c, net := k } := .read_net htotal
    have hspeaks : Speaks { n with napnet := c, net := k } :=
      ⟨h.speaks.waits, hqueue.trans h.speaks.unused⟩
    rw [hread, Option.bind_some]
    rcases hcases with ⟨rfl, rfl⟩ | ⟨com, rfl, hconsumed⟩
    · exact ⟨false, _, rfl, ⟨hlistens, h.direct, hspeaks, h.spoken, h.log⟩, hfollows, hphase⟩
    · have howes : Owes { n with napnet := c, net := k } com.datagram :=
        ⟨hlistens, h.direct, hspeaks, hphase, n.net.consumed, hconsumed, h.running hphase, h.log⟩
      obtain ⟨b, n', hrun, hinv, hfollows', hphase'⟩ := dispatch_keeps howes t
      exact ⟨b, n', hrun, hinv, hfollows.trans hfollows', hphase'⟩
  · exact ⟨false, n, rfl, h, .refl n, hphase⟩

lemma hearDirect_keeps {n : Node} (h : Inv n) (hphase : n.phase = .running) (t : Turn) :
    ∃ b n', hearDirect n t = some (b, n') ∧ Inv n' ∧ Follows n n' ∧ n'.phase = .running := by
  rw [hearDirect]
  split_ifs with hready
  · obtain ⟨r, c, k, hread, hlistens, hqueue, htotal, hcases⟩ :=
      read_spec h.direct t.directFresh t.directRecv
    have hfollows : Follows n { n with napdirect := c, direct := k } := .read_direct hqueue htotal
    have hspeaks : Speaks { n with napdirect := c, direct := k } :=
      ⟨fun x hx => h.speaks.waits x (hqueue ▸ hx), h.speaks.unused⟩
    have hspoken : n.sent ++ c.wqueue.map packet = n.answers ++ n.farewell := by
      rw [hqueue]
      exact h.spoken
    rw [hread, Option.map_some]
    rcases hcases with ⟨rfl, rfl⟩ | ⟨com, rfl, hconsumed⟩
    · exact ⟨false, _, rfl, ⟨h.net, hlistens, hspeaks, hspoken, h.log⟩, hfollows, hphase⟩
    · refine ⟨false, _, rfl, ⟨h.net, hlistens, ⟨hspeaks.waits, hspeaks.unused⟩, hspoken, ?_⟩,
        hfollows.trans (.logged _ _), hphase⟩
      show n.log ++ [.hello com.peer] ~ n.net.consumed.filterMap line
        ++ k.consumed.map fun d => .hello d.sender
      rw [hconsumed, List.map_append, ← List.append_assoc]
      exact h.log.append_right _
  · exact ⟨false, n, rfl, h, .refl n, hphase⟩

/-- The end of the program: the goodbye. -/
lemma leave_keeps {n : Node} (h : Inv n) (hphase : n.phase = .running) (f : Fresh)
    (answers flushed : List Sendto) :
    ∃ n', leave n f answers flushed = some n' ∧ Inv n' ∧ Follows n n' := by
  obtain ⟨p, queue, sent, hsay, hspeaks, hsends, hafter⟩ :=
    sayTo_spec h.speaks f n.group NAPNET_GOODBYE answers
  have hinv : Inv { n.after queue sent with phase := .exited } := by
    refine ⟨h.net, ⟨h.direct.unconnected, h.direct.awaits, h.direct.wellFormed⟩,
      ⟨hspeaks.waits, hspeaks.unused⟩, ?_, h.log⟩
    exact hafter.trans (congrArg (· ++ [⟨n.group, bare NAPNET_GOODBYE⟩]) (h.running hphase))
  have hfollows : Follows n { n.after queue sent with phase := .exited } :=
    ⟨rfl, rfl, rfl, rfl, ⟨hsends.sent, hsends.blocked⟩⟩
  rw [leave, hsay, Option.bind_some]
  by_cases hp : p = .thrown
  · exact ⟨_, if_pos hp, hinv, hfollows⟩
  · refine ⟨_, ?_, hinv, hfollows⟩
    rw [if_neg hp]
    -- there is nothing in the queue of `napnet`
    have hflush : n.napnet.flush outgoing sent flushed = some (.done, n.napnet, sent) := by
      have hunused := h.speaks.unused
      generalize n.napnet = c at hunused
      obtain ⟨connected, rbuffer, wqueue⟩ := c
      obtain rfl : wqueue = [] := hunused
      rfl
    show Option.map _ (n.napnet.flush outgoing sent flushed) = _
    rw [hflush]
    rfl

/-- **One event** never faults, and keeps the state of a node. -/
lemma step_keeps {n : Node} (h : Inv n) (e : Event) :
    ∃ n', step n e = some n' ∧ Inv n' ∧ Follows n n' := by
  by_cases hphase : n.phase = .running
  · rw [step.eq_def, if_pos hphase]
    cases e with
    | shutdown f answers flushed => exact leave_keeps h hphase f answers flushed
    | turn t f answers flushed =>
        obtain ⟨b, n₁, hnet, h₁, hfollows₁, hphase₁⟩ := hearNet_keeps h hphase t
        have hturn : ∃ b n', turn n t = some (b, n') ∧ Inv n' ∧ Follows n n' ∧
            n'.phase = .running := by
          cases b with
          | true => exact ⟨true, n₁, by rw [turn, hnet]; rfl, h₁, hfollows₁, hphase₁⟩
          | false =>
              obtain ⟨b, n₂, hdirect, h₂, hfollows₂, hphase₂⟩ := hearDirect_keeps h₁ hphase₁ t
              exact ⟨b, n₂, by rw [turn, hnet]; exact hdirect, h₂, hfollows₁.trans hfollows₂,
                hphase₂⟩
        obtain ⟨b, n₂, hrun, h₂, hfollows₂, hphase₂⟩ := hturn
        show ∃ n', ((turn n t).bind fun r => _) = some n' ∧ _
        rw [hrun, Option.bind_some]
        cases b with
        | true =>
            obtain ⟨n', hleave, h', hfollows'⟩ := leave_keeps h₂ hphase₂ f answers flushed
            exact ⟨n', hleave, h', hfollows₂.trans hfollows'⟩
        | false => exact ⟨n₂, rfl, h₂, hfollows₂⟩
  · exact ⟨n, if_neg hphase, h, .refl n⟩

/-- **The start** of the program. -/
lemma start_inv (group addr : Address) (f : Fresh) (answers : List Sendto) :
    ∃ n, start group addr f answers = some n ∧ Inv n ∧ n.group = group ∧ n.addr = addr ∧
      n.net = ⟨[], []⟩ ∧ n.direct = ⟨[], []⟩ := by
  obtain ⟨p, queue, sent, hsay, hspeaks, -, hafter⟩ :=
    sayTo_spec (n := opened group addr) ⟨nofun, rfl⟩ f group NAPNET_HELLO answers
  have hlistens : ∀ queue, Listens ⟨false, none, queue⟩ ⟨[], []⟩ := fun _ => ⟨rfl, .idle, nofun⟩
  rw [start, hsay, Option.map_some]
  refine ⟨_, rfl, ?_⟩
  by_cases hp : p = .thrown
  · rw [if_pos hp]
    exact ⟨⟨hlistens _, hlistens _, ⟨hspeaks.waits, rfl⟩, hafter, .refl _⟩, rfl, rfl, rfl, rfl⟩
  · rw [if_neg hp]
    exact ⟨⟨hlistens _, hlistens _, hspeaks, hafter, .refl _⟩, rfl, rfl, rfl, rfl⟩

end Napnet

end Napd
