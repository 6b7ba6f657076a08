import Napd.Client.Buffer

/-!
Writing commands to a connected stream.

* `Queued`: a command in the queue, with its header in front of its payload and its offset in
  between. `Queued.send_keeps`: a `send` moves bytes from the unsent rest to what was accepted.
* `sendAll_keeps`, `flushQueue_keeps`: the loops of `flush` keep what was accepted and what
  is unsent, together.
* `writes_stream`: they are the frames of the commands written, over every interleaving of
  `write` and `flush`.
-/

namespace Napd

namespace Command

open Memory

/-- A command that waits in the queue: header and payload are in the block, and the offset is in
range. -/
structure Queued (com : Command) : Prop where
  block : ∃ b, com.data = some b ∧ 4 + com.size.toNat ≤ b.bytes.length
  offset : ∃ n : ℕ, com.offset = n - 4 ∧ n ≤ 4 + com.size.toNat

/-- What is unsent at an offset. -/
lemma unsent_eq {com : Command} {b : Block} {n : ℕ} (hdata : com.data = some b)
    (hoffset : com.offset = n - 4) (hle : n ≤ 4 + com.size.toNat) :
    com.remaining = 4 + com.size.toNat - n ∧ (com.offset + 4).toNat? = some n ∧
      com.unsent = (b.bytes.drop n).take (4 + com.size.toNat - n) := by
  have hsize : com.size.toNat < 2 ^ 16 := com.size.toNat_lt
  have hrem : com.remaining = 4 + com.size.toNat - n := by
    rw [remaining, hoffset]
    omega
  have hpos : com.offset + 4 = n := by
    rw [hoffset]
    omega
  refine ⟨hrem, ?_, ?_⟩
  · rw [hpos]
    rfl
  · rw [unsent, hdata]
    show (b.bytes.drop (com.offset + 4).toNat).take com.remaining = _
    rw [hpos, hrem, Int.toNat_natCast]

/-- The command after a `send`. -/
def sentBy (com : Command) : Send → Command
  | .taken n => { com with offset := com.offset + n }
  | _ => com

namespace Queued

variable {com : Command}

/-- Nothing is unsent of a command that is full. -/
lemma unsent_of_full (h : Queued com) (hfull : com.full = true) : com.unsent = [] := by
  obtain ⟨b, hdata, -⟩ := h.block
  obtain ⟨n, hoffset, hle⟩ := h.offset
  rw [full, decide_eq_true_iff, hoffset] at hfull
  have hn : 4 + com.size.toNat - n = 0 := by omega
  rw [(unsent_eq hdata hoffset hle).2.2, hn, List.take_zero]

/-- Something is unsent of a command that is not full. -/
lemma unsent_length (h : Queued com) : (com.unsent.length : ℤ) = com.size.toNat - com.offset := by
  obtain ⟨b, hdata, hblock⟩ := h.block
  obtain ⟨n, hoffset, hle⟩ := h.offset
  rw [(unsent_eq hdata hoffset hle).2.2, List.length_take, List.length_drop, hoffset]
  omega

/-- The command after `m` more bytes were sent. -/
lemma advance (h : Queued com) {m : ℕ} (hm : m ≤ com.unsent.length) :
    Queued (com.sentBy (.taken m)) ∧ (com.sentBy (.taken m)).unsent = com.unsent.drop m := by
  have hlen := h.unsent_length
  obtain ⟨b, hdata, hblock⟩ := h.block
  obtain ⟨n, hoffset, hle⟩ := h.offset
  have hoffset' : com.offset + m = ((n + m : ℕ) : ℤ) - 4 := by
    rw [hoffset]
    omega
  have hle' : n + m ≤ 4 + com.size.toNat := by omega
  refine ⟨⟨⟨b, hdata, hblock⟩, ⟨n + m, hoffset', hle'⟩⟩, ?_⟩
  have hunsent := (@unsent_eq (com.sentBy (.taken m)) b (n + m) hdata hoffset' hle').2.2
  rw [hunsent, (unsent_eq hdata hoffset hle).2.2, List.drop_take, List.drop_drop, Nat.sub_sub]
  rfl

/-- The kernel is given what is unsent. -/
lemma send_eq {σ α : Type} {K : Sender σ α} {k k' : σ} {a : α} {r : Send} (h : Queued com)
    (hsend : K.send k a (if com.peer = {} then none else some com.peer) com.unsent = (r, k')) :
    com.send K k a = some (r, com.sentBy r, k') := by
  obtain ⟨b, hdata, hblock⟩ := h.block
  obtain ⟨n, hoffset, hle⟩ := h.offset
  obtain ⟨hrem, hpos, -⟩ := unsent_eq hdata hoffset hle
  have hfit : n + com.remaining ≤ b.bytes.length := by omega
  rw [Command.send]
  refine Option.bind_eq_some_iff.mpr ⟨b, hdata, Option.bind_eq_some_iff.mpr ⟨n, hpos, ?_⟩⟩
  rw [if_pos hfit, hsend]
  cases r <;> rfl

/-- **One `send`**: what is accepted and what is unsent stay the same bytes together. -/
lemma send_keeps (h : Queued com) (accepted : List U8) (a : Answer) :
    ∃ r accepted', com.send sink accepted a = some (r, com.sentBy r, accepted') ∧
      Queued (com.sentBy r) ∧ accepted' ++ (com.sentBy r).unsent = accepted ++ com.unsent := by
  cases a with
  | bytes m =>
      have hmin : min (m + 1) com.unsent.length ≤ com.unsent.length := Nat.min_le_right _ _
      refine ⟨_, _, h.send_eq rfl, (h.advance hmin).1, ?_⟩
      rw [(h.advance hmin).2, List.append_assoc, List.take_append_drop]
  | closed =>
      refine ⟨_, _, h.send_eq rfl, (h.advance (Nat.zero_le _)).1, ?_⟩
      rw [(h.advance (Nat.zero_le _)).2, List.drop_zero]
  | again => exact ⟨_, _, h.send_eq rfl, h, rfl⟩
  | error => exact ⟨_, _, h.send_eq rfl, h, rfl⟩

end Queued

/-- **The header** is written in front of the payload, and all of the frame is unsent. -/
lemma putHead_queued {com : Command} (hback : Backed com) (f : Fresh) :
    ∃ com', com.putHead f = some com' ∧ Queued com' ∧ com'.unsent = com.frame := by
  have hhead : ∀ bytes : List U8, 4 ≤ bytes.length →
      splice bytes 0 com.head = some (com.head ++ bytes.drop 4) :=
    fun bytes h => splice_append [] bytes com.head h
  have hunsent : ∀ (b : Block) (rest : List U8), b.bytes = com.head ++ rest →
      com.size.toNat ≤ rest.length → rest.take com.size.toNat = com.payload →
      Queued { com with data := some b, offset := -4 } ∧
        ({ com with data := some b, offset := -4 } : Command).unsent = com.frame := by
    intro b rest hbytes hlen hpay
    refine ⟨⟨⟨b, rfl, ?_⟩, ⟨0, rfl, Nat.zero_le _⟩⟩, ?_⟩
    · rw [hbytes, List.length_append, head_length]
      exact Nat.add_le_add_left hlen 4
    · have hall : ({ com with data := some b, offset := -4 } : Command).unsent
          = (b.bytes.drop 0).take (4 + com.size.toNat - 0) :=
        (unsent_eq rfl rfl (Nat.zero_le _)).2.2
      rw [hall, List.drop_zero, Nat.sub_zero, hbytes, frame, ← hpay]
      show (com.head ++ rest).take (com.head.length + com.size.toNat)
        = com.head ++ rest.take com.size.toNat
      exact List.take_length_add_append com.size.toNat
  rw [Backed] at hback
  cases hdata : com.data with
  | none =>
      rw [hdata] at hback
      have hlen : ((List.range 4).map f.contents).length = 4 := by simp
      have hdrop : ((List.range 4).map f.contents).drop 4 = [] := List.drop_of_length_le hlen.le
      refine ⟨{ com with data := some ⟨f.addr, f.addr_ne, com.head ++ []⟩, offset := -4 }, ?_,
        hunsent _ [] rfl ?_ ?_⟩
      · rw [Command.putHead, hdata]
        show (splice ((List.range 4).map f.contents) 0 com.head).bind _ = _
        rw [hhead _ hlen.ge, hdrop]
        rfl
      · show com.size.toNat ≤ 0
        rw [hback]
        rfl
      · rw [payload, hdata, List.take_nil]
  | some b =>
      rw [hdata] at hback
      have hblock : com.size.toNat + 5 ≤ b.bytes.length := hback
      refine ⟨{ com with
        data := some { b with bytes := com.head ++ b.bytes.drop 4 }, offset := -4 },
        ?_, hunsent _ (b.bytes.drop 4) rfl ?_ ?_⟩
      · rw [Command.putHead, hdata]
        show (splice b.bytes 0 com.head).bind _ = _
        rw [hhead _ (by omega)]
        rfl
      · rw [List.length_drop]
        omega
      · rw [payload, hdata]

/-- A command that may be written: its block holds its payload, and it has no peer. -/
structure Sendable where
  com : Command
  backed : Backed com
  peer : com.peer = {}

/-- A command that may be written is one whole frame. -/
lemma Sendable.whole (x : Sendable) : framing.Whole x.com.frame := by
  have hlen : x.com.frame.length = 4 + x.com.size.toNat := by
    rw [frame, List.length_append, payload_length x.backed]
    rfl
  have hhead : x.com.head <+: x.com.frame := List.prefix_append _ _
  refine ⟨?_, ?_⟩
  · rw [hlen]
    exact Nat.le_add_right _ _
  · rw [hlen, frameLength_of_head hhead]

end Command

namespace Client

open Command

/-! ### The loops of `flush` -/

/-- **The inner loop** keeps what was accepted and what is unsent; a command it is done with is
sent. -/
lemma sendAll_keeps {com : Command} (h : Queued com) (accepted : List U8) (answers : List Answer) :
    ∃ p com' accepted' rest, sendAll sink com accepted answers = some (p, com', accepted', rest) ∧
      Queued com' ∧ accepted' ++ com'.unsent = accepted ++ com.unsent ∧
      (p = .done → com'.unsent = []) := by
  induction answers generalizing com accepted with
  | nil =>
      rw [sendAll.eq_def]
      split_ifs with hfull
      · exact ⟨_, com, accepted, _, rfl, h, rfl, fun _ => h.unsent_of_full hfull⟩
      · exact ⟨_, com, accepted, _, rfl, h, rfl, nofun⟩
  | cons a answers ih =>
      rw [sendAll.eq_def]
      split_ifs with hfull
      · exact ⟨_, com, accepted, _, rfl, h, rfl, fun _ => h.unsent_of_full hfull⟩
      obtain ⟨r, accepted₁, hsend, h₁, hkeep⟩ := h.send_keeps accepted a
      simp only [hsend, Option.bind_eq_bind, Option.bind_some]
      cases r with
      | taken n =>
          cases n with
          | zero => exact ⟨_, _, accepted₁, _, rfl, h₁, hkeep, nofun⟩
          | succ n =>
              obtain ⟨p, com', accepted', rest, hrun, h', hkeep', hdone⟩ := ih h₁ accepted₁
              exact ⟨p, com', accepted', rest, hrun, h', hkeep'.trans hkeep, hdone⟩
      | again => exact ⟨_, _, accepted₁, _, rfl, h₁, hkeep, nofun⟩
      | error => exact ⟨_, _, accepted₁, _, rfl, h₁, hkeep, nofun⟩

/-- **The outer loop** keeps what was accepted and what is unsent of the queue, in order. -/
lemma flushQueue_keeps {queue : List Command} (h : ∀ com ∈ queue, Queued com) (accepted : List U8)
    (answers : List Answer) :
    ∃ p queue' accepted', flushQueue sink accepted answers queue = some (p, queue', accepted') ∧
      (∀ com ∈ queue', Queued com) ∧
      accepted' ++ queue'.flatMap unsent = accepted ++ queue.flatMap unsent := by
  induction queue generalizing accepted answers with
  | nil => exact ⟨.done, [], accepted, rfl, h, rfl⟩
  | cons com queue ih =>
      obtain ⟨hcom, hqueue⟩ := List.forall_mem_cons.mp h
      obtain ⟨p, com', accepted₁, rest, hrun, hcom', hkeep, hdone⟩ :=
        sendAll_keeps hcom accepted answers
      have hstop : accepted₁ ++ (com' :: queue).flatMap unsent
          = accepted ++ (com :: queue).flatMap unsent := by
        calc accepted₁ ++ (com' :: queue).flatMap unsent
            = (accepted₁ ++ com'.unsent) ++ queue.flatMap unsent := by
              rw [List.flatMap_cons, List.append_assoc]
          _ = (accepted ++ com.unsent) ++ queue.flatMap unsent := by rw [hkeep]
          _ = accepted ++ (com :: queue).flatMap unsent := by
              rw [List.flatMap_cons, List.append_assoc]
      rw [flushQueue, hrun]
      simp only [Option.bind_eq_bind, Option.bind_some]
      cases p with
      | done =>
          obtain ⟨p, queue', accepted', hrun', hqueue', hkeep'⟩ := ih hqueue accepted₁ rest
          refine ⟨p, queue', accepted', hrun', hqueue', ?_⟩
          calc accepted' ++ queue'.flatMap unsent
              = accepted₁ ++ (com'.unsent ++ queue.flatMap unsent) := by
                rw [hkeep', hdone rfl, List.nil_append]
            _ = accepted ++ (com :: queue).flatMap unsent := hstop
      | again => exact ⟨_, _, _, rfl, List.forall_mem_cons.mpr ⟨hcom', hqueue⟩, hstop⟩
      | thrown => exact ⟨_, _, _, rfl, List.forall_mem_cons.mpr ⟨hcom', hqueue⟩, hstop⟩

/-! ### Runs of `write` and `flush` -/

/-- A call to the writing side of a client, with the kernel's answers to it. -/
inductive Call where
  | write (f : Fresh) (x : Sendable) (answers : List Answer)
  | flush (answers : List Answer)

/-- One call. A throw leaves the client as it stands. -/
def call (c : Client) (accepted : List U8) : Call → Option (Progress × Client × List U8)
  | .write f x answers => c.write sink f x.com accepted answers
  | .flush answers => c.flush sink accepted answers

/-- Successive calls. -/
def calls (c : Client) (accepted : List U8) : List Call → Option (Client × List U8)
  | [] => some (c, accepted)
  | x :: xs => do
      let (_, c, accepted) ← c.call accepted x
      c.calls accepted xs

/-- The command a call writes. -/
def Call.written : Call → List Sendable
  | .write _ x _ => [x]
  | .flush _ => []

/-- **One call** appends the frame of the command it writes, and keeps the rest. -/
lemma call_keeps {c : Client} (h : ∀ com ∈ c.wqueue, Queued com) (accepted : List U8) (x : Call) :
    ∃ p c' accepted', c.call accepted x = some (p, c', accepted') ∧
      (∀ com ∈ c'.wqueue, Queued com) ∧
      accepted' ++ c'.wqueue.flatMap unsent
        = accepted ++ c.wqueue.flatMap unsent ++ x.written.flatMap fun y => y.com.frame := by
  cases x with
  | flush answers =>
      obtain ⟨p, queue, accepted', hrun, hqueue, hkeep⟩ := flushQueue_keeps h accepted answers
      refine ⟨p, { c with wqueue := queue }, accepted', ?_, hqueue, ?_⟩
      · rw [call, flush, hrun]
        rfl
      · rw [hkeep, Call.written, List.flatMap_nil, List.append_nil]
  | write f x answers =>
      obtain ⟨com, hhead, hcom, hframe⟩ := putHead_queued x.backed f
      have hall : ∀ y ∈ c.wqueue ++ [com], Queued y :=
        List.forall_mem_append.mpr ⟨h, List.forall_mem_singleton.mpr hcom⟩
      have hwritten : (c.wqueue ++ [com]).flatMap unsent
          = c.wqueue.flatMap unsent
            ++ (Call.write f x answers).written.flatMap fun y => y.com.frame := by
        rw [List.flatMap_append, List.flatMap_singleton, hframe, Call.written,
          List.flatMap_singleton]
      rw [call, write, hhead]
      simp only [Option.bind_eq_bind, Option.bind_some]
      split_ifs with hempty
      · obtain ⟨p, queue, accepted', hrun, hqueue, hkeep⟩ := flushQueue_keeps hall accepted answers
        refine ⟨p, { c with wqueue := queue }, accepted', ?_, hqueue, ?_⟩
        · rw [flush, hrun]
          rfl
        · rw [hkeep, hwritten, List.append_assoc]
      · refine ⟨.done, { c with wqueue := c.wqueue ++ [com] }, accepted, rfl, hall, ?_⟩
        rw [hwritten, List.append_assoc]

/-- **Successive calls** append the frames of the commands they write. -/
lemma calls_keep {c : Client} (h : ∀ com ∈ c.wqueue, Queued com) (accepted : List U8)
    (xs : List Call) :
    ∃ c' accepted', c.calls accepted xs = some (c', accepted') ∧
      accepted' ++ c'.wqueue.flatMap unsent = accepted ++ c.wqueue.flatMap unsent
        ++ (xs.flatMap Call.written).flatMap fun y => y.com.frame := by
  induction xs generalizing c accepted with
  | nil => exact ⟨c, accepted, rfl, (List.append_nil _).symm⟩
  | cons x xs ih =>
      obtain ⟨p, c₁, accepted₁, hcall, h₁, hkeep⟩ := call_keeps h accepted x
      obtain ⟨c', accepted', hrun, hkeep'⟩ := ih h₁ accepted₁
      refine ⟨c', accepted', ?_, ?_⟩
      · rw [calls, hcall]
        exact hrun
      · rw [hkeep', hkeep, List.flatMap_cons, List.flatMap_append, List.append_assoc]

/-- **The write queue is a lossless stream.** Over every run of `write` and `flush`, and however
the kernel answers: what was accepted and the unsent rest of the queue are the frames of the
commands written, in order. What the reference parser reads of the bytes accepted are the
first of these frames. -/
theorem writes_stream (xs : List Call) :
    ∃ c accepted, (opened true).calls [] xs = some (c, accepted) ∧
      accepted ++ c.wqueue.flatMap unsent
        = ((xs.flatMap Call.written).map fun x => x.com.frame).flatten ∧
      (framing.parse accepted).1 <+: (xs.flatMap Call.written).map fun x => x.com.frame := by
  obtain ⟨c, accepted, hrun, hkeep⟩ := calls_keep (c := opened true) nofun [] xs
  have hstream : accepted ++ c.wqueue.flatMap unsent
      = ((xs.flatMap Call.written).map fun x => x.com.frame).flatten := by
    rw [hkeep, ← List.flatMap_def]
    rfl
  have hwhole : ∀ y ∈ (xs.flatMap Call.written).map fun x => x.com.frame, framing.Whole y := by
    intro y hy
    obtain ⟨x, -, rfl⟩ := List.mem_map.mp hy
    exact x.whole
  exact ⟨c, accepted, hrun, hstream, Framing.parse_prefix hwhole hstream⟩

end Client

end Napd
