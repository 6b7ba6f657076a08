import Napd.Client.Model

/-!
The data block of a command while it is received.

* `Holds com held`: the bytes `held` stand in front of the block, the offset is behind them,
  and behind the room for the rest of the message comes its NUL.
* `holds_new`: the command made for a header holds nothing; `Holds.receive_bytes`: what is
  received is appended, whoever it comes from.
* `Complete`: a command that was read, `Holds.complete`.
-/

namespace Napd

namespace Command

open Memory

/-- The header of a command. -/
def head (com : Command) : List U8 := hton16 com.size ++ hton16 com.code

@[simp] lemma head_length (com : Command) : com.head.length = 4 := rfl

/-- The block holds the bytes `held` of the message, header included, and has room for the
rest of it and its NUL. -/
structure Holds (com : Command) (held : List U8) : Prop where
  block : ∃ b room, com.data = some b ∧ b.bytes = held ++ (room ++ [0]) ∧
    held.length + room.length = 4 + com.size.toNat
  offset : com.offset = held.length - 4

/-- A command that was read: one whole frame, offset 0, and a NUL behind the payload. -/
structure Complete (com : Command) : Prop where
  whole : framing.Whole com.frame
  offset : com.offset = 0
  terminated : ∃ b, com.data = some b ∧ b.bytes[com.size.toNat + 4]? = some 0

/-- A new block ends with a NUL. -/
lemma block_new (f : Fresh) (s : ℕ) :
    ∃ room, (block f [] s).bytes = room ++ [0] ∧ room.length = 4 + s := by
  refine ⟨((List.range' 0 (s + 5)).map f.contents).take (s + 4), ?_, ?_⟩
  · have hlen : ((List.range' 0 (s + 5)).map f.contents).length = s + 5 := by simp
    show (((List.range' 0 (s + 5)).map f.contents).set (s + 4) 0) = _
    rw [List.set_eq_take_append_cons_drop, if_pos (by omega), List.drop_of_length_le (by omega)]
  · rw [List.length_take, List.length_map, List.length_range']
    omega

/-- The command `read` makes for a header. -/
lemma holds_new (f : Fresh) (size code : U16) :
    Holds { (new 0).grow f size.toNat with code := code, size := size, offset := -4 } [] := by
  obtain ⟨room, hbytes, hroom⟩ := block_new f size.toNat
  refine ⟨⟨block f [] size.toNat, room, rfl, hbytes, ?_⟩, rfl⟩
  rw [List.length_nil, Nat.zero_add, hroom]

namespace Holds

variable {com : Command} {held : List U8}

lemma length_le (h : Holds com held) : held.length ≤ 4 + com.size.toNat := by
  obtain ⟨b, room, -, -, hroom⟩ := h.block
  omega

lemma received (h : Holds com held) : com.received = held := by
  obtain ⟨b, room, hdata, hbytes, -⟩ := h.block
  have hoffset : (com.offset + 4).toNat = held.length := by
    rw [h.offset]
    omega
  rw [Command.received, hdata]
  show b.bytes.take _ = held
  rw [hoffset, hbytes, List.take_left]

lemma full_iff (h : Holds com held) : com.full = true ↔ held.length = 4 + com.size.toNat := by
  rw [full, decide_eq_true_iff, h.offset]
  omega

/-- What a `recv` asks for: the rest of the message. -/
lemma remaining (h : Holds com held) : com.remaining = 4 + com.size.toNat - held.length := by
  have hle := h.length_le
  have hsize : com.size.toNat < 2 ^ 16 := com.size.toNat_lt
  rw [Command.remaining, h.offset]
  omega

/-- The same block, in a command from another peer. -/
lemma with_peer (h : Holds com held) (p : Address) : Holds { com with peer := p } held :=
  ⟨h.block, h.offset⟩

section Receive

variable {σ α : Type} {K : Receiver σ α} {k k' : σ} {a : α} {sender : Address}

/-- **Bytes that are received** are appended to what the block holds. -/
lemma receive_bytes (h : Holds com held) (connected : Bool) {bs : List U8}
    (hrecv : K.recv k a com.remaining false = (.bytes bs, sender, k'))
    (hlen : bs.length ≤ com.remaining) :
    ∃ com', com.receive K connected k a = some (.bytes bs, com', k') ∧ Holds com' (held ++ bs) ∧
      com'.head = com.head ∧ com'.size = com.size ∧
      com'.peer = if connected then com.peer else sender := by
  obtain ⟨b, room, hdata, hbytes, hroom⟩ := h.block
  have hrem := h.remaining
  have hpos : (com.offset + 4).toNat? = some held.length := by
    rw [h.offset, Int.sub_add_cancel]
    rfl
  have hsplice : splice b.bytes held.length bs
      = some ((held ++ bs) ++ (room.drop bs.length ++ [0])) := by
    have hfit : bs.length ≤ room.length := by omega
    rw [hbytes, splice_append held _ bs (by rw [List.length_append]; omega),
      List.drop_append_of_le_length hfit]
  have hroom' : (held ++ bs).length + (room.drop bs.length).length = 4 + com.size.toNat := by
    rw [List.length_append, List.length_drop]
    omega
  have hoffset : com.offset + bs.length = (held ++ bs).length - 4 := by
    rw [h.offset, List.length_append]
    omega
  rw [receive, hrecv]
  cases connected with
  | true =>
      refine ⟨{ com with
          data := some { b with bytes := (held ++ bs) ++ (room.drop bs.length ++ [0]) },
          offset := com.offset + bs.length }, ?_, ⟨⟨_, _, rfl, rfl, hroom'⟩, hoffset⟩,
        rfl, rfl, rfl⟩
      simp [hdata, hpos, hsplice]
  | false =>
      refine ⟨{ com with
          data := some { b with bytes := (held ++ bs) ++ (room.drop bs.length ++ [0]) },
          offset := com.offset + bs.length, peer := sender }, ?_,
        ⟨⟨_, _, rfl, rfl, hroom'⟩, hoffset⟩, rfl, rfl, rfl⟩
      simp [hdata, hpos, hsplice]

/-- Nothing is received; at most the peer is overwritten. -/
lemma receive_none (h : Holds com held) (connected : Bool) {r : Recv}
    (hrecv : K.recv k a com.remaining false = (r, sender, k')) (hr : ∀ bs, r ≠ .bytes bs) :
    ∃ com', com.receive K connected k a = some (r, com', k') ∧ Holds com' held ∧
      com'.head = com.head ∧ com'.size = com.size := by
  rw [receive, hrecv]
  refine ⟨if connected then com else { com with peer := sender }, ?_, ?_, ?_, ?_⟩
  · cases r with
    | bytes bs => exact absurd rfl (hr bs)
    | again => rfl
    | error => rfl
  · split_ifs
    · exact h
    · exact h.with_peer sender
  · split_ifs <;> rfl
  · split_ifs <;> rfl

end Receive

/-- The frame of a command that is full, once its header has been received. -/
lemma frame (h : Holds com held) (hfull : held.length = 4 + com.size.toNat)
    (hhead : com.head <+: held) : com.frame = held := by
  obtain ⟨b, room, hdata, hbytes, hroom⟩ := h.block
  obtain ⟨rest, hrest⟩ := hhead
  have hlen : rest.length = com.size.toNat := by
    rw [← hrest, List.length_append, head_length] at hfull
    omega
  have hpay : com.payload = rest := by
    have hdrop : b.bytes.drop 4 = rest ++ (room ++ [0]) := by
      rw [hbytes, ← hrest, List.append_assoc]
      rfl
    rw [payload, hdata]
    show (b.bytes.drop 4).take com.size.toNat = rest
    rw [hdrop, ← hlen, List.take_left]
  rw [Command.frame, hpay]
  exact hrest

end Holds

/-- The frame a header announces. -/
lemma frameLength_of_head {com : Command} {l : List U8} (h : com.head <+: l) :
    framing.frameLength l = 4 + com.size.toNat := by
  obtain ⟨rest, rfl⟩ := h
  have hsize : (ntoh16 (UInt8.ofNat (com.size.toNat / 256)) (UInt8.ofNat com.size.toNat)).toNat
      = com.size.toNat := by
    rw [ntoh16_hton16]
  show 4 + _ = _
  rw [← hsize]
  rfl

/-- A command that is full is handed out complete. -/
lemma Holds.complete {com : Command} {held : List U8} (h : Holds com held)
    (hfull : held.length = 4 + com.size.toNat) (hhead : com.head <+: held) :
    Complete { com with offset := 0 } := by
  obtain ⟨b, room, hdata, hbytes, hroom⟩ := h.block
  have hnil : room = [] := List.eq_nil_of_length_eq_zero (by omega)
  refine ⟨?_, rfl, b, hdata, ?_⟩
  · show framing.Whole com.frame
    rw [h.frame hfull hhead]
    refine ⟨?_, ?_⟩
    · show 4 ≤ held.length
      omega
    · rw [frameLength_of_head hhead, hfull]
  · show b.bytes[com.size.toNat + 4]? = some 0
    rw [hbytes, hnil, Nat.add_comm, ← hfull, List.getElem?_append_right le_rfl, Nat.sub_self]
    rfl

end Command

namespace Client

/-! ### The branches of `read` -/

variable {σ α : Type}

/-- A full block is handed out. -/
lemma fill_of_full (K : Receiver σ α) (c : Client) {com : Command} (k : σ)
    (answers : List α) (h : com.full = true) :
    c.fill K com k answers
      = some (.command { com with offset := 0 }, { c with rbuffer := none }, k) := by
  rw [fill.eq_def, if_pos h]

/-- Without an answer the block is kept. -/
lemma fill_nil (K : Receiver σ α) (c : Client) {com : Command} (k : σ)
    (h : com.full ≠ true) :
    c.fill K com k [] = some (.null, { c with rbuffer := some com }, k) := by
  rw [fill.eq_def, if_neg h]

/-- Bytes were received, and the loop goes on. -/
lemma fill_more {K : Receiver σ α} {c : Client} {com com' : Command} {k k' : σ} {a : α}
    {bs : List U8} (answers : List α) (h : com.full ≠ true)
    (hrun : com.receive K c.connected k a = some (.bytes bs, com', k')) (hbs : bs ≠ []) :
    c.fill K com k (a :: answers) = c.fill K com' k' answers := by
  obtain ⟨x, xs, rfl⟩ := List.exists_cons_of_ne_nil hbs
  rw [fill.eq_def, if_neg h]
  simp only [hrun, Option.bind_eq_bind, Option.bind_some]

/-- How a call ends at a receive that gives it nothing to go on with. -/
def stop : Recv → Result
  | .bytes [] => .thrown
  | .error => .thrown
  | _ => .null

lemma stop_command? (r : Recv) : (stop r).command? = none := by
  rw [stop.eq_def]
  split <;> rfl

/-- Nothing was received, and the block is kept. -/
lemma fill_stop {K : Receiver σ α} {c : Client} {com com' : Command} {k k' : σ} {a : α} {r : Recv}
    (answers : List α) (h : com.full ≠ true)
    (hrun : com.receive K c.connected k a = some (r, com', k'))
    (hr : ∀ bs, r = .bytes bs → bs = []) :
    c.fill K com k (a :: answers) = some (stop r, { c with rbuffer := some com' }, k') := by
  rw [fill.eq_def, if_neg h]
  simp only [hrun, Option.bind_eq_bind, Option.bind_some]
  cases r with
  | bytes bs =>
      obtain rfl := hr bs rfl
      rfl
  | again => rfl
  | error => rfl

lemma read_of_some (K : Receiver σ α) (f : Fresh) {c : Client} {com : Command} (k : σ)
    (answers : List α) (h : c.rbuffer = some com) :
    c.read K f k answers = c.fill K com k answers := by
  rw [read.eq_def, h]

lemma read_nil (K : Receiver σ α) (f : Fresh) {c : Client} (k : σ) (h : c.rbuffer = none) :
    c.read K f k [] = some (.null, c, k) := by
  rw [read.eq_def, h]

/-- A whole header is peeked. -/
lemma read_head {K : Receiver σ α} (f : Fresh) {c : Client} {k k' : σ} {a : α} (answers : List α)
    (h : c.rbuffer = none) {s₁ s₀ c₁ c₀ : U8} {sender : Address}
    (hpeek : K.recv k a 4 true = (.bytes [s₁, s₀, c₁, c₀], sender, k')) :
    c.read K f k (a :: answers)
      = c.fill K { (Command.new 0).grow f (ntoh16 s₁ s₀).toNat with
                    code := ntoh16 c₁ c₀, size := ntoh16 s₁ s₀, offset := -4 } k' answers := by
  rw [read.eq_def, h]
  simp only [hpeek]

/-- No whole header is peeked. -/
lemma read_short {K : Receiver σ α} (f : Fresh) {c : Client} {k k' : σ} {a : α} (answers : List α)
    (h : c.rbuffer = none) {r : Recv} {sender : Address}
    (hpeek : K.recv k a 4 true = (r, sender, k')) (hr : ∀ bs, r = .bytes bs → bs.length ≠ 4) :
    c.read K f k (a :: answers) = some (stop r, c, k') := by
  rw [read.eq_def, h]
  simp only [hpeek]
  match r, hr with
  | .bytes [], _ => rfl
  | .bytes [_], _ => rfl
  | .bytes [_, _], _ => rfl
  | .bytes [_, _, _], _ => rfl
  | .bytes [_, _, _, _], hr => exact absurd rfl (hr _ rfl)
  | .bytes (_ :: _ :: _ :: _ :: _ :: _), _ => rfl
  | .again, _ => rfl
  | .error, _ => rfl

end Client

end Napd
