import Napd.Client.Buffer

/-!
Reading commands from a connected stream.

* `Part`, `Waiting`: what `rbuffer` holds between two calls of `read`, a part of the frame
  that stands next on the stream.
* `fill_stream`, `read_stream`: one call of `read` receives some bytes from the front of the
  stream. It completes the frame and hands it out, or keeps the longer part.
* `reads_stream`: what successive calls hand out and keep is what they received.
* `fill_delivers`: a call whose receives all succeed hands out the frame.
* `reads_frames`: the commands read are the frames of the reference parser, however the
  stream is cut.
-/

namespace Napd

namespace Client

open Command

/-- A part of the next frame: its header stands on the stream, its end was not received. -/
structure Part (com : Command) (held pending : List U8) : Prop where
  holds : Holds com held
  short : held.length < 4 + com.size.toNat
  header : com.head <+: held ++ pending

/-- What `rbuffer` may hold between two calls of `read`. -/
inductive Waiting (pending : List U8) : Option Command → List U8 → Prop
  | idle : Waiting pending none []
  | part {com held} (h : Part com held pending) : Waiting pending (some com) held

/-- How a call of `read` may end, with the bytes held altogether. -/
inductive Ends (pending held : List U8) : Result → Option Command → Prop
  | command {com} (h : Complete com) (hframe : com.frame = held) :
      Ends pending held (.command com) none
  | waiting {r com} (hr : r.command? = none) (h : Waiting pending com held) :
      Ends pending held r com

/-- The stream has moved on: the bytes `bs` were received. -/
structure MovesBy (bs : List U8) (k k' : Stream) : Prop where
  consumed : k'.consumed = k.consumed ++ bs
  pending : k.pending = bs ++ k'.pending

lemma MovesBy.refl (k : Stream) : MovesBy [] k k := ⟨(List.append_nil _).symm, rfl⟩

lemma MovesBy.trans {bs cs : List U8} {k₁ k₂ k₃ : Stream} (h : MovesBy bs k₁ k₂)
    (h' : MovesBy cs k₂ k₃) : MovesBy (bs ++ cs) k₁ k₃ := by
  refine ⟨?_, ?_⟩
  · rw [h'.consumed, h.consumed, List.append_assoc]
  · rw [h.pending, h'.pending, List.append_assoc]

/-- Bytes that are there are received from the front, at least one of them. -/
lemma recv_bytes {k : Stream} (n len : ℕ) (h : k.pending ≠ []) :
    ∃ bs k', stream.recv k (.bytes n) len false = (.bytes bs, {}, k') ∧ bs.length ≤ len ∧
      MovesBy bs k k' ∧ (0 < len → bs ≠ []) := by
  refine ⟨k.pending.take (min (n + 1) len),
    ⟨k.consumed ++ k.pending.take (min (n + 1) len), k.pending.drop (min (n + 1) len)⟩,
    ?_, ?_, ⟨rfl, ?_⟩, ?_⟩
  · simp [stream, Stream.recv, h]
  · rw [List.length_take]
    omega
  · exact (List.take_append_drop _ _).symm
  · intro hlen hnil
    rcases List.take_eq_nil_iff.mp hnil with hzero | hempty
    · omega
    · exact h hempty

/-- What `recv` makes of a stream: it hands out bytes from the front, or leaves it alone. -/
lemma recv_cases (k : Stream) (a : Answer) (len : ℕ) :
    (∃ bs k', stream.recv k a len false = (.bytes bs, {}, k') ∧ bs.length ≤ len ∧
      MovesBy bs k k') ∨
    ∃ r, stream.recv k a len false = (r, {}, k) ∧ ∀ bs, r ≠ .bytes bs := by
  cases a with
  | bytes n =>
      by_cases hnil : k.pending = []
      · exact Or.inr ⟨.again, by simp [stream, Stream.recv, hnil], nofun⟩
      · obtain ⟨bs, k', hrecv, hlen, hmove, -⟩ := recv_bytes n len hnil
        exact Or.inl ⟨bs, k', hrecv, hlen, hmove⟩
  | closed => exact Or.inl ⟨[], k, rfl, Nat.zero_le _, MovesBy.refl k⟩
  | again => exact Or.inr ⟨.again, rfl, nofun⟩
  | error => exact Or.inr ⟨.error, rfl, nofun⟩

/-- What a peek shows of a stream: the header that stands in front, or no whole header. -/
lemma peek_cases (k : Stream) (a : Answer) :
    (∃ s₁ s₀ c₁ c₀ rest, k.pending = s₁ :: s₀ :: c₁ :: c₀ :: rest ∧
      stream.recv k a 4 true = (.bytes [s₁, s₀, c₁, c₀], {}, k)) ∨
    (∃ r, stream.recv k a 4 true = (r, {}, k) ∧ ∀ bs, r = .bytes bs → bs.length ≠ 4) ∧
      ∀ n, a = .bytes n → 3 ≤ n → k.pending.length < 4 := by
  cases a with
  | bytes n =>
      by_cases hnil : k.pending = []
      · refine Or.inr ⟨⟨.again, by simp [stream, Stream.recv, hnil], nofun⟩, ?_⟩
        intro _ _ _
        rw [hnil, List.length_nil]
        omega
      have hrecv : stream.recv k (.bytes n) 4 true
          = (.bytes (k.pending.take (min (n + 1) 4)), {}, k) := by
        simp [stream, Stream.recv, hnil]
      by_cases hlen : (k.pending.take (min (n + 1) 4)).length = 4
      · obtain ⟨s₁, s₀, c₁, c₀, htake⟩ := List.length_eq_four.mp hlen
        have hsplit := List.take_append_drop (min (n + 1) 4) k.pending
        rw [htake] at hsplit
        refine Or.inl ⟨s₁, s₀, c₁, c₀, k.pending.drop (min (n + 1) 4), hsplit.symm, ?_⟩
        rw [hrecv, htake]
      · refine Or.inr ⟨⟨_, hrecv, ?_⟩, ?_⟩
        · intro bs hbs
          rwa [← Recv.bytes.inj hbs]
        · intro m hm hle
          obtain rfl := Answer.bytes.inj hm
          rw [List.length_take] at hlen
          omega
  | closed =>
      refine Or.inr ⟨⟨.bytes [], rfl, ?_⟩, nofun⟩
      intro bs hbs
      rw [← Recv.bytes.inj hbs, List.length_nil]
      omega
  | again => exact Or.inr ⟨⟨.again, rfl, nofun⟩, nofun⟩
  | error => exact Or.inr ⟨⟨.error, rfl, nofun⟩, nofun⟩

/-- A block that is not full holds a part. -/
lemma part_of_not_full {com : Command} {held pending : List U8} (h : Holds com held)
    (hhead : com.head <+: held ++ pending) (hfull : com.full ≠ true) : Part com held pending := by
  have hne : held.length ≠ 4 + com.size.toNat := fun heq => hfull (h.full_iff.mpr heq)
  have hle := h.length_le
  exact ⟨h, by omega, hhead⟩

/-- A full block ends the call with a complete command. -/
lemma ends_of_full {com : Command} {held pending : List U8} (h : Holds com held)
    (hhead : com.head <+: held ++ pending) (hfull : com.full = true) :
    Ends pending held (.command { com with offset := 0 }) none := by
  have hlen := h.full_iff.mp hfull
  have hhead' : com.head <+: held :=
    List.prefix_of_prefix_length_le hhead (List.prefix_append _ _) (by rw [head_length]; omega)
  exact .command (h.complete hlen hhead') (h.frame hlen hhead')

/-- **The loop of `read`** on a stream: it receives some bytes and completes the frame, or keeps
the longer part. -/
lemma fill_stream {c : Client} (hc : c.connected = true) {com : Command} {held : List U8}
    {k : Stream} (answers : List Answer) (h : Holds com held)
    (hhead : com.head <+: held ++ k.pending) :
    ∃ r c' k' bs, c.fill stream com k answers = some (r, c', k') ∧ c'.connected = true ∧
      MovesBy bs k k' ∧ Ends k'.pending (held ++ bs) r c'.rbuffer := by
  induction answers generalizing com held k with
  | nil =>
      by_cases hfull : com.full = true
      · refine ⟨_, _, _, [], fill_of_full _ _ _ _ hfull, hc, .refl k, ?_⟩
        rw [List.append_nil]
        exact ends_of_full h hhead hfull
      · refine ⟨_, _, _, [], fill_nil _ _ _ hfull, hc, .refl k, ?_⟩
        rw [List.append_nil]
        exact .waiting rfl (.part (part_of_not_full h hhead hfull))
  | cons a answers ih =>
      by_cases hfull : com.full = true
      · refine ⟨_, _, _, [], fill_of_full _ _ _ _ hfull, hc, .refl k, ?_⟩
        rw [List.append_nil]
        exact ends_of_full h hhead hfull
      have hpart := part_of_not_full h hhead hfull
      rcases recv_cases k a com.remaining with ⟨bs, k', hrecv, hlen, hmove⟩ | ⟨r, hrecv, hr⟩
      · obtain ⟨com', hrun, hholds, hhead', hsize, -⟩ := h.receive_bytes c.connected hrecv hlen
        have hstream : held ++ k.pending = (held ++ bs) ++ k'.pending := by
          rw [hmove.pending, List.append_assoc]
        have hnext : com'.head <+: (held ++ bs) ++ k'.pending := by
          rw [hhead', ← hstream]
          exact hhead
        by_cases hnil : bs = []
        · refine ⟨_, _, k', bs, fill_stop answers hfull hrun ?_, hc, hmove, ?_⟩
          · intro bs' hbs'
            rw [← Recv.bytes.inj hbs', hnil]
          · refine .waiting (stop_command? _) (.part ⟨hholds, ?_, hnext⟩)
            rw [hsize, hnil, List.append_nil]
            exact hpart.short
        · obtain ⟨r, c', k'', cs, hfill, hc', hmove', hends⟩ := ih hholds hnext
          refine ⟨r, c', k'', bs ++ cs, ?_, hc', hmove.trans hmove', ?_⟩
          · rw [fill_more answers hfull hrun hnil]
            exact hfill
          · rw [← List.append_assoc]
            exact hends
      · obtain ⟨com', hrun, hholds, hhead', hsize⟩ := h.receive_none c.connected hrecv hr
        refine ⟨_, _, k, [], fill_stop answers hfull hrun (fun bs hbs => absurd hbs (hr bs)), hc,
          .refl k, ?_⟩
        rw [List.append_nil]
        refine .waiting (stop_command? r) (.part ⟨hholds, ?_, ?_⟩)
        · rw [hsize]
          exact hpart.short
        · rw [hhead']
          exact hhead

/-- **One call of `read`** on a stream: what was held and what it receives is a complete command,
or is held. -/
lemma read_stream {c : Client} (hc : c.connected = true) {held : List U8} (f : Fresh) {k : Stream}
    (answers : List Answer) (h : Waiting k.pending c.rbuffer held) :
    ∃ r c' k' bs, c.read stream f k answers = some (r, c', k') ∧ c'.connected = true ∧
      MovesBy bs k k' ∧ Ends k'.pending (held ++ bs) r c'.rbuffer := by
  generalize hbuf : c.rbuffer = buf at h
  cases h with
  | @part com _ h =>
      rw [read_of_some stream f k answers hbuf]
      exact fill_stream hc answers h.holds h.header
  | idle =>
      cases answers with
      | nil =>
          refine ⟨.null, c, k, [], read_nil stream f k hbuf, hc, .refl k, ?_⟩
          rw [hbuf]
          exact .waiting rfl .idle
      | cons a answers =>
          rcases peek_cases k a with ⟨s₁, s₀, c₁, c₀, rest, hpending, hpeek⟩ | ⟨⟨r, hpeek, hr⟩, -⟩
          · rw [read_head f answers hbuf hpeek]
            refine fill_stream hc answers (holds_new f _ _) ?_
            rw [head, hton16_ntoh16, hton16_ntoh16, hpending]
            exact ⟨rest, rfl⟩
          · refine ⟨_, c, k, [], read_short f answers hbuf hpeek hr, hc, .refl k, ?_⟩
            rw [hbuf]
            exact .waiting (stop_command? r) .idle

/-! ### Successive calls -/

/-- **Successive calls**: what was held and what they receive are the frames of the commands
they return, and what is held after them. -/
lemma reads_stream {c : Client} (hc : c.connected = true) {held : List U8} {k : Stream}
    (calls : List (Fresh × List Answer)) (h : Waiting k.pending c.rbuffer held) :
    ∃ rs c' k' bs held', c.reads stream k calls = some (rs, c', k') ∧ c'.connected = true ∧
      MovesBy bs k k' ∧ Waiting k'.pending c'.rbuffer held' ∧
      held ++ bs = ((commands rs).map frame).flatten ++ held' ∧
      ∀ com ∈ commands rs, Complete com := by
  induction calls generalizing c held k with
  | nil => exact ⟨[], c, k, [], held, rfl, hc, .refl k, h, List.append_nil _, nofun⟩
  | cons call calls ih =>
      obtain ⟨f, answers⟩ := call
      obtain ⟨r, c₁, k₁, bs, hread, hc₁, hmove, hends⟩ := read_stream hc f answers h
      have hcons : ∀ {rs c' k'}, c₁.reads stream k₁ calls = some (rs, c', k') →
          c.reads stream k ((f, answers) :: calls) = some (r :: rs, c', k') := by
        intro rs c' k' hrun
        rw [reads, hread]
        simp only [Option.bind_eq_bind, Option.bind_some, hrun]
        rfl
      generalize hbuf : c₁.rbuffer = buf at hends
      cases hends with
      | @command com hcom hframe =>
          obtain ⟨rs, c', k', cs, held', hrun, hc', hmove', hwait, hheld, hall⟩ :=
            ih hc₁ (hbuf ▸ Waiting.idle)
          refine ⟨_, c', k', bs ++ cs, held', hcons hrun, hc', hmove.trans hmove', hwait, ?_, ?_⟩
          · calc held ++ (bs ++ cs)
                = com.frame ++ ([] ++ cs) := by rw [hframe, List.append_assoc, List.nil_append]
              _ = com.frame ++ (((commands rs).map frame).flatten ++ held') := by rw [hheld]
              _ = (com.frame :: (commands rs).map frame).flatten ++ held' := by
                  rw [List.flatten_cons, List.append_assoc]
          · exact List.forall_mem_cons.mpr ⟨hcom, hall⟩
      | waiting hr hwait₁ =>
          obtain ⟨rs, c', k', cs, held', hrun, hc', hmove', hwait, hheld, hall⟩ :=
            ih hc₁ (hbuf ▸ hwait₁)
          have hrs : commands (r :: rs) = commands rs := List.filterMap_cons_none hr
          refine ⟨_, c', k', bs ++ cs, held', hcons hrun, hc', hmove.trans hmove', hwait, ?_, ?_⟩
          · rw [hrs, ← List.append_assoc, hheld]
          · rw [hrs]
            exact hall

/-! ### Calls that are not put off -/

/-- A part of a frame is no frame. -/
lemma Waiting.not_ready {pending held : List U8} {buf : Option Command}
    (h : Waiting pending buf held) : ¬ framing.Ready held := by
  intro hready
  cases h with
  | idle => exact absurd hready.1 (by decide)
  | @part com _ h =>
      have hhead : com.head <+: held :=
        List.prefix_of_prefix_length_le h.header (List.prefix_append _ _) hready.1
      have hlen := hready.2
      rw [frameLength_of_head hhead] at hlen
      exact absurd h.short (Nat.not_lt.mpr hlen)

lemma Waiting.held_eq {pending held : List U8} {c : Client}
    (h : Waiting pending c.rbuffer held) : c.held = held := by
  generalize hbuf : c.rbuffer = buf at h
  rw [Client.held, hbuf]
  cases h with
  | idle => rfl
  | part h => exact h.holds.received

/-- The loop of `read` completes a frame that is there, when every receive delivers. -/
lemma fill_delivers {c : Client} {com : Command} {held : List U8} {k : Stream}
    {answers : List Answer} (h : Holds com held)
    (harrived : 4 + com.size.toNat ≤ held.length + k.pending.length)
    (hall : ∀ a ∈ answers, ∃ n, a = .bytes n)
    (hmany : 4 + com.size.toNat ≤ held.length + answers.length) :
    ∃ com' c' k', c.fill stream com k answers = some (.command com', c', k') := by
  induction answers generalizing com held k with
  | nil =>
      have hle := h.length_le
      rw [List.length_nil] at hmany
      exact ⟨_, _, _, fill_of_full stream c k [] (h.full_iff.mpr (by omega))⟩
  | cons a answers ih =>
      by_cases hfull : com.full = true
      · exact ⟨_, _, _, fill_of_full stream c k _ hfull⟩
      obtain ⟨n, rfl⟩ := hall a List.mem_cons_self
      have hle := h.length_le
      have hne : held.length ≠ 4 + com.size.toNat := fun heq => hfull (h.full_iff.mpr heq)
      have hpending : k.pending ≠ [] := by
        intro hnil
        rw [hnil, List.length_nil] at harrived
        omega
      obtain ⟨bs, k', hrecv, hlen, hmove, hpos⟩ := recv_bytes n com.remaining hpending
      have hbs : bs ≠ [] := hpos (by rw [h.remaining]; omega)
      have hbs_pos : 0 < bs.length := List.length_pos_iff.mpr hbs
      obtain ⟨com', hrun, hholds, -, hsize, -⟩ := h.receive_bytes c.connected hrecv hlen
      rw [fill_more answers hfull hrun hbs]
      have hmoved := congrArg List.length hmove.pending
      rw [List.length_append] at hmoved
      rw [List.length_cons] at hmany
      refine ih hholds ?_ (fun a ha => hall a (List.mem_cons_of_mem _ ha)) ?_
      · rw [hsize, List.length_append]
        omega
      · rw [hsize, List.length_append]
        omega

/-- The kernel delivers at every call, at the first one a whole header, and in time for `m`
bytes. -/
def Delivers (m : ℕ) (answers : List Answer) : Prop :=
  ∃ n rest, answers = .bytes n :: rest ∧ 3 ≤ n ∧ m ≤ rest.length ∧ ∀ a ∈ rest, ∃ n, a = .bytes n

/-- A `read` returns the frame that is there, when every receive delivers. -/
lemma read_delivers {c : Client} {held : List U8} (f : Fresh) {k : Stream} {answers : List Answer}
    (h : Waiting k.pending c.rbuffer held) (hready : framing.Ready (held ++ k.pending))
    (hall : Delivers (framing.frameLength (held ++ k.pending)) answers) :
    ∃ com c' k', c.read stream f k answers = some (.command com, c', k') := by
  obtain ⟨n, rest, rfl, hn, hmany, hrest⟩ := hall
  generalize hbuf : c.rbuffer = buf at h
  have harrived := hready.2
  cases h with
  | @part com _ h =>
      rw [frameLength_of_head h.header] at hmany harrived
      rw [read_of_some stream f k _ hbuf]
      refine fill_delivers h.holds ?_ ?_ ?_
      · rwa [List.length_append] at harrived
      · exact List.forall_mem_cons.mpr ⟨⟨n, rfl⟩, hrest⟩
      · rw [List.length_cons]
        omega
  | idle =>
      rcases peek_cases k (.bytes n) with ⟨s₁, s₀, c₁, c₀, l, hpending, hpeek⟩ | ⟨-, hshort⟩
      · have hlen : framing.frameLength ([] ++ k.pending) = 4 + (ntoh16 s₁ s₀).toNat := by
          rw [hpending]
          rfl
        rw [hlen] at hmany harrived
        rw [read_head f rest hbuf hpeek]
        refine fill_delivers (holds_new f _ _) ?_ hrest ?_
        · rwa [List.length_append] at harrived
        · exact hmany.trans (Nat.le_add_left _ _)
      · exact absurd (hshort n rfl hn) (Nat.not_lt.mpr hready.1)

/-- **Framing does not depend on segmentation.** Over every stream, and however the kernel
answers: the bytes consumed parse into the frames of the commands returned and the bytes held;
the frames of the stream are those of the commands returned, then those of what is held and
still to come; a command returned has offset 0 and a NUL behind its payload. When a frame is
there and every receive delivers, the next call returns it. -/
theorem reads_frames (s : List U8) (calls : List (Fresh × List Answer)) :
    ∃ rs c k, (opened true).reads stream ⟨[], s⟩ calls = some (rs, c, k) ∧
      k.consumed ++ k.pending = s ∧
      framing.parse k.consumed = ((commands rs).map frame, c.held) ∧
      framing.parse s = ((commands rs).map frame ++ (framing.parse (c.held ++ k.pending)).1,
        (framing.parse (c.held ++ k.pending)).2) ∧
      (∀ com ∈ commands rs, com.offset = 0 ∧
        ∃ b, com.data = some b ∧ b.bytes[com.size.toNat + 4]? = some 0) ∧
      (framing.Ready (c.held ++ k.pending) → ∀ f answers,
        Delivers (framing.frameLength (c.held ++ k.pending)) answers →
          ∃ com c' k', c.read stream f k answers = some (.command com, c', k')) := by
  obtain ⟨rs, c, k, bs, held, hrun, -, hmove, hwait, hheld, hall⟩ :=
    reads_stream (c := opened true) rfl (k := ⟨[], s⟩) calls .idle
  have hwhole : ∀ x ∈ (commands rs).map frame, framing.Whole x := by
    intro x hx
    obtain ⟨com, hcom, rfl⟩ := List.mem_map.mp hx
    exact (hall com hcom).whole
  have hconsumed : k.consumed = ((commands rs).map frame).flatten ++ held := by
    rw [hmove.consumed, ← hheld]
  have hstream : k.consumed ++ k.pending = s := by
    rw [hmove.consumed]
    exact hmove.pending.symm
  obtain rfl := hwait.held_eq
  refine ⟨rs, c, k, hrun, hstream, ?_, ?_, ?_, ?_⟩
  · rw [hconsumed, Framing.parse_flatten_part hwhole hwait.not_ready]
  · rw [← hstream, hconsumed, List.append_assoc, Framing.parse_flatten_append hwhole]
  · exact fun com hcom => ⟨(hall com hcom).offset, (hall com hcom).terminated⟩
  · exact fun hready f answers hdelivers => read_delivers f hwait hready hdelivers

end Client

end Napd
