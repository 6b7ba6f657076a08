import Napd.Client.Buffer

/-!
Reading commands from an unconnected datagram socket.

* `Datagram.WellFormed`: a datagram that is one frame.
* `Awaits`, `read_wellFormed`, `read_ready`: a call of `read` that meets a well-formed datagram
  leaves it on the socket, or returns it as a command; it returns it when it is not put off.
* `reads_wellFormed`: a run over well-formed datagrams returns them, one by one.
* `read_malformed`: every other datagram stays on the socket, or stays in `rbuffer`, or is
  returned as a command all the same.
* `isolated_iff`: isolation holds of the sequences of well-formed datagrams, and no others.
-/

namespace Napd

open Command

/-- A datagram that is one frame: four bytes more than its header announces. -/
def Datagram.WellFormed (d : Datagram) : Prop := framing.Whole d.bytes

instance (d : Datagram) : Decidable d.WellFormed := inferInstanceAs (Decidable (framing.Whole _))

/-- The datagram a command stands for: its frame, from its peer. -/
def Command.datagram (com : Command) : Datagram := ⟨com.peer, com.frame⟩

namespace Client

/-- What `rbuffer` may hold between two calls: nothing, or the command made for the header
that was peeked of the front datagram. -/
inductive Awaits (pending : List Datagram) : Option Command → Prop
  | idle : Awaits pending none
  | peeked {com d ds} (hp : pending = d :: ds) (h : Holds com []) (hhead : com.head <+: d.bytes) :
      Awaits pending (some com)

/-- Nothing of a datagram is held. -/
lemma Awaits.held_eq {pending : List Datagram} {c : Client} (h : Awaits pending c.rbuffer) :
    c.held = [] := by
  generalize hbuf : c.rbuffer = buf at h
  rw [held, hbuf]
  cases h with
  | idle => rfl
  | peeked hp h hhead => exact h.received

/-- A command that holds nothing is not full. -/
lemma not_full {com : Command} (h : Holds com []) : com.full ≠ true := by
  intro hfull
  have hlen := h.full_iff.mp hfull
  rw [List.length_nil] at hlen
  omega

/-- The header that stands in front of a datagram. -/
lemma head_of_length {bs : List U8} (h : 4 ≤ bs.length) :
    ∃ s₁ s₀ c₁ c₀ rest, bs = s₁ :: s₀ :: c₁ :: c₀ :: rest := by
  match bs, h with
  | s₁ :: s₀ :: c₁ :: c₀ :: rest, _ => exact ⟨s₁, s₀, c₁, c₀, rest, rfl⟩

/-- The call is put off: the datagram stays where it is. -/
def PutOff (k : Datagrams) (res : Option (Result × Client × Datagrams)) : Prop :=
  ∃ c', res = some (.null, c', k) ∧ c'.connected = false ∧ Awaits k.pending c'.rbuffer

/-- The call returns the front datagram as a command. -/
def Returns (k : Datagrams) (d : Datagram) (ds : List Datagram)
    (res : Option (Result × Client × Datagrams)) : Prop :=
  ∃ com c', res = some (.command com, c', ⟨k.consumed ++ [d], ds⟩) ∧ c'.connected = false ∧
    c'.rbuffer = none ∧ com.datagram = d

section Front

variable {c : Client} {k : Datagrams} {d : Datagram} {ds : List Datagram}

/-- A receive takes the front datagram off the socket, cut to what it asks for. -/
lemma recv_front (hp : k.pending = d :: ds) (len : ℕ) :
    datagrams.recv k none len false
      = (.bytes (d.bytes.take len), d.sender, ⟨k.consumed ++ [d], ds⟩) := by
  obtain ⟨consumed, pending⟩ := k
  obtain rfl : pending = d :: ds := hp
  rfl

/-- A peek shows it and leaves it there. -/
lemma peek_front (hp : k.pending = d :: ds) (len : ℕ) :
    datagrams.recv k none len true = (.bytes (d.bytes.take len), d.sender, k) := by
  obtain ⟨consumed, pending⟩ := k
  obtain rfl : pending = d :: ds := hp
  rfl

/-- The loop of `read`, put off by the kernel. -/
lemma fill_again (hc : c.connected = false) (hp : k.pending = d :: ds) {com : Command}
    (h : Holds com []) (hhead : com.head <+: d.bytes) (garbage : Address)
    (answers : List (Option Address)) :
    PutOff k (c.fill datagrams com k (some garbage :: answers)) := by
  have hrecv : datagrams.recv k (some garbage) com.remaining false = (.again, garbage, k) := rfl
  obtain ⟨com', hrun, hholds, hhead', -⟩ := h.receive_none c.connected hrecv nofun
  exact ⟨_, fill_stop answers (not_full h) hrun nofun, hc, .peeked hp hholds (hhead' ▸ hhead)⟩

/-- **A receive that is not put off** takes the whole datagram, which completes the command. -/
lemma fill_ready (hc : c.connected = false) (hp : k.pending = d :: ds) (hd : d.WellFormed)
    {com : Command} (h : Holds com []) (hhead : com.head <+: d.bytes)
    (answers : List (Option Address)) :
    Returns k d ds (c.fill datagrams com k (none :: answers)) := by
  have hlen : d.bytes.length = 4 + com.size.toNat := by
    rw [← frameLength_of_head hhead]
    exact hd.2
  have hfit : d.bytes.length ≤ com.remaining := by
    rw [h.remaining, hlen]
    exact Nat.le_refl _
  have hrecv := recv_front hp com.remaining
  rw [List.take_of_length_le hfit] at hrecv
  obtain ⟨com', hrun, hholds, hhead', hsize, hpeer⟩ := h.receive_bytes c.connected hrecv hfit
  rw [List.nil_append] at hholds
  have hlen' : d.bytes.length = 4 + com'.size.toNat := by rw [hsize, hlen]
  have hframe : com'.frame = d.bytes := hholds.frame hlen' (hhead' ▸ hhead)
  have hfull : com'.full = true := hholds.full_iff.mpr hlen'
  refine ⟨{ com' with offset := 0 }, { c with rbuffer := none }, ?_, hc, rfl, ?_⟩
  · rw [fill_more answers (not_full h) hrun (List.length_pos_iff.mp (by rw [hlen]; omega))]
    exact fill_of_full _ _ _ _ hfull
  · show Datagram.mk com'.peer com'.frame = d
    rw [hframe, hpeer, hc]
    rfl

/-- The loop of `read` on a well-formed datagram. -/
lemma fill_wellFormed (hc : c.connected = false) (hp : k.pending = d :: ds) (hd : d.WellFormed)
    {com : Command} (h : Holds com []) (hhead : com.head <+: d.bytes)
    (answers : List (Option Address)) :
    PutOff k (c.fill datagrams com k answers) ∨
      Returns k d ds (c.fill datagrams com k answers) := by
  match answers with
  | [] =>
      exact Or.inl ⟨_, fill_nil datagrams c k (not_full h), hc, .peeked hp h hhead⟩
  | some garbage :: answers => exact Or.inl (fill_again hc hp h hhead garbage answers)
  | none :: answers => exact Or.inr (fill_ready hc hp hd h hhead answers)

/-- A peek at a datagram that has a header. -/
lemma read_peeked (f : Fresh) (hbuf : c.rbuffer = none) (hp : k.pending = d :: ds)
    (hlen : 4 ≤ d.bytes.length) (answers : List (Option Address)) :
    ∃ com, Holds com [] ∧ com.head <+: d.bytes ∧
      c.read datagrams f k (none :: answers) = c.fill datagrams com k answers := by
  obtain ⟨s₁, s₀, c₁, c₀, rest, hbytes⟩ := head_of_length hlen
  have hpeek := peek_front hp 4
  rw [hbytes] at hpeek
  refine ⟨_, holds_new f (ntoh16 s₁ s₀) (ntoh16 c₁ c₀), ?_, read_head f answers hbuf hpeek⟩
  rw [head, hton16_ntoh16, hton16_ntoh16, hbytes]
  exact ⟨rest, rfl⟩

/-- A call that has nothing to receive, or no answer that lets it. -/
lemma read_putOff (hc : c.connected = false) (f : Fresh) (hbuf : c.rbuffer = none) :
    PutOff k (c.read datagrams f k []) ∧
      (∀ garbage answers, PutOff k (c.read datagrams f k (some garbage :: answers))) ∧
      (k.pending = [] → ∀ answers, PutOff k (c.read datagrams f k (none :: answers))) := by
  have hidle : Awaits k.pending c.rbuffer := by
    rw [hbuf]
    exact .idle
  refine ⟨⟨c, read_nil datagrams f k hbuf, hc, hidle⟩, ?_, ?_⟩
  · intro garbage answers
    have hpeek : datagrams.recv k (some garbage) 4 true = (.again, garbage, k) := rfl
    exact ⟨c, read_short f answers hbuf hpeek nofun, hc, hidle⟩
  · intro hnil answers
    have hpeek : datagrams.recv k none 4 true = (.again, {}, k) := by
      obtain ⟨consumed, pending⟩ := k
      obtain rfl : pending = [] := hnil
      rfl
    exact ⟨c, read_short f answers hbuf hpeek nofun, hc, hidle⟩

/-- **One call of `read`** that meets a well-formed datagram, or none. -/
lemma read_wellFormed (hc : c.connected = false) (h : Awaits k.pending c.rbuffer)
    (hall : ∀ d ∈ k.pending, d.WellFormed) (f : Fresh) (answers : List (Option Address)) :
    PutOff k (c.read datagrams f k answers) ∨
      ∃ d ds, k.pending = d :: ds ∧ Returns k d ds (c.read datagrams f k answers) := by
  generalize hbuf : c.rbuffer = buf at h
  cases h with
  | @peeked com d ds hp h hhead =>
      have hd : d.WellFormed := hall d (hp ▸ List.mem_cons_self)
      rw [read_of_some datagrams f k answers hbuf]
      exact (fill_wellFormed hc hp hd h hhead answers).imp_right fun hr => ⟨d, ds, hp, hr⟩
  | idle =>
      obtain ⟨hnone, hagain, hempty⟩ := read_putOff (k := k) hc f hbuf
      match answers with
      | [] => exact Or.inl hnone
      | some garbage :: answers => exact Or.inl (hagain garbage answers)
      | none :: answers =>
          cases hp : k.pending with
          | nil => exact Or.inl (hempty hp answers)
          | cons d ds =>
              have hd : d.WellFormed := hall d (hp ▸ List.mem_cons_self)
              obtain ⟨com, hholds, hhead, hread⟩ := read_peeked f hbuf hp hd.1 answers
              rw [hread]
              exact (fill_wellFormed hc hp hd hholds hhead answers).imp_right
                fun hr => ⟨d, ds, rfl, hr⟩

/-- **A call that is not put off** returns the well-formed datagram it meets. -/
lemma read_ready (hc : c.connected = false) (h : Awaits k.pending c.rbuffer)
    (hp : k.pending = d :: ds) (hd : d.WellFormed) (f : Fresh) :
    Returns k d ds (c.read datagrams f k [none, none]) := by
  generalize hbuf : c.rbuffer = buf at h
  cases h with
  | @peeked com d' ds' hp' h hhead =>
      obtain ⟨rfl, rfl⟩ := List.cons.inj (hp.symm.trans hp')
      rw [read_of_some datagrams f k _ hbuf]
      exact fill_ready hc hp hd h hhead [none]
  | idle =>
      obtain ⟨com, hholds, hhead, hread⟩ := read_peeked f hbuf hp hd.1 [none]
      rw [hread]
      exact fill_ready hc hp hd hholds hhead []

/-- **A malformed datagram** stays on the socket, or stays in `rbuffer`, or is returned as a
command, by a call that is not put off. -/
lemma read_malformed (hbuf : c.rbuffer = none) (hp : k.pending = d :: ds) (hd : ¬ d.WellFormed)
    (f : Fresh) :
    ∃ r c' k', c.read datagrams f k [none, none] = some (r, c', k') ∧
      (k' = k ∨ c'.held ≠ [] ∨ k'.consumed = k.consumed ++ [d] ∧ ∃ com, r = .command com) := by
  rcases Nat.lt_or_ge d.bytes.length 4 with hshort | hlong
  · -- shorter than a header: the peek throws, or shows too little
    have hpeek := peek_front hp 4
    refine ⟨_, c, k, read_short f [none] hbuf hpeek ?_, Or.inl rfl⟩
    intro bs hbs
    rw [← Recv.bytes.inj hbs, List.take_of_length_le hshort.le]
    exact hshort.ne
  · obtain ⟨com, hholds, hhead, hread⟩ := read_peeked f hbuf hp hlong [none]
    have hframe := frameLength_of_head hhead
    have hne : d.bytes.length ≠ 4 + com.size.toNat := by
      intro heq
      exact hd ⟨hlong, heq.trans hframe.symm⟩
    have hrem := hholds.remaining
    have hrecv := recv_front hp com.remaining
    obtain ⟨com', hrun, hholds', -, hsize, -⟩ :=
      hholds.receive_bytes c.connected hrecv (List.length_take_le _ _)
    have hbs : d.bytes.take com.remaining ≠ [] := by
      rw [← List.length_pos_iff, List.length_take, hrem, List.length_nil]
      omega
    rw [hread, fill_more [] (not_full hholds) hrun hbs]
    rw [List.nil_append] at hholds'
    by_cases hfull : com'.full = true
    · -- longer than its header says: it is cut and returned
      exact ⟨_, _, _, fill_of_full _ _ _ _ hfull, Or.inr (Or.inr ⟨rfl, _, rfl⟩)⟩
    · -- shorter than its header says: the part is kept
      refine ⟨_, _, _, fill_nil datagrams c _ hfull, Or.inr (Or.inl ?_)⟩
      show com'.received ≠ []
      rw [hholds'.received]
      exact hbs

end Front

/-! ### Runs -/

/-- Isolation in a state that successive calls reach: no call has thrown; the commands returned
are the well-formed ones of the datagrams consumed, with their senders; nothing of a datagram
is held, which the next one would be appended to; and a call that is not put off takes the
front datagram, which would keep back the others. -/
structure IsolatedAt (rs : List Result) (c : Client) (k : Datagrams) : Prop where
  no_throw : Result.thrown ∉ rs
  returned : (commands rs).map Command.datagram = k.consumed.filter (·.WellFormed)
  held : c.held = []
  front : ∀ d rest f, k.pending = d :: rest →
    ∃ r c' k', c.read datagrams f k [none, none] = some (r, c', k') ∧ k'.pending = rest

/-- **Isolation** over a sequence of datagrams: in every state of every run. -/
def Isolated (ds : List Datagram) : Prop :=
  ∀ calls, ∃ rs c k, (opened false).reads datagrams ⟨[], ds⟩ calls = some (rs, c, k) ∧
    k.consumed ++ k.pending = ds ∧ IsolatedAt rs c k

/-- One more call. -/
lemma reads_cons {σ α : Type} {K : Receiver σ α} {c c₁ c' : Client} {k k₁ k' : σ} {f : Fresh}
    {answers : List α} {calls : List (Fresh × List α)} {r : Result} {rs : List Result}
    (hread : c.read K f k answers = some (r, c₁, k₁))
    (hrun : c₁.reads K k₁ calls = some (rs, c', k')) :
    c.reads K k ((f, answers) :: calls) = some (r :: rs, c', k') := by
  rw [reads, hread]
  simp only [Option.bind_eq_bind, Option.bind_some, hrun]
  rfl

lemma reads_snoc {σ α : Type} {K : Receiver σ α} {c c₁ c' : Client} {k k₁ k' : σ} {f : Fresh}
    {answers : List α} {calls : List (Fresh × List α)} {r : Result} {rs : List Result}
    (hrun : c.reads K k calls = some (rs, c₁, k₁))
    (hread : c₁.read K f k₁ answers = some (r, c', k')) :
    c.reads K k (calls ++ [(f, answers)]) = some (rs ++ [r], c', k') := by
  induction calls generalizing c k rs with
  | nil =>
      obtain ⟨rfl, rfl, rfl⟩ : rs = [] ∧ c₁ = c ∧ k₁ = k := by
        rw [reads] at hrun
        simpa [eq_comm] using hrun
      exact reads_cons hread rfl
  | cons call calls ih =>
      obtain ⟨f₀, answers₀⟩ := call
      rw [reads] at hrun
      obtain ⟨⟨r₀, c₀, k₀⟩, hread₀, hrun⟩ := Option.bind_eq_some_iff.mp hrun
      obtain ⟨⟨rs₀, c₂, k₂⟩, hrun₀, hrun⟩ := Option.bind_eq_some_iff.mp hrun
      obtain ⟨rfl, rfl, rfl⟩ : rs = r₀ :: rs₀ ∧ c₁ = c₂ ∧ k₁ = k₂ := by
        simpa [eq_comm] using hrun
      exact reads_cons hread₀ (ih hrun₀)

/-- **A run over well-formed datagrams** returns those it consumes, in order. -/
lemma reads_wellFormed {c : Client} {k : Datagrams} (hc : c.connected = false)
    (h : Awaits k.pending c.rbuffer) (hall : ∀ d ∈ k.pending, d.WellFormed)
    (calls : List (Fresh × List (Option Address))) :
    ∃ rs c' k', c.reads datagrams k calls = some (rs, c', k') ∧ c'.connected = false ∧
      Awaits k'.pending c'.rbuffer ∧ Result.thrown ∉ rs ∧
      k'.consumed = k.consumed ++ (commands rs).map Command.datagram ∧
      k.pending = (commands rs).map Command.datagram ++ k'.pending := by
  induction calls generalizing c k with
  | nil => exact ⟨[], c, k, rfl, hc, h, nofun, (List.append_nil _).symm, rfl⟩
  | cons call calls ih =>
      obtain ⟨f, answers⟩ := call
      rcases read_wellFormed hc h hall f answers with
        ⟨c₁, hread, hc₁, h₁⟩ | ⟨d, ds, hp, com, c₁, hread, hc₁, hbuf, hcom⟩
      · obtain ⟨rs, c', k', hrun, hc', h', hthrown, hconsumed, hpending⟩ := ih hc₁ h₁ hall
        refine ⟨_, c', k', reads_cons hread hrun, hc', h', ?_, hconsumed, hpending⟩
        exact List.not_mem_cons_of_ne_of_not_mem nofun hthrown
      · have hds : ∀ e ∈ ds, e.WellFormed := by
          intro e he
          exact hall e (hp ▸ List.mem_cons_of_mem _ he)
        obtain ⟨rs, c', k', hrun, hc', h', hthrown, hconsumed, hpending⟩ :=
          ih (k := ⟨k.consumed ++ [d], ds⟩) hc₁ (hbuf ▸ .idle) hds
        have hcoms : (commands (.command com :: rs)).map Command.datagram
            = d :: (commands rs).map Command.datagram := by
          rw [← hcom]
          rfl
        refine ⟨_, c', k', reads_cons hread hrun, hc', h', ?_, ?_, ?_⟩
        · exact List.not_mem_cons_of_ne_of_not_mem nofun hthrown
        · rw [hcoms, hconsumed, List.append_assoc]
          rfl
        · rw [hcoms, hp, List.cons_append, ← hpending]

/-- Calls that are not put off take well-formed datagrams off the socket, one each. -/
lemma reads_front {c : Client} {k : Datagrams} {good rest : List Datagram}
    (hc : c.connected = false) (hbuf : c.rbuffer = none) (hp : k.pending = good ++ rest)
    (hgood : ∀ d ∈ good, d.WellFormed) (f : Fresh) :
    ∃ rs c', c.reads datagrams k (good.map fun _ => (f, [none, none]))
        = some (rs, c', ⟨k.consumed ++ good, rest⟩) ∧ c'.connected = false ∧ c'.rbuffer = none := by
  induction good generalizing c k with
  | nil =>
      obtain ⟨consumed, pending⟩ := k
      obtain rfl : pending = rest := hp
      refine ⟨[], c, ?_, hc, hbuf⟩
      rw [List.append_nil]
      rfl
  | cons d good ih =>
      obtain ⟨hd, hgood⟩ := List.forall_mem_cons.mp hgood
      obtain ⟨com, c₁, hread, hc₁, hbuf₁, -⟩ := read_ready hc (hbuf ▸ .idle) hp hd f
      obtain ⟨rs, c', hrun, hc', hbuf'⟩ :=
        ih (k := ⟨k.consumed ++ [d], good ++ rest⟩) hc₁ hbuf₁ rfl hgood
      refine ⟨.command com :: rs, c', ?_, hc', hbuf'⟩
      rw [List.append_assoc] at hrun
      exact reads_cons hread hrun

/-- A sequence has a first malformed datagram, unless all are well-formed. -/
lemma exists_first_malformed {ds : List Datagram} (h : ¬ ∀ d ∈ ds, d.WellFormed) :
    ∃ good d rest, ds = good ++ d :: rest ∧ (∀ e ∈ good, e.WellFormed) ∧ ¬ d.WellFormed := by
  induction ds with
  | nil => exact absurd nofun h
  | cons d ds ih =>
      by_cases hd : d.WellFormed
      · have hds : ¬ ∀ e ∈ ds, e.WellFormed := fun hall => h (List.forall_mem_cons.mpr ⟨hd, hall⟩)
        obtain ⟨good, e, rest, rfl, hgood, he⟩ := ih hds
        exact ⟨d :: good, e, rest, rfl, List.forall_mem_cons.mpr ⟨hd, hgood⟩, he⟩
      · exact ⟨[], d, ds, rfl, nofun, hd⟩

lemma isolated_of_wellFormed {ds : List Datagram} (h : ∀ d ∈ ds, d.WellFormed) : Isolated ds := by
  intro calls
  obtain ⟨rs, c, k, hrun, hc, hwait, hthrown, hconsumed, hpending⟩ :=
    reads_wellFormed (c := opened false) (k := ⟨[], ds⟩) rfl .idle h calls
  have hconsumed' : k.consumed = (commands rs).map Command.datagram := hconsumed
  have hds : k.consumed ++ k.pending = ds := by
    rw [hconsumed']
    exact hpending.symm
  have hall : ∀ d ∈ k.consumed, d.WellFormed := by
    intro d hd
    exact h d (hds ▸ List.mem_append_left _ hd)
  refine ⟨rs, c, k, hrun, hds, hthrown, ?_, hwait.held_eq, ?_⟩
  · rw [List.filter_eq_self.mpr (by simpa using hall), hconsumed']
  · intro d rest f hp
    have hd : d.WellFormed := h d (hds ▸ List.mem_append_right _ (hp ▸ List.mem_cons_self))
    obtain ⟨com, c', hread, -⟩ := read_ready hc hwait hp hd f
    exact ⟨_, c', _, hread, rfl⟩

lemma Isolated.at_run {ds : List Datagram} (h : Isolated ds)
    {calls : List (Fresh × List (Option Address))} {rs : List Result} {c : Client} {k : Datagrams}
    (hrun : (opened false).reads datagrams ⟨[], ds⟩ calls = some (rs, c, k)) :
    IsolatedAt rs c k := by
  obtain ⟨rs', c', k', hrun', -, hat⟩ := h calls
  obtain ⟨rfl, rfl, rfl⟩ : rs = rs' ∧ c = c' ∧ k = k' := by
    simpa using hrun.symm.trans hrun'
  exact hat

/-- **Isolation holds exactly of well-formed datagrams.** An empty datagram makes `read` throw, one
shorter than a header is never taken off the socket, one shorter than its header announces is
completed with the next, and one longer is cut and returned. -/
theorem isolated_iff (ds : List Datagram) : Isolated ds ↔ ∀ d ∈ ds, d.WellFormed := by
  refine ⟨?_, isolated_of_wellFormed⟩
  intro h
  by_contra hall
  -- the run that stops in front of the first malformed datagram
  obtain ⟨good, d, rest, rfl, hgood, hd⟩ := exists_first_malformed hall
  let f : Fresh := ⟨4, by omega, fun _ => 0⟩
  obtain ⟨rs, c, hrun, hc, hbuf⟩ :=
    reads_front (c := opened false) (k := ⟨[], good ++ d :: rest⟩) rfl rfl rfl hgood f
  obtain ⟨r, c', k', hread, hcases⟩ := read_malformed (k := ⟨good, d :: rest⟩) hbuf rfl hd f
  have hat : IsolatedAt rs c ⟨good, d :: rest⟩ := h.at_run hrun
  have hnext := h.at_run (reads_snoc hrun hread)
  rcases hcases with rfl | hheld | ⟨hconsumed, com, rfl⟩
  · obtain ⟨_, _, k₁, hread₁, hrest⟩ := hat.front d rest f rfl
    obtain ⟨-, -, rfl⟩ : r = _ ∧ c' = _ ∧ _ = k₁ := by simpa using hread.symm.trans hread₁
    exact absurd (congrArg List.length hrest) (Nat.succ_ne_self _)
  · exact hheld hnext.held
  · have hmore := congrArg List.length hnext.returned
    have hsame := congrArg List.length hat.returned
    have hcoms : commands (rs ++ [.command com]) = commands rs ++ [com] := List.filterMap_append
    rw [hconsumed, List.filter_append, List.filter_cons_of_neg (by simpa using hd), List.filter_nil,
      List.append_nil, ← hsame, hcoms, List.map_append, List.length_append] at hmore
    exact absurd hmore (Nat.succ_ne_self _)

/-- An empty datagram makes `read` throw. -/
theorem not_isolated_empty :
    ¬ Isolated [⟨⟨167772161, 6666⟩, []⟩] ∧
      ∃ rs c k, (opened false).reads datagrams ⟨[], [⟨⟨167772161, 6666⟩, []⟩]⟩
        [(⟨4, by omega, fun _ => 0⟩, [none])] = some (rs, c, k) ∧ Result.thrown ∈ rs := by
  refine ⟨?_, [.thrown], opened false, ⟨[], [⟨⟨167772161, 6666⟩, []⟩]⟩, rfl, List.mem_cons_self⟩
  intro h
  have hrun : (opened false).reads datagrams ⟨[], [⟨⟨167772161, 6666⟩, []⟩]⟩
      [(⟨4, by omega, fun _ => 0⟩, [none])]
      = some ([.thrown], opened false, ⟨[], [⟨⟨167772161, 6666⟩, []⟩]⟩) := rfl
  exact (h.at_run hrun).no_throw List.mem_cons_self

end Client

end Napd
