import Napd.Server.Serving

/-!
What the server does for its connections over whole runs.

* `Sound`: a connection between two events, whatever was called at its ends.
* `outcome`: what `check_clients` makes of one client, from what `poll` reports for its own
  entry; `serve_eq`: the `PollSet` asks for no other.
* `serving_run`: over every run, each connection that came in is in the list or was removed from
  it, once, and what the server read from it is what its peer wrote, whatever the others did.
* `check_reads`: a check reads a command from every client whose next one has arrived.
-/

namespace Napd.Serving

open Client Command Link
open scoped List

/-! ### One connection -/

/-- A connection between two events: its two directions, and what its peer wrote. -/
structure Sound (c : Connection) : Prop where
  inv : ∀ e, (c.link.way e).Inv
  heard : (c.link.way .left).total = c.heard.flatMap fun y => y.com.frame

/-- The same connection, with another state of its ends. -/
structure Same (c c' : Connection) : Prop where
  id : c'.id = c.id
  fd : c'.fd = c.fd
  ip : c'.ip = c.ip
  dead : c'.dead = c.dead

lemma Same.refl (c : Connection) : Same c c := ⟨rfl, rfl, rfl, rfl⟩

lemma Same.trans {c₁ c₂ c₃ : Connection} (h : Same c₁ c₂) (h' : Same c₂ c₃) : Same c₁ c₃ :=
  ⟨h'.id.trans h.id, h'.fd.trans h.fd, h'.ip.trans h.ip, h'.dead.trans h.dead⟩

lemma sound_connect (id : ℕ) (fd : ℤ) (ip : U32) : Sound (connect id fd ip) := ⟨start_inv, rfl⟩

namespace Sound

variable {c : Connection}

/-- A call from outside. -/
lemma call (h : Sound c) (a : Outside) : ∃ c', c.call a = some c' ∧ Sound c' ∧ Same c c' := by
  obtain ⟨l, hstep, hinv, htotal⟩ := step_keeps h.inv a.act
  refine ⟨{ c with link := l, heard := c.heard ++ a.act.written .left }, ?_, ⟨hinv, ?_⟩,
    ⟨rfl, rfl, rfl, rfl⟩⟩
  · rw [Connection.call, hstep]
    rfl
  · rw [htotal, h.heard, List.flatMap_append]

/-- `lc->read()`: one more result, and nothing is lost. -/
lemma read (h : Sound c) (k : Kernel) :
    ∃ r c', c.link.readAt .right k.fresh k.recv = some (r, c'.link) ∧
      Serving.read k c true = some (readThrew r, c') ∧ Sound c' ∧ Same c c' ∧
      c'.link.results .right = c.link.results .right ++ [r] := by
  obtain ⟨r, l, hat, hinv, htotal, hres, -⟩ := readAt_keeps h.inv .right k.fresh k.recv
  refine ⟨r, { c with link := l }, hat, ?_, ⟨hinv, ?_⟩, ⟨rfl, rfl, rfl, rfl⟩, hres⟩
  · rw [Serving.read, if_pos rfl, hat]
    rfl
  · exact (htotal .left).trans h.heard

/-- `lc->flush()`. -/
lemma flush (h : Sound c) (k : Kernel) (writable : Bool) :
    ∃ t c', Serving.flush k c writable = some (t, c') ∧ Sound c' ∧ Same c c' ∧
      c'.link.results = c.link.results := by
  cases writable with
  | false => exact ⟨false, c, rfl, h, .refl c, rfl⟩
  | true =>
      obtain ⟨p, l, hat, hinv, -, htotal, hres⟩ := sendAt_keeps h.inv .right (.flush k.send)
      refine ⟨flushThrew p, { c with link := l }, ?_, ⟨hinv, ?_⟩, ⟨rfl, rfl, rfl, rfl⟩, hres⟩
      · rw [Serving.flush, if_pos rfl, hat]
        rfl
      · exact htotal.trans h.heard

/-- What the server read from a connection, and what is outstanding of what its peer wrote. -/
lemma heard_eq (h : Sound c) :
    c.heard.map (fun x => carried x.com)
      = (c.link.read .right).map carried
        ++ (framing.parse (c.link.way .left).outstanding).1.map unframe := by
  have hparse : c.heard.map (fun x => x.com.frame)
      = (c.link.read .right).map frame ++ (framing.parse (c.link.way .left).outstanding).1 := by
    calc c.heard.map (fun x => x.com.frame)
        = (framing.parse (c.link.way .left).total).1 := by
          rw [h.heard]
          exact (congrArg Prod.fst (parse_written _)).symm
      _ = _ := congrArg Prod.fst (h.inv .left).parse_total
  rw [← map_unframe_written, hparse, List.map_append, map_unframe]

end Sound

/-! ### One client of a check -/

/-- What `check_clients` makes of one client, from what `poll` reports for its entry. -/
def outcome (revents : U16) (k : Kernel) (c : Connection) : Option (Bool × Connection) :=
  if c.dead then some (true, c)
  else
    (read k c (revents &&& PollSet.POLLIN != 0)).bind fun (throws, c) =>
      if throws then some (true, c) else flush k c (revents &&& PollSet.POLLOUT != 0)

/-- What the `PollSet` says about a client, for each of its questions. -/
def Reported (p : PollSet) (revents : U16) (c : Connection) : Prop :=
  ∀ events, p.ready c.fd events = some (revents &&& events != 0)

lemma read_fd {k : Kernel} {c : Connection} {readable : Bool} {x : Bool × Connection}
    (h : read k c readable = some x) : x.2.fd = c.fd := by
  rw [read] at h
  split_ifs at h
  · obtain ⟨⟨r, l⟩, -, hc⟩ := Option.bind_eq_some_iff.mp h
    cases hc
    rfl
  · cases h
    rfl

/-- **The `PollSet` asks for no other client's entry.** -/
lemma serve_eq {p : PollSet} {revents : U16} {c : Connection} (h : Reported p revents c)
    (k : Kernel) : serve p k c = outcome revents k c := by
  rw [serve, outcome]
  split_ifs with hdead
  · rfl
  rw [PollSet.can_read, h, Option.bind_some]
  refine Option.bind_congr fun x hx => ?_
  have hwritable : p.can_write x.2.fd = some (revents &&& PollSet.POLLOUT != 0) := by
    rw [PollSet.can_write, read_fd hx, h]
  obtain ⟨t, c'⟩ := x
  show (if t then _ else (p.can_write c'.fd).bind _) = _
  rw [hwritable]
  rfl

/-- **A client is served** without a fault: it is read at most once. -/
lemma Sound.outcome {c : Connection} (h : Sound c) (revents : U16) (k : Kernel) :
    ∃ t c', Serving.outcome revents k c = some (t, c') ∧ Sound c' ∧ Same c c' := by
  rw [Serving.outcome]
  by_cases hdead : c.dead = true
  · rw [if_pos hdead]
    exact ⟨_, c, rfl, h, .refl c⟩
  rw [if_neg hdead]
  obtain ⟨t, c₁, hread, h₁, hsame⟩ : ∃ t c',
      Serving.read k c (revents &&& PollSet.POLLIN != 0) = some (t, c') ∧ Sound c' ∧ Same c c' := by
    cases hin : revents &&& PollSet.POLLIN != 0 with
    | false => exact ⟨false, c, rfl, h, .refl c⟩
    | true =>
        obtain ⟨r, c', -, hread, h', hsame, -⟩ := h.read k
        exact ⟨readThrew r, c', hread, h', hsame⟩
  rw [hread, Option.bind_some]
  cases t with
  | true => exact ⟨true, c₁, rfl, h₁, hsame⟩
  | false =>
      obtain ⟨t, c₂, hflush, h₂, hsame', -⟩ := h₁.flush k (revents &&& PollSet.POLLOUT != 0)
      exact ⟨t, c₂, hflush, h₂, hsame.trans hsame'⟩

/-- **A live client whose next command has arrived** is read, when the kernel says so and
delivers: one command more. -/
lemma Sound.outcome_reads {c : Connection} (h : Sound c) {revents : U16} {k : Kernel}
    (hdead : c.dead = false) (hin : (revents &&& PollSet.POLLIN != 0) = true)
    (hready : framing.Ready ((c.link.client .right).held ++ c.link.flight .left))
    (hall : Delivers 65539 k.recv) :
    ∃ t c', Serving.outcome revents k c = some (t, c') ∧
      ∃ com, c'.link.read .right = c.link.read .right ++ [com] := by
  have hwait : Waiting (c.link.flight .left) (c.link.client .right).rbuffer
      (c.link.client .right).held := (h.inv .left).waiting
  obtain ⟨com, c₀, k₀, hcommand⟩ := read_delivers (k := ⟨[], c.link.flight .left⟩) k.fresh hwait
    hready (delivers_mono hall (frameLength_le _))
  obtain ⟨r, c₁, hat, hread, h₁, -, hres⟩ := h.read k
  have hr : r = .command com := by
    rw [readAt] at hat
    rw [show End.right.other = .left from rfl, hcommand] at hat
    exact (congrArg Prod.fst (Option.some.inj hat)).symm
  obtain ⟨t, c₂, hflush, -, -, hres'⟩ := h₁.flush k (revents &&& PollSet.POLLOUT != 0)
  refine ⟨t, c₂, ?_, com, ?_⟩
  · rw [Serving.outcome, hdead, if_neg Bool.false_ne_true, hin, hread, Option.bind_some, hr]
    exact hflush
  · rw [Link.read, Link.read, hres', hres, hr, commands, List.filterMap_append]
    rfl

/-! ### All the clients -/

/-- **The loop of `check_clients`**: each client is served, and then stays or is removed. -/
lemma serveAll_keeps {p : PollSet} (kernel : ℕ → Kernel) {cs : List Connection}
    (h : ∀ c ∈ cs, Sound c) (hrep : ∀ c ∈ cs, ∃ revents, Reported p revents c) :
    ∃ kept dropped, serveAll p kernel cs = some (kept, dropped) ∧
      (∀ c ∈ kept ++ dropped, Sound c) ∧ (kept.map Connection.fd).Sublist (cs.map Connection.fd) ∧
      ((kept ++ dropped).map Connection.id).Perm (cs.map Connection.id) ∧
      ∀ c ∈ cs, ∀ t c', serve p (kernel c.id) c = some (t, c') → c' ∈ kept ++ dropped := by
  induction cs with
  | nil => exact ⟨[], [], rfl, nofun, .refl _, .refl _, nofun⟩
  | cons c cs ih =>
      obtain ⟨hc, hcs⟩ := List.forall_mem_cons.mp h
      obtain ⟨⟨revents, hrepc⟩, hrepcs⟩ := List.forall_mem_cons.mp hrep
      obtain ⟨kept, dropped, hrun, hsound, hfds, hids, hserved⟩ := ih hcs hrepcs
      obtain ⟨t, c', hserve, hc', hsame⟩ := hc.outcome revents (kernel c.id)
      rw [← serve_eq hrepc] at hserve
      have hloop : serveAll p kernel (c :: cs)
          = some (if t then (kept, c' :: dropped) else (c' :: kept, dropped)) := by
        rw [serveAll, hserve]
        simp only [Option.bind_eq_bind, Option.bind_some, hrun]
        rfl
      have hmem : ∀ {d : Connection} {t' : Bool} {d' : Connection} {l : List Connection},
          (∀ x, x ∈ l ↔ x = c' ∨ x ∈ kept ++ dropped) → d ∈ c :: cs →
            serve p (kernel d.id) d = some (t', d') → d' ∈ l := by
        intro d t' d' l hl hd hd'
        rcases List.mem_cons.mp hd with rfl | hd
        · rw [hserve] at hd'
          cases hd'
          exact (hl _).mpr (.inl rfl)
        · exact (hl _).mpr (.inr (hserved d hd t' d' hd'))
      cases t with
      | true =>
          have hl : ∀ x, x ∈ kept ++ c' :: dropped ↔ x = c' ∨ x ∈ kept ++ dropped := by
            intro x
            simp only [List.mem_append, List.mem_cons]
            tauto
          refine ⟨kept, c' :: dropped, hloop, ?_, ?_, ?_, fun d hd _ _ hd' => hmem hl hd hd'⟩
          · intro x hx
            rcases (hl x).mp hx with rfl | hx
            · exact hc'
            · exact hsound x hx
          · exact hfds.trans (List.sublist_cons_self _ _)
          · rw [List.map_cons, List.map_append, List.map_cons, hsame.id]
            rw [List.map_append] at hids
            exact List.perm_middle.trans (hids.cons _)
      | false =>
          have hl : ∀ x, x ∈ c' :: kept ++ dropped ↔ x = c' ∨ x ∈ kept ++ dropped := by
            intro x
            rw [List.cons_append, List.mem_cons]
          refine ⟨c' :: kept, dropped, hloop, ?_, ?_, ?_, fun d hd _ _ hd' => hmem hl hd hd'⟩
          · intro x hx
            rcases (hl x).mp hx with rfl | hx
            · exact hc'
            · exact hsound x hx
          · rw [List.map_cons, List.map_cons, hsame.fd]
            exact hfds.cons_cons _
          · rw [List.cons_append, List.map_cons, List.map_cons, hsame.id]
            exact hids.cons _

/-- A call on one of the clients. -/
lemma callAt_keeps (id : ℕ) (a : Outside) {cs : List Connection} (h : ∀ c ∈ cs, Sound c) :
    ∃ cs', callAt id a cs = some cs' ∧ (∀ c ∈ cs', Sound c) ∧
      cs'.map Connection.fd = cs.map Connection.fd ∧
      cs'.map Connection.id = cs.map Connection.id := by
  induction cs with
  | nil => exact ⟨[], rfl, nofun, rfl, rfl⟩
  | cons c cs ih =>
      obtain ⟨hc, hcs⟩ := List.forall_mem_cons.mp h
      rw [callAt]
      split_ifs
      · obtain ⟨c', hcall, hc', hsame⟩ := hc.call a
        rw [hcall]
        refine ⟨c' :: cs, rfl, List.forall_mem_cons.mpr ⟨hc', hcs⟩, ?_, ?_⟩
        · rw [List.map_cons, List.map_cons, hsame.fd]
        · rw [List.map_cons, List.map_cons, hsame.id]
      · obtain ⟨cs', hcall, hcs', hfd, hid⟩ := ih hcs
        rw [hcall]
        refine ⟨c :: cs', rfl, List.forall_mem_cons.mpr ⟨hc, hcs'⟩, ?_, ?_⟩
        · rw [List.map_cons, List.map_cons, hfd]
        · rw [List.map_cons, List.map_cons, hid]

/-! ### The server -/

/-- The server between two events. -/
structure Inv (cap : ℕ) (s : Server) : Prop where
  cells : PollSet.Cells cap s.pollset
  size : s.pollset.size = 0
  fds : (s.clients.map Connection.fd).Nodup
  inTable : ∀ fd ∈ s.clients.map Connection.fd, PollSet.InTable cap fd
  ids : ((s.clients ++ s.removed).map Connection.id).Perm (List.range s.accepted)
  sound : ∀ c ∈ s.clients ++ s.removed, Sound c

/-- Descriptors that all differ are no more than the cells they have. -/
lemma length_le_of_inTable {cap : ℕ} {fds : List ℤ} (hnodup : fds.Nodup)
    (hin : ∀ fd ∈ fds, PollSet.InTable cap fd) : fds.length ≤ cap := by
  have hsub : fds ⊆ (List.range cap).map Int.ofNat := by
    intro fd hfd
    obtain ⟨hpos, hlt⟩ := hin fd hfd
    refine List.mem_map.mpr ⟨fd.toNat, List.mem_range.mpr (by omega), ?_⟩
    exact Int.toNat_of_nonneg hpos
  calc fds.length ≤ ((List.range cap).map Int.ofNat).length :=
        (List.subperm_of_subset hnodup hsub).length_le
    _ = cap := by rw [List.length_map, List.length_range]

/-- **The round of a check** stays within the arrays, and each client is answered from its own
entry. -/
lemma round_reports {cap : ℕ} {s : Server} (h : Inv cap s) (revents : ℕ → U16) :
    ∃ p, s.pollset.round ⟨s.clients.map fun c => (c.fd, events), revents⟩ = some p ∧
      PollSet.Cells cap p ∧ p.size = 0 ∧
      ∀ (n : ℕ) (c : Connection), s.clients[n]? = some c → Reported p (revents n) c := by
  obtain ⟨hiff, hall⟩ := PollSet.round_iff h.cells h.size
    ⟨s.clients.map fun c => (c.fd, events), revents⟩
  have hfits : PollSet.Fits cap ⟨s.clients.map fun c => (c.fd, events), revents⟩ := by
    refine ⟨?_, ?_⟩
    · have hle := length_le_of_inTable h.fds h.inTable
      rwa [List.length_map] at hle ⊢
    · intro w hw
      obtain ⟨c, hc, rfl⟩ := List.mem_map.mp hw
      exact h.inTable c.fd (List.mem_map_of_mem hc)
  obtain ⟨p, hp⟩ := hiff.mpr hfits
  have hrep := hall p hp
  refine ⟨p, hp, hrep.cells, hrep.size, fun n c hc ask => ?_⟩
  have hfst : ∀ m : ℕ, ((s.clients.map fun c => (c.fd, events))[m]?).map Prod.fst
      = (s.clients.map Connection.fd)[m]? := by
    intro m
    rw [List.getElem?_map, List.getElem?_map, Option.map_map]
    rfl
  have hn : (s.clients.map Connection.fd)[n]? = some c.fd := by
    rw [List.getElem?_map, hc, Option.map_some]
  refine hrep.ready n c.fd ⟨(hfst n).trans hn, fun m hm hsome => ?_⟩ ask
  -- no two clients have the same descriptor
  rw [hfst] at hsome
  obtain ⟨hlt, hget⟩ := List.getElem?_eq_some_iff.mp hn
  obtain ⟨hlt', hget'⟩ := List.getElem?_eq_some_iff.mp hsome
  have heq : n = m := (List.Nodup.getElem_inj_iff h.fds).mp (hget.trans hget'.symm)
  omega

/-- **A check** never faults; every client is served from its own entry. -/
lemma check_keeps {cap : ℕ} {s : Server} (h : Inv cap s) (revents : ℕ → U16)
    (kernel : ℕ → Kernel) :
    ∃ s', check_clients s revents kernel = some s' ∧ Inv cap s' ∧
      ∀ (n : ℕ) (c : Connection), s.clients[n]? = some c →
        ∀ t c', outcome (revents n) (kernel c.id) c = some (t, c') →
          c' ∈ s'.clients ++ s'.removed := by
  obtain ⟨p, hround, hcells, hsize, hrep⟩ := round_reports h revents
  obtain ⟨hclients, hremoved⟩ := List.forall_mem_append.mp h.sound
  have hreported : ∀ c ∈ s.clients, ∃ revents, Reported p revents c := by
    intro c hc
    obtain ⟨n, hn⟩ := List.getElem?_of_mem hc
    exact ⟨revents n, hrep n c hn⟩
  obtain ⟨kept, dropped, hloop, hsound, hfds, hids, hserved⟩ :=
    serveAll_keeps kernel hclients hreported
  obtain ⟨hkept, hdropped⟩ := List.forall_mem_append.mp hsound
  refine ⟨{ s with clients := kept, pollset := p, removed := s.removed ++ dropped }, ?_,
    ⟨hcells, hsize, hfds.nodup h.fds, fun fd hfd => h.inTable fd (hfds.subset hfd), ?_, ?_⟩, ?_⟩
  · rw [check_clients, hround]
    simp only [Option.bind_eq_bind, Option.bind_some, hloop]
    rfl
  · calc (kept ++ (s.removed ++ dropped)).map Connection.id
        ~ (kept ++ dropped).map Connection.id ++ s.removed.map Connection.id := by
          rw [← List.map_append, List.append_assoc]
          exact (List.perm_append_comm.append_left kept).map _
      _ ~ s.clients.map Connection.id ++ s.removed.map Connection.id := hids.append_right _
      _ ~ List.range s.accepted := by
          rw [← List.map_append]
          exact h.ids
  · exact List.forall_mem_append.mpr ⟨hkept, List.forall_mem_append.mpr ⟨hremoved, hdropped⟩⟩
  · intro n c hc t c' hout
    rw [← serve_eq (hrep n c hc)] at hout
    have hmem := hserved c (List.mem_of_getElem? hc) t c' hout
    rcases List.mem_append.mp hmem with hk | hd
    · exact List.mem_append_left _ hk
    · exact List.mem_append_right _ (List.mem_append_right _ hd)

/-- **One event** that is possible keeps the invariant. -/
lemma step_keeps {cap : ℕ} {s : Server} (h : Inv cap s) {e : Event} (he : Possible cap s e) :
    ∃ s', step s e = some s' ∧ Inv cap s' := by
  obtain ⟨hclients, hremoved⟩ := List.forall_mem_append.mp h.sound
  cases e with
  | check revents kernel =>
      obtain ⟨s', hcheck, h', -⟩ := check_keeps h revents kernel
      exact ⟨s', hcheck, h'⟩
  | call id a =>
      obtain ⟨cs, hcall, hsound, hfd, hid⟩ := callAt_keeps id a hclients
      refine ⟨{ s with clients := cs }, by rw [step, hcall, Option.map_some],
        ⟨h.cells, h.size, hfd ▸ h.fds, hfd ▸ h.inTable, ?_, ?_⟩⟩
      · rw [List.map_append, hid, ← List.map_append]
        exact h.ids
      · exact List.forall_mem_append.mpr ⟨hsound, hremoved⟩
  | connect fd ip =>
      obtain ⟨hin, hfree⟩ := he
      have hfd : (add_connection s fd ip).clients.map Connection.fd
          = s.clients.map Connection.fd ++ [fd] := by
        rw [add_connection, List.map_append, List.map_map]
        congr 1
        refine List.map_congr_left fun c _ => ?_
        show (if c.ip = ip then { c with dead := true } else c).fd = c.fd
        split_ifs <;> rfl
      have hid : (add_connection s fd ip).clients.map Connection.id
          = s.clients.map Connection.id ++ [s.accepted] := by
        rw [add_connection, List.map_append, List.map_map]
        congr 1
        refine List.map_congr_left fun c _ => ?_
        show (if c.ip = ip then { c with dead := true } else c).id = c.id
        split_ifs <;> rfl
      refine ⟨add_connection s fd ip, rfl, ⟨h.cells, h.size, ?_, ?_, ?_, ?_⟩⟩
      · rw [hfd]
        exact List.nodup_append.mpr ⟨h.fds, List.nodup_singleton _, fun x hx y hy => by
          rintro rfl
          exact hfree (List.mem_singleton.mp hy ▸ hx)⟩
      · rw [hfd]
        exact List.forall_mem_append.mpr ⟨h.inTable, List.forall_mem_singleton.mpr hin⟩
      · rw [List.map_append, hid]
        show (s.clients.map Connection.id ++ [s.accepted] ++ s.removed.map Connection.id).Perm
          (List.range (s.accepted + 1))
        rw [List.range_succ]
        have hids := h.ids
        rw [List.map_append] at hids
        calc s.clients.map Connection.id ++ [s.accepted] ++ s.removed.map Connection.id
            ~ s.clients.map Connection.id ++ s.removed.map Connection.id ++ [s.accepted] := by
              rw [List.append_assoc, List.append_assoc]
              exact List.perm_append_comm.append_left _
          _ ~ List.range s.accepted ++ [s.accepted] := hids.append_right _
      · refine List.forall_mem_append.mpr ⟨List.forall_mem_append.mpr ⟨?_, ?_⟩, hremoved⟩
        · intro c hc
          obtain ⟨c₀, hc₀, rfl⟩ := List.mem_map.mp hc
          have h₀ := hclients c₀ hc₀
          split_ifs
          · exact ⟨h₀.inv, h₀.heard⟩
          · exact h₀
        · exact List.forall_mem_singleton.mpr (sound_connect _ _ _)

lemma inv_opened {cap : ℕ} {index : List ℕ} {table : List Pollfd} (hindex : index.length = cap)
    (htable : table.length = cap) : Inv cap (opened index table) :=
  ⟨⟨hindex, htable⟩, rfl, List.nodup_nil, nofun, .refl _, nofun⟩

/-- What holds of the server in every state that is reached. -/
structure Served (s : Server) : Prop where
  /-- Each connection is in the list or was removed, once. -/
  once : ((s.clients ++ s.removed).map Connection.id).Perm (List.range s.accepted)
  /-- What the peer wrote is what the server read, then what is outstanding. -/
  read : ∀ c ∈ s.clients ++ s.removed, c.heard.map (fun x => carried x.com)
    = (c.link.read .right).map carried
      ++ (framing.parse (c.link.way .left).outstanding).1.map unframe

/-- **The server serves its connections apart.** Over every run in which the kernel gives each
new connection a free descriptor that the arrays have a cell for: nothing faults, each
connection is in the list or was removed from it, once, and what was read from it is, in order,
what its peer wrote while it was connected, up to what is outstanding. -/
theorem serving_run (cap : ℕ) (index : List ℕ) (table : List Pollfd) (hindex : index.length = cap)
    (htable : table.length = cap) (es : List Event)
    (h : Runs.Always step (Possible cap) (opened index table) es) :
    ∃ s, Runs.run step (opened index table) es = some s ∧ Served s := by
  obtain ⟨s, hrun, hinv⟩ := Runs.run_succeeds (fun _ _ hI he => step_keeps hI he)
    (inv_opened hindex htable) h
  exact ⟨s, hrun, hinv.ids, fun c hc => (hinv.sound c hc).heard_eq⟩

/-- A command that the peer writes. -/
def peerWrites : Outside :=
  .peerSends (.write ⟨72, by decide, fun _ => 170⟩ ⟨new 19, rfl, rfl⟩ [.bytes 3])

/-- Two connections, and a command on each of them. -/
def twoWritten : List Event :=
  [.connect 3 16777343, .connect 2 33554559, .call 0 peerWrites, .call 1 peerWrites]

/-- The kernel reports a client readable, and delivers to it. -/
def delivering : Kernel :=
  ⟨⟨16, by decide, fun _ => 0⟩, .bytes 3 :: List.replicate 65539 (.bytes 3), []⟩

/-- A check is possible in every state. -/
lemma always_checks {cap : ℕ} (checks : List ((ℕ → U16) × (ℕ → Kernel))) (s : Server) :
    Runs.Always step (Possible cap) s (checks.map fun c => .check c.1 c.2) := by
  induction checks generalizing s with
  | nil => trivial
  | cons c checks ih => exact ⟨trivial, fun s' _ => ih s'⟩

lemma twoWritten_possible (checks : List ((ℕ → U16) × (ℕ → Kernel))) :
    Runs.Always step (Possible 4) (opened [9, 9, 9, 9] (List.replicate 4 ⟨9, 9, 9⟩))
      (twoWritten ++ checks.map fun c => .check c.1 c.2) := by
  refine ⟨⟨by decide, nofun⟩, fun s hs => ?_⟩
  obtain rfl := Option.some.inj hs
  exact ⟨⟨by decide, by decide⟩,
    fun _ _ => ⟨trivial, fun _ _ => ⟨trivial, fun s _ => always_checks checks s⟩⟩⟩

/-- Both connections are checked, when the kernel reports the first one. -/
theorem serving_run_two :
    ∃ s, Runs.run step (opened [9, 9, 9, 9] (List.replicate 4 ⟨9, 9, 9⟩))
        (twoWritten ++ [.check (fun n => if n = 0 then 1 else 0) fun _ => delivering]) = some s ∧
      Served s :=
  serving_run 4 [9, 9, 9, 9] (List.replicate 4 ⟨9, 9, 9⟩) rfl rfl _
    (twoWritten_possible [(fun n => if n = 0 then 1 else 0, fun _ => delivering)])

/-- **A check reads from every client that has something.** From every state that is reached: a
live client whose next command has arrived, whom the kernel reports readable and to whom it
delivers, has one command more read from it, whatever comes of the other clients. -/
theorem check_reads (cap : ℕ) (index : List ℕ) (table : List Pollfd) (hindex : index.length = cap)
    (htable : table.length = cap) (es : List Event)
    (h : Runs.Always step (Possible cap) (opened index table) es) (s : Server)
    (hrun : Runs.run step (opened index table) es = some s) (revents : ℕ → U16)
    (kernel : ℕ → Kernel) :
    ∃ s', check_clients s revents kernel = some s' ∧
      ∀ (n : ℕ) (c : Connection), s.clients[n]? = some c → c.dead = false →
        (revents n &&& PollSet.POLLIN != 0) = true →
        framing.Ready ((c.link.client .right).held ++ c.link.flight .left) →
        Delivers 65539 (kernel c.id).recv →
          ∃ c' ∈ s'.clients ++ s'.removed, c'.id = c.id ∧
            ∃ com, c'.link.read .right = c.link.read .right ++ [com] := by
  obtain ⟨s₀, hrun₀, hinv⟩ := Runs.run_succeeds (fun _ _ hI he => step_keeps hI he)
    (inv_opened hindex htable) h
  obtain rfl := Option.some.inj (hrun₀.symm.trans hrun)
  obtain ⟨s', hcheck, -, hserved⟩ := check_keeps hinv revents kernel
  refine ⟨s', hcheck, fun n c hc hdead hin hready hall => ?_⟩
  have hsound := hinv.sound c (List.mem_append_left _ (List.mem_of_getElem? hc))
  obtain ⟨t, c', hout, com, hread⟩ := hsound.outcome_reads hdead hin hready hall
  obtain ⟨t', c'', hout', -, hsame⟩ := hsound.outcome (revents n) (kernel c.id)
  rw [hout] at hout'
  cases hout'
  exact ⟨c', hserved n c hc t c' hout, hsame.id, com, hread⟩

/-- The command is read. -/
theorem check_reads_two :
    ∃ s', check_clients
        ((Runs.run step (opened [9, 9, 9, 9] (List.replicate 4 ⟨9, 9, 9⟩)) twoWritten).get rfl)
        (fun _ => 1) (fun _ => delivering) = some s' ∧
      ∃ c' ∈ s'.clients ++ s'.removed, c'.id = 1 ∧ ∃ com, c'.link.read .right = [com] := by
  obtain ⟨s', hcheck, hserved⟩ := check_reads 4 [9, 9, 9, 9] (List.replicate 4 ⟨9, 9, 9⟩) rfl rfl
    twoWritten (twoWritten_possible []) _ (Option.some_get rfl).symm (fun _ => 1)
    (fun _ => delivering)
  refine ⟨s', hcheck, hserved 1 _ rfl rfl rfl (by decide) ⟨3, _, rfl, le_rfl, ?_, ?_⟩⟩
  · rw [List.length_replicate]
  · exact fun _ ha => ⟨3, List.eq_of_mem_replicate ha⟩

end Napd.Serving
