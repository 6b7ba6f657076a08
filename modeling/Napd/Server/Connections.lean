import Napd.Server.Model

/-!
Every accepted connection is served once, and each address has one that is live.

* `Next`, `next_of_step`: what each step finds and what it makes of the server.
* `Inv`: the invariant of all interleavings, `inv_next` for one step and `inv_run` for a run.
* `Served`: what it says about the lists; `served_of_run`: it holds in every state that is
  reached.
-/

namespace Napd.Server

/-! ### One step -/

/-- What a step finds, and what it makes of the server. -/
inductive Next (s : State) : Step → State → Prop where
  | accept (ip : U32) (h : s.acceptAt = .accept) : Next s (.accept ip) (accept s ip)
  | acceptThrows (h : s.acceptAt = .accept) : Next s .acceptThrows s
  | acceptLock (c : Client) (h : s.acceptAt = .lock c) (hm : s.mutex = none) :
      Next s .acceptLock { s with mutex := some .acceptLoop, acceptAt := .push c }
  | acceptPush (c : Client) (h : s.acceptAt = .push c) :
      Next s .acceptPush { s with incoming := s.incoming ++ [c], acceptAt := .unlock }
  | acceptUnlock (h : s.acceptAt = .unlock) :
      Next s .acceptUnlock { s with mutex := none, acceptAt := .accept }
  | checkIncoming (h : s.mainAt = .idle) (hm : s.mutex = none) :
      Next s .checkIncoming { s with mutex := some .main, mainAt := .add 0 }
  | addConnection (i : ℕ) (c : Client) (h : s.mainAt = .add i) (hc : s.incoming[i]? = some c) :
      Next s .addConnection { add_connection s c with mainAt := .add (i + 1) }
  | clearIncoming (h : s.mainAt = .add s.incoming.length) :
      Next s .clearIncoming { s with incoming := [], mainAt := .unlock }
  | unlockIncoming (h : s.mainAt = .unlock) :
      Next s .unlockIncoming { s with mutex := none, mainAt := .idle }
  | pollThrows (h : s.mainAt = .idle) : Next s (.checkClients true) s
  | checkClients (h : s.mainAt = .idle) :
      Next s (.checkClients false) { s with mainAt := .check 0 }
  | drop (i : ℕ) (c : Client) (throws : Bool) (h : s.mainAt = .check i)
      (hc : s.clients[i]? = some c) (hd : c.dead = true ∨ throws = true) :
      Next s (.serve throws) (remove_connection s i)
  | keep (i : ℕ) (c : Client) (h : s.mainAt = .check i) (hc : s.clients[i]? = some c)
      (hd : c.dead = false) : Next s (.serve false) { s with mainAt := .check (i + 1) }
  | checked (h : s.mainAt = .check s.clients.length) :
      Next s .checked { s with mainAt := .idle }

lemma next_of_step {s s' : State} {i : Step} (h : step s i = some s') : Next s i s' := by
  cases i with
  | accept ip =>
      rw [step] at h
      split_ifs at h with ha
      exact Option.some.inj h ▸ .accept ip ha
  | acceptThrows =>
      rw [step] at h
      split_ifs at h with ha
      exact Option.some.inj h ▸ .acceptThrows ha
  | acceptLock =>
      rw [step] at h
      split at h
      · exact Option.some.inj h ▸ .acceptLock _ ‹_› ‹_›
      · cases h
  | acceptPush =>
      rw [step] at h
      split at h
      · exact Option.some.inj h ▸ .acceptPush _ ‹_›
      · cases h
  | acceptUnlock =>
      rw [step] at h
      split_ifs at h with ha
      exact Option.some.inj h ▸ .acceptUnlock ha
  | checkIncoming =>
      rw [step] at h
      split_ifs at h with hm
      exact Option.some.inj h ▸ .checkIncoming hm.1 hm.2
  | addConnection =>
      rw [step] at h
      split at h
      · obtain ⟨c, hc, rfl⟩ := Option.map_eq_some_iff.mp h
        exact .addConnection _ c ‹_› hc
      · cases h
  | clearIncoming =>
      rw [step] at h
      split at h
      · split_ifs at h with hi
        subst hi
        exact Option.some.inj h ▸ .clearIncoming ‹_›
      · cases h
  | unlockIncoming =>
      rw [step] at h
      split_ifs at h with hm
      exact Option.some.inj h ▸ .unlockIncoming hm
  | checkClients pollThrows =>
      rw [step] at h
      split_ifs at h with hm ht
      · subst ht
        exact Option.some.inj h ▸ .pollThrows hm
      · rw [Bool.not_eq_true] at ht
        subst ht
        exact Option.some.inj h ▸ .checkClients hm
  | serve throws =>
      rw [step] at h
      split at h
      · obtain ⟨c, hc, rfl⟩ := Option.map_eq_some_iff.mp h
        rw [serve]
        by_cases hd : c.dead = true ∨ throws = true
        · rw [if_pos (by rw [Bool.or_eq_true]; exact hd)]
          exact .drop _ c throws ‹_› hc hd
        · rw [if_neg (by rw [Bool.or_eq_true]; exact hd)]
          rw [not_or, Bool.not_eq_true, Bool.not_eq_true] at hd
          obtain ⟨hlive, rfl⟩ := hd
          exact .keep _ c ‹_› hc hlive
      · cases h
  | checked =>
      rw [step] at h
      split_ifs at h with hm
      exact Option.some.inj h ▸ .checked hm

/-! ### The invariant -/

/-- The client that `accept_loop` has not pushed yet. -/
def AcceptAt.hand : AcceptAt → List Client
  | .lock c => [c]
  | .push c => [c]
  | _ => []

def AcceptAt.holds : AcceptAt → Bool
  | .push _ => true
  | .unlock => true
  | _ => false

def MainAt.holds : MainAt → Bool
  | .add _ => true
  | .unlock => true
  | _ => false

/-- The clients in `incoming` for which `add_connection` was not called yet. -/
def State.pending (s : State) : List Client :=
  match s.mainAt with
  | .add i => s.incoming.drop i
  | _ => s.incoming

/-- The last of some clients with an address. -/
def lastWith (ip : U32) (cs : List Client) : Option Client :=
  (cs.filter fun c => c.ip = ip).getLast?

/-- The threads exclude each other; no client is lost, doubled or overtaken; a live client is
the last one that was added with its address; and `check_clients` leaves live clients behind. -/
structure Inv (s : State) : Prop where
  acceptHolds : s.acceptAt.holds = true ↔ s.mutex = some .acceptLoop
  mainHolds : s.mainAt.holds = true ↔ s.mutex = some .main
  order : s.added ++ (s.pending ++ s.acceptAt.hand) = s.accepted
  ids : s.accepted.map Client.id = List.range s.accepted.length
  sub : (s.clients.map Client.id).Sublist (s.added.map Client.id)
  last : ∀ c ∈ s.clients, c.dead = false → lastWith c.ip s.added = some c
  passed : ∀ i, s.mainAt = .check i → ∀ c ∈ s.clients.take i, c.dead = false

lemma inv_start : Inv start where
  acceptHolds := by simp [start, AcceptAt.holds]
  mainHolds := by simp [start, MainAt.holds]
  order := rfl
  ids := rfl
  sub := List.Sublist.refl _
  last := by simp [start]
  passed := by simp [start]

section Steps

variable {s s' : State} {i : Step}

lemma acceptHolds_next (hI : Inv s) (h : Next s i s') :
    s'.acceptAt.holds = true ↔ s'.mutex = some .acceptLoop := by
  have ha := hI.acceptHolds
  have hm := hI.mainHolds
  cases h with
  | accept ip h =>
      rw [h] at ha
      exact ha
  | acceptThrows h => exact ha
  | acceptLock c h hm => exact iff_of_true rfl rfl
  | acceptPush c h =>
      rw [h] at ha
      exact ha
  | acceptUnlock h => simp [AcceptAt.holds]
  | checkIncoming h hfree =>
      rw [hfree] at ha
      simpa using ha
  | addConnection j c h hc => exact ha
  | clearIncoming h => exact ha
  | unlockIncoming h =>
      rw [hm.mp (by rw [h]; rfl)] at ha
      simpa using ha
  | pollThrows h => exact ha
  | checkClients h => exact ha
  | drop j c throws h hc hd => exact ha
  | keep j c h hc hd => exact ha
  | checked h => exact ha

lemma mainHolds_next (hI : Inv s) (h : Next s i s') :
    s'.mainAt.holds = true ↔ s'.mutex = some .main := by
  have ha := hI.acceptHolds
  have hm := hI.mainHolds
  cases h with
  | accept ip h => exact hm
  | acceptThrows h => exact hm
  | acceptLock c h hfree =>
      rw [hfree] at hm
      simpa using hm
  | acceptPush c h => exact hm
  | acceptUnlock h =>
      rw [ha.mp (by rw [h]; rfl)] at hm
      simpa using hm
  | checkIncoming h hfree => exact iff_of_true rfl rfl
  | addConnection j c h hc =>
      rw [h] at hm
      exact hm
  | clearIncoming h =>
      rw [h] at hm
      exact hm
  | unlockIncoming h => simp [MainAt.holds]
  | pollThrows h => exact hm
  | checkClients h =>
      rw [h] at hm
      exact hm
  | drop j c throws h hc hd => exact hm
  | keep j c h hc hd =>
      rw [h] at hm
      exact hm
  | checked h =>
      rw [h] at hm
      exact hm

lemma mainHolds_of_acceptHolds (hI : Inv s) (h : s.acceptAt.holds = true) :
    s.mainAt.holds = false := by
  by_contra hm
  rw [Bool.not_eq_false] at hm
  have hboth := (hI.acceptHolds.mp h).symm.trans (hI.mainHolds.mp hm)
  cases hboth

lemma pending_of_mainAt {j : ℕ} (h : s.mainAt = .add j) : s.pending = s.incoming.drop j := by
  rw [State.pending, h]

lemma pending_of_ne_add (h : ∀ j, s.mainAt ≠ .add j) : s.pending = s.incoming := by
  rw [State.pending]
  split
  · exact absurd ‹_› (h _)
  · rfl

/-- Before and behind `check_incoming`, and in `check_clients`, all of `incoming` is pending. -/
lemma pending_of_not_add (h : s.mainAt = .idle ∨ s.mainAt = .unlock ∨ ∃ j, s.mainAt = .check j) :
    s.pending = s.incoming := by
  refine pending_of_ne_add fun j hj => ?_
  rw [hj] at h
  rcases h with h | h | ⟨k, h⟩
  · cases h
  · cases h
  · cases h

/-- No client is lost, doubled or overtaken. -/
lemma order_next (hI : Inv s) (h : Next s i s') :
    s'.added ++ (s'.pending ++ s'.acceptAt.hand) = s'.accepted := by
  have ho := hI.order
  cases h with
  | accept ip h =>
      have hhand : s.acceptAt.hand = [] := by
        rw [h]
        rfl
      rw [hhand, List.append_nil] at ho
      show s.added ++ (s.pending ++ [_]) = s.accepted ++ [_]
      rw [← List.append_assoc, ho]
  | acceptThrows h => exact ho
  | acceptLock c h hfree =>
      rw [h] at ho
      exact ho
  | acceptPush c h =>
      -- the lock keeps the main loop out of `incoming`
      have hout : ∀ j, s.mainAt ≠ .add j := by
        intro j hj
        have hm := mainHolds_of_acceptHolds hI (by rw [h]; rfl)
        rw [hj] at hm
        cases hm
      have hpushed : State.pending { s with incoming := s.incoming ++ [c], acceptAt := .unlock }
          = s.incoming ++ [c] := pending_of_ne_add hout
      rw [pending_of_ne_add hout, h] at ho
      rw [hpushed]
      show s.added ++ (s.incoming ++ [c] ++ []) = s.accepted
      rw [List.append_nil]
      exact ho
  | acceptUnlock h =>
      rw [h] at ho
      exact ho
  | checkIncoming h hfree =>
      rw [pending_of_not_add (.inl h)] at ho
      exact ho
  | addConnection j c h hc =>
      obtain ⟨hj, hget⟩ := List.getElem?_eq_some_iff.mp hc
      rw [pending_of_mainAt h, List.drop_eq_getElem_cons hj, hget] at ho
      show s.added ++ [c] ++ (s.incoming.drop (j + 1) ++ s.acceptAt.hand) = s.accepted
      rw [List.append_assoc]
      exact ho
  | clearIncoming h =>
      rw [pending_of_mainAt h, List.drop_length] at ho
      exact ho
  | unlockIncoming h =>
      rw [pending_of_not_add (.inr (.inl h))] at ho
      exact ho
  | pollThrows h => exact ho
  | checkClients h =>
      rw [pending_of_not_add (.inl h)] at ho
      exact ho
  | drop j c throws h hc hd => exact ho
  | keep j c h hc hd =>
      rw [pending_of_not_add (.inr (.inr ⟨j, h⟩))] at ho
      exact ho
  | checked h =>
      rw [pending_of_not_add (.inr (.inr ⟨_, h⟩))] at ho
      exact ho

lemma ids_next (hI : Inv s) (h : Next s i s') :
    s'.accepted.map Client.id = List.range s'.accepted.length := by
  have hids := hI.ids
  cases h with
  | accept ip h =>
      show (s.accepted ++ [_]).map Client.id = List.range (s.accepted ++ [_]).length
      rw [List.map_append, hids, List.length_append, List.length_singleton, List.range_succ]
      rfl
  | _ => exact hids

lemma map_id_markDead (ip : U32) (cs : List Client) :
    (markDead ip cs).map Client.id = cs.map Client.id := by
  rw [markDead, List.map_map]
  refine List.map_congr_left fun c _ => ?_
  rw [Function.comp_apply]
  split_ifs
  · rfl
  · rfl

lemma sub_next (hI : Inv s) (h : Next s i s') :
    (s'.clients.map Client.id).Sublist (s'.added.map Client.id) := by
  have hsub := hI.sub
  cases h with
  | addConnection j c h hc =>
      show ((markDead c.ip s.clients ++ [c]).map Client.id).Sublist ((s.added ++ [c]).map Client.id)
      rw [List.map_append, List.map_append, map_id_markDead]
      exact hsub.append_right _
  | drop j c throws h hc hd =>
      exact ((List.eraseIdx_sublist s.clients j).map Client.id).trans hsub
  | _ => exact hsub

/-- A client that is not marked was there before, with another address. -/
lemma mem_markDead_live {ip : U32} {cs : List Client} {c : Client} (h : c ∈ markDead ip cs)
    (hd : c.dead = false) : c ∈ cs ∧ c.ip ≠ ip := by
  obtain ⟨d, hdm, rfl⟩ := List.mem_map.mp h
  by_cases hip : d.ip = ip
  · rw [if_pos hip] at hd
    cases hd
  · rw [if_neg hip]
    exact ⟨hdm, hip⟩

/-- A live client is the last one that was added with its address. -/
lemma last_next (hI : Inv s) (h : Next s i s') :
    ∀ c ∈ s'.clients, c.dead = false → lastWith c.ip s'.added = some c := by
  have hlast := hI.last
  cases h with
  | addConnection j lc h hc =>
      intro c hmem hd
      show lastWith c.ip (s.added ++ [lc]) = some c
      rw [lastWith, List.filter_append]
      rcases List.mem_append.mp hmem with hold | hnew
      · obtain ⟨hcs, hip⟩ := mem_markDead_live hold hd
        have hnone : [lc].filter (fun d => d.ip = c.ip) = [] := by
          simpa using hip.symm
        rw [hnone, List.append_nil]
        exact hlast c hcs hd
      · rw [List.mem_singleton.mp hnew]
        have hone : [lc].filter (fun d => d.ip = lc.ip) = [lc] := by
          simp
        rw [hone]
        exact List.getLast?_concat
  | drop j c throws h hc hd =>
      intro c hmem
      exact hlast c ((List.eraseIdx_sublist s.clients j).subset hmem)
  | _ => exact hlast

/-- `check_clients` leaves live clients behind. -/
lemma passed_next (hI : Inv s) (h : Next s i s') :
    ∀ j, s'.mainAt = .check j → ∀ c ∈ s'.clients.take j, c.dead = false := by
  have hp := hI.passed
  cases h with
  | addConnection j lc h hc =>
      intro k hk
      cases hk
  | checkClients h =>
      intro k hk
      obtain rfl := MainAt.check.inj hk
      intro c hc
      cases hc
  | drop j c throws h hc hd =>
      intro k hk d hmem
      have hk' : s.mainAt = .check k := hk
      obtain rfl := MainAt.check.inj (h.symm.trans hk')
      refine hp j h d ?_
      have htake : (s.clients.eraseIdx j).take j = s.clients.take j := by
        rw [List.take_eraseIdx_eq_take_of_le _ _ _ le_rfl]
      exact htake ▸ hmem
  | keep j c h hc hd =>
      intro k hk d hmem
      obtain rfl := MainAt.check.inj hk
      have hmem' : d ∈ s.clients.take (j + 1) := hmem
      rw [List.take_add_one, hc, Option.toList_some, List.mem_append, List.mem_singleton] at hmem'
      rcases hmem' with hold | rfl
      · exact hp j h d hold
      · exact hd
  | checkIncoming h hfree =>
      intro k hk
      cases hk
  | clearIncoming h =>
      intro k hk
      cases hk
  | unlockIncoming h =>
      intro k hk
      cases hk
  | checked h =>
      intro k hk
      cases hk
  | _ => exact hp

/-- **The invariant, for one step.** -/
lemma inv_next (hI : Inv s) (h : Next s i s') : Inv s' where
  acceptHolds := acceptHolds_next hI h
  mainHolds := mainHolds_next hI h
  order := order_next hI h
  ids := ids_next hI h
  sub := sub_next hI h
  last := last_next hI h
  passed := passed_next hI h

end Steps

/-- The invariant holds in every state that is reached. -/
lemma inv_run {is : List Step} {s : State} (h : Runs.run step start is = some s) : Inv s :=
  Runs.run_keeps (fun _ _ _ hI hs => inv_next hI (next_of_step hs)) inv_start h

/-! ### What it says about the connections -/

/-- Every accepted client is added once, in the order of acceptance, or waits for it, in
`incoming` or in the hand of `accept_loop`; an address has at most one live client, the last
that was added; and `check_clients` returns with live clients of different addresses. -/
structure Served (s : State) : Prop where
  order : s.added ++ (s.pending ++ s.acceptAt.hand) = s.accepted
  between : s.acceptAt = .accept → s.added ++ s.pending = s.accepted
  once : (s.accepted.map Client.id).Nodup
  oneLive : ∀ ip, (s.clients.filter fun c => c.ip = ip ∧ c.dead = false).length ≤ 1
  mostRecent : ∀ c ∈ s.clients, c.dead = false → lastWith c.ip s.added = some c
  checked : ∀ s', step s .checked = some s' →
    (∀ c ∈ s'.clients, c.dead = false) ∧ (s'.clients.map Client.ip).Nodup

section Served

variable {s : State}

lemma nodup_accepted (hI : Inv s) : (s.accepted.map Client.id).Nodup := by
  rw [hI.ids]
  exact List.nodup_range

lemma nodup_clients (hI : Inv s) : s.clients.Nodup := by
  have hadded : (s.added.map Client.id).Nodup := by
    have hacc := nodup_accepted hI
    rw [← hI.order, List.map_append] at hacc
    exact hacc.of_append_left
  exact (hadded.sublist hI.sub).of_map

/-- Live clients with one address are the same client. -/
lemma eq_of_live (hI : Inv s) {c d : Client} (hc : c ∈ s.clients) (hd : d ∈ s.clients)
    (hclive : c.dead = false) (hdlive : d.dead = false) (hip : c.ip = d.ip) : c = d := by
  have hcl := hI.last c hc hclive
  have hdl := hI.last d hd hdlive
  rw [hip, hdl] at hcl
  exact (Option.some.inj hcl).symm

lemma length_le_one_of_nodup {α : Type*} {l : List α} (h : l.Nodup)
    (heq : ∀ x ∈ l, ∀ y ∈ l, x = y) : l.length ≤ 1 := by
  rcases l with - | ⟨x, - | ⟨y, l⟩⟩
  · exact Nat.zero_le 1
  · exact le_rfl
  · have hxy := heq x List.mem_cons_self y (List.mem_cons_of_mem x List.mem_cons_self)
    exact absurd (hxy ▸ List.mem_cons_self) (List.nodup_cons.mp h).1

lemma oneLive_of_inv (hI : Inv s) (ip : U32) :
    (s.clients.filter fun c => c.ip = ip ∧ c.dead = false).length ≤ 1 := by
  refine length_le_one_of_nodup ((nodup_clients hI).filter _) ?_
  intro c hc d hd
  rw [List.mem_filter, decide_eq_true_iff] at hc hd
  exact eq_of_live hI hc.1 hd.1 hc.2.2 hd.2.2 (hc.2.1.trans hd.2.1.symm)

lemma checked_of_inv (hI : Inv s) {s' : State} (h : step s .checked = some s') :
    (∀ c ∈ s'.clients, c.dead = false) ∧ (s'.clients.map Client.ip).Nodup := by
  cases next_of_step h with
  | checked hm =>
      have hlive := hI.passed _ hm
      rw [List.take_length] at hlive
      refine ⟨hlive, (nodup_clients hI).map_on ?_⟩
      intro c hc d hd hip
      exact eq_of_live hI hc hd (hlive c hc) (hlive d hd) hip

end Served

/-- **Every connection is served once, and each address has one that is live**, whatever the
order of the threads' steps, and whichever operations on clients throw. -/
theorem served_of_run (is : List Step) (s : State) (h : Runs.run step start is = some s) :
    Served s where
  order := (inv_run h).order
  between := by
    intro ha
    have ho := (inv_run h).order
    have hhand : s.acceptAt.hand = [] := by
      rw [ha]
      rfl
    rwa [hhand, List.append_nil] at ho
  once := nodup_accepted (inv_run h)
  oneLive := oneLive_of_inv (inv_run h)
  mostRecent := (inv_run h).last
  checked := fun _ hs => checked_of_inv (inv_run h) hs

/-- A client connects twice: its second connection is accepted while the first is served. -/
def twice : List Step :=
  [.accept 7, .acceptLock, .acceptPush, .acceptUnlock, .checkIncoming, .addConnection,
    .accept 7, .clearIncoming, .unlockIncoming, .acceptLock, .checkClients false, .acceptPush,
    .serve false, .acceptUnlock, .checked, .checkIncoming, .addConnection, .clearIncoming,
    .unlockIncoming, .checkClients false, .serve false, .serve false]

theorem served_of_run_twice :
    Served ⟨[], [⟨1, 7, false⟩], none, .accept, .check 1, [⟨0, 7, false⟩, ⟨1, 7, false⟩],
      [⟨0, 7, false⟩, ⟨1, 7, false⟩]⟩ :=
  served_of_run twice _ rfl

end Napd.Server
