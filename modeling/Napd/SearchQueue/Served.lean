import Napd.SearchQueue.Model

/-!
Which requests the queue serves.

* `Inv`: a caller is in the queue once, and has a search that waits on no server.
* `Served`: a request that is accepted puts its search into the queue, in the caller's place if it
  has one, and a request that is rejected is answered.
* `request_queued`: **a caller that is in the queue loses its place, its old search and the new
  one**, and is not told.
* `served_iff`: requests are served as long as no caller in the queue makes one.
-/

namespace Napd

namespace SearchQueue

variable {unlimited : Text → Text} {s : State}

/-- A caller is in the queue once, and it has a search there, which waits on no server. -/
structure Inv (s : State) : Prop where
  nodup : s.queue.Nodup
  search : ∀ c ∈ s.queue, (s.search c).isSome
  idle : ∀ c ∈ s.queue, s.RemoteSearch c = none

/-- What a request should do. -/
def Served (s : State) : Input → Prop
  | .request caller data (some l) =>
      let s' := Server.SearchRequest s caller data (some l)
      s'.queue.count caller = 1 ∧ s'.search caller = some ⟨l, s.requests, data, 0⟩ ∧
        (caller ∈ s.queue → s'.queue.idxOf caller = s.queue.idxOf caller)
  | .request caller data none =>
      (Server.SearchRequest s caller data none).log caller
        = s.log caller ++ [.SEARCH_COMPLETED]
  | .search _ _ => True

/-- A request comes from a caller that is not in the queue. -/
def Input.Unqueued (s : State) : Input → Prop
  | .request caller _ _ => caller ∉ s.queue
  | .search _ _ => True

/-! ### What the operations leave alone -/

/-- Two states with the same queue that differ in one caller at most. -/
structure Only (c : ℕ) (s s' : State) : Prop where
  queue : s'.queue = s.queue
  search : ∀ d, d ≠ c → s'.search d = s.search d
  RemoteSearch : ∀ d, d ≠ c → s'.RemoteSearch d = s.RemoteSearch d

namespace Only

variable {c : ℕ} {s' s'' : State}

lemma refl (c : ℕ) (s : State) : Only c s s := ⟨rfl, fun _ _ => rfl, fun _ _ => rfl⟩

lemma trans (h : Only c s s') (h' : Only c s' s'') : Only c s s'' :=
  ⟨h'.queue.trans h.queue, fun d hd => (h'.search d hd).trans (h.search d hd),
    fun d hd => (h'.RemoteSearch d hd).trans (h.RemoteSearch d hd)⟩

lemma say (c : ℕ) (s : State) (a : Answer) : Only c s (s.say c a) :=
  ⟨rfl, fun _ _ => rfl, fun _ _ => rfl⟩

lemma setSearch (c : ℕ) (s : State) (x : Option Search) :
    Only c s { s with search := Function.update s.search c x } :=
  ⟨rfl, fun _ hd => Function.update_of_ne hd .., fun _ _ => rfl⟩

lemma deleteSearch (c : ℕ) (s : State) : Only c s (s.deleteSearch c) := setSearch c s none

lemma leaveRemote (c : ℕ) (s : State) : Only c s (s.leaveRemote c) := by
  rw [State.leaveRemote]
  split
  · exact refl c s
  · exact ⟨rfl, fun _ _ => rfl, fun _ hd => Function.update_of_ne hd ..⟩

lemma reply (c : ℕ) (n count : I32) (s : State) (found : List ℕ) :
    Only c s (State.reply c n count s found) := by
  induction found generalizing s count with
  | nil => exact refl c s
  | cons f found ih =>
      rw [State.reply]
      split_ifs
      · exact say c s _
      · exact (say c s _).trans (ih _ _)

lemma forward (c : ℕ) (s : State) (r : RemoteServer) (query : Text) (limit : Option U32) :
    Only c s (s.forward c r query limit) :=
  ⟨rfl, fun _ _ => rfl, fun _ hd => Function.update_of_ne hd ..⟩

/-- `Server::Search` touches neither the queue nor another caller. -/
lemma serverSearch (c : ℕ) (s : State) (found : List ℕ) (links : Links) :
    Only c s (Server.Search unlimited s c found links).2 := by
  rw [Server.Search]
  cases hsearch : s.search c with
  | none => exact refl c s
  | some search =>
      have hset := (leaveRemote c s).trans
        (setSearch c _ (some { search with nmatches := UInt32.ofNat found.length }))
      have hfound := hset.trans (reply c (UInt32.ofNat found.length).toInt32 0 _ found)
      dsimp only
      split
      · exact hfound.trans (forward c _ _ _ _)
      · exact (hfound.trans (say c _ .SEARCH_COMPLETED)).trans (deleteSearch c _)

end Only

lemma leaveRemote_log (c : ℕ) (s : State) : (s.leaveRemote c).log = s.log := by
  rw [State.leaveRemote]
  split <;> rfl

/-- The caller waits on no server any more. -/
lemma leaveRemote_self (c : ℕ) (s : State) : (s.leaveRemote c).RemoteSearch c = none := by
  rw [State.leaveRemote]
  split
  next h => exact h
  next => exact Function.update_self ..

/-! ### Requests -/

/-- **A request of a caller in the queue loses its place and both searches**; it is not told. -/
lemma request_queued {caller : ℕ} (h : s.queue.Nodup) (hmem : caller ∈ s.queue) (data : Text)
    (load : Option Loaded) :
    caller ∉ (Server.SearchRequest s caller data load).queue ∧
      (Server.SearchRequest s caller data load).search caller = none ∧
      (Server.SearchRequest s caller data load).log = s.log := by
  rw [Server.SearchRequest, if_pos hmem]
  exact ⟨h.not_mem_erase, Function.update_self .., rfl⟩

/-- A request of another caller that is accepted is the last in the queue. -/
lemma request_accepted {caller : ℕ} (hmem : caller ∉ s.queue) (data : Text) (l : Loaded) :
    (Server.SearchRequest s caller data (some l)).queue = s.queue ++ [caller] ∧
      (Server.SearchRequest s caller data (some l)).search caller
        = some ⟨l, s.requests, data, 0⟩ := by
  rw [Server.SearchRequest, if_neg hmem]
  refine ⟨?_, Function.update_self ..⟩
  have hqueue := ((Only.leaveRemote caller { s with requests := s.requests + 1 }).trans
    (Only.deleteSearch caller _)).queue
  exact congrArg (· ++ [caller]) hqueue

/-- A request of another caller that is rejected is answered. -/
lemma request_rejected {caller : ℕ} (hmem : caller ∉ s.queue) (data : Text) :
    (Server.SearchRequest s caller data none).log caller
      = s.log caller ++ [.SEARCH_COMPLETED] := by
  rw [Server.SearchRequest, if_neg hmem]
  have hlog := congrFun (leaveRemote_log caller { s with requests := s.requests + 1 }) caller
  exact (Function.update_self ..).trans (congrArg (· ++ [Answer.SEARCH_COMPLETED]) hlog)

/-- A request is served if its caller is not in the queue. -/
lemma served_iff_unqueued (h : s.queue.Nodup) (i : Input) : Served s i ↔ i.Unqueued s := by
  match i with
  | .search _ _ => exact Iff.rfl
  | .request caller data (some l) =>
      constructor
      · rintro ⟨hcount, -, -⟩ hmem
        have hgone := (request_queued h hmem data (some l)).1
        rw [List.count_eq_zero_of_not_mem hgone] at hcount
        exact zero_ne_one hcount
      · intro hmem
        obtain ⟨hqueue, hsearch⟩ := request_accepted hmem data l
        refine ⟨?_, hsearch, fun hin => absurd hin hmem⟩
        rw [hqueue, List.count_append, List.count_eq_zero_of_not_mem hmem,
          List.count_singleton_self]
  | .request caller data none =>
      constructor
      · intro hlog hmem
        have hsame := congrFun (request_queued h hmem data none).2.2 caller
        have hlen := congrArg List.length (hlog.symm.trans hsame)
        rw [List.length_append, List.length_singleton] at hlen
        omega
      · exact fun hmem => request_rejected hmem data

/-! ### Runs -/

lemma new_inv : Inv State.new := by
  constructor <;> simp [State.new]

/-- With fewer callers in the queue, the invariant still holds. -/
lemma Inv.sublist (h : Inv s) {q : List ℕ} (hq : q.Sublist s.queue) : Inv { s with queue := q } :=
  ⟨h.nodup.sublist hq, fun d hd => h.search d (hq.subset hd), fun d hd => h.idle d (hq.subset hd)⟩

/-- A change of one caller that is not in the queue keeps the invariant. -/
lemma Inv.only {c : ℕ} {s' : State} (h : Inv s) (hc : c ∉ s.queue) (honly : Only c s s') :
    Inv s' := by
  have hold : ∀ d ∈ s'.queue, d ∈ s.queue ∧ d ≠ c := by
    intro d hd
    rw [honly.queue] at hd
    exact ⟨hd, ne_of_mem_of_not_mem hd hc⟩
  refine ⟨honly.queue.symm ▸ h.nodup, fun d hd => ?_, fun d hd => ?_⟩
  · obtain ⟨hd, hne⟩ := hold d hd
    rw [honly.search d hne]
    exact h.search d hd
  · obtain ⟨hd, hne⟩ := hold d hd
    rw [honly.RemoteSearch d hne]
    exact h.idle d hd

/-- A caller that waits on no server enters the queue with its search. -/
lemma Inv.enter {c : ℕ} (h : Inv s) (hc : c ∉ s.queue) (hidle : s.RemoteSearch c = none)
    (search : Search) :
    Inv { s with search := Function.update s.search c (some search), queue := s.queue ++ [c] } := by
  have hcases : ∀ d ∈ s.queue ++ [c], d = c ∨ d ∈ s.queue ∧ d ≠ c := by
    intro d hd
    rcases List.mem_append.mp hd with hd | hd
    · exact Or.inr ⟨hd, ne_of_mem_of_not_mem hd hc⟩
    · exact Or.inl (List.mem_singleton.mp hd)
  refine ⟨?_, fun d hd => ?_, fun d hd => ?_⟩
  · rw [List.nodup_append_comm]
    exact List.nodup_cons.mpr ⟨hc, h.nodup⟩
  · rcases hcases d hd with rfl | ⟨hd, hne⟩
    · simp only [Function.update_self, Option.isSome_some]
    · simp only [Function.update_of_ne hne]
      exact h.search d hd
  · rcases hcases d hd with rfl | ⟨hd, -⟩
    · exact hidle
    · exact h.idle d hd

/-- A request keeps the invariant, also one of a caller in the queue. -/
lemma request_inv (h : Inv s) (caller : ℕ) (data : Text) (load : Option Loaded) :
    Inv (Server.SearchRequest s caller data load) := by
  have hcount : Inv { s with requests := s.requests + 1 } := ⟨h.nodup, h.search, h.idle⟩
  rw [Server.SearchRequest]
  by_cases hmem : caller ∈ s.queue
  · rw [if_pos hmem]
    have herased := hcount.sublist (List.erase_sublist : (s.queue.erase caller).Sublist s.queue)
    exact herased.only h.nodup.not_mem_erase (Only.deleteSearch caller _)
  · rw [if_neg hmem]
    have honly := (Only.leaveRemote caller { s with requests := s.requests + 1 }).trans
      (Only.deleteSearch caller _)
    cases load with
    | none => exact hcount.only hmem (honly.trans (Only.say caller _ .SEARCH_COMPLETED))
    | some l =>
        have hcleared := hcount.only hmem honly
        have hmem' := mt (fun hin => honly.queue ▸ hin) hmem
        exact hcleared.enter hmem' (leaveRemote_self caller _) ⟨l, s.requests, data, 0⟩

lemma step_inv (h : Inv s) (i : Input) {s' : State} (hstep : step unlimited s i = some s') :
    Inv s' := by
  cases i with
  | request caller data load =>
      rw [← Option.some.inj hstep]
      exact request_inv h caller data load
  | search found links =>
      rw [step] at hstep
      split at hstep
      next =>
        rw [← Option.some.inj hstep]
        exact h
      next caller rest hqueue =>
        rw [← Option.some.inj hstep]
        have hnodup := h.nodup
        rw [hqueue, List.nodup_cons] at hnodup
        have hpopped : Inv { s with queue := rest } :=
          h.sublist (by rw [hqueue]; exact List.sublist_cons_self caller rest)
        exact hpopped.only hnodup.1 (Only.serverSearch caller _ found links)

/-- **The requests of a run are served if and only if none of them comes from a caller that is
in the queue.** -/
theorem served_iff (unlimited : Text → Text) (is : List Input) :
    Runs.Always (step unlimited) Served State.new is
      ↔ Runs.Always (step unlimited) (fun s i => i.Unqueued s) State.new is :=
  Runs.Always.iff_of_keeps (I := Inv) (fun _ i _ hI _ hstep => step_inv hI i hstep)
    (fun _ i hI => served_iff_unqueued hI.nodup i) new_inv

/-- A caller whose request is accepted, and that asks again before its turn, is not served. -/
theorem not_served_twice :
    ¬∀ (unlimited : Text → Text) (is : List Input),
      Runs.Always (step unlimited) Served State.new is := by
  intro h
  let word : Text := ⟨[97], by decide⟩
  have hrun := h id
    [.request 0 word (some ⟨[word], false, 50⟩), .request 0 word (some ⟨[word], false, 50⟩)]
  obtain ⟨hcount, -, -⟩ := (hrun.2 _ rfl).1
  exact absurd hcount (by decide)

end SearchQueue

end Napd
