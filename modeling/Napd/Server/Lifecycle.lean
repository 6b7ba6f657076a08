import Napd.Basic
import Napd.Library.Runs

/-!
A server that is opened and closed any number of times, `server.cc`, and the threads that it leaves
behind: each `open` starts a thread that runs `accept_loop`, and `close` only asks the last one to
end. A thread ends where it is cancelled: in `accept`, or in the catch block.

* `Thread`, `State`: where each thread is, whether the mutex of `incoming` is locked, and the
  clients on their way. A mutex does not record who locked it, and `open` relies on this.
* `Step`, `step`: what a thread does next; any of them may go next. `none` if it is elsewhere, or
  if `close` cancels a thread that is not there.
* `holders`: how many threads are behind a `lock` whose `unlock` is theirs.
* `Inv`: the invariant of all interleavings.
* `orderly_run`, `recovers_iff`, `close_undefined_iff`: at most one thread is at `incoming`, and no
  client is lost; the mutex can be had again unless a `spawn` has failed; a `close` can cancel a
  thread that is not there if and only if the server was not opened since the last one.
-/

namespace Napd.Lifecycle

/-- Where a thread is in `accept_loop`: before its first `unlock`, in `accept`, in the catch block,
before `lock`, before `push_back`, before the other `unlock`; or it has ended. -/
inductive Place where
  | unlock
  | accept
  | caught
  | lock (c : ℕ)
  | push (c : ℕ)
  | release
  | ended
  deriving DecidableEq

structure Thread where
  place : Place
  cancelled : Bool
  deriving DecidableEq

/-- Where the main loop is: between two calls; in `open`, before `spawn`, before the second `lock`
and before `unlock`; in `check_incoming`, at an element of `incoming` and before `unlock`. -/
inductive MainAt where
  | idle
  | spawn
  | wait
  | opened
  | add (i : ℕ)
  | cleared
  deriving DecidableEq

/-- The server. The threads are in the order in which they were started, `accept_thread` is one of
them. `added` records the clients that `add_connection` was called with, and `accepted` how many
were accepted. -/
structure State where
  threads : List Thread
  accept_thread : Option ℕ
  locked : Bool
  mainAt : MainAt
  incoming : List ℕ
  added : List ℕ
  accepted : ℕ

/-- `Server()`. -/
def start : State := ⟨[], none, false, .idle, [], [], 0⟩

/-- What a thread does in `accept_loop`. -/
inductive Act where
  /-- The first `unlock`. -/
  | started
  /-- `accept` and `nonblock` return. -/
  | accept
  /-- One of them throws. -/
  | throws
  /-- `LOG`. -/
  | logged
  | lock
  | push
  | release
  /-- It is cancelled. -/
  | cancel
  deriving DecidableEq

/-- What comes of it: what the threads share, and where the thread is then. -/
def act (s : State) (th : Thread) : Act → Option (State × Place)
  | .started => if th.place = .unlock then some ({ s with locked := false }, .accept) else none
  | .accept =>
      if th.place = .accept then
        some ({ s with accepted := s.accepted + 1 }, .lock s.accepted) else none
  | .throws => if th.place = .accept then some (s, .caught) else none
  | .logged => if th.place = .caught then some (s, .accept) else none
  | .lock =>
      match th.place, s.locked with
      | .lock c, false => some ({ s with locked := true }, .push c)
      | _, _ => none
  | .push =>
      match th.place with
      | .push c => some ({ s with incoming := s.incoming ++ [c] }, .release)
      | _ => none
  | .release => if th.place = .release then some ({ s with locked := false }, .accept) else none
  | .cancel =>
      if th.cancelled = true ∧ (th.place = .accept ∨ th.place = .caught) then some (s, .ended)
      else none

/-- `close`: the thread is cancelled; `none` if it is not there. -/
def close (s : State) : Option State :=
  match s.accept_thread with
  | none => none
  | some t =>
      match s.threads[t]? with
      | none => none
      | some th =>
          if th.place = .ended then none
          else some { s with threads := s.threads.set t { th with cancelled := true } }

inductive Step where
  /-- `open`, in which `Socket::open`, `bind` or `listen` throws. -/
  | openThrows
  /-- `open`, with the first lock. -/
  | openLock
  /-- `accept_thread.spawn`, which may throw. -/
  | spawn (returns : Bool)
  /-- The second lock. -/
  | openWait
  | openUnlock
  | close
  /-- `check_incoming`, with the lock. -/
  | checkIncoming
  /-- Its loop: one call of `add_connection`. -/
  | addConnection
  | clearIncoming
  | unlockIncoming
  | thread (t : ℕ) (a : Act)
  deriving DecidableEq

def step (s : State) : Step → Option State
  | .openThrows => if s.mainAt = .idle then some s else none
  | .openLock =>
      if s.mainAt = .idle ∧ s.locked = false then
        some { s with locked := true, mainAt := .spawn } else none
  | .spawn true =>
      if s.mainAt = .spawn then
        some { s with threads := s.threads ++ [⟨.unlock, false⟩],
                      accept_thread := some s.threads.length, mainAt := .wait } else none
  | .spawn false => if s.mainAt = .spawn then some { s with mainAt := .idle } else none
  | .openWait =>
      if s.mainAt = .wait ∧ s.locked = false then
        some { s with locked := true, mainAt := .opened } else none
  | .openUnlock =>
      if s.mainAt = .opened then some { s with locked := false, mainAt := .idle } else none
  | .close => if s.mainAt = .idle then close s else none
  | .checkIncoming =>
      if s.mainAt = .idle ∧ s.locked = false then
        some { s with locked := true, mainAt := .add 0 } else none
  | .addConnection =>
      match s.mainAt with
      | .add i => (s.incoming[i]?).map fun c => { s with added := s.added ++ [c],
                                                         mainAt := .add (i + 1) }
      | _ => none
  | .clearIncoming =>
      if s.mainAt = .add s.incoming.length then
        some { s with incoming := [], mainAt := .cleared } else none
  | .unlockIncoming =>
      if s.mainAt = .cleared then some { s with locked := false, mainAt := .idle } else none
  | .thread t a =>
      (s.threads[t]?).bind fun th => (act s th a).map fun r =>
        { r.1 with threads := s.threads.set t { th with place := r.2 } }

/-! ### Who is at `incoming` -/

/-- The thread is behind a `lock` and before the `unlock` for it. The first of these is the one
that `open` has left to it. -/
def Place.holds : Place → Bool
  | .unlock => true
  | .accept => false
  | .caught => false
  | .lock _ => false
  | .push _ => true
  | .release => true
  | .ended => false

def MainAt.holds : MainAt → Bool
  | .idle => false
  | .spawn => true
  | .wait => false
  | .opened => true
  | .add _ => true
  | .cleared => true

/-- How many threads hold the mutex. -/
def holders (s : State) : ℕ :=
  s.mainAt.holds.toNat + s.threads.countP fun th => th.place.holds

/-- The clients in the hands of a thread. -/
def Place.hand : Place → List ℕ
  | .unlock => []
  | .accept => []
  | .caught => []
  | .lock c => [c]
  | .push c => [c]
  | .release => []
  | .ended => []

/-- How many elements of `incoming` have been added. -/
def MainAt.passed : MainAt → ℕ
  | .idle => 0
  | .spawn => 0
  | .wait => 0
  | .opened => 0
  | .add i => i
  | .cleared => 0

/-- The clients that have been accepted: in hands, in `incoming`, or added. -/
def clients (s : State) : List ℕ :=
  (s.threads.flatMap fun th => th.place.hand) ++ (s.incoming.drop s.mainAt.passed ++ s.added)

/-- The invariant, where `lost` is how often `spawn` has thrown: `open` holds the mutex then. -/
structure Inv (lost : ℕ) (s : State) : Prop where
  exclusive : holders s + lost = s.locked.toNat
  inside : s.mainAt.passed ≤ s.incoming.length
  once : (clients s).Perm (List.range s.accepted)
  started : s.mainAt ≠ .wait → ∀ th ∈ s.threads, th.place ≠ .unlock
  alive : ∀ th ∈ s.threads, th.cancelled = false → th.place ≠ .ended

/-! ### One step -/

/-- What a thread finds, and what it makes of the server. -/
inductive Acts (s : State) (th : Thread) : Act → State → Place → Prop where
  | started (h : th.place = .unlock) : Acts s th .started { s with locked := false } .accept
  | accept (h : th.place = .accept) :
      Acts s th .accept { s with accepted := s.accepted + 1 } (.lock s.accepted)
  | throws (h : th.place = .accept) : Acts s th .throws s .caught
  | logged (h : th.place = .caught) : Acts s th .logged s .accept
  | lock (c : ℕ) (h : th.place = .lock c) (hl : s.locked = false) :
      Acts s th .lock { s with locked := true } (.push c)
  | push (c : ℕ) (h : th.place = .push c) :
      Acts s th .push { s with incoming := s.incoming ++ [c] } .release
  | release (h : th.place = .release) : Acts s th .release { s with locked := false } .accept
  | cancel (hc : th.cancelled = true) (h : th.place = .accept ∨ th.place = .caught) :
      Acts s th .cancel s .ended

lemma acts_of_act {s : State} {th : Thread} {a : Act} {r : State × Place}
    (h : act s th a = some r) : Acts s th a r.1 r.2 := by
  cases a with
  | started =>
      rw [act] at h
      split_ifs at h with hp
      exact Option.some.inj h ▸ .started hp
  | accept =>
      rw [act] at h
      split_ifs at h with hp
      exact Option.some.inj h ▸ .accept hp
  | throws =>
      rw [act] at h
      split_ifs at h with hp
      exact Option.some.inj h ▸ .throws hp
  | logged =>
      rw [act] at h
      split_ifs at h with hp
      exact Option.some.inj h ▸ .logged hp
  | lock =>
      rw [act] at h
      split at h
      · exact Option.some.inj h ▸ .lock _ ‹_› ‹_›
      · cases h
  | push =>
      rw [act] at h
      split at h
      · exact Option.some.inj h ▸ .push _ ‹_›
      · cases h
  | release =>
      rw [act] at h
      split_ifs at h with hp
      exact Option.some.inj h ▸ .release hp
  | cancel =>
      rw [act] at h
      split_ifs at h with hp
      exact Option.some.inj h ▸ .cancel hp.1 hp.2

/-- What a step finds, and what it makes of the server. -/
inductive Next (s : State) : Step → State → Prop where
  | openThrows (h : s.mainAt = .idle) : Next s .openThrows s
  | openLock (h : s.mainAt = .idle) (hl : s.locked = false) :
      Next s .openLock { s with locked := true, mainAt := .spawn }
  | spawn (h : s.mainAt = .spawn) :
      Next s (.spawn true)
        { s with threads := s.threads ++ [⟨.unlock, false⟩],
                 accept_thread := some s.threads.length, mainAt := .wait }
  | spawnThrows (h : s.mainAt = .spawn) : Next s (.spawn false) { s with mainAt := .idle }
  | openWait (h : s.mainAt = .wait) (hl : s.locked = false) :
      Next s .openWait { s with locked := true, mainAt := .opened }
  | openUnlock (h : s.mainAt = .opened) :
      Next s .openUnlock { s with locked := false, mainAt := .idle }
  | close (h : s.mainAt = .idle) (t : ℕ) (th : Thread) (hacc : s.accept_thread = some t)
      (ht : s.threads[t]? = some th) (hp : th.place ≠ .ended) :
      Next s .close { s with threads := s.threads.set t { th with cancelled := true } }
  | checkIncoming (h : s.mainAt = .idle) (hl : s.locked = false) :
      Next s .checkIncoming { s with locked := true, mainAt := .add 0 }
  | addConnection (i c : ℕ) (h : s.mainAt = .add i) (hc : s.incoming[i]? = some c) :
      Next s .addConnection { s with added := s.added ++ [c], mainAt := .add (i + 1) }
  | clearIncoming (h : s.mainAt = .add s.incoming.length) :
      Next s .clearIncoming { s with incoming := [], mainAt := .cleared }
  | unlockIncoming (h : s.mainAt = .cleared) :
      Next s .unlockIncoming { s with locked := false, mainAt := .idle }
  | thread (t : ℕ) (a : Act) (th : Thread) (ht : s.threads[t]? = some th) (s' : State)
      (p : Place) (ha : Acts s th a s' p) :
      Next s (.thread t a) { s' with threads := s.threads.set t { th with place := p } }

lemma next_of_close {s s' : State} (hidle : s.mainAt = .idle) (h : close s = some s') :
    Next s .close s' := by
  rw [close] at h
  split at h
  · cases h
  · split at h
    · cases h
    · split_ifs at h with hp
      exact Option.some.inj h ▸ .close hidle _ _ ‹_› ‹_› hp

lemma next_of_step {s s' : State} {i : Step} (h : step s i = some s') : Next s i s' := by
  cases i with
  | openThrows =>
      rw [step] at h
      split_ifs at h with hm
      exact Option.some.inj h ▸ .openThrows hm
  | openLock =>
      rw [step] at h
      split_ifs at h with hm
      exact Option.some.inj h ▸ .openLock hm.1 hm.2
  | spawn returns =>
      cases returns with
      | true =>
          rw [step] at h
          split_ifs at h with hm
          exact Option.some.inj h ▸ .spawn hm
      | false =>
          rw [step] at h
          split_ifs at h with hm
          exact Option.some.inj h ▸ .spawnThrows hm
  | openWait =>
      rw [step] at h
      split_ifs at h with hm
      exact Option.some.inj h ▸ .openWait hm.1 hm.2
  | openUnlock =>
      rw [step] at h
      split_ifs at h with hm
      exact Option.some.inj h ▸ .openUnlock hm
  | close =>
      rw [step] at h
      split_ifs at h with hm
      exact next_of_close hm h
  | checkIncoming =>
      rw [step] at h
      split_ifs at h with hm
      exact Option.some.inj h ▸ .checkIncoming hm.1 hm.2
  | addConnection =>
      rw [step] at h
      split at h
      · obtain ⟨c, hc, hs⟩ := Option.map_eq_some_iff.mp h
        exact hs ▸ .addConnection _ c ‹_› hc
      · cases h
  | clearIncoming =>
      rw [step] at h
      split_ifs at h with hm
      exact Option.some.inj h ▸ .clearIncoming hm
  | unlockIncoming =>
      rw [step] at h
      split_ifs at h with hm
      exact Option.some.inj h ▸ .unlockIncoming hm
  | thread t a =>
      rw [step] at h
      obtain ⟨th, ht, hs⟩ := Option.bind_eq_some_iff.mp h
      obtain ⟨r, hr, hs⟩ := Option.map_eq_some_iff.mp hs
      exact hs ▸ .thread t a th ht r.1 r.2 (acts_of_act hr)

/-! ### The invariant -/

/-- A list with one element apart, and what stands in its place. -/
lemma exists_rest {α : Type} {l : List α} {t : ℕ} {a : α} (h : l[t]? = some a) :
    ∃ rest, l.Perm (a :: rest) ∧ ∀ b, (l.set t b).Perm (b :: rest) := by
  obtain ⟨ht, rfl⟩ := List.getElem?_eq_some_iff.mp h
  exact ⟨l.eraseIdx t, (List.getElem_cons_eraseIdx_perm ht).symm,
    fun b => List.set_perm_cons_eraseIdx ht b⟩

/-- How many of some threads hold the mutex. -/
def held (ths : List Thread) : ℕ := ths.countP fun th => th.place.holds

lemma held_cons (th : Thread) (ths : List Thread) :
    held (th :: ths) = held ths + th.place.holds.toNat := by
  rw [held, held, List.countP_cons]
  cases th.place.holds <;> rfl

/-- The invariant, with one thread apart. -/
structure Apart (lost : ℕ) (s : State) (th : Thread) (rest : List Thread) : Prop where
  exclusive : s.mainAt.holds.toNat + (held rest + th.place.holds.toNat) + lost = s.locked.toNat
  inside : s.mainAt.passed ≤ s.incoming.length
  once : (th.place.hand ++ ((rest.flatMap fun th => th.place.hand)
    ++ (s.incoming.drop s.mainAt.passed ++ s.added))).Perm (List.range s.accepted)
  started : s.mainAt ≠ .wait → th.place ≠ .unlock ∧ ∀ th ∈ rest, th.place ≠ .unlock
  alive : (th.cancelled = false → th.place ≠ .ended)
    ∧ ∀ th ∈ rest, th.cancelled = false → th.place ≠ .ended

variable {lost : ℕ}

lemma inv_iff_apart {s : State} {th : Thread} {rest : List Thread}
    (h : s.threads.Perm (th :: rest)) : Inv lost s ↔ Apart lost s th rest := by
  have hexclusive : holders s = s.mainAt.holds.toNat + (held rest + th.place.holds.toNat) := by
    rw [← held_cons]
    exact congrArg (s.mainAt.holds.toNat + ·) (h.countP_eq _)
  have honce : (clients s).Perm (th.place.hand ++ ((rest.flatMap fun th => th.place.hand)
      ++ (s.incoming.drop s.mainAt.passed ++ s.added))) := by
    rw [← List.append_assoc]
    exact (h.flatMap_right _).append_right _
  constructor
  · intro hs
    refine ⟨hexclusive ▸ hs.exclusive, hs.inside, honce.symm.trans hs.once, fun hm => ?_, ?_⟩
    · exact List.forall_mem_cons.mp fun x hx => hs.started hm x (h.mem_iff.mpr hx)
    · exact List.forall_mem_cons.mp fun x hx => hs.alive x (h.mem_iff.mpr hx)
  · intro hs
    refine ⟨hexclusive ▸ hs.exclusive, hs.inside, honce.trans hs.once, fun hm x hx => ?_,
      fun x hx => ?_⟩
    · rcases List.mem_cons.mp (h.mem_iff.mp hx) with rfl | hx
      · exact (hs.started hm).1
      · exact (hs.started hm).2 x hx
    · rcases List.mem_cons.mp (h.mem_iff.mp hx) with rfl | hx
      · exact hs.alive.1
      · exact hs.alive.2 x hx

/-- While a thread holds the mutex, the main loop does not. -/
lemma Apart.main {s : State} {th : Thread} {rest : List Thread} (hs : Apart lost s th rest)
    (h : th.place.holds = true) :
    s.mainAt.holds = false ∧ held rest = 0 ∧ lost = 0 := by
  have hexclusive := hs.exclusive
  rw [h] at hexclusive
  have hle := Bool.toNat_le s.locked
  have hone : true.toNat = 1 := rfl
  exact ⟨Bool.toNat_eq_zero.mp (by omega), by omega, by omega⟩

lemma passed_eq_zero {m : MainAt} (h : m.holds = false) : m.passed = 0 := by
  cases m with
  | idle => rfl
  | spawn => rfl
  | wait => rfl
  | opened => rfl
  | add i => cases h
  | cleared => rfl

/-- A client that goes from a hand to the end of `incoming`. -/
lemma handed (c : ℕ) (hands waiting added : List ℕ) :
    (hands ++ (waiting ++ [c] ++ added)).Perm ([c] ++ (hands ++ (waiting ++ added))) := by
  have hleft : hands ++ (waiting ++ [c] ++ added) = (hands ++ waiting) ++ c :: added := by simp
  have hright : [c] ++ (hands ++ (waiting ++ added)) = c :: ((hands ++ waiting) ++ added) := by simp
  rw [hleft, hright]
  exact List.perm_middle

/-- What a thread does keeps the invariant. -/
lemma Apart.acts {s s' : State} {th : Thread} {rest : List Thread} {a : Act} {p : Place}
    (hs : Apart lost s th rest) (ha : Acts s th a s' p) :
    Apart lost s' { th with place := p } rest := by
  obtain ⟨hexclusive, hinside, honce, hstarted, halive⟩ := hs
  have hkept : p ≠ .unlock → s.mainAt ≠ .wait →
      p ≠ .unlock ∧ ∀ th ∈ rest, th.place ≠ .unlock :=
    fun hp hm => ⟨hp, (hstarted hm).2⟩
  cases ha with
  | started h =>
      obtain ⟨hmain, hrest, hlost⟩ :=
        Apart.main ⟨hexclusive, hinside, honce, hstarted, halive⟩ (by rw [h]; rfl)
      refine ⟨?_, hinside, ?_, hkept Place.noConfusion, ⟨fun _ => Place.noConfusion, halive.2⟩⟩
      · rw [hmain, hrest, hlost]
        rfl
      · rw [h] at honce
        exact honce
  | accept h =>
      rw [h] at hexclusive honce
      refine ⟨hexclusive, hinside, ?_, hkept Place.noConfusion,
        ⟨fun _ => Place.noConfusion, halive.2⟩⟩
      rw [List.range_succ]
      exact (honce.cons s.accepted).trans (List.perm_append_singleton _ _).symm
  | throws h =>
      rw [h] at hexclusive honce
      exact ⟨hexclusive, hinside, honce, hkept Place.noConfusion,
        ⟨fun _ => Place.noConfusion, halive.2⟩⟩
  | logged h =>
      rw [h] at hexclusive honce
      exact ⟨hexclusive, hinside, honce, hkept Place.noConfusion,
        ⟨fun _ => Place.noConfusion, halive.2⟩⟩
  | lock c h hl =>
      rw [h, hl] at hexclusive
      rw [h] at honce
      refine ⟨?_, hinside, honce, hkept Place.noConfusion, ⟨fun _ => Place.noConfusion, halive.2⟩⟩
      have hzero : s.mainAt.holds.toNat + (held rest + 0) + lost = 0 := hexclusive
      show s.mainAt.holds.toNat + (held rest + 1) + lost = 1
      omega
  | push c h =>
      obtain ⟨hmain, -, -⟩ := Apart.main ⟨hexclusive, hinside, honce, hstarted, halive⟩
          (by rw [h]; rfl)
      rw [h] at hexclusive honce
      refine ⟨hexclusive, ?_, ?_, hkept Place.noConfusion,
        ⟨fun _ => Place.noConfusion, halive.2⟩⟩
      · exact hinside.trans (List.length_append ▸ Nat.le_add_right _ _)
      · rw [passed_eq_zero hmain] at honce ⊢
        exact (handed c _ s.incoming s.added).trans honce
  | release h =>
      obtain ⟨hmain, hrest, hlost⟩ :=
        Apart.main ⟨hexclusive, hinside, honce, hstarted, halive⟩ (by rw [h]; rfl)
      refine ⟨?_, hinside, ?_, hkept Place.noConfusion, ⟨fun _ => Place.noConfusion, halive.2⟩⟩
      · rw [hmain, hrest, hlost]
        rfl
      · rw [h] at honce
        exact honce
  | cancel hc h =>
      refine ⟨?_, hinside, ?_, hkept Place.noConfusion, ⟨fun hno => ?_, halive.2⟩⟩
      · rcases h with h | h <;> rw [h] at hexclusive <;> exact hexclusive
      · rcases h with h | h <;> rw [h] at honce <;> exact honce
      · rw [hc] at hno
        cases hno

section Steps

variable {s s' : State}

/-- Nobody holds a mutex that is not locked. -/
lemma Inv.free (hs : Inv lost s) (hl : s.locked = false) :
    s.mainAt.holds = false ∧ held s.threads = 0 ∧ lost = 0 := by
  have hexclusive : s.mainAt.holds.toNat + held s.threads + lost = s.locked.toNat := hs.exclusive
  rw [hl] at hexclusive
  have hzero : false.toNat = 0 := rfl
  exact ⟨Bool.toNat_eq_zero.mp (by omega), by omega, by omega⟩

/-- While the main loop holds the mutex, no thread does. -/
lemma Inv.mine (hs : Inv lost s) (hm : s.mainAt.holds = true) :
    held s.threads = 0 ∧ lost = 0 ∧ s.locked = true := by
  have hexclusive : s.mainAt.holds.toNat + held s.threads + lost = s.locked.toNat := hs.exclusive
  rw [hm] at hexclusive
  have hone : true.toNat = 1 := rfl
  have hle := Bool.toNat_le s.locked
  exact ⟨by omega, by omega, Bool.toNat_eq_one.mp (by omega)⟩

/-- Where no thread holds the mutex, every one has been started. -/
lemma started_of_held {ths : List Thread} (h : held ths = 0) :
    ∀ th ∈ ths, th.place ≠ .unlock := by
  intro th hth hp
  have hno := List.countP_eq_zero.mp h th hth
  rw [hp] at hno
  exact hno rfl

/-- The main loop locks the mutex. -/
lemma Inv.take (hs : Inv lost s) (hl : s.locked = false) {m : MainAt} (hp : s.mainAt.passed = 0)
    (hm : m.holds = true) (hm' : m.passed = 0) :
    Inv lost { s with locked := true, mainAt := m } := by
  obtain ⟨-, hheld, hlost⟩ := hs.free hl
  have honce := hs.once
  rw [clients, hp] at honce
  refine ⟨?_, hm'.le.trans (Nat.zero_le _), ?_, fun _ => started_of_held hheld, hs.alive⟩
  · show m.holds.toNat + held s.threads + lost = 1
    rw [hm, hheld, hlost]
    rfl
  · rw [clients]
    dsimp only
    rw [hm']
    exact honce

/-- The main loop unlocks the mutex. -/
lemma Inv.give (hs : Inv lost s) (h : s.mainAt.holds = true) (hp : s.mainAt.passed = 0) :
    Inv lost { s with locked := false, mainAt := .idle } := by
  obtain ⟨hheld, hlost, -⟩ := hs.mine h
  have honce := hs.once
  rw [clients, hp] at honce
  refine ⟨?_, Nat.zero_le _, honce, fun _ => started_of_held hheld, hs.alive⟩
  show 0 + held s.threads + lost = 0
  rw [hheld, hlost]

/-- How often `spawn` throws in a step. -/
def Step.fails (i : Step) : ℕ := if i = .spawn false then 1 else 0

/-- **Every step keeps the invariant.** -/
lemma inv_next {i : Step} (hs : Inv lost s) (h : Next s i s') : Inv (lost + i.fails) s' := by
  have hexclusive : s.mainAt.holds.toNat + held s.threads + lost = s.locked.toNat := hs.exclusive
  have honce := hs.once
  rw [clients] at honce
  cases h with
  | openThrows h => exact hs
  | openLock h hl =>
      exact hs.take hl (by rw [h]; rfl) rfl rfl
  | spawn h =>
      obtain ⟨hheld, hlost, hl⟩ := hs.mine (by rw [h]; rfl)
      refine ⟨?_, Nat.zero_le _, ?_, fun hno => absurd rfl hno, fun th hth => ?_⟩
      · -- the mutex goes to the new thread
        rw [hl]
        have hnew : held (s.threads ++ [⟨.unlock, false⟩]) = 1 := by
          rw [held, List.countP_append]
          exact congrArg (· + 1) hheld
        show 0 + held (s.threads ++ [⟨.unlock, false⟩]) + lost = 1
        rw [hnew, hlost]
      · rw [h] at honce
        rw [clients, List.flatMap_append]
        exact (List.append_nil _).symm ▸ honce
      · rcases List.mem_append.mp hth with hth | hth
        · exact hs.alive th hth
        · rw [List.mem_singleton.mp hth]
          exact fun _ => Place.noConfusion
  | spawnThrows h =>
      refine ⟨?_, Nat.zero_le _, ?_, fun _ => hs.started (by rw [h]; exact MainAt.noConfusion),
        hs.alive⟩
      · rw [h] at hexclusive
        show 0 + held s.threads + (lost + 1) = s.locked.toNat
        rw [← hexclusive]
        show 0 + held s.threads + (lost + 1) = 1 + held s.threads + lost
        omega
      · rw [h] at honce
        exact honce
  | openWait h hl =>
      exact hs.take hl (by rw [h]; rfl) rfl rfl
  | openUnlock h =>
      exact hs.give (by rw [h]; rfl) (by rw [h]; rfl)
  | close h t th hacc ht hp =>
      obtain ⟨rest, hold, hnew⟩ := exists_rest ht
      obtain ⟨hexclusive', hinside', honce', hstarted', halive'⟩ := (inv_iff_apart hold).mp hs
      refine (inv_iff_apart (hnew { th with cancelled := true })).mpr ?_
      exact ⟨hexclusive', hinside', honce', hstarted', ⟨fun _ => hp, halive'.2⟩⟩
  | checkIncoming h hl =>
      exact hs.take hl (by rw [h]; rfl) rfl rfl
  | addConnection i c h hc =>
      refine ⟨?_, (List.getElem?_eq_some_iff.mp hc).1, ?_,
        fun _ => hs.started (by rw [h]; exact MainAt.noConfusion),
        hs.alive⟩
      · rw [h] at hexclusive
        exact hexclusive
      · rw [h] at honce
        refine List.Perm.trans ?_ honce
        obtain ⟨hi, hc⟩ := List.getElem?_eq_some_iff.mp hc
        have hdrop : s.incoming.drop i = c :: s.incoming.drop (i + 1) := by
          rw [List.drop_eq_getElem_cons hi, hc]
        rw [clients]
        refine List.Perm.append_left _ ?_
        show (s.incoming.drop (i + 1) ++ (s.added ++ [c])).Perm (s.incoming.drop i ++ s.added)
        rw [hdrop, ← List.append_assoc]
        exact List.perm_append_singleton _ _
  | clearIncoming h =>
      refine ⟨?_, Nat.zero_le _, ?_, fun _ => hs.started (by rw [h]; exact MainAt.noConfusion),
        hs.alive⟩
      · rw [h] at hexclusive
        exact hexclusive
      · rw [h] at honce
        have hdrop : s.incoming.drop (MainAt.add s.incoming.length).passed = [] :=
          List.drop_length
        rw [hdrop] at honce
        exact honce
  | unlockIncoming h =>
      exact hs.give (by rw [h]; rfl) (by rw [h]; rfl)
  | thread t a th ht s₁ p ha =>
      obtain ⟨rest, hold, hnew⟩ := exists_rest ht
      obtain ⟨hexclusive', hinside', honce', hstarted', halive'⟩ :=
          ((inv_iff_apart hold).mp hs).acts ha
      refine (inv_iff_apart (hnew { th with place := p })).mpr ?_
      exact ⟨hexclusive', hinside', honce', hstarted', halive'⟩

end Steps

lemma inv_start : Inv 0 start :=
  ⟨rfl, le_refl 0, List.Perm.refl _, fun _ _ hth => absurd hth List.not_mem_nil,
    fun _ hth => absurd hth List.not_mem_nil⟩

/-- How often `spawn` throws in a run. -/
def fails (es : List Step) : ℕ := (es.map Step.fails).sum

lemma inv_run {s s' : State} (hs : Inv lost s) {es : List Step}
    (h : Runs.run step s es = some s') : Inv (lost + fails es) s' := by
  induction es generalizing s lost with
  | nil => exact Option.some.inj h ▸ hs
  | cons e es ih =>
      obtain ⟨s₁, h₁, h⟩ := Option.bind_eq_some_iff.mp h
      have hrest := ih (inv_next hs (next_of_step h₁)) h
      rwa [Nat.add_assoc] at hrest

/-! ### Runs of the threads alone -/

/-- Steps of the threads. -/
def acts (ts : List (ℕ × Act)) : List Step := ts.map fun x => .thread x.1 x.2

section Acts

variable {s s' : State} {t : ℕ} {th : Thread}

lemma run_acts_cons (ht : s.threads[t]? = some th) {a : Act} {r : State × Place}
    (ha : act s th a = some r) (ts : List (ℕ × Act)) :
    Runs.run step s (acts ((t, a) :: ts))
      = Runs.run step { r.1 with threads := s.threads.set t { th with place := r.2 } }
        (acts ts) := by
  rw [acts, List.map_cons, Runs.run, step, ht, Option.bind_some, ha, Option.map_some,
    Option.bind_some, acts]

/-- The thread is there, after what it has done. -/
lemma getElem?_stepped {ths : List Thread} (ht : ths[t]? = some th) (th' : Thread) :
    (ths.set t th')[t]? = some th' := by
  obtain ⟨hlt, -⟩ := List.getElem?_eq_some_iff.mp ht
  exact List.getElem?_set_self hlt

lemma map_cancelled_set {ths : List Thread} (ht : ths[t]? = some th) (p : Place) :
    (ths.set t { th with place := p }).map Thread.cancelled = ths.map Thread.cancelled := by
  obtain ⟨hlt, -⟩ := List.getElem?_eq_some_iff.mp ht
  apply List.ext_getElem?
  intro n
  rw [List.getElem?_map, List.getElem?_map, List.getElem?_set]
  by_cases hn : t = n
  · subst hn
    rw [if_pos rfl, if_pos hlt, ht, Option.map_some, Option.map_some]
  · rw [if_neg hn]

/-- Which thread `close` cancels, and which ones were cancelled, does not change. -/
lemma acts_frame {ts : List (ℕ × Act)} (h : Runs.run step s (acts ts) = some s') :
    s'.mainAt = s.mainAt ∧ s'.accept_thread = s.accept_thread
      ∧ s'.threads.map Thread.cancelled = s.threads.map Thread.cancelled := by
  induction ts generalizing s with
  | nil => exact Option.some.inj h ▸ ⟨rfl, rfl, rfl⟩
  | cons x ts ih =>
      obtain ⟨t, a⟩ := x
      obtain ⟨s₁, h₁, h⟩ := Option.bind_eq_some_iff.mp h
      obtain ⟨hmain, hacc, hcancelled⟩ := ih h
      rw [hmain, hacc, hcancelled]
      cases next_of_step h₁ with
      | thread t a th ht s₂ p ha =>
          refine ⟨?_, ?_, map_cancelled_set ht p⟩
          · cases ha <;> rfl
          · cases ha <;> rfl

/-- A thread that holds the mutex can let it go. -/
lemma exists_release (ht : s.threads[t]? = some th) (hp : th.place.holds = true) :
    ∃ ts s', Runs.run step s (acts ts) = some s' ∧ s'.locked = false := by
  cases hplace : th.place with
  | unlock =>
      exact ⟨[(t, .started)], _, run_acts_cons ht (by rw [act, if_pos hplace]) [], rfl⟩
  | release =>
      exact ⟨[(t, .release)], _, run_acts_cons ht (by rw [act, if_pos hplace]) [], rfl⟩
  | push c =>
      refine ⟨[(t, .push), (t, .release)], _, (run_acts_cons ht (by rw [act, hplace]) _).trans
        (run_acts_cons (getElem?_stepped ht _) (by rw [act, if_pos rfl]) []), rfl⟩
  | accept => rw [hplace] at hp; cases hp
  | caught => rw [hplace] at hp; cases hp
  | lock c => rw [hplace] at hp; cases hp
  | ended => rw [hplace] at hp; cases hp

end Acts

/-! ### What holds in every state -/

section Recover

variable {s s' : State}

/-- Where the main loop does not hold the mutex and no `spawn` has thrown, the threads alone can
free it. -/
lemma exists_free (hs : Inv 0 s) (hm : s.mainAt.holds = false) :
    ∃ ts s', Runs.run step s (acts ts) = some s' ∧ s'.locked = false := by
  cases hl : s.locked with
  | false => exact ⟨[], s, rfl, hl⟩
  | true =>
      have hexclusive : s.mainAt.holds.toNat + held s.threads + 0 = s.locked.toNat := hs.exclusive
      rw [hm, hl] at hexclusive
      have hpos : 0 < held s.threads := by
        have hone : false.toNat + held s.threads + 0 = 1 := hexclusive
        have hzero : false.toNat = 0 := rfl
        omega
      obtain ⟨th, hth, hp⟩ := List.countP_pos_iff.mp hpos
      obtain ⟨t, ht⟩ := List.mem_iff_getElem?.mp hth
      exact exists_release ht hp

/-- The mutex can be had again. -/
def Recovers (s : State) : Prop :=
  ∃ es s', Runs.run step s es = some s' ∧ s'.locked = false

lemma Recovers.of_free (h : s.locked = false) : Recovers s := ⟨[], s, rfl, h⟩

lemma Recovers.step {i : Step} (h : step s i = some s') (h' : Recovers s') : Recovers s := by
  obtain ⟨es, s₁, hrun, hl⟩ := h'
  exact ⟨i :: es, s₁, by rw [Runs.run, h, Option.bind_some, hrun], hl⟩

/-- The end of `check_incoming`. -/
lemma recovers_cleared (hm : s.mainAt = .cleared) : Recovers s := by
  have hunlock : step s .unlockIncoming = some { s with locked := false, mainAt := .idle } := by
    rw [Lifecycle.step, if_pos hm]
  exact Recovers.step hunlock (Recovers.of_free rfl)

/-- The rest of the loop of `check_incoming`, and its end. -/
lemma recovers_add (n i : ℕ) (hm : s.mainAt = .add i) (hn : i + n = s.incoming.length) :
    Recovers s := by
  induction n generalizing s i with
  | zero =>
      have hclear : step s .clearIncoming = some { s with incoming := [], mainAt := .cleared } := by
        rw [Lifecycle.step, if_pos (by rw [hm, ← hn, Nat.add_zero])]
      exact Recovers.step hclear (recovers_cleared rfl)
  | succ n ih =>
      have hi : i < s.incoming.length := by omega
      have hadd : step s .addConnection
          = some { s with added := s.added ++ [s.incoming[i]], mainAt := .add (i + 1) } := by
        rw [Lifecycle.step, hm]
        dsimp only
        rw [List.getElem?_eq_getElem hi, Option.map_some]
      refine Recovers.step hadd (ih (i + 1) rfl ?_)
      rw [← hn]
      omega

/-- The main loop can let the mutex go. -/
lemma recovers_of_main (hs : Inv 0 s) (hm : s.mainAt.holds = true) : Recovers s := by
  cases hat : s.mainAt with
  | idle => rw [hat] at hm; cases hm
  | wait => rw [hat] at hm; cases hm
  | spawn =>
      have hspawn : step s (.spawn true)
          = some { s with threads := s.threads ++ [⟨.unlock, false⟩],
                          accept_thread := some s.threads.length, mainAt := .wait } := by
        rw [Lifecycle.step, if_pos hat]
      obtain ⟨ts, s₁, hrun, hl⟩ := exists_release (s := { s with
          threads := s.threads ++ [⟨.unlock, false⟩], accept_thread := some s.threads.length,
          mainAt := .wait }) (List.getElem?_concat_length) rfl
      exact Recovers.step hspawn ⟨acts ts, s₁, hrun, hl⟩
  | opened =>
      have hunlock : step s .openUnlock = some { s with locked := false, mainAt := .idle } := by
        rw [Lifecycle.step, if_pos hat]
      exact Recovers.step hunlock (Recovers.of_free rfl)
  | add i =>
      have hi := hs.inside
      rw [hat] at hi
      exact recovers_add (s.incoming.length - i) i hat (Nat.add_sub_cancel' hi)
  | cleared => exact recovers_cleared hat

end Recover

lemma fails_eq_zero_iff {es : List Step} : fails es = 0 ↔ .spawn false ∉ es := by
  rw [fails, List.sum_eq_zero_iff]
  constructor
  · intro h hmem
    have hone := h _ (List.mem_map_of_mem hmem)
    rw [Step.fails, if_pos rfl] at hone
    cases hone
  · intro h n hn
    obtain ⟨i, hi, rfl⟩ := List.mem_map.mp hn
    rw [Step.fails, if_neg fun heq : i = .spawn false => h (heq ▸ hi)]

lemma fails_acts (ts : List (ℕ × Act)) : fails (acts ts) = 0 := by
  rw [fails_eq_zero_iff, acts]
  intro hmem
  obtain ⟨x, -, hx⟩ := List.mem_map.mp hmem
  cases hx

/-- The server was opened, and not closed since. -/
def Step.after (opened : Bool) (i : Step) : Bool :=
  if i = .close then false else if i = .spawn true then true else opened

/-- The thread that `close` would cancel is there and was not cancelled. -/
def fresh (s : State) : Bool :=
  decide ((s.accept_thread.bind fun t => (s.threads.map Thread.cancelled)[t]?) = some false)

lemma fresh_next {s s' : State} {i : Step} (h : Next s i s') :
    fresh s' = Step.after (fresh s) i := by
  cases h with
  | openThrows h => rfl
  | openLock h hl => rfl
  | spawn h =>
      rw [Step.after, if_neg Step.noConfusion, if_pos rfl, fresh, decide_eq_true_iff]
      dsimp only
      rw [Option.bind_some, List.map_append, ← List.length_map (f := Thread.cancelled)]
      exact List.getElem?_concat_length
  | spawnThrows h => rfl
  | openWait h hl => rfl
  | openUnlock h => rfl
  | close h t th hacc ht hp =>
      rw [Step.after, if_pos rfl, fresh, decide_eq_false_iff_not]
      dsimp only
      rw [hacc, Option.bind_some, List.getElem?_map, getElem?_stepped ht, Option.map_some]
      exact fun hno => Bool.noConfusion (Option.some.inj hno)
  | checkIncoming h hl => rfl
  | addConnection i c h hc => rfl
  | clearIncoming h => rfl
  | unlockIncoming h => rfl
  | thread t a th ht s₁ p ha =>
      rw [Step.after, if_neg Step.noConfusion, if_neg Step.noConfusion, fresh, fresh]
      have hacc : s₁.accept_thread = s.accept_thread := by cases ha <;> rfl
      dsimp only
      rw [hacc, map_cancelled_set ht p]

lemma fresh_run {s s' : State} {es : List Step} (h : Runs.run step s es = some s') :
    fresh s' = es.foldl Step.after (fresh s) := by
  induction es generalizing s with
  | nil => exact Option.some.inj h ▸ rfl
  | cons e es ih =>
      obtain ⟨s₁, h₁, h⟩ := Option.bind_eq_some_iff.mp h
      rw [ih h, fresh_next (next_of_step h₁), List.foldl_cons]

/-! ### The results -/

/-- **Whatever the threads do, one at most is at `incoming`, and no client is lost.** In every state
that a run of the main loop and of any number of accept threads reaches, the mutex is locked if and
only if one thread holds it or a `spawn` has thrown, and never more than one holds it; the clients
that were accepted are in the hands of a thread, in `incoming` or added, each once, also where their
thread was cancelled since; and the thread that an `open` started is running when it returns. -/
theorem orderly_run (es : List Step) (s : State) (h : Runs.run step start es = some s) :
    holders s + fails es = s.locked.toNat ∧ (clients s).Perm (List.range s.accepted) ∧
      (s.mainAt ≠ .wait → ∀ th ∈ s.threads, th.place ≠ .unlock) := by
  have hs := inv_run inv_start h
  rw [Nat.zero_add] at hs
  exact ⟨hs.exclusive, hs.once, hs.started⟩

/-- A server that is opened, accepts a client, is closed and is opened again. The first thread gets
the mutex while the second `open` waits for it. -/
def reopened : List Step :=
  [.openLock, .spawn true, .thread 0 .started, .openWait, .openUnlock, .thread 0 .accept, .close,
    .openLock, .spawn true, .thread 1 .started, .thread 0 .lock]

/-- Where this ends. -/
def waiting : State := ⟨[⟨.push 0, true⟩, ⟨.accept, false⟩], some 1, true, .wait, [], [], 1⟩

theorem orderly_run_reopened :
    holders waiting + fails reopened = waiting.locked.toNat ∧
      (clients waiting).Perm (List.range waiting.accepted) ∧
      (waiting.mainAt ≠ .wait → ∀ th ∈ waiting.threads, th.place ≠ .unlock) :=
  orderly_run reopened waiting rfl

/-- **The mutex can be had again, in every state, unless a `spawn` has thrown**: then `open` has
locked it for ever. -/
theorem recovers_iff (es : List Step) (s : State) (h : Runs.run step start es = some s) :
    Recovers s ↔ .spawn false ∉ es := by
  have hs := inv_run inv_start h
  rw [Nat.zero_add] at hs
  rw [← fails_eq_zero_iff]
  constructor
  · rintro ⟨es', s', hrun, hl⟩
    obtain ⟨-, -, hlost⟩ := (inv_run hs hrun).free hl
    exact Nat.eq_zero_of_add_eq_zero_right hlost
  · intro hfails
    rw [hfails] at hs
    cases hm : s.mainAt.holds with
    | true => exact recovers_of_main hs hm
    | false =>
        obtain ⟨ts, s', hrun, hl⟩ := exists_free hs hm
        exact ⟨acts ts, s', hrun, hl⟩

theorem recovers_iff_reopened : Recovers waiting ↔ .spawn false ∉ reopened :=
  recovers_iff reopened waiting rfl

/-- A thread that was cancelled can come to its end, where the mutex is free. -/
lemma exists_ended {s : State} {t : ℕ} {th : Thread} (hs : Inv 0 s) (hl : s.locked = false)
    (ht : s.threads[t]? = some th) (hc : th.cancelled = true) :
    ∃ ts s', Runs.run step s (acts ts) = some s' ∧
      ∃ th', s'.threads[t]? = some th' ∧ th'.place = .ended := by
  have hmem := List.mem_of_getElem? ht
  have hno : th.place.holds ≠ true := List.countP_eq_zero.mp (hs.free hl).2.1 th hmem
  cases hplace : th.place with
  | unlock => rw [hplace] at hno; exact absurd rfl hno
  | push c => rw [hplace] at hno; exact absurd rfl hno
  | release => rw [hplace] at hno; exact absurd rfl hno
  | ended => exact ⟨[], s, rfl, th, ht, hplace⟩
  | accept =>
      exact ⟨[(t, .cancel)], _,
        run_acts_cons ht (by rw [act, if_pos ⟨hc, Or.inl hplace⟩]) [],
        _, getElem?_stepped ht _, rfl⟩
  | caught =>
      exact ⟨[(t, .cancel)], _,
        run_acts_cons ht (by rw [act, if_pos ⟨hc, Or.inr hplace⟩]) [],
        _, getElem?_stepped ht _, rfl⟩
  | lock c =>
      have ht₁ := getElem?_stepped ht { th with place := .push c }
      have ht₂ := getElem?_stepped ht₁ { th with place := .release }
      have ht₃ := getElem?_stepped ht₂ { th with place := .accept }
      refine ⟨[(t, .lock), (t, .push), (t, .release), (t, .cancel)], _,
        (run_acts_cons ht (by rw [act, hplace, hl]) _).trans
          ((run_acts_cons ht₁ (by rw [act]) _).trans
            ((run_acts_cons ht₂ (by rw [act, if_pos rfl]) _).trans
              (run_acts_cons ht₃ (by rw [act, if_pos ⟨hc, Or.inl rfl⟩]) []))),
        _, getElem?_stepped ht₃ _, rfl⟩

/-- **Cancelling a thread that is not there.** In a state where the main loop is between two calls
and no `spawn` has thrown, the threads can go on such that `close` cancels a thread that does not
exist, or not any more, if and only if the server was not opened since it was last closed; and
`~Server` closes it in any case. -/
theorem close_undefined_iff (es : List Step) (s : State) (h : Runs.run step start es = some s)
    (hidle : s.mainAt = .idle) (hok : .spawn false ∉ es) :
    (∃ ts s', Runs.run step s (acts ts) = some s' ∧ close s' = none) ↔
      es.foldl Step.after false = false := by
  have hs := inv_run inv_start h
  rw [Nat.zero_add, fails_eq_zero_iff.mpr hok] at hs
  have hfresh : fresh s = es.foldl Step.after false := fresh_run h
  rw [← hfresh]
  constructor
  · rintro ⟨ts, s', hrun, hclose⟩
    obtain ⟨-, hacc, hcancelled⟩ := acts_frame hrun
    rw [← Bool.not_eq_true]
    intro hyes
    rw [fresh, decide_eq_true_iff, ← hacc, ← hcancelled] at hyes
    obtain ⟨t, ht, hc⟩ := Option.bind_eq_some_iff.mp hyes
    rw [List.getElem?_map] at hc
    obtain ⟨th, hth, hc⟩ := Option.map_eq_some_iff.mp hc
    have halive := (inv_run hs hrun).alive th (List.mem_of_getElem? hth) hc
    rw [close, ht] at hclose
    dsimp only at hclose
    rw [hth] at hclose
    dsimp only at hclose
    rw [if_neg halive] at hclose
    cases hclose
  · intro hno
    cases hacc : s.accept_thread with
    | none => exact ⟨[], s, rfl, by rw [close, hacc]⟩
    | some t =>
        cases ht : s.threads[t]? with
        | none =>
            refine ⟨[], s, rfl, ?_⟩
            rw [close, hacc]
            dsimp only
            rw [ht]
        | some th =>
            have hc : th.cancelled = true := by
              rw [fresh, hacc, Option.bind_some, List.getElem?_map, ht, Option.map_some] at hno
              exact (Bool.not_eq_false _).mp fun hf =>
                (decide_eq_false_iff_not.mp hno) (congrArg some hf)
            obtain ⟨ts, s₁, hrun, hl⟩ := exists_free hs (by rw [hidle]; rfl)
            have hs₁ := inv_run hs hrun
            rw [Nat.zero_add, fails_acts] at hs₁
            obtain ⟨-, hacc₁, hcancelled⟩ := acts_frame hrun
            have hth₁ : (s₁.threads.map Thread.cancelled)[t]? = some true := by
              rw [hcancelled, List.getElem?_map, ht, Option.map_some, hc]
            rw [List.getElem?_map] at hth₁
            obtain ⟨th₁, ht₁, hc₁⟩ := Option.map_eq_some_iff.mp hth₁
            obtain ⟨ts₂, s₂, hrun₂, th₂, ht₂, hended⟩ :=
              exists_ended hs₁ hl ht₁ hc₁
            refine ⟨ts ++ ts₂, s₂, ?_, ?_⟩
            · rw [acts, List.map_append, Runs.run_append]
              exact (congrArg (Option.bind · _) hrun).trans hrun₂
            · rw [close, (acts_frame hrun₂).2.1, hacc₁, hacc]
              dsimp only
              rw [ht₂]
              dsimp only
              rw [if_pos hended]

/-- A server that is opened and closed. -/
def closed : List Step :=
  [.openLock, .spawn true, .thread 0 .started, .openWait, .openUnlock, .close]

theorem close_undefined_iff_closed :
    (∃ ts s', Runs.run step ⟨[⟨.accept, true⟩], some 0, false, .idle, [], [], 0⟩ (acts ts) = some s'
      ∧ close s' = none) ↔ closed.foldl Step.after false = false :=
  close_undefined_iff closed _ rfl rfl fun hmem => by simp [closed] at hmem

end Napd.Lifecycle
