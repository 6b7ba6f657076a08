import Napd.Client.Stream
import Napd.Client.Queue
import Napd.Library.Runs

/-!
Two clients at the two ends of a stream connection.

* `Link`: the clients, the bytes that are on the way from each of them, and what the calls of
  `read` at each of them returned. `Act`, `step`: any call at any end, in any order, however the
  kernel cuts the bytes at either end.
* `Way`: what one direction consists of, `Link.way`; a call at an end touches the direction it
  belongs to and leaves the other one alone (`step_send`, `step_read`).
* `run_keeps`: over every run, what was read, held, under way and queued is what was
  written; `link_delivers`: commands are delivered in order, unchanged, none twice and none
  made up; `link_drains`: whenever the kernel serves a flush and the reads, all of them.
-/

namespace Napd

/-- The ends of a connection. -/
inductive End where
  | left
  | right
  deriving DecidableEq

namespace End

def other : End → End
  | .left => .right
  | .right => .left

@[simp] lemma other_other (e : End) : e.other.other = e := by cases e <;> rfl

@[simp] lemma other_ne (e : End) : e.other ≠ e := by cases e <;> nofun

lemma eq_or_other (e e' : End) : e' = e ∨ e' = e.other := by cases e <;> cases e' <;> decide

end End

/-- Two connected clients. -/
structure Link where
  client : End → Client
  flight : End → List U8
  results : End → List Client.Result

namespace Link

open Client Command

/-- A connection that was just made. -/
def start : Link := ⟨fun _ => opened true, fun _ => [], fun _ => []⟩

/-- A call at an end of the connection, with the kernel's answers to it. -/
inductive Act where
  | send (e : End) (x : Call)
  | read (e : End) (f : Fresh) (answers : List Answer)

/-- A call of `write` or `flush` at an end: how it ends, and the connection after it. -/
def sendAt (l : Link) (e : End) (x : Call) : Option (Progress × Link) := do
  let (p, c, flight) ← (l.client e).call (l.flight e) x
  return (p, { l with
    client := Function.update l.client e c
    flight := Function.update l.flight e flight })

/-- A call of `read` at an end. What it reads comes from the other one. -/
def readAt (l : Link) (e : End) (f : Fresh) (answers : List Answer) : Option (Result × Link) := do
  let (r, c, k) ← (l.client e).read stream f ⟨[], l.flight e.other⟩ answers
  return (r, {
    client := Function.update l.client e c
    flight := Function.update l.flight e.other k.pending
    results := Function.update l.results e (l.results e ++ [r]) })

/-- One call. A throw leaves the connection as it stands. -/
def step (l : Link) : Act → Option Link
  | .send e x => (l.sendAt e x).map Prod.snd
  | .read e f answers => (l.readAt e f answers).map Prod.snd

/-- The commands that were read at an end. -/
def read (l : Link) (e : End) : List Command := commands (l.results e)

/-- The commands a call at `e` writes. -/
def Act.written (e : End) : Act → List Sendable
  | .send e' x => if e' = e then x.written else []
  | .read _ _ _ => []

/-- The commands written at `e`, in order. -/
def written (e : End) (acts : List Act) : List Sendable := acts.flatMap (Act.written e)

end Link

/-! ### What a call leaves alone -/

namespace Client

open Command

section Sending

variable {σ α : Type} {K : Sender σ α} {R : σ → σ → Prop}

/-- The kernel's state after a `send` is one that `K.send` makes. -/
lemma send_rel (hsend : ∀ k a dest bs, R k (K.send k a dest bs).2) {com com' : Command} {k k' : σ}
    {a : α} {r : Send} (h : com.send K k a = some (r, com', k')) : R k k' := by
  rw [Command.send] at h
  obtain ⟨b, -, h⟩ := Option.bind_eq_some_iff.mp h
  obtain ⟨i, -, h⟩ := Option.bind_eq_some_iff.mp h
  by_cases hfit : i + com.remaining ≤ b.bytes.length
  swap
  · rw [if_neg hfit] at h
    cases h
  rw [if_pos hfit] at h
  have hkernel := hsend k a (if com.peer = {} then none else some com.peer) com.unsent
  generalize K.send k a (if com.peer = {} then none else some com.peer) com.unsent = out
    at h hkernel
  obtain ⟨r₁, k₁⟩ := out
  cases r₁ with
  | taken n =>
      cases h
      exact hkernel
  | again =>
      cases h
      exact hkernel
  | error =>
      cases h
      exact hkernel

/-- **What every `send` does to the kernel's state, the loop of `flush` does.** -/
lemma sendAll_rel (hrefl : ∀ k, R k k) (htrans : ∀ {k₁ k₂ k₃}, R k₁ k₂ → R k₂ k₃ → R k₁ k₃)
    (hsend : ∀ k a dest bs, R k (K.send k a dest bs).2) {com com' : Command} {k k' : σ}
    {answers rest : List α} {p : Progress}
    (h : sendAll K com k answers = some (p, com', k', rest)) : R k k' := by
  induction answers generalizing com k with
  | nil =>
      rw [sendAll.eq_def] at h
      split_ifs at h
      · cases h
        exact hrefl _
      · cases h
        exact hrefl _
  | cons a answers ih =>
      rw [sendAll.eq_def] at h
      split_ifs at h
      · cases h
        exact hrefl _
      obtain ⟨⟨r, com₁, k₁⟩, hstep, h⟩ := Option.bind_eq_some_iff.mp h
      have hrel : R k k₁ := send_rel hsend hstep
      cases r with
      | taken n =>
          cases n with
          | zero =>
              cases h
              exact hrel
          | succ n => exact htrans hrel (ih h)
      | again =>
          cases h
          exact hrel
      | error =>
          cases h
          exact hrel

lemma flushQueue_rel (hrefl : ∀ k, R k k) (htrans : ∀ {k₁ k₂ k₃}, R k₁ k₂ → R k₂ k₃ → R k₁ k₃)
    (hsend : ∀ k a dest bs, R k (K.send k a dest bs).2) {queue queue' : List Command} {k k' : σ}
    {answers : List α} {p : Progress}
    (h : flushQueue K k answers queue = some (p, queue', k')) : R k k' := by
  induction queue generalizing k answers with
  | nil =>
      cases h
      exact hrefl _
  | cons com queue ih =>
      obtain ⟨⟨p₁, com₁, k₁, rest⟩, hloop, h⟩ := Option.bind_eq_some_iff.mp h
      have hrel : R k k₁ := sendAll_rel hrefl htrans hsend hloop
      cases p₁ with
      | done => exact htrans hrel (ih h)
      | again =>
          cases h
          exact hrel
      | thrown =>
          cases h
          exact hrel

end Sending

/-- A call on the writing side appends to what was accepted; it leaves the reading side alone. -/
lemma call_frame {c c' : Client} {accepted accepted' : List U8} {x : Call} {p : Progress}
    (h : c.call accepted x = some (p, c', accepted')) :
    accepted <+: accepted' ∧ c'.rbuffer = c.rbuffer ∧ c'.connected = c.connected := by
  have hsend : ∀ (k : List U8) (a : Answer) (dest : Option Address) (bs : List U8),
      k <+: (sink.send k a dest bs).2 := by
    intro k a dest bs
    cases a with
    | bytes n => exact List.prefix_append _ _
    | closed => exact List.prefix_refl _
    | again => exact List.prefix_refl _
    | error => exact List.prefix_refl _
  have hflush : ∀ (c₁ : Client) {c₂ : Client} {p : Progress} {as : List Answer},
      c₁.flush sink accepted as = some (p, c₂, accepted') →
        accepted <+: accepted' ∧ c₂.rbuffer = c₁.rbuffer ∧ c₂.connected = c₁.connected := by
    intro c₁ _ _ _ hrun
    obtain ⟨⟨p', queue, k⟩, hloop, hrun⟩ := Option.bind_eq_some_iff.mp hrun
    cases hrun
    exact ⟨flushQueue_rel List.prefix_refl (fun h₁ h₂ => h₁.trans h₂) hsend hloop, rfl, rfl⟩
  cases x with
  | flush answers => exact hflush c h
  | write f x answers =>
      obtain ⟨com, -, h⟩ := Option.bind_eq_some_iff.mp h
      split_ifs at h
      · exact hflush { c with wqueue := c.wqueue ++ [com] } h
      · cases h
        exact ⟨List.prefix_refl _, rfl, rfl⟩

section Reading

variable {σ α : Type} {K : Receiver σ α}

lemma fill_frame {c c' : Client} {com : Command} {k k' : σ} {answers : List α} {r : Result}
    (h : c.fill K com k answers = some (r, c', k')) :
    c'.wqueue = c.wqueue ∧ c'.connected = c.connected := by
  induction answers generalizing com k with
  | nil =>
      rw [fill] at h
      split_ifs at h
      · cases h
        exact ⟨rfl, rfl⟩
      · cases h
        exact ⟨rfl, rfl⟩
  | cons a answers ih =>
      rw [fill] at h
      split_ifs at h
      · cases h
        exact ⟨rfl, rfl⟩
      obtain ⟨⟨r₁, com₁, k₁⟩, -, h⟩ := Option.bind_eq_some_iff.mp h
      cases r₁ with
      | bytes bs =>
          cases bs with
          | nil =>
              cases h
              exact ⟨rfl, rfl⟩
          | cons b bs => exact ih h
      | again =>
          cases h
          exact ⟨rfl, rfl⟩
      | error =>
          cases h
          exact ⟨rfl, rfl⟩

/-- A `read` leaves the writing side alone. -/
lemma read_frame {c c' : Client} {f : Fresh} {k k' : σ} {answers : List α} {r : Result}
    (h : c.read K f k answers = some (r, c', k')) :
    c'.wqueue = c.wqueue ∧ c'.connected = c.connected := by
  rw [read.eq_def] at h
  split at h
  · exact fill_frame h
  · split at h
    · cases h
      exact ⟨rfl, rfl⟩
    · split at h
      split at h
      · cases h
        exact ⟨rfl, rfl⟩
      · cases h
        exact ⟨rfl, rfl⟩
      · exact fill_frame h
      · cases h
        exact ⟨rfl, rfl⟩

end Reading

end Client

/-! ### One direction -/

namespace Link

open Client Command

/-- One direction of a connection: the queue of the client that writes, the bytes on the way,
what the client that reads holds, and what its calls of `read` returned. -/
structure Way where
  queue : List Command
  flight : List U8
  reader : Client
  results : List Result

/-- The direction from an end to the other one. -/
def way (l : Link) (e : End) : Way :=
  ⟨(l.client e).wqueue, l.flight e, l.client e.other, l.results e.other⟩

namespace Way

/-- The bytes that were written and not read: held by the reader, on the way, queued. -/
def outstanding (w : Way) : List U8 :=
  w.reader.held ++ (w.flight ++ w.queue.flatMap unsent)

/-- All the bytes of a direction. -/
def total (w : Way) : List U8 := ((commands w.results).map frame).flatten ++ w.outstanding

/-- The state of a direction between two calls. -/
structure Inv (w : Way) : Prop where
  connected : w.reader.connected = true
  queued : ∀ com ∈ w.queue, Queued com
  waiting : Waiting w.flight w.reader.rbuffer w.reader.held
  complete : ∀ com ∈ commands w.results, Complete com

/-- What is held may be completed by what is still to come, however much comes. -/
lemma waiting_append {pending pending' held : List U8} {buf : Option Command}
    (h : Waiting pending buf held) (hpre : pending <+: pending') : Waiting pending' buf held := by
  cases h with
  | idle => exact .idle
  | part h =>
      refine .part ⟨h.holds, h.short, h.header.trans ?_⟩
      exact (List.prefix_append_right_inj _).mpr hpre

/-- **A call on the writing side** appends the frame of the command it writes. -/
lemma Inv.send_keeps {w : Way} (h : w.Inv) {c : Client} (hqueue : c.wqueue = w.queue) (x : Call) :
    ∃ p c' flight, c.call w.flight x = some (p, c', flight) ∧
      Inv { w with queue := c'.wqueue, flight := flight } ∧
      total { w with queue := c'.wqueue, flight := flight }
        = w.total ++ x.written.flatMap fun y => y.com.frame := by
  have hqueued : ∀ com ∈ c.wqueue, Queued com := hqueue ▸ h.queued
  obtain ⟨p, c', flight, hcall, hqueued', hkeep⟩ := call_keeps hqueued w.flight x
  obtain ⟨hpre, -, -⟩ := call_frame hcall
  refine ⟨p, c', flight, hcall,
    ⟨h.connected, hqueued', waiting_append h.waiting hpre, h.complete⟩, ?_⟩
  rw [total, total, outstanding, outstanding]
  simp only [hkeep, hqueue, List.append_assoc]

/-- **A call of `read`** takes bytes off the front and keeps them, or hands them out as a
command. -/
lemma Inv.read_keeps {w : Way} (h : w.Inv) (f : Fresh) (answers : List Answer) :
    ∃ r c k, w.reader.read stream f ⟨[], w.flight⟩ answers = some (r, c, k) ∧
      Inv ⟨w.queue, k.pending, c, w.results ++ [r]⟩ ∧
      total ⟨w.queue, k.pending, c, w.results ++ [r]⟩ = w.total := by
  obtain ⟨r, c, k, bs, hread, hc, hmove, hends⟩ :=
    read_stream (k := ⟨[], w.flight⟩) h.connected f answers h.waiting
  have hflight : w.flight = bs ++ k.pending := hmove.pending
  refine ⟨r, c, k, hread, ?_⟩
  generalize hbuf : c.rbuffer = buf at hends
  cases hends with
  | @command com hcom hframe =>
      have hheld : c.held = [] := by rw [Client.held, hbuf]
      have hnew : commands (w.results ++ [.command com]) = commands w.results ++ [com] :=
        List.filterMap_append
      refine ⟨⟨hc, h.queued, ?_, ?_⟩, ?_⟩
      · show Waiting k.pending c.rbuffer c.held
        rw [hheld, hbuf]
        exact .idle
      · show ∀ x ∈ commands (w.results ++ [.command com]), Complete x
        rw [hnew]
        exact List.forall_mem_append.mpr ⟨h.complete, List.forall_mem_singleton.mpr hcom⟩
      · calc total ⟨w.queue, k.pending, c, w.results ++ [.command com]⟩
            = ((commands w.results).map frame).flatten
                ++ (com.frame ++ (k.pending ++ w.queue.flatMap unsent)) := by
              rw [total, outstanding, hnew, hheld]
              simp
          _ = w.total := by
              rw [hframe, total, outstanding, hflight]
              simp only [List.append_assoc]
  | @waiting _ _ hr hwait =>
      rw [← hbuf] at hwait
      have hheld : c.held = w.reader.held ++ bs := hwait.held_eq
      have hsame : commands (w.results ++ [r]) = commands w.results := by
        rw [commands, List.filterMap_append, List.filterMap_cons_none hr]
        exact List.append_nil _
      refine ⟨⟨hc, h.queued, ?_, ?_⟩, ?_⟩
      · show Waiting k.pending c.rbuffer c.held
        rw [hheld]
        exact hwait
      · show ∀ x ∈ commands (w.results ++ [r]), Complete x
        rw [hsame]
        exact h.complete
      · show ((commands (w.results ++ [r])).map frame).flatten
            ++ (c.held ++ (k.pending ++ w.queue.flatMap unsent)) = w.total
        rw [hsame, hheld, total, outstanding, hflight]
        simp only [List.append_assoc]

/-- The state of a direction depends on the buffer of the client that reads, not on its queue. -/
lemma Inv.with_reader {w : Way} (h : w.Inv) {c : Client} (hbuf : c.rbuffer = w.reader.rbuffer)
    (hc : c.connected = w.reader.connected) :
    Inv { w with reader := c } ∧ total { w with reader := c } = w.total := by
  have hheld : c.held = w.reader.held := by rw [Client.held, Client.held, hbuf]
  refine ⟨⟨hc.trans h.connected, h.queued, ?_, h.complete⟩, ?_⟩
  · show Waiting w.flight c.rbuffer c.held
    rw [hheld, hbuf]
    exact h.waiting
  · show _ ++ (c.held ++ _) = _
    rw [hheld]
    rfl

end Way

/-! ### Runs -/

/-- **A call that writes** at `e`, for the direction from `e` and for the one to `e`. -/
lemma step_send {l : Link} (h : ∀ e, (l.way e).Inv) (e : End) (x : Call) :
    ∃ l', step l (.send e x) = some l' ∧ (∀ e', (l'.way e').Inv) ∧
      (l'.way e).total = (l.way e).total ++ x.written.flatMap (fun y => y.com.frame) ∧
      (l'.way e.other).total = (l.way e.other).total := by
  obtain ⟨p, c, flight, hcall, hinv, htotal⟩ := (h e).send_keeps (c := l.client e) rfl x
  have hflight : (l.way e).flight = l.flight e := rfl
  rw [hflight] at hcall
  obtain ⟨-, hbuf, hc⟩ := call_frame hcall
  have hway : Link.way { l with
      client := Function.update l.client e c
      flight := Function.update l.flight e flight } e
      = { l.way e with queue := c.wqueue, flight := flight } := by
    simp [way]
  have hother : Link.way { l with
      client := Function.update l.client e c
      flight := Function.update l.flight e flight } e.other
      = { l.way e.other with reader := c } := by
    simp [way]
  obtain ⟨hinv', htotal'⟩ := (h e.other).with_reader (c := c)
    (by rw [hbuf]; simp [way]) (by rw [hc]; simp [way])
  refine ⟨_, by rw [step, sendAt, hcall]; rfl, ?_, ?_, ?_⟩
  · intro e'
    rcases e.eq_or_other e' with rfl | rfl
    · rw [hway]
      exact hinv
    · rw [hother]
      exact hinv'
  · rw [hway]
    exact htotal
  · rw [hother]
    exact htotal'

/-- **A call that reads** at `e`, for the direction to `e` and for the one from `e`. -/
lemma step_read {l : Link} (h : ∀ e, (l.way e).Inv) (e : End) (f : Fresh) (answers : List Answer) :
    ∃ r c k l', (l.client e).read stream f ⟨[], l.flight e.other⟩ answers = some (r, c, k) ∧
      step l (.read e f answers) = some l' ∧ (∀ e', (l'.way e').Inv) ∧
      (∀ e', (l'.way e').total = (l.way e').total) ∧ l'.results e = l.results e ++ [r] ∧
      (l'.way e.other).queue = (l.way e.other).queue := by
  have hreader : (l.way e.other).reader = l.client e := by simp [way]
  have hflight : (l.way e.other).flight = l.flight e.other := rfl
  obtain ⟨r, c, k, hread, hinv, htotal⟩ := (h e.other).read_keeps f answers
  rw [hreader, hflight] at hread
  obtain ⟨hqueue, hc⟩ := read_frame hread
  have hway : Link.way {
      client := Function.update l.client e c
      flight := Function.update l.flight e.other k.pending
      results := Function.update l.results e (l.results e ++ [r]) } e.other
      = ⟨(l.way e.other).queue, k.pending, c, (l.way e.other).results ++ [r]⟩ := by
    simp [way]
  have hother : Link.way {
      client := Function.update l.client e c
      flight := Function.update l.flight e.other k.pending
      results := Function.update l.results e (l.results e ++ [r]) } e
      = l.way e := by
    simp [way, hqueue, e.other_ne.symm]
  refine ⟨r, c, k, _, hread, by rw [step, readAt, hread]; rfl, ?_, ?_,
    Function.update_self _ _ _, by rw [hway]⟩
  · intro e'
    rcases e.eq_or_other e' with rfl | rfl
    · rw [hother]
      exact h _
    · rw [hway]
      exact hinv
  · intro e'
    rcases e.eq_or_other e' with rfl | rfl
    · rw [hother]
    · rw [hway]
      exact htotal

/-- A call that writes leaves what was read as it is. -/
lemma sendAt_keeps {l : Link} (h : ∀ e, (l.way e).Inv) (e : End) (x : Call) :
    ∃ p l', l.sendAt e x = some (p, l') ∧ (∀ e', (l'.way e').Inv) ∧
      (l'.way e).total = (l.way e).total ++ x.written.flatMap (fun y => y.com.frame) ∧
      (l'.way e.other).total = (l.way e.other).total ∧ l'.results = l.results := by
  obtain ⟨l', hstep, hinv, htotal, hother⟩ := step_send h e x
  obtain ⟨⟨p, l'⟩, hat, rfl⟩ := Option.map_eq_some_iff.mp hstep
  refine ⟨p, l', hat, hinv, htotal, hother, ?_⟩
  obtain ⟨⟨p', c, flight⟩, -, hlink⟩ := Option.bind_eq_some_iff.mp hat
  cases hlink
  rfl

/-- A call that reads has one more result, and leaves those of the other end as they are. -/
lemma readAt_keeps {l : Link} (h : ∀ e, (l.way e).Inv) (e : End) (f : Fresh)
    (answers : List Answer) :
    ∃ r l', l.readAt e f answers = some (r, l') ∧ (∀ e', (l'.way e').Inv) ∧
      (∀ e', (l'.way e').total = (l.way e').total) ∧ l'.results e = l.results e ++ [r] ∧
      l'.results e.other = l.results e.other := by
  obtain ⟨r, c, k, l', hread, hstep, hinv, htotal, hres, -⟩ := step_read h e f answers
  obtain ⟨⟨r', l'⟩, hat, rfl⟩ := Option.map_eq_some_iff.mp hstep
  refine ⟨r', l', hat, hinv, htotal, ?_, ?_⟩
  · rw [readAt, hread] at hat
    cases hat
    exact hres
  · rw [readAt, hread] at hat
    cases hat
    exact Function.update_of_ne e.other_ne _ _

lemma step_keeps {l : Link} (h : ∀ e, (l.way e).Inv) (a : Act) :
    ∃ l', step l a = some l' ∧ (∀ e, (l'.way e).Inv) ∧
      ∀ e, (l'.way e).total = (l.way e).total ++ (a.written e).flatMap fun y => y.com.frame := by
  cases a with
  | send e x =>
      obtain ⟨l', hstep, hinv, htotal, hother⟩ := step_send h e x
      refine ⟨l', hstep, hinv, fun e' => ?_⟩
      rcases e.eq_or_other e' with rfl | rfl
      · rw [htotal, Act.written, if_pos rfl]
      · rw [hother, Act.written, if_neg e.other_ne.symm, List.flatMap_nil, List.append_nil]
  | read e f answers =>
      obtain ⟨-, -, -, l', -, hstep, hinv, htotal, -⟩ := step_read h e f answers
      refine ⟨l', hstep, hinv, fun e' => ?_⟩
      rw [htotal, Act.written, List.flatMap_nil, List.append_nil]

/-- **Conservation.** Over every run, each direction holds what was written to it. -/
lemma run_keeps {l : Link} (h : ∀ e, (l.way e).Inv) (acts : List Act) :
    ∃ l', Runs.run step l acts = some l' ∧ (∀ e, (l'.way e).Inv) ∧
      ∀ e, (l'.way e).total = (l.way e).total ++ (written e acts).flatMap fun y => y.com.frame := by
  induction acts generalizing l with
  | nil => exact ⟨l, rfl, h, fun e => (List.append_nil _).symm⟩
  | cons a acts ih =>
      obtain ⟨l₁, hstep, h₁, htotal₁⟩ := step_keeps h a
      obtain ⟨l', hrun, h', htotal'⟩ := ih h₁
      refine ⟨l', ?_, h', fun e => ?_⟩
      · rw [Runs.run, hstep]
        exact hrun
      · rw [htotal', htotal₁, written, written, List.flatMap_cons, List.flatMap_append,
          List.append_assoc]

lemma start_inv (e : End) : (start.way e).Inv := ⟨rfl, nofun, .idle, nofun⟩

/-! ### Delivery -/

/-- What a command carries: its code and its payload. -/
def carried (com : Command) : U16 × List U8 := (com.code, com.payload)

/-- What a frame carries. -/
def unframe : List U8 → U16 × List U8
  | _ :: _ :: c₁ :: c₀ :: payload => (ntoh16 c₁ c₀, payload)
  | _ => (0, [])

lemma unframe_frame (com : Command) : unframe com.frame = carried com :=
  congrArg (·, com.payload) (ntoh16_hton16 com.code)

lemma map_unframe (coms : List Command) : (coms.map frame).map unframe = coms.map carried := by
  rw [List.map_map]
  exact List.map_congr_left fun com _ => unframe_frame com

namespace Way

/-- The frames of a direction: those that were read, then those that are outstanding. -/
lemma Inv.parse_total {w : Way} (h : w.Inv) :
    framing.parse w.total = ((commands w.results).map frame ++ (framing.parse w.outstanding).1,
      (framing.parse w.outstanding).2) := by
  refine Framing.parse_flatten_append (fun x hx => ?_) _
  obtain ⟨com, hcom, rfl⟩ := List.mem_map.mp hx
  exact (h.complete com hcom).whole

end Way

/-- What is written to a direction parses into the frames of the commands. -/
lemma parse_written (xs : List Sendable) :
    framing.parse (xs.flatMap fun x => x.com.frame) = (xs.map fun x => x.com.frame, []) := by
  rw [List.flatMap_def, ← List.append_nil (List.flatten _)]
  refine Framing.parse_flatten_part (fun y hy => ?_) fun h => absurd h.1 (by decide)
  obtain ⟨x, -, rfl⟩ := List.mem_map.mp hy
  exact x.whole

/-- The frames written to a direction are those of the complete commands that were read, then
those that are outstanding. -/
lemma frames_of_total {l : Link} (h : ∀ e, (l.way e).Inv) {e : End} {xs : List Sendable}
    (htotal : (l.way e.other).total = xs.flatMap fun x => x.com.frame) :
    (∀ com ∈ l.read e, Complete com) ∧ xs.map (fun x => x.com.frame)
      = (l.read e).map frame ++ (framing.parse (l.way e.other).outstanding).1 := by
  have hresults : (l.way e.other).results = l.results e := by rw [way, e.other_other]
  refine ⟨fun com hcom => (h e.other).complete com (hresults ▸ hcom), ?_⟩
  calc xs.map (fun x => x.com.frame)
      = (framing.parse (l.way e.other).total).1 := by
        rw [htotal]
        exact (congrArg Prod.fst (parse_written _)).symm
    _ = (commands (l.way e.other).results).map frame
          ++ (framing.parse (l.way e.other).outstanding).1 := by
        rw [(h e.other).parse_total]
    _ = (l.read e).map frame ++ (framing.parse (l.way e.other).outstanding).1 := by
        rw [hresults]
        rfl

/-- Over every run, each direction holds what was written to it. -/
lemma run_total (acts : List Act) :
    ∃ l, Runs.run step start acts = some l ∧ (∀ e, (l.way e).Inv) ∧
      ∀ e, (l.way e).total = (written e acts).flatMap fun x => x.com.frame :=
  run_keeps start_inv acts

/-- What the commands carry that were written. -/
lemma map_unframe_written (xs : List Sendable) :
    (xs.map fun x => x.com.frame).map unframe = xs.map fun x => carried x.com := by
  rw [List.map_map]
  exact List.map_congr_left fun x _ => unframe_frame x.com

/-- **A connection delivers.** Over every run of calls at its two ends, however the kernel cuts
what it takes and what it gives out: no call faults, and the commands written at an end are, in
order, those that were read at the other end, then those whose frames are outstanding. -/
theorem link_delivers (acts : List Act) :
    ∃ l, Runs.run step start acts = some l ∧ ∀ e,
      (written e.other acts).map (fun x => carried x.com)
        = (l.read e).map carried
          ++ (framing.parse (l.way e.other).outstanding).1.map unframe := by
  obtain ⟨l, hrun, hinv, htotal⟩ := run_total acts
  refine ⟨l, hrun, fun e => ?_⟩
  rw [← map_unframe_written, (frames_of_total hinv (htotal e.other)).2, List.map_append,
    map_unframe]

/-! ### Draining -/

/-- The kernel takes bytes at every call, and in time for `m` bytes. -/
def Takes (m : ℕ) (answers : List Answer) : Prop :=
  m ≤ answers.length ∧ ∀ a ∈ answers, ∃ n, a = .bytes n

/-- A command is sent, at most one call for each of its bytes. -/
lemma sendAll_takes {com : Command} (h : Queued com) (accepted : List U8) {m : ℕ}
    {answers : List Answer} (ht : Takes (com.unsent.length + m) answers) :
    ∃ com' accepted' rest,
      sendAll sink com accepted answers = some (.done, com', accepted', rest) ∧ Takes m rest := by
  induction answers generalizing com accepted with
  | nil =>
      obtain ⟨hlen, -⟩ := ht
      rw [List.length_nil] at hlen
      have hunsent := h.unsent_length
      have hfull : com.full = true := by
        rw [full, decide_eq_true_iff]
        omega
      rw [sendAll.eq_def, if_pos hfull]
      exact ⟨_, _, _, rfl, by omega, fun a ha => absurd ha List.not_mem_nil⟩
  | cons a answers ih =>
      obtain ⟨hlen, hall⟩ := ht
      rw [sendAll.eq_def]
      by_cases hfull : com.full = true
      · rw [if_pos hfull]
        exact ⟨_, _, _, rfl, by omega, hall⟩
      rw [if_neg hfull]
      have hunsent := h.unsent_length
      have hpos : 0 < com.unsent.length := by
        obtain ⟨n, hoffset, hle⟩ := h.offset
        rw [full, decide_eq_true_iff] at hfull
        omega
      obtain ⟨n, rfl⟩ := hall a List.mem_cons_self
      obtain ⟨j, hj⟩ : ∃ j, min (n + 1) com.unsent.length = j + 1 :=
        ⟨min (n + 1) com.unsent.length - 1, by omega⟩
      have hsend : com.send sink accepted (.bytes n)
          = some (.taken (j + 1), com.sentBy (.taken (j + 1)),
              accepted ++ com.unsent.take (min (n + 1) com.unsent.length)) :=
        hj ▸ h.send_eq rfl
      obtain ⟨hqueued, hrest⟩ := h.advance (m := j + 1) (by omega)
      simp only [hsend, Option.bind_eq_bind, Option.bind_some]
      refine ih hqueued _ ⟨?_, fun b hb => hall b (List.mem_cons_of_mem _ hb)⟩
      rw [hrest, List.length_drop]
      rw [List.length_cons] at hlen
      omega

/-- A queue is sent. -/
lemma flushQueue_takes {queue : List Command} (h : ∀ com ∈ queue, Queued com)
    (accepted : List U8) {answers : List Answer}
    (ht : Takes (queue.flatMap unsent).length answers) :
    ∃ accepted', flushQueue sink accepted answers queue = some (.done, [], accepted') := by
  induction queue generalizing accepted answers with
  | nil => exact ⟨accepted, rfl⟩
  | cons com queue ih =>
      obtain ⟨hcom, hqueue⟩ := List.forall_mem_cons.mp h
      rw [List.flatMap_cons, List.length_append] at ht
      obtain ⟨com', accepted₁, rest, hloop, ht'⟩ := sendAll_takes hcom accepted ht
      obtain ⟨accepted', hrun⟩ := ih hqueue accepted₁ ht'
      refine ⟨accepted', ?_⟩
      rw [flushQueue, hloop]
      exact hrun

/-- **A flush that the kernel serves** leaves nothing in the queue. -/
lemma step_flush {l : Link} (h : ∀ e, (l.way e).Inv) (e : End) {answers : List Answer}
    (ht : Takes ((l.way e).queue.flatMap unsent).length answers) :
    ∃ l', step l (.send e (.flush answers)) = some l' ∧ (∀ e', (l'.way e').Inv) ∧
      (l'.way e).total = (l.way e).total ∧ l'.results = l.results ∧ (l'.way e).queue = [] := by
  obtain ⟨accepted, hflush⟩ := flushQueue_takes (h e).queued (l.flight e) ht
  have hcall : (l.client e).call (l.flight e) (.flush answers)
      = some (.done, { l.client e with wqueue := [] }, accepted) := by
    rw [call, Client.flush]
    exact congrArg (Option.bind · _) hflush
  obtain ⟨l', hstep, hinv, htotal, -⟩ := step_send h e (.flush answers)
  refine ⟨l', hstep, hinv, ?_, ?_⟩
  · rw [htotal, Call.written, List.flatMap_nil, List.append_nil]
  · rw [step, sendAt, hcall] at hstep
    obtain rfl := Option.some.inj hstep
    exact ⟨rfl, by simp [way]⟩

lemma delivers_mono {m n : ℕ} {answers : List Answer} (h : Delivers n answers) (hle : m ≤ n) :
    Delivers m answers := by
  obtain ⟨k, rest, hanswers, hk, hmany, hall⟩ := h
  exact ⟨k, rest, hanswers, hk, hle.trans hmany, hall⟩

/-- The longest frame. -/
lemma frameLength_le (l : List U8) : framing.frameLength l ≤ 65539 := by
  have hle : framing.announced (l.take framing.head) ≤ 65535 := by
    rcases l with _ | ⟨s₁, _ | ⟨s₀, l⟩⟩
    · exact Nat.zero_le _
    · exact Nat.zero_le _
    · exact Nat.le_of_lt_succ (UInt16.toNat_lt (ntoh16 s₁ s₀))
  show 4 + framing.announced (l.take framing.head) ≤ 65539
  omega

/-- **A read that the kernel serves**, behind an empty queue: it hands out a command, as long
as not all of them were handed out. -/
lemma step_read_more {l : Link} (h : ∀ e, (l.way e).Inv) (e : End) (f : Fresh)
    {answers : List Answer} (hall : Delivers 65539 answers) (hqueue : (l.way e.other).queue = [])
    (hmore : (l.read e).length < (framing.parse (l.way e.other).total).1.length) :
    ∃ l', step l (.read e f answers) = some l' ∧ (∀ e', (l'.way e').Inv) ∧
      (∀ e', (l'.way e').total = (l.way e').total) ∧ (l'.way e.other).queue = [] ∧
      (l'.read e).length = (l.read e).length + 1 := by
  have hreader : (l.way e.other).reader = l.client e := by simp [way]
  have hresults : (l.way e.other).results = l.results e := by simp [way]
  have hready : framing.Ready (l.way e.other).outstanding := by
    by_contra hnot
    rw [(h e.other).parse_total, Framing.parse_of_not_ready hnot, List.append_nil,
      List.length_map, hresults] at hmore
    exact absurd hmore (lt_irrefl _)
  have hout : (l.way e.other).outstanding = (l.client e).held ++ l.flight e.other := by
    rw [Way.outstanding, hqueue, hreader, List.flatMap_nil, List.append_nil]
    rfl
  have hwait := (h e.other).waiting
  rw [hreader] at hwait
  rw [hout] at hready
  obtain ⟨com, c', k', hread⟩ := read_delivers (k := ⟨[], l.flight e.other⟩) f hwait hready
    (delivers_mono hall (frameLength_le _))
  obtain ⟨r, c, k, l', hread', hstep, hinv, htotal, hres, hqueue'⟩ := step_read h e f answers
  rw [hread, Option.some.injEq, Prod.mk.injEq] at hread'
  refine ⟨l', hstep, hinv, htotal, hqueue'.trans hqueue, ?_⟩
  rw [read, hres, ← hread'.1, commands, List.filterMap_append, List.length_append]
  rfl

/-- A read hands out a command at most. -/
lemma step_read_any {l : Link} (h : ∀ e, (l.way e).Inv) (e : End) (f : Fresh)
    (answers : List Answer) (hqueue : (l.way e.other).queue = []) :
    ∃ l', step l (.read e f answers) = some l' ∧ (∀ e', (l'.way e').Inv) ∧
      (∀ e', (l'.way e').total = (l.way e').total) ∧ (l'.way e.other).queue = [] ∧
      (l.read e).length ≤ (l'.read e).length := by
  obtain ⟨r, c, k, l', -, hstep, hinv, htotal, hres, hqueue'⟩ := step_read h e f answers
  refine ⟨l', hstep, hinv, htotal, hqueue'.trans hqueue, ?_⟩
  rw [read, read, hres, commands, commands, List.filterMap_append, List.length_append]
  exact Nat.le_add_right _ _

/-- Reads that the kernel serves, as many as there are commands left. -/
lemma reads_drain {l : Link} (h : ∀ e, (l.way e).Inv) (e : End) {calls : List (Fresh × List Answer)}
    (hall : ∀ x ∈ calls, Delivers 65539 x.2) (hqueue : (l.way e.other).queue = [])
    (hmany : (framing.parse (l.way e.other).total).1.length
      ≤ (l.read e).length + calls.length) :
    ∃ l', Runs.run step l (calls.map fun x => .read e x.1 x.2) = some l' ∧
      (∀ e', (l'.way e').Inv) ∧ (l'.way e.other).total = (l.way e.other).total ∧
      (framing.parse (l.way e.other).total).1.length ≤ (l'.read e).length := by
  induction calls generalizing l with
  | nil => exact ⟨l, rfl, h, rfl, hmany⟩
  | cons call calls ih =>
      obtain ⟨f, answers⟩ := call
      obtain ⟨hfirst, hrest⟩ := List.forall_mem_cons.mp hall
      obtain ⟨l₁, hstep, h₁, htotal, hqueue₁, hle⟩ : ∃ l', step l (.read e f answers) = some l' ∧
          (∀ e', (l'.way e').Inv) ∧ (∀ e', (l'.way e').total = (l.way e').total) ∧
          (l'.way e.other).queue = [] ∧
          (framing.parse (l.way e.other).total).1.length ≤ (l'.read e).length + calls.length := by
        rw [List.length_cons] at hmany
        by_cases hmore : (l.read e).length < (framing.parse (l.way e.other).total).1.length
        · obtain ⟨l', hstep, h', htotal, hqueue', hlen⟩ :=
            step_read_more h e f hfirst hqueue hmore
          exact ⟨l', hstep, h', htotal, hqueue', by omega⟩
        · obtain ⟨l', hstep, h', htotal, hqueue', hlen⟩ := step_read_any h e f answers hqueue
          exact ⟨l', hstep, h', htotal, hqueue', by omega⟩
      rw [← htotal e.other] at hle
      obtain ⟨l', hrun, h', htotal', hlen⟩ := ih h₁ hrest hqueue₁ hle
      refine ⟨l', ?_, h', htotal'.trans (htotal e.other), htotal e.other ▸ hlen⟩
      rw [List.map_cons, Runs.run, hstep]
      exact hrun

/-- **A connection drains.** From every state that is reached: a flush that the kernel serves,
and then as many reads as there are commands left, hand out every command that was written. -/
theorem link_drains (acts : List Act) (l : Link) (hrun : Runs.run step start acts = some l)
    (e : End) (answers : List Answer)
    (htakes : Takes ((l.way e.other).queue.flatMap unsent).length answers)
    (calls : List (Fresh × List Answer)) (hserved : ∀ x ∈ calls, Delivers 65539 x.2)
    (hmany : (written e.other acts).length ≤ (l.read e).length + calls.length) :
    ∃ l', Runs.run step l
        (.send e.other (.flush answers) :: calls.map fun x => .read e x.1 x.2) = some l' ∧
      (l'.read e).map carried = (written e.other acts).map fun x => carried x.com := by
  obtain ⟨l₀, hrun₀, hinv, htotal⟩ := run_keeps start_inv acts
  obtain rfl := Option.some.inj (hrun₀.symm.trans hrun)
  obtain ⟨l₁, hstep, h₁, htotal₁, hres₁, hqueue₁⟩ := step_flush hinv e.other htakes
  have hframes : (framing.parse (l₁.way e.other).total).1
      = (written e.other acts).map fun x => x.com.frame := by
    rw [htotal₁, htotal]
    exact congrArg Prod.fst (parse_written _)
  have hread₁ : l₁.read e = l₀.read e := by rw [read, read, hres₁]
  obtain ⟨l', hreads, h', htotal', hlen⟩ := reads_drain h₁ e hserved hqueue₁
    (by rw [hframes, List.length_map, hread₁]; exact hmany)
  refine ⟨l', ?_, ?_⟩
  · rw [Runs.run, hstep]
    exact hreads
  -- All frames were read, since there are no more of them.
  have hresults : (l'.way e.other).results = l'.results e := by simp [way]
  have hparse := (h' e.other).parse_total
  rw [htotal', hresults] at hparse
  have hsplit : (written e.other acts).map (fun x => x.com.frame)
      = (l'.read e).map frame ++ (framing.parse (l'.way e.other).outstanding).1 :=
    hframes.symm.trans (congrArg Prod.fst hparse)
  have hnil : (framing.parse (l'.way e.other).outstanding).1 = [] := by
    have hcount := congrArg List.length hsplit
    rw [hframes, List.length_map] at hlen
    rw [List.length_append, List.length_map, List.length_map] at hcount
    exact List.eq_nil_of_length_eq_zero (by omega)
  rw [hnil, List.append_nil] at hsplit
  calc (l'.read e).map carried
      = ((l'.read e).map frame).map unframe := (map_unframe _).symm
    _ = ((written e.other acts).map fun x => x.com.frame).map unframe := by rw [hsplit]
    _ = (written e.other acts).map fun x => carried x.com := map_unframe_written _

/-- A command without a payload that the kernel did not take at once. -/
theorem link_drains_one :
    ∃ l', Runs.run step ((Runs.run step start
        [.send .left (.write ⟨8, by decide, fun _ => 170⟩ ⟨new 19, rfl, rfl⟩ [.again])]).get rfl)
      [.send .left (.flush (List.replicate 4 (.bytes 0))),
        .read .right ⟨16, by decide, fun _ => 0⟩ (.bytes 3 :: List.replicate 65539 (.bytes 3))]
      = some l' ∧ (l'.read .right).map carried = [(19, [])] :=
  link_drains [.send .left (.write ⟨8, by decide, fun _ => 170⟩ ⟨new 19, rfl, rfl⟩ [.again])] _
    (Option.some_get rfl).symm .right (List.replicate 4 (.bytes 0))
    ⟨by decide, fun _ ha => ⟨0, List.eq_of_mem_replicate ha⟩⟩
    [(⟨16, by decide, fun _ => 0⟩, .bytes 3 :: List.replicate 65539 (.bytes 3))]
    (List.forall_mem_singleton.mpr ⟨3, _, rfl, le_rfl, by rw [List.length_replicate],
      fun _ ha => ⟨3, List.eq_of_mem_replicate ha⟩⟩) (by decide)

end Link

end Napd
