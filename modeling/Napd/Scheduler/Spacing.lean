import Napd.Scheduler.Model

/-!
The spacing of scheduled events.

* `loop_spec`: what a pass does about the events, one by one.
* `Pass.Good`: a pass reaches every event once, in the order in which they were added, executes
  the ones that are ready, and gives false exactly if an execution failed.
* `Spaced`: of two executions of an event, the later is at least the frequency after the earlier.
* `Inv`: the order of the events, the last pass and the last execution of each event, and what the
  passes so far were like. `step_inv`: every call keeps it.
* `events_spaced`: **in every sequence of calls, passes are at least the interval apart, executions
  of an event at least its frequency, and every pass is good.**
-/

namespace Napd.Scheduler

open Time

variable {H : Type*} {K : Clock} {outcome : ℕ → H → Bool}

/-- The executions of a pass. -/
def Pass.executions (p : Pass H) : List (Event H × Execution) :=
  p.visits.filterMap fun v => v.execution.map fun x => (v.event, x)

/-- The executions of some passes. -/
def executions (log : List (Pass H)) : List (Event H × Execution) :=
  log.flatMap Pass.executions

/-- The passes that may execute events. -/
def passes (log : List (Pass H)) : List (Pass H) := log.filter fun p => p.entered

/-- What a pass does: it reaches the events in the order in which they were added, each once; it
executes the ones that are ready when reached, whatever became of the others; and it gives false
exactly if an execution failed. Without the interval it does nothing. -/
structure Pass.Good (p : Pass H) : Prop where
  ordered : p.events.Pairwise fun d e => d.number < e.number
  reached : p.entered = true → p.visits.map Visit.event = p.events
  skipped : p.entered = false → p.visits = []
  ready : ∀ v ∈ p.visits, v.execution.isSome = true ↔ v.event.ready v.now = true
  failed : p.result = false ↔ ∃ x ∈ p.executions, x.2.succeeded = false

/-- Of two executions of one event, the second is at least the frequency after the first; also
in microseconds, where the frequency has no more than a second of them beside its seconds. -/
def Spaced (x y : Event H × Execution) : Prop :=
  x.1.number = y.1.number → x.1.frequency = y.1.frequency ∧
    (y.2.time.sub x.2.time).ge y.1.frequency = true ∧
    (y.1.frequency.tv_usec ≤ 1000000 → y.1.frequency.total ≤ y.2.time.total - x.2.time.total)

/-! ### One pass -/

/-- Later readings of the clock. -/
lemma Clock.total_le (K : Clock) {m n : ℕ} (h : m ≤ n) : (K.now m).total ≤ (K.now n).total :=
  (le_iff_total (K.normal m) (K.normal n)).mp (K.mono m n h)

/-- A visit between two readings of the clock. -/
structure Reached (K : Clock) (m n : ℕ) (v : Visit H) : Prop where
  now : ∃ i, m ≤ i ∧ i < n ∧ v.now = K.now i ∧ ∀ x ∈ v.execution, x.time = K.now (i + 1) ∧ i + 1 < n
  ready : v.execution.isSome = true ↔ v.event.ready v.now = true

lemma Reached.mono {m m' n n' : ℕ} {v : Visit H} (h : Reached K m n v) (hm : m' ≤ m)
    (hn : n ≤ n') : Reached K m' n' v := by
  obtain ⟨⟨i, hmi, hin, hnow, hx⟩, hready⟩ := h
  refine ⟨⟨i, by omega, by omega, hnow, fun x hxv => ?_⟩, hready⟩
  exact ⟨(hx x hxv).1, lt_of_lt_of_le (hx x hxv).2 hn⟩

/-- An execution comes no earlier than the look at the event, and both lie between the
readings. -/
lemma Reached.time_le {m n : ℕ} {v : Visit H} (h : Reached K m n v) {x : Execution}
    (hx : x ∈ v.execution) : (K.now m).total ≤ v.now.total ∧ v.now.total ≤ x.time.total ∧
      x.time.total ≤ (K.now n).total ∧ x.time.Normal := by
  obtain ⟨i, hmi, hin, hnow, htime⟩ := h.now
  obtain ⟨ht, hn⟩ := htime x hx
  rw [hnow, ht]
  exact ⟨K.total_le hmi, K.total_le (by omega), K.total_le (by omega), K.normal _⟩

/-- Whether the execution of a visit failed. -/
def Visit.Failed (v : Visit H) : Prop := ∃ x ∈ v.execution, x.succeeded = false

variable (K outcome) in
/-- One round of the loop adds one visit. -/
lemma loop_step (l : Loop H) (e : Event H) : ∃ v,
    (Loop.step K outcome l e).visits = l.visits ++ [v] ∧ v.event = e ∧
      l.readings < (Loop.step K outcome l e).readings ∧
      ((Loop.step K outcome l e).failed = true ↔ l.failed = true ∨ v.Failed) ∧
      Reached K l.readings (Loop.step K outcome l e).readings v := by
  rw [Loop.step]
  split_ifs with hready hrun
  · refine ⟨_, rfl, rfl, by simp, by simp [Visit.Failed], ⟨⟨l.readings, ?_⟩, by simpa using hready⟩⟩
    simp
  · refine ⟨_, rfl, rfl, by simp, by simp [Visit.Failed], ⟨⟨l.readings, ?_⟩, by simpa using hready⟩⟩
    simp
  · refine ⟨_, rfl, rfl, by simp, by simp [Visit.Failed], ⟨⟨l.readings, ?_⟩, by simpa using hready⟩⟩
    simp

variable (K outcome) in
/-- The loop adds one visit for each event, in their order. -/
lemma loop_spec (es : List (Event H)) (l : Loop H) : ∃ vs,
    (es.foldl (Loop.step K outcome) l).visits = l.visits ++ vs ∧ vs.map Visit.event = es ∧
      l.readings ≤ (es.foldl (Loop.step K outcome) l).readings ∧
      ((es.foldl (Loop.step K outcome) l).failed = true ↔
        l.failed = true ∨ ∃ v ∈ vs, v.Failed) ∧
      ∀ v ∈ vs, Reached K l.readings (es.foldl (Loop.step K outcome) l).readings v := by
  induction es generalizing l with
  | nil => exact ⟨[], by simp, rfl, le_refl _, by simp, by simp⟩
  | cons e es ih =>
      obtain ⟨v, hv, hve, hvr, hvf, hreach⟩ := loop_step K outcome l e
      obtain ⟨vs, hvs, hmap, hr, hf, hall⟩ := ih (Loop.step K outcome l e)
      refine ⟨v :: vs, ?_, ?_, by rw [List.foldl_cons]; omega, ?_, ?_⟩
      · rw [List.foldl_cons, hvs, hv, List.append_assoc, List.singleton_append]
      · rw [List.map_cons, hve, hmap]
      · rw [List.foldl_cons, hf, hvf, or_assoc, List.exists_mem_cons_iff]
      · intro w hw
        rw [List.foldl_cons]
        rcases List.mem_cons.mp hw with rfl | hw
        · exact hreach.mono (le_refl _) hr
        · exact (hall w hw).mono (by omega) (le_refl _)

/-! ### What visits leave -/

@[simp] lemma Visit.after_number (v : Visit H) : v.after.number = v.event.number := by
  rw [Visit.after]
  split <;> rfl

@[simp] lemma Visit.after_frequency (v : Visit H) : v.after.frequency = v.event.frequency := by
  rw [Visit.after]
  split <;> rfl

lemma Visit.after_last_run {v : Visit H} {x : Execution} (h : x ∈ v.execution) :
    v.after.last_run = x.time := by
  rw [Visit.after, Option.mem_def.mp h]

lemma Visit.after_of_none {v : Visit H} (h : v.execution = none) : v.after = v.event := by
  rw [Visit.after, h]

/-- The visits of a pass are known by the numbers of their events. -/
lemma eq_of_number {vs : List (Visit H)}
    (h : (vs.map Visit.event).Pairwise fun d e => d.number < e.number) {v w : Visit H} (hv : v ∈ vs)
    (hw : w ∈ vs) (hvw : v.event.number = w.event.number) : v = w := by
  have hnodup : (vs.map fun v => v.event.number).Nodup :=
    List.pairwise_map.mpr ((List.pairwise_map.mp h).imp fun hlt => hlt.ne)
  exact List.inj_on_of_nodup_map hnodup hv hw hvw

lemma mem_executions_iff {p : Pass H} {x : Event H × Execution} :
    x ∈ p.executions ↔ ∃ v ∈ p.visits, x.2 ∈ v.execution ∧ v.event = x.1 := by
  obtain ⟨e, r⟩ := x
  simp only [Pass.executions, List.mem_filterMap, Option.map_eq_some_iff, Prod.mk.injEq,
    Option.mem_def]
  constructor
  · rintro ⟨v, hv, r', hr', rfl, rfl⟩
    exact ⟨v, hv, hr', rfl⟩
  · rintro ⟨v, hv, hr, rfl⟩
    exact ⟨v, hv, r, hr, rfl, rfl⟩

lemma executions_append (log : List (Pass H)) (p : Pass H) :
    executions (log ++ [p]) = executions log ++ p.executions := by
  simp [executions]

lemma executions_eq_nil {p : Pass H} (h : p.visits = []) : p.executions = [] := by
  rw [Pass.executions, h, List.filterMap_nil]

/-- The executions of one pass are of different events. -/
lemma pairwise_executions {p : Pass H} (hevents : p.visits.map Visit.event = p.events)
    (hordered : p.events.Pairwise fun d e => d.number < e.number) :
    p.executions.Pairwise fun x y => x.1.number < y.1.number := by
  rw [← hevents, List.pairwise_map] at hordered
  refine hordered.filterMap _ fun v w hvw x hx y hy => ?_
  obtain ⟨r, -, rfl⟩ := Option.map_eq_some_iff.mp hx
  obtain ⟨r', -, rfl⟩ := Option.map_eq_some_iff.mp hy
  exact hvw

/-! ### The invariant -/

/-- The last pass and the last execution of each event are behind the clock, and everything up to
them is spaced. -/
structure Inv (K : Clock) (s : State H) : Prop where
  interval : s.interval = Time.ofInt DEFAULT_SCHEDULER_INTERVAL
  normal : s.last_run.Normal
  ordered : s.events.Pairwise fun d e => d.number < e.number
  made : ∀ e ∈ s.events, e.number < s.made
  last : ∀ p ∈ passes s.log, p.now.total ≤ s.last_run.total
  spaced : (passes s.log).Pairwise fun p q =>
    (Time.ofInt DEFAULT_SCHEDULER_INTERVAL).total ≤ q.now.total - p.now.total
  past : ∀ x ∈ executions s.log, x.2.time.total ≤ (K.now s.readings).total ∧ x.1.number < s.made ∧
    ∀ e ∈ s.events, e.number = x.1.number →
      e.frequency = x.1.frequency ∧ x.2.time.total ≤ e.last_run.total
  executions : (executions s.log).Pairwise Spaced
  good : ∀ p ∈ s.log, p.Good

lemma inv_new : Inv K (new K : State H) := by
  refine ⟨rfl, K.normal 0, List.Pairwise.nil, ?_, ?_, List.Pairwise.nil, ?_, List.Pairwise.nil, ?_⟩
  all_goals simp [new, passes, Scheduler.executions]

/-- Events that leave take nothing with them. -/
lemma Inv.sublist {s : State H} (h : Inv K s) {es : List (Event H)} (hes : es.Sublist s.events) :
    Inv K { s with events := es } where
  interval := h.interval
  normal := h.normal
  ordered := h.ordered.sublist hes
  made e he := h.made e (hes.subset he)
  last := h.last
  spaced := h.spaced
  past x hx := ⟨(h.past x hx).1, (h.past x hx).2.1, fun e he => (h.past x hx).2.2 e (hes.subset he)⟩
  executions := h.executions
  good := h.good

/-- A new event has a number of its own, so no execution is one of its. -/
lemma add_inv {s : State H} (h : Inv K s) (function : Option H) (t : Time)
    (label : Option Text) (runfirst : Bool) : Inv K (add s function t label runfirst).2 := by
  unfold add
  split
  · exact h
  · split_ifs with ht
    · exact h
    · refine { h with ordered := ?_, made := ?_, past := ?_ }
      · refine List.pairwise_append.mpr ⟨h.ordered, List.pairwise_singleton _ _, ?_⟩
        intro d hd e he
        rw [List.mem_singleton.mp he]
        exact h.made d hd
      · intro e he
        rcases List.mem_append.mp he with he | he
        · exact Nat.lt_succ_of_lt (h.made e he)
        · rw [List.mem_singleton.mp he]
          exact Nat.lt_succ_self s.made
      · intro x hx
        obtain ⟨htime, hnumber, hpast⟩ := h.past x hx
        refine ⟨htime, Nat.lt_succ_of_lt hnumber, fun e he hex => ?_⟩
        rcases List.mem_append.mp he with he | he
        · exact hpast e he hex
        · rw [List.mem_singleton.mp he] at hex
          exact absurd hex hnumber.ne'

lemma erase_sublist {label : Option Text} {es : List (Event H)} {r : Bool × List (Event H)}
    (h : erase label es = some r) : r.2.Sublist es := by
  induction es generalizing r with
  | nil => exact Option.some.inj h ▸ List.Sublist.refl _
  | cons e es ih =>
      unfold erase at h
      split at h
      · split_ifs at h
        · exact Option.some.inj h ▸ List.sublist_cons_self e es
        · obtain ⟨r₁, h₁, rfl⟩ := Option.map_eq_some_iff.mp h
          exact (ih h₁).cons_cons e
      · exact absurd h (Option.some_ne_none _).symm

lemma remove_inv {s : State H} (h : Inv K s) {label : Option Text} {r : Bool × State H}
    (hr : remove s label = some r) : Inv K r.2 := by
  obtain ⟨es, hes, rfl⟩ := Option.map_eq_some_iff.mp hr
  exact h.sublist (erase_sublist hes)

/-! ### A call of `run` -/

/-- A pass before the interval leaves a reading and a note. -/
lemma skip_inv {s : State H} (h : Inv K s) :
    Inv K { s with
      readings := s.readings + 1
      log := s.log ++ [⟨K.now s.readings, false, s.events, [], true⟩] } := by
  have hpasses : passes (s.log ++ [⟨K.now s.readings, false, s.events, [], true⟩])
      = passes s.log := by simp [passes]
  have hexec : Scheduler.executions (s.log ++ [⟨K.now s.readings, false, s.events, [], true⟩])
      = Scheduler.executions s.log := by
    rw [executions_append, executions_eq_nil rfl, List.append_nil]
  refine { h with last := ?_, spaced := ?_, past := ?_, executions := ?_, good := ?_ }
  · rw [hpasses]
    exact h.last
  · rw [hpasses]
    exact h.spaced
  · intro x hx
    rw [hexec] at hx
    obtain ⟨htime, hnumber, hpast⟩ := h.past x hx
    exact ⟨htime.trans (K.total_le (Nat.le_succ _)), hnumber, hpast⟩
  · rw [hexec]
    exact h.executions
  · intro p hp
    rcases List.mem_append.mp hp with hp | hp
    · exact h.good p hp
    · rw [List.mem_singleton.mp hp]
      exact ⟨h.ordered, fun he => absurd he Bool.false_ne_true, fun _ => rfl, by simp,
        by simp [executions_eq_nil]⟩

/-- The executions of a pass come after those of the passes before it, by the frequency if they
are of one event. -/
lemma spaced_of_reached {s : State H} (h : Inv K s) {x : Event H × Execution}
    (hx : x ∈ Scheduler.executions s.log) {n : ℕ} {v : Visit H}
    (hv : Reached K (s.readings + 1) n v) (hmem : v.event ∈ s.events) {r : Execution}
    (hr : r ∈ v.execution) : Spaced x (v.event, r) := by
  intro hnumber
  obtain ⟨htime, -, hpast⟩ := h.past x hx
  obtain ⟨hfreq, hlast⟩ := hpast v.event hmem hnumber.symm
  obtain ⟨-, hnow, -, -⟩ := hv.time_le hr
  have hready : (v.now.sub v.event.last_run).ge v.event.frequency = true :=
    hv.ready.mp (Option.isSome_iff_exists.mpr ⟨r, hr⟩)
  have hge : (r.time.sub x.2.time).ge v.event.frequency = true :=
    ge_trans (sub_ge_sub hnow hlast) hready
  refine ⟨hfreq.symm, hge, fun husec => ?_⟩
  calc v.event.frequency.total
      ≤ (r.time.sub x.2.time).total := total_le_of_ge (normal_sub _ _) husec hge
    _ = r.time.total - x.2.time.total := total_sub _ _

/-- The clock after a pass has not gone back behind an earlier execution, and neither has the
event it was of. -/
lemma past_of_reached {s : State H} (h : Inv K s) {vs : List (Visit H)}
    (hvs : vs.map Visit.event = s.events) {n : ℕ}
    (hreach : ∀ v ∈ vs, Reached K (s.readings + 1) n v) {x : Event H × Execution}
    (hx : x ∈ Scheduler.executions s.log) {e : Event H} (he : e ∈ vs.map Visit.after)
    (hex : e.number = x.1.number) :
    e.frequency = x.1.frequency ∧ x.2.time.total ≤ e.last_run.total := by
  obtain ⟨htime, -, hpast⟩ := h.past x hx
  obtain ⟨v, hv, rfl⟩ := List.mem_map.mp he
  rw [v.after_number] at hex
  obtain ⟨hfreq, hrun⟩ := hpast v.event (hvs ▸ List.mem_map_of_mem hv) hex
  refine ⟨v.after_frequency.trans hfreq, ?_⟩
  cases hr : v.execution with
  | none =>
      rw [Visit.after_of_none hr]
      exact hrun
  | some r =>
      obtain ⟨hmn, hnr, -, -⟩ := (hreach v hv).time_le hr
      rw [Visit.after_last_run hr]
      calc x.2.time.total
          ≤ (K.now s.readings).total := htime
        _ ≤ (K.now (s.readings + 1)).total := K.total_le (Nat.le_succ _)
        _ ≤ v.now.total := hmn
        _ ≤ r.time.total := hnr

/-- An event that was executed remembers when. -/
lemma past_of_visit {vs : List (Visit H)}
    (h : (vs.map Visit.event).Pairwise fun d e => d.number < e.number) {v : Visit H} (hv : v ∈ vs)
    {r : Execution} (hr : r ∈ v.execution) {e : Event H} (he : e ∈ vs.map Visit.after)
    (hev : e.number = v.event.number) :
    e.frequency = v.event.frequency ∧ r.time.total ≤ e.last_run.total := by
  obtain ⟨w, hw, rfl⟩ := List.mem_map.mp he
  rw [w.after_number] at hev
  rw [eq_of_number h hw hv hev, v.after_frequency, Visit.after_last_run hr]
  exact ⟨rfl, le_refl _⟩

/-- The executions stay spaced: those of the pass come last, and are of different events. -/
lemma spaced_append {s : State H} (h : Inv K s) {p : Pass H}
    (hvs : p.visits.map Visit.event = p.events) (hevents : p.events = s.events) {n : ℕ}
    (hreach : ∀ v ∈ p.visits, Reached K (s.readings + 1) n v) :
    (Scheduler.executions (s.log ++ [p])).Pairwise Spaced := by
  rw [executions_append, List.pairwise_append]
  refine ⟨h.executions, ?_, fun x hx y hy => ?_⟩
  · have hordered := pairwise_executions hvs (hevents ▸ h.ordered)
    exact hordered.imp fun hlt heq => absurd heq hlt.ne
  · obtain ⟨v, hv, hr, hve⟩ := mem_executions_iff.mp hy
    have hmem : v.event ∈ s.events := hevents ▸ hvs ▸ List.mem_map_of_mem hv
    have hspaced := spaced_of_reached h hx (hreach v hv) hmem hr
    rw [hve] at hspaced
    exact hspaced

/-- A pass that made these visits is good. -/
lemma good_of_reached {now : Time} {es : List (Event H)} {vs : List (Visit H)} {failed : Bool}
    {m n : ℕ} (hordered : es.Pairwise fun d e => d.number < e.number)
    (hvs : vs.map Visit.event = es) (hf : failed = true ↔ ∃ v ∈ vs, v.Failed)
    (hreach : ∀ v ∈ vs, Reached K m n v) : (⟨now, true, es, vs, !failed⟩ : Pass H).Good := by
  refine ⟨hordered, fun _ => hvs, fun he => absurd he.symm Bool.false_ne_true,
    fun v hv => (hreach v hv).ready, ?_⟩
  rw [Bool.not_eq_false', hf]
  constructor
  · rintro ⟨v, hv, r, hr, hfail⟩
    exact ⟨(v.event, r), mem_executions_iff.mpr ⟨v, hv, hr, rfl⟩, hfail⟩
  · rintro ⟨x, hx, hfail⟩
    obtain ⟨v, hv, hr, -⟩ := mem_executions_iff.mp hx
    exact ⟨v, hv, x.2, hr, hfail⟩

/-- A pass after the interval: the events keep their numbers and frequencies, and those that were
executed remember when. -/
lemma pass_inv {s : State H} (h : Inv K s)
    (hgate : s.interval.total ≤ (K.now s.readings).total - s.last_run.total) {vs : List (Visit H)}
    {n x : ℕ} {failed : Bool} (hvs : vs.map Visit.event = s.events) (hn : s.readings + 1 ≤ n)
    (hf : failed = true ↔ ∃ v ∈ vs, v.Failed) (hreach : ∀ v ∈ vs, Reached K (s.readings + 1) n v) :
    Inv K { s with
      last_run := K.now s.readings
      events := vs.map Visit.after
      readings := n
      executions := x
      log := s.log ++ [⟨K.now s.readings, true, s.events, vs, !failed⟩] } := by
  set p : Pass H := ⟨K.now s.readings, true, s.events, vs, !failed⟩
  have hlast : s.last_run.total ≤ (K.now s.readings).total := by
    rw [h.interval] at hgate
    have h60 : (0 : ℤ) ≤ (Time.ofInt DEFAULT_SCHEDULER_INTERVAL).total := by decide
    omega
  have hevent : ∀ v ∈ vs, v.event ∈ s.events := fun v hv => hvs ▸ List.mem_map_of_mem hv
  refine ⟨h.interval, K.normal _, ?_, ?_, ?_, ?_, ?_, ?_, ?_⟩
  · rw [List.pairwise_map]
    have hordered := h.ordered
    rw [← hvs, List.pairwise_map] at hordered
    refine hordered.imp fun {v w} hvw => ?_
    rw [v.after_number, w.after_number]
    exact hvw
  · intro e he
    obtain ⟨v, hv, rfl⟩ := List.mem_map.mp he
    rw [v.after_number]
    exact h.made _ (hevent v hv)
  · intro q hq
    rw [passes, List.filter_append] at hq
    rcases List.mem_append.mp hq with hq | hq
    · exact (h.last q hq).trans hlast
    · rw [List.mem_singleton.mp (List.mem_of_mem_filter hq)]
  · rw [passes, List.filter_append, List.pairwise_append]
    refine ⟨h.spaced, (List.pairwise_singleton _ p).filter _, fun q hq q' hq' => ?_⟩
    rw [List.mem_singleton.mp (List.mem_of_mem_filter hq'), ← h.interval]
    exact hgate.trans (Int.sub_le_sub_left (h.last q hq) _)
  · intro y hy
    rw [executions_append] at hy
    rcases List.mem_append.mp hy with hy | hy
    · obtain ⟨htime, hnumber, -⟩ := h.past y hy
      refine ⟨htime.trans (K.total_le (show s.readings ≤ n by omega)), hnumber, fun e he hey => ?_⟩
      exact past_of_reached h hvs hreach hy he hey
    · obtain ⟨v, hv, hr, hve⟩ := mem_executions_iff.mp hy
      refine ⟨((hreach v hv).time_le hr).2.2.1, hve ▸ h.made _ (hevent v hv), fun e he hey => ?_⟩
      rw [← hve] at hey ⊢
      exact past_of_visit (hvs ▸ h.ordered) hv hr he hey
  · exact spaced_append h hvs rfl hreach
  · intro q hq
    rcases List.mem_append.mp hq with hq | hq
    · exact h.good q hq
    · rw [List.mem_singleton.mp hq]
      exact good_of_reached h.ordered hvs hf hreach

lemma run_inv {s : State H} (h : Inv K s) : Inv K (run K outcome s) := by
  have hgate : ((K.now s.readings).sub s.last_run).lt s.interval = true ↔
      (K.now s.readings).total - s.last_run.total < s.interval.total := by
    rw [lt_iff_total (normal_sub _ _) (h.interval ▸ normal_ofInt _), total_sub]
  rw [run]
  split_ifs with hskip
  · exact skip_inv h
  · obtain ⟨vs, hvisits, hvs, hn, hf, hreach⟩ := loop_spec K outcome s.events
      ⟨s.readings + 1, s.executions, false, []⟩
    rw [List.nil_append] at hvisits
    subst hvisits
    refine pass_inv h (not_lt.mp (mt hgate.mpr hskip)) hvs hn ?_ hreach
    rw [hf]
    simp

/-- Every call keeps the invariant. -/
lemma step_inv {s s' : State H} {c : Call H} (h : Inv K s) (hs : step K outcome s c = some s') :
    Inv K s' := by
  cases c with
  | add function t label runfirst => exact Option.some.inj hs ▸ add_inv h function t label runfirst
  | remove label =>
      obtain ⟨r, hr, rfl⟩ := Option.map_eq_some_iff.mp hs
      exact remove_inv h hr
  | clear => exact Option.some.inj hs ▸ h.sublist (List.nil_sublist _)
  | run => exact Option.some.inj hs ▸ run_inv h

/-- **Scheduled events keep their spacing.** Along every sequence of calls from construction,
passes are at least the interval apart, executions of an event at least its frequency, and every
pass executes the events that are ready when reached, in the order in which they were added. -/
theorem events_spaced (K : Clock) (outcome : ℕ → H → Bool) (calls : List (Call H)) (s : State H)
    (h : Runs.run (step K outcome) (new K) calls = some s) :
    ((passes s.log).Pairwise fun p q =>
      (Time.ofInt DEFAULT_SCHEDULER_INTERVAL).total ≤ q.now.total - p.now.total) ∧
    (executions s.log).Pairwise Spaced ∧ ∀ p ∈ s.log, p.Good := by
  have hinv : Inv K s := Runs.run_keeps (fun _ _ _ hI hs => step_inv hI hs) inv_new h
  exact ⟨hinv.spaced, hinv.executions, hinv.good⟩

/-- A clock that moves by a hundred seconds between any two readings. -/
def hundredSeconds : Clock where
  now n := Time.ofInt (100 * n)
  normal _ := normal_ofInt _
  mono m n h := (le_iff_total (normal_ofInt _) (normal_ofInt _)).mpr <| by
    simp only [Time.ofInt, total_mk]
    omega

/-- An event of fifty seconds, executed in two passes: the handler succeeds once, and fails. -/
theorem events_spaced_fifty : ∃ s : State Unit,
    Runs.run (step hundredSeconds fun n _ => n == 0) (new hundredSeconds)
      [.add (some ()) ⟨50, 0⟩ none true, .run, .run] = some s ∧
    (executions s.log).Pairwise Spaced ∧ s.log.map Pass.result = [true, false] :=
  ⟨_, rfl, (events_spaced hundredSeconds (fun n _ => n == 0)
    [.add (some ()) ⟨50, 0⟩ none true, .run, .run] _ rfl).2.1, rfl⟩

end Napd.Scheduler
