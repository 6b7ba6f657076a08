import Napd.Bytes
import Napd.Library.Runs
import Napd.Time

/-!
The scheduler of `scheduler.cc` and its events, `event.cc`.

* `Clock`: what the calls of `Time::now` give. It does not go back.
* `Event`, `Scheduler`: the classes of the source. An event also has a number, in place of its
  address; a handler may be anything, and what its calls give is a parameter.
* `Loop.step`: what `Scheduler::run` does about one event; `run`: the function of the source.
* `Call`, `step`: the calls on a scheduler. `strcmp` of a null pointer has no result.
-/

namespace Napd

namespace Scheduler

/-- `DEFAULT_SCHEDULER_INTERVAL`. -/
def DEFAULT_SCHEDULER_INTERVAL : ℤ := 60

/-- What the calls of `Time::now` give, one after the other: times as `gettimeofday` has them,
none before an earlier one. -/
structure Clock where
  now : ℕ → Time
  normal : ∀ n, (now n).Normal
  mono : ∀ m n, m ≤ n → (now m).le (now n) = true

/-- `struct Event`. -/
structure Event (H : Type*) where
  number : ℕ
  last_run : Time
  frequency : Time
  name : Option Text
  handler : H

namespace Event

variable {H : Type*}

/-- `Event::Event`. -/
def new (number : ℕ) (h : H) (f : Time) (n : Option Text) : Event H :=
  ⟨number, Time.ofInt 0, f, n, h⟩

/-- `Event::elapsed`, at the time that `Time::now` gives. -/
def elapsed (e : Event H) (now : Time) : Time := now.sub e.last_run

/-- `Event::ready`. -/
def ready (e : Event H) (now : Time) : Bool := (e.elapsed now).ge e.frequency

end Event

/-- A call of `Event::run`: when it was, and what the handler gave. -/
structure Execution where
  time : Time
  succeeded : Bool

/-- What a pass of the scheduler did about an event: the event as it was, the time at which
`ready` looked at it, and the call of `run`. -/
structure Visit (H : Type*) where
  event : Event H
  now : Time
  execution : Option Execution

/-- The event after it: `run` sets `last_run`. -/
def Visit.after {H : Type*} (v : Visit H) : Event H :=
  match v.execution with
  | none => v.event
  | some x => { v.event with last_run := x.time }

/-- A call of `Scheduler::run`: its time, whether the interval had passed, the events there were,
what was done about them, and the result. -/
structure Pass (H : Type*) where
  now : Time
  entered : Bool
  events : List (Event H)
  visits : List (Visit H)
  result : Bool

/-- `struct Scheduler`; how often the clock was read, how many events were executed and made; and
the calls of `run`. -/
structure State (H : Type*) where
  events : List (Event H)
  last_run : Time
  interval : Time
  readings : ℕ
  executions : ℕ
  made : ℕ
  log : List (Pass H)

/-- The loop of `Scheduler::run`. -/
structure Loop (H : Type*) where
  readings : ℕ
  executions : ℕ
  failed : Bool
  visits : List (Visit H)

variable {H : Type*} (K : Clock) (outcome : ℕ → H → Bool)

/-- `Scheduler::Scheduler`. -/
def new : State H where
  events := []
  last_run := K.now 0
  interval := Time.ofInt DEFAULT_SCHEDULER_INTERVAL
  readings := 1
  executions := 0
  made := 0
  log := []

/-- `Scheduler::add`: `runfirst` is not read. -/
def add (s : State H) (function : Option H) (t : Time) (label : Option Text)
    (_runfirst : Bool) : Bool × State H :=
  match function with
  | none => (false, s)
  | some h =>
      if t.not then (false, s)
      else (true, { s with
        events := s.events ++ [Event.new s.made h t label]
        made := s.made + 1 })

/-- The loop of `Scheduler::remove`: the first event of that name is taken out, if there is
one. -/
def erase (label : Option Text) : List (Event H) → Option (Bool × List (Event H))
  | [] => some (false, [])
  | e :: es =>
      match e.name, label with
      | some n, some l =>
          if n = l then some (true, es) else (erase label es).map fun r => (r.1, e :: r.2)
      | _, _ => none

/-- `Scheduler::remove`. -/
def remove (s : State H) (label : Option Text) : Option (Bool × State H) :=
  (erase label s.events).map fun r => (r.1, { s with events := r.2 })

/-- `Scheduler::clear`. -/
def clear (s : State H) : Bool × State H := (true, { s with events := [] })

/-- The body of the loop of `Scheduler::run`. -/
def Loop.step (l : Loop H) (e : Event H) : Loop H :=
  let now := K.now l.readings
  if e.ready now then
    let last_run := K.now (l.readings + 1)
    if outcome l.executions e.handler then
      ⟨l.readings + 2, l.executions + 1, l.failed, l.visits ++ [⟨e, now, some ⟨last_run, true⟩⟩]⟩
    else
      ⟨l.readings + 2, l.executions + 1, true, l.visits ++ [⟨e, now, some ⟨last_run, false⟩⟩]⟩
  else ⟨l.readings + 1, l.executions, l.failed, l.visits ++ [⟨e, now, none⟩]⟩

/-- `Scheduler::run`. What it returns is the result of the pass. -/
def run (s : State H) : State H :=
  let now := K.now s.readings
  if (now.sub s.last_run).lt s.interval then
    { s with
      readings := s.readings + 1
      log := s.log ++ [⟨now, false, s.events, [], true⟩] }
  else
    let l := s.events.foldl (Loop.step K outcome) ⟨s.readings + 1, s.executions, false, []⟩
    { s with
      last_run := now
      events := l.visits.map Visit.after
      readings := l.readings
      executions := l.executions
      log := s.log ++ [⟨now, true, s.events, l.visits, !l.failed⟩] }

/-- The calls on a scheduler. -/
inductive Call (H : Type*) where
  | add (function : Option H) (t : Time) (label : Option Text) (runfirst : Bool)
  | remove (label : Option Text)
  | clear
  | run

/-- The state after a call. -/
def step (s : State H) : Call H → Option (State H)
  | .add function t label runfirst => some (add s function t label runfirst).2
  | .remove label => (remove s label).map Prod.snd
  | .clear => some (clear s).2
  | .run => some (run K outcome s)

end Scheduler

end Napd
