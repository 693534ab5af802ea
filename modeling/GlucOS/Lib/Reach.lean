import GlucOS.Lib.Routine

/-! The states a machine of routines reaches through events that are allowed where they happen. -/

namespace GlucOS

open Routine

variable {State Stop Event Out : Type}

/-- The states reached from a start by events that some predicate allows. -/
inductive Reaches (step : Event → Routine State Stop Out) (allowed : State → Event → Prop)
    (start : State) : State → Prop
  /-- The start itself. -/
  | start : Reaches step allowed start start
  /-- One more event. -/
  | step {state next : State} {event : Event} {out : Out}
      (reached : Reaches step allowed start state) (legal : allowed state event)
      (ran : step event state = .ok (out, next)) : Reaches step allowed start next

variable {step : Event → Routine State Stop Out} {allowed : State → Event → Prop} {start : State}

/-- What holds at the start and is kept by every allowed event holds wherever the machine gets. -/
theorem Reaches.invariant {inv : State → Prop} (base : inv start)
    (kept : ∀ state event, inv state → allowed state event →
      Meets (fun _ => True) (step event) state fun _ next => inv next)
    {state : State} (reached : Reaches step allowed start state) : inv state := by
  -- The last event of the run keeps what held before it.
  induction reached with
  | start => exact base
  | step _ legal ran ih => exact (kept _ _ ih legal).of_ok ran

/-- Allowing more events reaches no fewer states. -/
theorem Reaches.mono {wider : State → Event → Prop} {state : State}
    (reached : Reaches step allowed start state)
    (widen : ∀ state event, allowed state event → wider state event) :
    Reaches step wider start state := by
  induction reached with
  | start => exact .start
  | step _ legal ran ih => exact .step ih (widen _ _ legal) ran

/-- One run after the other. -/
theorem Reaches.trans {state last : State} (first : Reaches step allowed start state)
    (second : Reaches step allowed state last) : Reaches step allowed start last := by
  induction second with
  | start => exact first
  | step _ legal ran ih => exact .step ih legal ran

/-- Feeding a list of events, as long as each is legal and none stops the machine. -/
def runWhere (step : Event → Routine State Stop Out) (legal : State → Event → Bool) :
    State → List Event → Option State
  | state, [] => some state
  | state, event :: rest =>
    if legal state event then
      match step event state with
      | .ok (_, next) => runWhere step legal next rest
      | .error _ => none
    else none

/-- A list of legal events leads to a state that is reached by allowed ones. -/
theorem Reaches.of_events_where {legal : State → Event → Bool} {events : List Event} {last : State}
    (sound : ∀ state event, legal state event = true → allowed state event)
    (ran : runWhere step legal start events = some last) : Reaches step allowed start last := by
  have further : ∀ (events : List Event) (state : State), Reaches step allowed start state →
      runWhere step legal state events = some last → Reaches step allowed start last := by
    intro events
    induction events with
    | nil =>
      intro state reached ran
      cases ran
      exact reached
    | cons event rest ih =>
      intro state reached ran
      by_cases lawful : legal state event = true
      · cases stepped : step event state with
        | error reason => simp [runWhere, lawful, stepped] at ran
        | ok answer =>
          simp only [runWhere, lawful, if_true, stepped] at ran
          exact ih _ (.step reached (sound _ _ lawful) stepped) ran
      · simp [runWhere, lawful] at ran
  exact further events start .start ran

/-- Feeding a list of events, as long as none stops the machine. -/
def runEvents (step : Event → Routine State Stop Out) : State → List Event → Option State :=
  runWhere step fun _ _ => true

/-- A list of events leads to a state that is reached. -/
theorem Reaches.of_events {events : List Event} {last : State}
    (ran : runEvents step start events = some last) : Reaches step (fun _ _ => True) start last :=
  .of_events_where (fun _ _ _ => trivial) ran

end GlucOS
