import Mathlib

/-! Runs of a machine whose step may refuse, with their invariant and simulation rules. -/

namespace GlucOS

variable {State Spec Event Out : Type*}

/-- Feeding events one at a time, collecting the answer of each. -/
def run (step : State → Event → Option (Out × State)) :
    State → List Event → Option (List Out × State)
  | state, [] => some ([], state)
  | state, event :: rest => do
    let (out, state) ← step state event
    let (outs, state) ← run step state rest
    return (out :: outs, state)

/-- A run that answers its first event continues from the state that event left. -/
theorem run_cons {step : State → Event → Option (Out × State)} {state next : State}
    {event : Event} {rest : List Event} {out : Out}
    (stepped : step state event = some (out, next)) :
    run step state (event :: rest) =
      (run step next rest).map fun (outs, last) => (out :: outs, last) := by
  -- Only the bind of the first step has to be reduced.
  simp only [run, stepped, Option.bind_eq_bind, Option.bind_some, Option.pure_def]
  cases run step next rest <;> rfl

/-- A nonempty run that finishes splits into its first step and the remaining run. -/
theorem run_cons_some {step : State → Event → Option (Out × State)} {state last : State}
    {event : Event} {rest : List Event} {outs : List Out}
    (ran : run step state (event :: rest) = some (outs, last)) :
    ∃ out next tail, step state event = some (out, next) ∧
      run step next rest = some (tail, last) ∧ outs = out :: tail := by
  cases stepped : step state event with
  | none => simp [run, stepped] at ran
  | some result =>
    rcases result with ⟨out, next⟩
    rw [run_cons stepped] at ran
    obtain ⟨⟨tail, reached⟩, tailRan, same⟩ := Option.map_eq_some_iff.mp ran
    cases same
    exact ⟨out, next, tail, rfl, tailRan, rfl⟩

/-- Every event of a run is allowed in the state it meets. -/
def LegalRun (step : State → Event → Option (Out × State)) (legal : State → Event → Prop) :
    State → List Event → Prop
  | _, [] => True
  | state, event :: rest => legal state event ∧
      ∀ out next, step state event = some (out, next) → LegalRun step legal next rest

/-- A test that finds out whether every event of a run is allowed. -/
def checkRun (step : State → Event → Option (Out × State)) (legal : State → Event → Bool) :
    State → List Event → Bool
  | _, [] => true
  | state, event :: rest => legal state event &&
    match step state event with
    | some (_, next) => checkRun step legal next rest
    | none => true

/-- A run that passes the test is legal. -/
theorem LegalRun.of_check {step : State → Event → Option (Out × State)}
    {legal : State → Event → Prop} {test : State → Event → Bool}
    (sound : ∀ state event, test state event = true → legal state event) :
    ∀ events state, checkRun step test state events = true → LegalRun step legal state events := by
  intro events
  induction events with
  | nil => intro state _; trivial
  | cons event rest ih =>
    intro state passed
    simp only [checkRun, Bool.and_eq_true] at passed
    refine ⟨sound state event passed.1, ?_⟩
    intro out next stepped
    simp only [stepped] at passed
    exact ih next passed.2

/-- What every legal step keeps, every finished legal run keeps. -/
theorem run_preserves {step : State → Event → Option (Out × State)}
    {legal : State → Event → Prop} {inv : State → Prop}
    (kept : ∀ state event out next, inv state → legal state event →
      step state event = some (out, next) → inv next) :
    ∀ events state outs last, inv state → LegalRun step legal state events →
      run step state events = some (outs, last) → inv last := by
  -- The induction follows the events, with the invariant carried to the state each one leaves.
  intro events
  induction events with
  | nil =>
    intro state outs last holds _ ran
    simp only [run, Option.some.injEq, Prod.mk.injEq] at ran
    exact ran.2 ▸ holds
  | cons event rest ih =>
    intro state outs last holds legalRun ran
    obtain ⟨out, next, tail, stepped, tailRan, -⟩ := run_cons_some ran
    have later := legalRun.2 out next stepped
    exact ih next tail last (kept state event out next holds legalRun.1 stepped) later tailRan

/-- Where legal events never get stuck and keep the invariant, neither do legal runs. -/
theorem run_safe {step : State → Event → Option (Out × State)} {legal : State → Event → Prop}
    (inv : State → Prop) (safe : ∀ state event, inv state → legal state event →
      ∃ out next, step state event = some (out, next) ∧ inv next) :
    ∀ events state, inv state → LegalRun step legal state events →
      ∃ outs last, run step state events = some (outs, last) ∧ inv last := by
  -- A legal first event leaves a state from which the remaining run is legal again.
  intro events
  induction events with
  | nil => intro state holds _; exact ⟨[], state, rfl, holds⟩
  | cons event rest ih =>
    intro state holds legalRun
    obtain ⟨out, next, stepped, kept⟩ := safe state event holds legalRun.1
    obtain ⟨outs, last, ran, reached⟩ := ih next kept (legalRun.2 out next stepped)
    exact ⟨out :: outs, last, by rw [run_cons stepped, ran]; rfl, reached⟩

/-- The answers and final state of a specification that never refuses. -/
def specRun (step : Spec → Event → Out × Spec) : Spec → List Event → List Out × Spec
  | spec, [] => ([], spec)
  | spec, event :: rest =>
    let (out, spec) := step spec event
    let (outs, spec) := specRun step spec rest
    (out :: outs, spec)

/--
A machine that answers each legal event as its specification does answers every legal run so.

The relation is re-established after every step, so it also holds at the end of the run.
-/
theorem run_simulates {step : State → Event → Option (Out × State)}
    (spec : Spec → Event → Out × Spec) (related : State → Spec → Prop) (legal : Event → Prop)
    (forward : ∀ state abstract event, related state abstract → legal event →
      ∃ next, step state event = some ((spec abstract event).1, next) ∧
        related next (spec abstract event).2) :
    ∀ events state abstract, related state abstract → (∀ event ∈ events, legal event) →
      ∃ last, run step state events = some ((specRun spec abstract events).1, last) ∧
        related last (specRun spec abstract events).2 := by
  -- Each step hands the relation on, so the remaining events start from related states.
  intro events
  induction events with
  | nil => intro state abstract holds _; exact ⟨state, rfl, holds⟩
  | cons event rest ih =>
    intro state abstract holds allLegal
    obtain ⟨next, stepped, kept⟩ := forward state abstract event holds (allLegal event (by simp))
    obtain ⟨last, ran, finished⟩ :=
      ih next _ kept fun later member => allLegal later (by simp [member])
    refine ⟨last, ?_, finished⟩
    rw [run_cons stepped, ran]
    rfl

end GlucOS
