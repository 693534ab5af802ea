import GlucOS.Lib.Run

/-! Runs of two systems of which one shows what the other does. -/

namespace GlucOS

variable {State Spec Event Out : Type*}

/-- Both systems stop, or both answer the same and go on to related states. -/
def SameStep (related : State → Spec → Prop) :
    Option (Out × State) → Option (Out × Spec) → Prop
  | none, none => True
  | some (out, next), some (out', next') => out = out' ∧ related next next'
  | _, _ => False

/-- What the states are related by may be weakened. -/
theorem SameStep.imp {related related' : State → Spec → Prop} {left : Option (Out × State)}
    {right : Option (Out × Spec)} (same : SameStep related left right)
    (weaker : ∀ state abstract, related state abstract → related' state abstract) :
    SameStep related' left right := by
  cases left with
  | none =>
    cases right with
    | none => trivial
    | some result => cases same
  | some result =>
    cases right with
    | none => cases same
    | some result' => exact ⟨same.1, weaker _ _ same.2⟩

/-- Systems that take the same step from related states have the same runs. -/
theorem run_refines {step : State → Event → Option (Out × State)}
    {spec : Spec → Event → Option (Out × Spec)} {related : State → Spec → Prop}
    {legal : Spec → Event → Prop}
    (forward : ∀ state abstract event, related state abstract → legal abstract event →
      SameStep related (step state event) (spec abstract event)) :
    ∀ events state abstract, related state abstract → LegalRun spec legal abstract events →
      SameStep related (run step state events) (run spec abstract events) := by
  -- The states stay related, so the next event meets the same answer in both systems.
  intro events
  induction events with
  | nil =>
    intro state abstract relates _
    exact ⟨rfl, relates⟩
  | cons event rest ih =>
    intro state abstract relates runs
    have same := forward state abstract event relates runs.1
    simp only [run]
    cases stepped : step state event with
    | none =>
      cases stepped' : spec abstract event with
      | none => trivial
      | some result =>
        rw [stepped, stepped'] at same
        cases same
    | some result =>
      obtain ⟨out, next⟩ := result
      cases stepped' : spec abstract event with
      | none =>
        rw [stepped, stepped'] at same
        cases same
      | some result' =>
        obtain ⟨out', next'⟩ := result'
        rw [stepped, stepped'] at same
        obtain ⟨rfl, relates'⟩ := same
        have later := ih next next' relates' (runs.2 out next' stepped')
        simp only [Option.bind_eq_bind, Option.bind_some]
        cases ran : run step next rest with
        | none =>
          cases ran' : run spec next' rest with
          | none => trivial
          | some last' =>
            rw [ran, ran'] at later
            cases later
        | some last =>
          cases ran' : run spec next' rest with
          | none =>
            rw [ran, ran'] at later
            cases later
          | some last' =>
            rw [ran, ran'] at later
            obtain ⟨outs, relates''⟩ := later
            exact ⟨congrArg (out :: ·) outs, relates''⟩

/-- Events and their answers, as a relation allows them one after the other. -/
inductive Trace (allows : Spec → Event → Out → Spec → Prop) :
    Spec → List Event → List Out → Spec → Prop
  /-- Nothing more happens. -/
  | nil {spec : Spec} : Trace allows spec [] [] spec
  /-- An event, and what follows. -/
  | cons {spec next last : Spec} {event : Event} {out : Out} {events : List Event}
    {outs : List Out} : allows spec event out next → Trace allows next events outs last →
    Trace allows spec (event :: events) (out :: outs) last

/-- A system that always answers as the relation allows has only such runs. -/
theorem run_traces {step : State → Event → Option (Out × State)}
    {allows : Spec → Event → Out → Spec → Prop} {related : State → Spec → Prop}
    {legal : State → Event → Prop}
    (forward : ∀ state abstract event, related state abstract → legal state event →
      ∃ out next abstract', step state event = some (out, next) ∧
        allows abstract event out abstract' ∧ related next abstract') :
    ∀ events state abstract, related state abstract → LegalRun step legal state events →
      ∃ outs last abstract', run step state events = some (outs, last) ∧
        Trace allows abstract events outs abstract' ∧ related last abstract' := by
  -- Each answer that is allowed leads to related states again.
  intro events
  induction events with
  | nil =>
    intro state abstract relates _
    exact ⟨[], state, abstract, rfl, .nil, relates⟩
  | cons event rest ih =>
    intro state abstract relates runs
    obtain ⟨out, next, mid, stepped, allowed, relates'⟩ :=
      forward state abstract event relates runs.1
    obtain ⟨outs, last, abstract', ran, traced, relates''⟩ :=
      ih next mid relates' (runs.2 out next stepped)
    refine ⟨out :: outs, last, abstract', ?_, .cons allowed traced, relates''⟩
    rw [run_cons stepped, ran]
    rfl

/-- Events that are legal one after the other, whatever the relation allows in between. -/
def LegalTrace (allows : Spec → Event → Out → Spec → Prop) (legal : Spec → Event → Prop) :
    Spec → List Event → Prop
  | _, [] => True
  | spec, event :: events => legal spec event ∧
    ∀ out next, allows spec event out next → LegalTrace allows legal next events

/-- A system that always answers as the relation allows does so when the relation knows legality. -/
theorem run_allowed {step : State → Event → Option (Out × State)}
    {allows : Spec → Event → Out → Spec → Prop} {related : State → Spec → Prop}
    {legal : Spec → Event → Prop}
    (forward : ∀ state abstract event, related state abstract → legal abstract event →
      ∃ out next abstract', step state event = some (out, next) ∧
        allows abstract event out abstract' ∧ related next abstract') :
    ∀ events state abstract, related state abstract → LegalTrace allows legal abstract events →
      ∃ outs last abstract', run step state events = some (outs, last) ∧
        Trace allows abstract events outs abstract' ∧ related last abstract' := by
  -- Whatever is answered is allowed, so the next event is legal as well.
  intro events
  induction events with
  | nil =>
    intro state abstract relates _
    exact ⟨[], state, abstract, rfl, .nil, relates⟩
  | cons event rest ih =>
    intro state abstract relates runs
    obtain ⟨out, next, mid, stepped, allowed, relates'⟩ :=
      forward state abstract event relates runs.1
    obtain ⟨outs, last, abstract', ran, traced, relates''⟩ :=
      ih next mid relates' (runs.2 out mid allowed)
    refine ⟨out :: outs, last, abstract', ?_, .cons allowed traced, relates''⟩
    rw [run_cons stepped, ran]
    rfl

end GlucOS
