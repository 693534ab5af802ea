import GlucOS.Lib.Routine

/-! Routines that leave a part of their state alone, with the rules that follow their text. -/

namespace GlucOS

namespace Routine

variable {State Stop Part A B : Type}

/-- From every state, the routine leaves this part of it as it was. -/
structure Keeps (part : State → Part) (routine : Routine State Stop A) : Prop where
  /-- The part afterwards is the part before. -/
  meets : ∀ state, Meets (fun _ => True) routine state fun _ next => part next = part state

variable {part : State → Part}

/-- A routine that keeps a part may also start after changes of other parts. -/
theorem Keeps.after {routine : Routine State Stop A} (keeps : Keeps part routine)
    {state start : State} (same : part state = part start) :
    Meets (fun _ => True) routine state fun _ next => part next = part start := by
  apply (keeps.meets state).mono
  intro _ next kept
  rw [kept, same]

/-- Stopping leaves nothing behind. -/
theorem keeps_stop (reason : Stop) : Keeps part (stop reason : Routine State Stop A) :=
  ⟨fun _ => trivial⟩

/-- A pure answer changes nothing. -/
theorem keeps_pure (value : A) : Keeps part (pure value : Routine State Stop A) :=
  ⟨fun _ => rfl⟩

/-- A check changes nothing. -/
theorem keeps_stopIf (failed : Prop) [Decidable failed] (reason : Stop) :
    Keeps part (stopIf failed reason : Routine State Stop Unit) := by
  unfold stopIf
  split
  · exact keeps_stop reason
  · exact keeps_pure ()

/-- One routine after the other. -/
theorem Keeps.bind {routine : Routine State Stop A} {rest : A → Routine State Stop B}
    (first : Keeps part routine) (second : ∀ value, Keeps part (rest value)) :
    Keeps part (routine >>= rest) := by
  constructor
  intro state
  refine Meets.bind (first.meets state) ?_
  intro value next kept
  exact (second value).after kept

/-- After the state has been read, the rest starts from it. -/
theorem keeps_get_bind {rest : State → Routine State Stop B}
    (second : ∀ state, Meets (fun _ => True) (rest state) state fun _ next =>
      part next = part state) : Keeps part (get >>= rest) := ⟨second⟩

/-- A change of other parts. -/
theorem keeps_modify {change : State → State} (same : ∀ state, part (change state) = part state) :
    Keeps part (modify change : Routine State Stop PUnit) := ⟨same⟩

/-- A change of other parts before the rest. -/
theorem keeps_modify_bind {change : State → State} {rest : PUnit → Routine State Stop B}
    (same : ∀ state, part (change state) = part state) (second : Keeps part (rest ())) :
    Keeps part (modify change >>= rest) := ⟨fun state => second.after (same state)⟩

/-- Both branches. -/
theorem Keeps.ite {choice : Prop} [Decidable choice] {yes no : Routine State Stop A}
    (taken : Keeps part yes) (skipped : Keeps part no) :
    Keeps part (if choice then yes else no) := by
  split
  · exact taken
  · exact skipped

/-- A routine that runs in one case only, before the rest. -/
theorem Keeps.ite_bind {choice : Prop} [Decidable choice] {first : Routine State Stop Unit}
    {rest : Unit → Routine State Stop B} (taken : Keeps part first)
    (second : ∀ value, Keeps part (rest value)) :
    Keeps part (if choice then first >>= rest else rest ()) :=
  .ite (taken.bind second) (second ())

/-- Every round of a loop. -/
theorem Keeps.forUpto {body : Nat → Routine State Stop Unit} (round : ∀ i, Keeps part (body i))
    (n : Nat) : Keeps part (forUpto n body) := by
  constructor
  intro state
  apply meets_forUpto (fun _ here => part here = part state) n rfl
  intro i _ here same
  exact (round i).after same

/-- Dropping the answer. -/
theorem Keeps.discard {routine : Routine State Stop A} (keeps : Keeps part routine) :
    Keeps part (Functor.discard routine) := by
  change Keeps part (routine >>= fun _ => pure ())
  exact keeps.bind fun _ => keeps_pure ()

/-- Converting the answer. -/
theorem Keeps.map {routine : Routine State Stop A} (keeps : Keeps part routine) (convert : A → B) :
    Keeps part (convert <$> routine) := by
  change Keeps part (routine >>= fun value => pure (convert value))
  exact keeps.bind fun _ => keeps_pure _

end Routine

end GlucOS
