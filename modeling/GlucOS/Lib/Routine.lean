import Mathlib

/-! Routines over a state that may stop, with the rules that follow their text. -/

namespace GlucOS

/-- A routine: it updates a state and answers, or stops for a reason. -/
abbrev Routine (State Stop : Type) := StateT State (Except Stop)

namespace Routine

variable {State Stop A B : Type}

/-- Stopping at once. -/
def stop (reason : Stop) : Routine State Stop A := fun _ => .error reason

/-- Stopping when a check fails. -/
def stopIf (failed : Prop) [Decidable failed] (reason : Stop) : Routine State Stop Unit :=
  if failed then stop reason else pure ()

/-- The body for every index below the bound, in order. -/
def forUpto : Nat → (Nat → Routine State Stop Unit) → Routine State Stop Unit
  | 0, _ => pure ()
  | n + 1, body => do
    forUpto n body
    body n

/--
From this state the routine meets its postcondition, or stops for an accepted reason.

The accepted reasons come first, because they stay the same along a whole proof.
-/
def Meets (accepted : Stop → Prop) (routine : Routine State Stop A) (state : State)
    (post : A → State → Prop) : Prop :=
  match routine state with
  | .ok (value, next) => post value next
  | .error reason => accepted reason

variable {accepted : Stop → Prop} {state : State} {post : A → State → Prop}

/-- What a finished routine answers satisfies its postcondition. -/
theorem Meets.of_ok {routine : Routine State Stop A} {value : A} {next : State}
    (meets : Meets accepted routine state post) (ran : routine state = .ok (value, next)) :
    post value next := by
  simpa [Meets, ran] using meets

/-- What a stopped routine reports is an accepted reason. -/
theorem Meets.of_error {routine : Routine State Stop A} {reason : Stop}
    (meets : Meets accepted routine state post) (ran : routine state = .error reason) :
    accepted reason := by
  simpa [Meets, ran] using meets

/-- A weaker postcondition is met too. -/
theorem Meets.mono {weaker : A → State → Prop} {routine : Routine State Stop A}
    (meets : Meets accepted routine state post)
    (weaken : ∀ value next, post value next → weaker value next) :
    Meets accepted routine state weaker := by
  unfold Meets at *
  -- Only a routine that finishes has a postcondition to weaken.
  cases ran : routine state with
  | ok answer =>
    simp only [ran] at meets ⊢
    exact weaken _ _ meets
  | error reason => simpa only [ran] using meets

/-- More reasons to stop may be accepted. -/
theorem Meets.accept {wider : Stop → Prop} {routine : Routine State Stop A}
    (meets : Meets accepted routine state post) (widen : ∀ reason, accepted reason → wider reason) :
    Meets wider routine state post := by
  unfold Meets at *
  cases ran : routine state with
  | ok answer => simpa only [ran] using meets
  | error reason =>
    simp only [ran] at meets ⊢
    exact widen reason meets

/-- The second routine starts from whatever the first one left. -/
theorem Meets.bind {mid : A → State → Prop} {after : B → State → Prop}
    {routine : Routine State Stop A} {rest : A → Routine State Stop B}
    (first : Meets accepted routine state mid)
    (second : ∀ value next, mid value next → Meets accepted (rest value) next after) :
    Meets accepted (routine >>= rest) state after := by
  unfold Meets at first
  have unfolded : (routine >>= rest) state =
      (routine state).bind fun answer => rest answer.1 answer.2 := rfl
  -- The bind of the underlying exception decides which of the two runs.
  cases ran : routine state with
  | ok answer =>
    simp only [ran] at first
    have := second _ _ first
    unfold Meets at this ⊢
    rw [unfolded, ran]
    exact this
  | error reason =>
    simp only [ran] at first
    unfold Meets
    rw [unfolded, ran]
    exact first

/-- A pure answer leaves the state alone. -/
@[simp] theorem meets_pure (value : A) :
    Meets accepted (pure value : Routine State Stop A) state post ↔ post value state := Iff.rfl

/-- Stopping is accepted when its reason is. -/
@[simp] theorem meets_stop (reason : Stop) :
    Meets accepted (stop reason : Routine State Stop A) state post ↔ accepted reason := Iff.rfl

section Binds

variable {after : B → State → Prop}

/-- Binding a pure answer passes it on. -/
@[simp] theorem meets_pure_bind (value : A) (rest : A → Routine State Stop B) :
    Meets accepted (pure value >>= rest) state after ↔ Meets accepted (rest value) state after :=
  Iff.rfl

/-- Nothing runs after a stop. -/
@[simp] theorem meets_stop_bind (reason : Stop) (rest : A → Routine State Stop B) :
    Meets accepted (stop reason >>= rest) state after ↔ accepted reason := Iff.rfl

/-- Reading the state passes it on. -/
@[simp] theorem meets_get_bind (rest : State → Routine State Stop B) :
    Meets accepted (get >>= rest) state after ↔ Meets accepted (rest state) state after := Iff.rfl

/-- Writing the state replaces it. -/
@[simp] theorem meets_set_bind (next : State) (rest : PUnit → Routine State Stop B) :
    Meets accepted (set next >>= rest) state after ↔ Meets accepted (rest ()) next after := Iff.rfl

/-- Modifying the state changes it at once. -/
@[simp] theorem meets_modify_bind (change : State → State) (rest : PUnit → Routine State Stop B) :
    Meets accepted (modify change >>= rest) state after ↔
      Meets accepted (rest ()) (change state) after := Iff.rfl

/-- A write at the end of a routine. -/
@[simp] theorem meets_set (next : State) (post : PUnit → State → Prop) :
    Meets accepted (set next : Routine State Stop PUnit) state post ↔ post () next := Iff.rfl

/-- A modification at the end of a routine. -/
@[simp] theorem meets_modify (change : State → State) (post : PUnit → State → Prop) :
    Meets accepted (modify change : Routine State Stop PUnit) state post ↔
      post () (change state) := Iff.rfl

/-- Two binds in a row. -/
theorem meets_assoc {C : Type} {last : C → State → Prop} (routine : Routine State Stop A)
    (middle : A → Routine State Stop B) (rest : B → Routine State Stop C) :
    Meets accepted ((routine >>= middle) >>= rest) state last ↔
      Meets accepted (routine >>= fun value => middle value >>= rest) state last := by
  rw [bind_assoc]

/-- A check that passes, or fails for an accepted reason, before the rest. -/
theorem meets_stopIf_bind {failed : Prop} [Decidable failed] {reason : Stop}
    {rest : Unit → Routine State Stop B} (allowed : failed → accepted reason)
    (passes : ¬ failed → Meets accepted (rest ()) state after) :
    Meets accepted (stopIf failed reason >>= rest) state after := by
  unfold stopIf
  by_cases fails : failed
  · simpa only [if_pos fails, meets_stop_bind] using allowed fails
  · simpa only [if_neg fails, meets_pure_bind] using passes fails

end Binds

/-- A choice is met when the branch taken is. -/
theorem meets_ite {choice : Prop} [Decidable choice] {yes no : Routine State Stop A}
    (taken : choice → Meets accepted yes state post)
    (skipped : ¬ choice → Meets accepted no state post) :
    Meets accepted (if choice then yes else no) state post := by
  by_cases holds : choice
  · simpa only [if_pos holds] using taken holds
  · simpa only [if_neg holds] using skipped holds

/-- What holds before the loop and is carried over each round holds after the last round. -/
theorem meets_forUpto {body : Nat → Routine State Stop Unit} (progress : Nat → State → Prop) :
    ∀ n, progress 0 state →
      (∀ i < n, ∀ here, progress i here →
        Meets accepted (body i) here fun _ => progress (i + 1)) →
      Meets accepted (forUpto n body) state fun _ => progress n := by
  -- The induction peels the last round off, as the definition does.
  intro n
  induction n with
  | zero => intro start _; exact start
  | succ n ih =>
    intro start round
    refine Meets.bind (ih start fun i small here => round i (by omega) here) ?_
    intro _ here reached
    exact round n (by omega) here reached

end Routine

end GlucOS
