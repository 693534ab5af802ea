import GlucOS.Mm.MapLaws

/-! The clock loop of `swap_to_disk`: what each round does, and when the loop ends. -/

namespace GlucOS

open Routine

/-! ## Running routines -/

section Running

variable {State Stop A B : Type} {state next : State}

/-- Reading the state passes it on. -/
theorem get_bind_run (rest : State → Routine State Stop B) :
    (get >>= rest) state = rest state state := rfl

/-- A check before the rest. -/
theorem stopIf_bind_run {failed : Prop} [Decidable failed] {reason : Stop}
    {rest : Unit → Routine State Stop B} :
    (stopIf failed reason >>= rest) state =
      if failed then .error reason else rest () state := by
  unfold stopIf
  by_cases fails : failed
  · rw [if_pos fails, if_pos fails]
    rfl
  · rw [if_neg fails, if_neg fails]
    rfl

/-- The rest starts from what a routine left. -/
theorem bind_run_ok {routine : Routine State Stop A} {rest : A → Routine State Stop B} {value : A}
    (ran : routine state = .ok (value, next)) : (routine >>= rest) state = rest value next := by
  change (routine state).bind _ = _
  rw [ran]
  rfl

/-- Nothing runs after a stop. -/
theorem bind_run_error {routine : Routine State Stop A} {rest : A → Routine State Stop B}
    {reason : Stop} (ran : routine state = .error reason) :
    (routine >>= rest) state = .error reason := by
  change (routine state).bind _ = _
  rw [ran]
  rfl

end Running

/-! ## Rounds -/

/-- What one round of the clock loop comes to. -/
inductive ClockRound
  /-- A check fails. -/
  | fails
  /-- The frame stays, and the clock moves on. -/
  | skips
  /-- The accessed bit of the entry is cleared, and the clock moves on. -/
  | clears (loc : PteLoc)
  /-- The page of the entry is evicted. -/
  | evicts (loc : PteLoc)
deriving DecidableEq

/-- The round at the frame that the clock points to. -/
def Mm.clockRound (mm : Mm) (cpu : Nat) : ClockRound :=
  let pid := mm.pgCharmap mm.clockPt
  if mm.pcbSearch pid = none ∧ pid ≠ cmapShared then .fails
  else if mm.runsElsewhere cpu pid ∨ pid = cmapShared then .skips
  else
    match mm.pcbSearch pid with
    | none => .fails
    | some tcb =>
      match lookup mm.tables (mm.pgUva mm.clockPt) 2 tcb.pgdir with
      | none => .fails
      | some loc =>
        let entry := mm.tables loc.table loc.index
        if loc.level ≠ 0 ∨ entry.v = false then .fails
        else if entry.a then .clears loc else .evicts loc

/-- Where the clock points after one step. -/
def nextClock (clock : Nat) : Nat := if npf ≤ clock + 1 then 0 else clock + 1

/-- The clock loop does one round and goes on, unless the round ends it. -/
theorem clockScan_succ (mm : Mm) (cpu fuel : Nat) :
    clockScan cpu (fuel + 1) mm =
      match mm.clockRound cpu with
      | .fails => .error .corrupt
      | .skips => clockScan cpu fuel { mm with clockPt := nextClock mm.clockPt }
      | .clears loc => clockScan cpu fuel
          { mm with
            tables := writeAt mm.tables loc { mm.tables loc.table loc.index with a := false }
            clockPt := nextClock mm.clockPt }
      | .evicts loc => .ok ((loc, mm.pgCharmap mm.clockPt), mm) := by
  conv_lhs => rw [clockScan]
  unfold Mm.clockRound
  simp only [get_bind_run, stopIf_bind_run]
  by_cases lost : mm.pcbSearch (mm.pgCharmap mm.clockPt) = none ∧ mm.pgCharmap mm.clockPt ≠ cmapShared
  · rw [if_pos lost, if_pos lost]
  · rw [if_neg lost, if_neg lost]
    by_cases stays : mm.runsElsewhere cpu (mm.pgCharmap mm.clockPt) ∨
        mm.pgCharmap mm.clockPt = cmapShared
    · rw [if_pos stays, if_pos stays]
      rfl
    · rw [if_neg stays, if_neg stays]
      cases found : mm.pcbSearch (mm.pgCharmap mm.clockPt) with
      | none => rfl
      | some tcb =>
        dsimp only
        cases walked : lookup mm.tables (mm.pgUva mm.clockPt) 2 tcb.pgdir with
        | none =>
          apply bind_run_error
          rw [va2pte, va2pteFrom_lookup, walked]
        | some loc =>
          rw [bind_run_ok (va2pte_of_lookup walked)]
          change (stopIf (loc.level ≠ 0 ∨ (mm.tables loc.table loc.index).v = false) MmStop.corrupt >>=
            fun _ => _) mm = _
          rw [stopIf_bind_run]
          dsimp only
          by_cases wrong : loc.level ≠ 0 ∨ (mm.tables loc.table loc.index).v = false
          · rw [if_pos wrong, if_pos wrong]
          · rw [if_neg wrong, if_neg wrong]
            -- An accessed page gets a second chance.
            by_cases accessed : (mm.tables loc.table loc.index).a = true
            · rw [if_pos accessed, if_pos accessed]
              rfl
            · rw [if_neg accessed, if_neg accessed]
              rfl

/-! ## What the rounds leave alone -/

/-- Nothing but accessed bits was cleared. -/
def Ages (tables tables' : Nat → Nat → Pte) : Prop :=
  ∀ table i, tables' table i = tables table i ∨
    tables' table i = { tables table i with a := false }

/-- Nothing at all. -/
theorem Ages.refl (tables : Nat → Nat → Pte) : Ages tables tables := fun _ _ => .inl rfl

/-- One bit after others. -/
theorem Ages.trans {first second third : Nat → Nat → Pte} (left : Ages first second)
    (right : Ages second third) : Ages first third := by
  intro table i
  rcases right table i with same | cleared
  · rw [same]
    exact left table i
  · rw [cleared]
    rcases left table i with same | before
    · exact .inr (by rw [same])
    · exact .inr (by rw [before])

/-- One bit. -/
theorem Ages.clear (tables : Nat → Nat → Pte) (loc : PteLoc) :
    Ages tables (writeAt tables loc { tables loc.table loc.index with a := false }) := by
  intro table i
  unfold writeAt
  by_cases sameTable : table = loc.table
  · rw [sameTable, put_same]
    by_cases sameIndex : i = loc.index
    · rw [sameIndex, put_same]
      exact .inr rfl
    · rw [put_other _ _ sameIndex]
      exact .inl rfl
  · rw [put_other _ _ sameTable]
    exact .inl rfl

section Aging

variable {tables tables' : Nat → Nat → Pte} {mm next : Mm} {cpu clock frame : Nat}

/-- Entries stay present. -/
theorem Ages.v (ages : Ages tables tables') (table i : Nat) :
    (tables' table i).v = (tables table i).v := by
  rcases ages table i with same | cleared
  · rw [same]
  · rw [cleared]

/-- Entries stay leaves. -/
theorem Ages.xwr (ages : Ages tables tables') (table i : Nat) :
    (tables' table i).xwr = (tables table i).xwr := by
  rcases ages table i with same | cleared
  · rw [same]
  · rw [cleared]
    rfl

/-- Entries lead where they did. -/
theorem Ages.table (ages : Ages tables tables') (table i : Nat) :
    (tables' table i).table? = (tables table i).table? := by
  rcases ages table i with same | cleared
  · rw [same]
  · rw [cleared]
    rfl

/-- A bit that is clear stays clear. -/
theorem Ages.a (ages : Ages tables tables') {table i : Nat} (clear : (tables table i).a = false) :
    (tables' table i).a = false := by
  rcases ages table i with same | cleared
  · rw [same, clear]
  · rw [cleared]

/-- Walks end where they did. -/
theorem Ages.lookup (ages : Ages tables tables') (va level table : Nat) :
    lookup tables' va level table = lookup tables va level table := by
  induction level generalizing table with
  | zero =>
    rw [GlucOS.lookup, GlucOS.lookup, ages.v, ages.xwr]
  | succ level ih =>
    have next : GlucOS.lookup tables' va level = GlucOS.lookup tables va level := funext ih
    rw [GlucOS.lookup, GlucOS.lookup, ages.v, ages.xwr, ages.table, next]

/-- The clock loop passes the frame in every round: it is kept in common, or the process that uses
it runs on another processor. -/
def Mm.Skips (mm : Mm) (cpu frame : Nat) : Prop :=
  mm.pgCharmap frame = cmapShared ∨
    (mm.runsElsewhere cpu (mm.pgCharmap frame) = true ∧ mm.pcbSearch (mm.pgCharmap frame) ≠ none)

/-- The entry of the frame is not accessed, if there is one. -/
def Mm.Cleared (mm : Mm) (frame : Nat) : Prop :=
  ∀ tcb loc, mm.pcbSearch (mm.pgCharmap frame) = some tcb →
    GlucOS.lookup mm.tables (mm.pgUva frame) 2 tcb.pgdir = some loc →
    (mm.tables loc.table loc.index).a = false

/-- Later rounds leave the bit clear. -/
theorem Mm.Cleared.later (cleared : mm.Cleared frame) (ages : Ages mm.tables tables) :
    Mm.Cleared { mm with tables, clockPt := clock } frame := by
  intro tcb loc found walked
  apply ages.a
  exact cleared tcb loc found (by rw [← ages.lookup]; exact walked)

/-- What a round can come to. -/
theorem clockRound_cases (mm : Mm) (cpu : Nat) :
    (mm.clockRound cpu = .fails ∧ ¬ mm.Skips cpu mm.clockPt) ∨
      (mm.clockRound cpu = .skips ∧ mm.Skips cpu mm.clockPt) ∨
      (¬ mm.Skips cpu mm.clockPt ∧ ∃ tcb loc,
        mm.pcbSearch (mm.pgCharmap mm.clockPt) = some tcb ∧
        lookup mm.tables (mm.pgUva mm.clockPt) 2 tcb.pgdir = some loc ∧ loc.level = 0 ∧
        (mm.tables loc.table loc.index).v = true ∧
        mm.clockRound cpu =
          if (mm.tables loc.table loc.index).a then .clears loc else .evicts loc) := by
  unfold Mm.clockRound Mm.Skips
  dsimp only
  generalize mm.pgCharmap mm.clockPt = pid
  by_cases common : pid = cmapShared
  · exact .inr (.inl ⟨by simp [common], .inl common⟩)
  cases found : mm.pcbSearch pid with
  | none =>
    left
    rw [if_pos ⟨rfl, common⟩]
    simp [common]
  | some tcb =>
    rw [if_neg (by simp)]
    by_cases elsewhere : mm.runsElsewhere cpu pid = true
    · exact .inr (.inl ⟨by simp [elsewhere], .inr ⟨elsewhere, by simp⟩⟩)
    have alone : ¬ (pid = cmapShared ∨ mm.runsElsewhere cpu pid = true ∧ some tcb ≠ none) := by
      simp [common, elsewhere]
    rw [if_neg (by simp [common, elsewhere])]
    dsimp only
    cases walked : lookup mm.tables (mm.pgUva mm.clockPt) 2 tcb.pgdir with
    | none => exact .inl ⟨rfl, alone⟩
    | some loc =>
      dsimp only
      by_cases wrong : loc.level ≠ 0 ∨ (mm.tables loc.table loc.index).v = false
      · rw [if_pos wrong]
        exact .inl ⟨rfl, alone⟩
      · rw [if_neg wrong]
        simp only [not_or, not_not, Bool.not_eq_false] at wrong
        exact .inr (.inr ⟨alone, tcb, loc, rfl, walked, wrong.1, wrong.2, rfl⟩)

/-- A round that clears a bit clears that of its frame. -/
theorem clockRound_clears {loc : PteLoc} (clears : mm.clockRound cpu = .clears loc) :
    Mm.Cleared
      { mm with
        tables := writeAt mm.tables loc { mm.tables loc.table loc.index with a := false }
        clockPt := clock } mm.clockPt := by
  rcases clockRound_cases mm cpu with ⟨is, -⟩ | ⟨is, -⟩ | ⟨-, tcb, loc', found, walked, -, -, is⟩
  · rw [is] at clears
    cases clears
  · rw [is] at clears
    cases clears
  · have same : loc' = loc := by
      rw [is] at clears
      split at clears
      · cases clears
        rfl
      · cases clears
    subst same
    intro tcb' loc found' walked'
    have sameTcb : tcb' = tcb := by
      rw [← Option.some_inj, ← found, ← found']
      rfl
    subst sameTcb
    -- The walk of the page ends at the entry that was written.
    dsimp only at walked'
    rw [(Ages.clear mm.tables loc').lookup, walked, Option.some_inj] at walked'
    subst walked'
    dsimp only
    rw [writeAt_same]

/-- No bit is cleared twice. -/
theorem clockRound_cleared (cleared : mm.Cleared mm.clockPt) (loc : PteLoc) :
    mm.clockRound cpu ≠ .clears loc := by
  intro clears
  rcases clockRound_cases mm cpu with ⟨is, -⟩ | ⟨is, -⟩ | ⟨-, tcb, loc', found, walked, -, -, is⟩
  · rw [is] at clears
    cases clears
  · rw [is] at clears
    cases clears
  · rw [is, cleared tcb loc' found walked] at clears
    cases clears

/-! ## The end of the loop -/

/-- Where the clock points after some steps. -/
theorem nextClock_iterate {steps : Nat} (inside : clock < npf) :
    nextClock^[steps] clock = (clock + steps) % npf := by
  induction steps with
  | zero => exact (Nat.mod_eq_of_lt inside).symm
  | succ steps ih =>
    rw [Function.iterate_succ_apply', ih, nextClock]
    have limit : (clock + steps) % npf < npf := Nat.mod_lt _ (by decide)
    have split := Nat.div_add_mod (clock + steps) npf
    by_cases last : npf ≤ (clock + steps) % npf + 1
    · rw [if_pos last]
      have whole : clock + (steps + 1) = npf * ((clock + steps) / npf + 1) := by
        rw [Nat.mul_succ]
        omega
      rw [whole, Nat.mul_mod_right]
    · rw [if_neg last]
      have whole : clock + (steps + 1) = (clock + steps) % npf + 1 + npf * ((clock + steps) / npf) := by
        omega
      rw [whole, Nat.add_mul_mod_self_left]
      exact (Nat.mod_eq_of_lt (by omega)).symm

/-- The clock gets to every frame in less than one turn. -/
theorem nextClock_reaches (inside : clock < npf) (isFrame : frame < npf) :
    ∃ steps < npf, nextClock^[steps] clock = frame := by
  refine ⟨(frame + (npf - clock)) % npf, Nat.mod_lt _ (by decide), ?_⟩
  rw [nextClock_iterate inside, Nat.add_mod_mod]
  have whole : clock + (frame + (npf - clock)) = frame + npf := by omega
  rw [whole, Nat.add_mod_right, Nat.mod_eq_of_lt isFrame]

/-- The clock stays at a frame. -/
theorem nextClock_lt (clock : Nat) : nextClock clock < npf := by
  unfold nextClock
  split
  · decide
  · omega

/-- A loop that skips every frame never ends. -/
theorem clockScan_hangs (fuel : Nat) (inside : mm.clockPt < npf)
    (skips : ∀ frame < npf, mm.Skips cpu frame) : clockScan cpu fuel mm = .error .noVictim := by
  induction fuel generalizing mm with
  | zero => rfl
  | succ fuel ih =>
    have round : mm.clockRound cpu = .skips := by
      rcases clockRound_cases mm cpu with ⟨-, no⟩ | ⟨is, -⟩ | ⟨no, -⟩
      · exact absurd (skips _ inside) no
      · exact is
      · exact absurd (skips _ inside) no
    rw [clockScan_succ, round]
    exact ih (nextClock_lt _) skips

/-- A frame whose bit is clear ends the loop when the clock comes to it. -/
theorem clockScan_second {steps fuel : Nat} (reaches : nextClock^[steps] mm.clockPt = frame)
    (enough : steps < fuel) (stays : ¬ mm.Skips cpu frame) (cleared : mm.Cleared frame) :
    clockScan cpu fuel mm ≠ .error .noVictim := by
  induction fuel generalizing mm steps with
  | zero => omega
  | succ fuel ih =>
    rw [clockScan_succ]
    cases steps with
    | zero =>
      rw [Function.iterate_zero_apply] at reaches
      subst reaches
      rcases clockRound_cases mm cpu with ⟨is, -⟩ | ⟨-, no⟩ | ⟨-, tcb, loc, -, -, -, -, is⟩
      · rw [is]
        simp
      · exact absurd no stays
      · cases round : mm.clockRound cpu with
        | fails => simp
        | skips =>
          rw [round] at is
          split at is <;> cases is
        | clears loc => exact absurd round (clockRound_cleared cleared loc)
        | evicts loc => simp
    | succ steps =>
      rw [Function.iterate_succ_apply] at reaches
      cases round : mm.clockRound cpu with
      | fails => simp
      | skips => exact ih reaches (by omega) stays cleared
      | clears loc =>
        exact ih reaches (by omega) stays (cleared.later (Ages.clear mm.tables loc))
      | evicts loc => simp

/-- A frame that is not skipped ends the loop when the clock comes to it a second time. -/
theorem clockScan_ends {steps fuel : Nat} (inside : mm.clockPt < npf) (isFrame : frame < npf)
    (reaches : nextClock^[steps] mm.clockPt = frame) (enough : steps + npf < fuel)
    (stays : ¬ mm.Skips cpu frame) : clockScan cpu fuel mm ≠ .error .noVictim := by
  induction fuel generalizing mm steps with
  | zero => omega
  | succ fuel ih =>
    rw [clockScan_succ]
    cases steps with
    | zero =>
      rw [Function.iterate_zero_apply] at reaches
      subst reaches
      cases round : mm.clockRound cpu with
      | fails => simp
      | skips =>
        rcases clockRound_cases mm cpu with ⟨is, -⟩ | ⟨-, no⟩ | ⟨-, tcb, loc, -, -, -, -, is⟩
        · rw [round] at is
          cases is
        · exact absurd no stays
        · rw [round] at is
          split at is <;> cases is
      | clears loc =>
        -- The bit is clear now, and the clock comes back within one turn.
        obtain ⟨again, short, back⟩ := nextClock_reaches (nextClock_lt mm.clockPt) isFrame
        exact clockScan_second back (by omega) stays (clockRound_clears round)
      | evicts loc => simp
    | succ steps =>
      rw [Function.iterate_succ_apply] at reaches
      cases round : mm.clockRound cpu with
      | fails => simp
      | skips => exact ih (nextClock_lt _) reaches (by omega) stays
      | clears loc => exact ih (nextClock_lt _) reaches (by omega) stays
      | evicts loc => simp

/-- A loop that has ended does not depend on how many more rounds it was given. -/
theorem clockScan_more {fuel : Nat} (ended : clockScan cpu fuel mm ≠ .error .noVictim) :
    clockScan cpu (fuel + 1) mm = clockScan cpu fuel mm := by
  induction fuel generalizing mm with
  | zero => exact absurd rfl ended
  | succ fuel ih =>
    rw [clockScan_succ] at ended
    rw [clockScan_succ mm cpu (fuel + 1), clockScan_succ mm cpu fuel]
    cases round : mm.clockRound cpu with
    | fails => rfl
    | skips =>
      rw [round] at ended
      exact ih ended
    | clears loc =>
      rw [round] at ended
      exact ih ended
    | evicts loc => rfl

end Aging

end GlucOS
