import GlucOS.Mm.MachineLaws

/-! Page faults of user processes: they are resolved, unless the same one comes three times. -/

namespace GlucOS

open Routine

/-- There are too few page tables, page frames or swap pages. -/
def MmStop.Exhausted (reason : MmStop) : Prop :=
  reason = .noPageTable ∨ reason = .noVictim ∨ reason = .noSwapPage

/-- The handler resolves the page fault, unless resources are exhausted. -/
def FaultResolved (mm : Mm) (cpu stval : Nat) (isStore : Bool) (time : Nat) : Prop :=
  Meets MmStop.Exhausted (handlePagefault cpu stval isStore time) mm fun out _ => out = .resolved

/-- A repeated fault stops the kernel. -/
theorem handlePagefault_repeats {mm : Mm} {role : Nat → Role} {space : Nat → Nat → Leaf}
    {procs : Finset Nat} {cpu stval time : Nat} {isStore : Bool} {ccpu : Tcb}
    (sound : Consistent mm role space procs) (runs : mm.curCpu cpu = some ccpu)
    (isUser : ncpu ≤ ccpu.pid) (again : mm.fault.Repeats ccpu.pid stval time) :
    Meets (fun reason => reason = .repeatedFault) (handlePagefault cpu stval isStore time) mm
      fun _ _ => False := by
  obtain ⟨-, root⟩ := sound.tasks.home ccpu (TasksOk.current_mem runs) isUser
  obtain ⟨sameAddr, samePid, soon, twice⟩ := again
  rw [handlePagefault_eq, meets_curCpu_bind runs]
  unfold countFault
  simp only [meets_modify_bind]
  apply meets_stopIf_bind
  · omega
  intro _
  apply Meets.bind (va2pte_lookup (sound.withFault _).ok.shape stval root)
  intro loc here found
  obtain ⟨rfl, -⟩ := found
  simp only [meets_get_bind]
  apply meets_stopIf_bind
  · intro _
    rfl
  · -- This is at least the third fault.
    intro few
    simp only [if_pos (And.intro sameAddr (And.intro samePid soon))] at few
    omega

/-- The kernel that runs nothing has started. -/
theorem idleMm_started : idleMm.Started where
  frames := rfl
  frame := rfl
  tables := rfl
  table := rfl
  slots := rfl
  slot := rfl
  clock := rfl
  idle := rfl
  current := fun _ _ => rfl
  kernelTop := fun _ _ => .inl rfl
  kernelPages := fun _ => .inl rfl
  shmCtrl := fun _ => rfl
  fault := rfl

/-- Whether an event can happen. -/
def mmLegalTest (mm : Mm) (event : Nat × MmEvent) : Bool :=
  decide (event.1 < ncpu) && (!event.2.byUser || decide (ncpu ≤ (mm.current event.1).1)) &&
    match event.2 with
    | .exec (some program) _ _ _ => decide program.Linked
    | _ => true

/-- The test is right. -/
theorem mmLegalTest_sound (mm : Mm) (event : Nat × MmEvent) (test : mmLegalTest mm event = true) :
    MmLegal mm event := by
  unfold mmLegalTest at test
  simp only [Bool.and_eq_true, decide_eq_true_eq] at test
  obtain ⟨⟨cpu, user⟩, linked⟩ := test
  refine ⟨cpu, ?_, ?_⟩
  · intro byUser
    simpa [byUser] using user
  · intro program flags argc argv is
    rw [is] at linked
    exact of_decide_eq_true linked

/-- A page of the stack is touched, and written again after each of two calls of `do_fork`. -/
def touchForkWrite : List (Nat × MmEvent) :=
  [(0, .exec (some ⟨0x10000, 0x10000, 0, 8, fun _ => 0⟩) ⟨false, false⟩ 0 []), (0, .switchTo 2 0),
    (0, .pageFault (userSp - 0x2000) true 10), (0, .store (userSp - 0x2000) 1), (0, .fork false),
    (0, .pageFault (userSp - 0x2000) true 10), (0, .store (userSp - 0x2000) 2), (0, .fork false)]

end GlucOS
