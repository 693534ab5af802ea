import GlucOS.Lib.Reach
import GlucOS.Mm.PcbSteps

/-! The segments of processes, which every thread keeps a copy of, and what `do_sbrk` does to them. -/

namespace GlucOS

open Routine

/-! ## Copies -/

/-- All threads of a process have the same segment, and no segment ends before it starts. -/
structure SegsOk (table : List Tcb) : Prop where
  /-- Threads of one process have the same bounds. -/
  agree : ∀ left ∈ table, ∀ right ∈ table, left.pid = right.pid →
    left.segStart = right.segStart ∧ left.segEnd = right.segEnd
  /-- The bounds are in order. -/
  ordered : ∀ tcb ∈ table, tcb.segStart ≤ tcb.segEnd

namespace SegsOk

variable {table : List Tcb}

/-- Deleting threads keeps the segments of the others. -/
theorem filter (ok : SegsOk table) (stays : Tcb → Bool) : SegsOk (table.filter stays) where
  agree left mem right mem' :=
    ok.agree left (List.mem_of_mem_filter mem) right (List.mem_of_mem_filter mem')
  ordered tcb mem := ok.ordered tcb (List.mem_of_mem_filter mem)

/-- A thread may join a process with the segment of the others. -/
theorem add (ok : SegsOk table) {new : Tcb} (order : new.segStart ≤ new.segEnd)
    (same : ∀ tcb ∈ table, tcb.pid = new.pid →
      tcb.segStart = new.segStart ∧ tcb.segEnd = new.segEnd) : SegsOk (table ++ [new]) where
  agree := by
    intro left mem right mem' pid
    rw [List.mem_append, List.mem_singleton] at mem mem'
    -- Only pairs with the new thread are new.
    rcases mem with mem | rfl
    · rcases mem' with mem' | rfl
      · exact ok.agree left mem right mem' pid
      · exact same left mem pid
    · rcases mem' with mem' | rfl
      · have equal := same right mem' pid.symm
        exact ⟨equal.1.symm, equal.2.symm⟩
      · exact ⟨rfl, rfl⟩
  ordered := by
    intro tcb mem
    rw [List.mem_append, List.mem_singleton] at mem
    rcases mem with mem | rfl
    · exact ok.ordered tcb mem
    · exact order

/-- A change of all threads of one process keeps their segments equal. -/
theorem update (ok : SegsOk table) (pid : Nat) (low high : Nat → Nat → Nat)
    (order : ∀ tcb ∈ table, tcb.pid = pid →
      low tcb.segStart tcb.segEnd ≤ high tcb.segStart tcb.segEnd) :
    SegsOk (table.map fun tcb => if tcb.pid = pid then
      { tcb with
        segStart := low tcb.segStart tcb.segEnd
        segEnd := high tcb.segStart tcb.segEnd } else tcb) where
  agree := by
    intro left mem right mem' same
    obtain ⟨old, isOld, rfl⟩ := List.mem_map.mp mem
    obtain ⟨old', isOld', rfl⟩ := List.mem_map.mp mem'
    -- The change leaves the identifiers alone.
    have names : ∀ tcb : Tcb, (if tcb.pid = pid then
        { tcb with
          segStart := low tcb.segStart tcb.segEnd
          segEnd := high tcb.segStart tcb.segEnd } else tcb).pid = tcb.pid := by
      intro tcb
      split <;> rfl
    rw [names, names] at same
    obtain ⟨start, last⟩ := ok.agree old isOld old' isOld' same
    by_cases own : old.pid = pid
    · rw [if_pos own, if_pos (same ▸ own)]
      simp only [start, last, and_self]
    · rw [if_neg own, if_neg (same ▸ own)]
      exact ⟨start, last⟩
  ordered := by
    intro tcb mem
    obtain ⟨old, isOld, rfl⟩ := List.mem_map.mp mem
    by_cases own : old.pid = pid
    · rw [if_pos own]
      exact order old isOld own
    · rw [if_neg own]
      exact ok.ordered old isOld

/-- Every change of `pcb_table` keeps the segments equal. -/
theorem change (ok : SegsOk table) {next : List Tcb} (change : PcbChange table next) :
    SegsOk next := by
  cases change with
  | born fresh segment =>
    apply ok.add
    · rcases segment with same | ⟨parent, mem, rfl, rfl⟩
      · exact Nat.le_of_eq same
      · exact ok.ordered parent mem
    · -- The new process has no other thread.
      intro tcb mem same
      exact absurd same (fresh tcb mem)
  | @thread creator tid mem bound free =>
    apply ok.add
    · exact ok.ordered creator mem
    · intro tcb mem' same
      exact ok.agree tcb mem' creator mem same
  | gone stays => exact ok.filter stays
  | segment mem low high order =>
    apply ok.update
    -- The other threads have the bounds of the one that calls.
    intro tcb mem' same
    obtain ⟨start, last⟩ := ok.agree tcb mem' _ mem same
    rw [start, last]
    exact order (ok.ordered _ mem)

/-- So does any number of them. -/
theorem steps (ok : SegsOk table) {next : List Tcb} (steps : PcbSteps table next) : SegsOk next :=
  steps.invariant ok fun _ _ change before => before.change change

end SegsOk

/-! ## Runs -/

/-- One event on one of the processors. -/
def mmMachine (event : Nat × MmEvent) : MmRoutine MmOut := mmStep event.1 event.2

/-- Nothing runs but the idle processes, which have no segment. -/
def Mm.Idle (mm : Mm) : Prop :=
  mm.pcbTable = (List.range ncpu).map fun cpu => ⟨cpu, 0, 0, 0, 0⟩

/-- Every event keeps the segments of all threads equal. -/
theorem SegsOk.step {mm : Mm} (ok : SegsOk mm.pcbTable) (event : Nat × MmEvent) :
    Meets (fun _ => True) (mmMachine event) mm fun _ next => SegsOk next.pcbTable := by
  apply (mmStep_pcbs event.1 event.2 mm).mono
  intro _ next steps
  exact ok.steps steps

/-- The segments of all threads of a process are equal in every state reached. -/
theorem SegsOk.of_reached {start mm : Mm} (idle : start.Idle)
    (reached : Reaches mmMachine (fun _ _ => True) start mm) : SegsOk mm.pcbTable := by
  have base : SegsOk start.pcbTable := by
    rw [idle]
    constructor
    · intro left mem right mem' _
      obtain ⟨_, -, rfl⟩ := List.mem_map.mp mem
      obtain ⟨_, -, rfl⟩ := List.mem_map.mp mem'
      exact ⟨rfl, rfl⟩
    · intro tcb mem
      obtain ⟨_, -, rfl⟩ := List.mem_map.mp mem
      exact Nat.le_refl 0
  exact @Reaches.invariant _ _ _ _ _ _ _ (fun mm => SegsOk mm.pcbTable) base
    (fun _ event ok _ => ok.step event) _ reached

/-! ## `do_sbrk` -/

/-- What `do_sbrk` is to do for a process: nothing, or enlarge the segment of all its threads. -/
def SbrkSound (mm : Mm) (cpu size : Nat) (ccpu : Tcb) : Prop :=
  ∃ value next, doSbrk cpu size mm = .ok (value, next) ∧
    ((value = 0 ∧ next = mm) ∨
      (value = ccpu.segEnd ∧
        next = { mm with pcbTable := mm.pcbTable.map fun tcb =>
          if tcb.pid = ccpu.pid then { tcb with segEnd := tcb.segEnd + roundUp size 8 } else tcb } ∧
        ∀ tcb ∈ next.pcbTable, tcb.pid = ccpu.pid → tcb.segEnd - tcb.segStart ≤ usegMax)) ∧
    (2 ^ 63 ≤ size → value = 0)

/-- What `do_sbrk` does for the process that runs. -/
theorem doSbrk_eq {mm : Mm} {cpu size : Nat} {ccpu : Tcb} (runs : mm.curCpu cpu = some ccpu) :
    doSbrk cpu size mm =
      if usegMax < roundUp size 8 % 2 ^ 64 ∨
          usegMax < ccpu.segEnd + roundUp size 8 % 2 ^ 64 - ccpu.segStart then .ok (0, mm)
      else .ok (ccpu.segEnd, { mm with pcbTable := mm.pcbTable.map fun tcb =>
        if tcb.pid = ccpu.pid then { tcb with segEnd := tcb.segEnd + roundUp size 8 % 2 ^ 64 }
        else tcb }) := by
  have current : curCpu cpu mm = .ok (ccpu, mm) := by
    simp only [curCpu, bind, StateT.bind, get, getThe, MonadStateOf.get, StateT.get, pure,
      Except.bind, Except.pure, runs, StateT.pure]
  unfold doSbrk
  change (curCpu cpu mm).bind _ = _
  rw [current]
  change (if _ then _ else _ : MmRoutine Nat) mm = _
  split <;> rfl

/--
In every state reached the threads of a process have equal segments, and `do_sbrk` treats them as it
should exactly when its argument is not one of the last seven, which are rounded up to zero.
-/
theorem do_sbrk_sound_iff {start mm : Mm} (idle : start.Idle)
    (reached : Reaches mmMachine (fun _ _ => True) start mm) {cpu size : Nat} {ccpu : Tcb}
    (runs : mm.curCpu cpu = some ccpu) (word : size < 2 ^ 64) :
    SegsOk mm.pcbTable ∧ (SbrkSound mm cpu size ccpu ↔
      size + 7 < 2 ^ 64 ∨ ccpu.segEnd = 0 ∨ usegMax < ccpu.segEnd - ccpu.segStart) := by
  have ok := SegsOk.of_reached idle reached
  refine ⟨ok, ?_⟩
  have order := ok.ordered ccpu (curCpu_mem runs)
  have limit : usegMax = 8388608 := rfl
  unfold SbrkSound
  rw [doSbrk_eq runs]
  constructor
  · intro sound
    obtain ⟨value, next, ran, -, negative⟩ := sound
    by_contra bad
    simp only [not_or, not_lt] at bad
    have none : roundUp size 8 % 2 ^ 64 = 0 := by
      simp only [roundUp]
      omega
    rw [none, if_neg (by omega)] at ran
    cases ran
    exact bad.2.1 (negative (by omega))
  · intro condition
    by_cases refused : usegMax < roundUp size 8 % 2 ^ 64 ∨
        usegMax < ccpu.segEnd + roundUp size 8 % 2 ^ 64 - ccpu.segStart
    · rw [if_pos refused]
      exact ⟨0, mm, rfl, .inl ⟨rfl, rfl⟩, fun _ => rfl⟩
    · rw [if_neg refused]
      rw [not_or, not_lt, not_lt] at refused
      by_cases wraps : size + 7 < 2 ^ 64
      · have whole : roundUp size 8 % 2 ^ 64 = roundUp size 8 := by
          simp only [roundUp]
          omega
        rw [whole] at refused ⊢
        refine ⟨_, _, rfl, .inr ⟨rfl, rfl, ?_⟩, ?_⟩
        · intro tcb mem same
          obtain ⟨old, isOld, rfl⟩ := List.mem_map.mp mem
          by_cases own : old.pid = ccpu.pid
          · -- Every thread had the segment of the one that calls.
            have equal := ok.agree old isOld ccpu (curCpu_mem runs) own
            rw [if_pos own]
            simp only [equal.1, equal.2]
            omega
          · rw [if_neg own] at same
            exact absurd same own
        · intro high
          simp only [roundUp] at refused
          omega
      · have none : roundUp size 8 % 2 ^ 64 = 0 := by
          simp only [roundUp]
          omega
        rw [none] at refused ⊢
        have empty : ccpu.segEnd = 0 := by omega
        refine ⟨_, _, rfl, .inl ⟨empty, ?_⟩, fun _ => empty⟩
        have same : (fun tcb : Tcb => if tcb.pid = ccpu.pid then { tcb with segEnd := tcb.segEnd + 0 }
            else tcb) = id := by
          funext tcb
          split <;> rfl
        rw [same, List.map_id]

/-- Memory in which nothing but the idle processes has run. -/
def idleMm : Mm :=
  { tables := fun _ _ => Pte.zero
    pgtbCharmap := fun table => if table < 2 then 0 else cmapFree
    pgtbFfree := 2
    frames := fun _ _ => 0
    pgCharmap := fun _ => cmapFree
    pgUva := fun _ => 0
    pgFfree := 0
    swapPages := fun _ _ => 0
    spgCharmap := fun _ => cmapFree
    spgFfree := 0
    clockPt := 0
    shmCtrl := fun _ => ⟨0, 0, fun _ => none⟩
    pcbTable := (List.range ncpu).map fun cpu => ⟨cpu, 0, 0, 0, 0⟩
    current := fun cpu => (cpu, 0)
    tlb := fun _ => []
    fault := ⟨0, 0, none, 0⟩ }

/-- A small program is loaded and runs on the first processor. -/
def firstRun : List (Nat × MmEvent) :=
  [(0, .exec (some ⟨0x10000, 0x10000, 0, 8, fun _ => 0⟩) ⟨false, false⟩ 0 []), (0, .switchTo 2 0)]

/-- It is the process that calls. -/
theorem firstRun_runs : ∃ mm, Reaches mmMachine (fun _ _ => True) idleMm mm ∧
    mm.curCpu 0 = some ⟨2, 0, 2, 0x10000, 0x10008⟩ := by
  have left : (runEvents mmMachine idleMm firstRun).map (fun mm => mm.curCpu 0) =
      some (some ⟨2, 0, 2, 0x10000, 0x10008⟩) := by
    decide +kernel
  obtain ⟨mm, ran, runs⟩ := Option.map_eq_some_iff.mp left
  exact ⟨mm, .of_events ran, runs⟩

/-- A page more is given to it. -/
theorem do_sbrk_sound_page : ∃ mm, mm.curCpu 0 = some ⟨2, 0, 2, 0x10000, 0x10008⟩ ∧
    SegsOk mm.pcbTable ∧ (SbrkSound mm 0 4096 ⟨2, 0, 2, 0x10000, 0x10008⟩ ↔
      4096 + 7 < 2 ^ 64 ∨ 0x10008 = 0 ∨ usegMax < 0x10008 - 0x10000) := by
  obtain ⟨mm, reached, runs⟩ := firstRun_runs
  have idle : idleMm.Idle := rfl
  exact ⟨mm, runs, do_sbrk_sound_iff idle reached runs (by decide)⟩

/-- For the argument -1 the end of its segment is returned instead of 0. -/
theorem do_sbrk_minus_one : ∃ mm, Reaches mmMachine (fun _ _ => True) idleMm mm ∧
    mm.curCpu 0 = some ⟨2, 0, 2, 0x10000, 0x10008⟩ ∧
    (doSbrk 0 (2 ^ 64 - 1) mm).map Prod.fst = .ok 0x10008 ∧
    ¬ SbrkSound mm 0 (2 ^ 64 - 1) ⟨2, 0, 2, 0x10000, 0x10008⟩ := by
  obtain ⟨mm, reached, runs⟩ := firstRun_runs
  have answer : (doSbrk 0 (2 ^ 64 - 1) mm).map Prod.fst = .ok 0x10008 := by
    rw [doSbrk_eq runs]
    rfl
  refine ⟨mm, reached, runs, answer, ?_⟩
  intro sound
  obtain ⟨value, next, ran, -, negative⟩ := sound
  rw [ran] at answer
  cases answer
  exact absurd (negative (by decide)) (by decide)

end GlucOS
