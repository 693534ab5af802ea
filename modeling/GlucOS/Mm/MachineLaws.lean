import GlucOS.Mm.AllocLaws
import GlucOS.Mm.ShareLaws

/-! Every event keeps memory management consistent, from the moment the kernel has started. -/

namespace GlucOS

open Routine

variable {mm : Mm} {role : Nat → Role} {space : Nat → Nat → Leaf} {procs : Finset Nat}
  {accepted : MmStop → Prop} {cpu : Nat} {ccpu : Tcb}

/-! ## Accesses -/

/-- The walk of the hardware changes nothing. -/
theorem walkUser_meets (sound : Consistent mm role space procs) (runs : mm.curCpu cpu = some ccpu)
    (isUser : ncpu ≤ ccpu.pid) (vpn : Nat) :
    Meets accepted (walkUser cpu vpn) mm fun _ next => next = mm := by
  obtain ⟨-, root⟩ := sound.tasks.home ccpu (TasksOk.current_mem runs) isUser
  unfold walkUser
  apply meets_ite
  · intro _
    rfl
  intro _
  rw [meets_curCpu_bind runs]
  apply Meets.bind (va2pte_lookup sound.ok.shape _ root)
  intro loc next walked
  obtain ⟨rfl, -⟩ := walked
  simp only [meets_readPte_bind]
  apply meets_ite
  · exact fun _ => rfl
  · exact fun _ => rfl

/-- A load changes nothing. -/
theorem loadUser_sound (sound : Consistent mm role space procs) (runs : mm.curCpu cpu = some ccpu)
    (isUser : ncpu ≤ ccpu.pid) (va : Nat) :
    Meets accepted (loadUser cpu va) mm fun _ next => GoesTo mm next := by
  unfold loadUser
  apply Meets.bind (walkUser_meets sound runs isUser _)
  intro entry? next same
  subst same
  cases entry? with
  | none => exact sound.goesTo rfl
  | some entry =>
    apply meets_ite
    · intro _
      exact sound.goesTo rfl
    · intro _
      exact sound.goesTo rfl

/-- A store changes a byte of a frame. -/
theorem storeUser_sound (sound : Consistent mm role space procs)
    (runs : mm.curCpu cpu = some ccpu) (isUser : ncpu ≤ ccpu.pid) (va value : Nat) :
    Meets accepted (storeUser cpu va value) mm fun _ next => GoesTo mm next := by
  unfold storeUser
  apply Meets.bind (walkUser_meets sound runs isUser _)
  intro entry? next same
  subst same
  cases entry? with
  | none => exact sound.goesTo rfl
  | some entry =>
    apply meets_ite
    · intro _
      simp only [meets_modify_bind, meets_pure]
      exact ⟨⟨role, space, procs, sound.ok.withFrames _, { sound.tasks with }, sound.segs,
        sound.placed⟩, .of_same rfl⟩
    · intro _
      exact sound.goesTo rfl

/-- Cached translations do not matter. -/
theorem fillTlb_sound (sound : Consistent mm role space procs) (runs : mm.curCpu cpu = some ccpu)
    (isUser : ncpu ≤ ccpu.pid) (vpn : Nat) :
    Meets accepted (fillTlb cpu vpn) mm fun _ next => GoesTo mm next := by
  unfold fillTlb
  apply Meets.bind (walkUser_meets sound runs isUser _)
  intro entry? next same
  subst same
  cases entry? with
  | none => exact sound.goesTo rfl
  | some entry =>
    exact ⟨⟨role, space, procs, { sound.ok with }, { sound.tasks with }, sound.segs,
      sound.placed⟩, .of_same rfl⟩

/-! ## Processes and threads -/

/-- `do_fork` keeps the state consistent. -/
theorem doFork_sound (exhausted : accepted .noPageTable) (hang : accepted .noVictim)
    (full : accepted .noSwapPage) (sound : Consistent mm role space procs)
    (runs : mm.curCpu cpu = some ccpu) (isUser : ncpu ≤ ccpu.pid) (noHeap : Bool) :
    Meets accepted (doFork cpu noHeap) mm fun _ next => GoesTo mm next := by
  have mem := TasksOk.current_mem runs
  apply Meets.mono (meets_both (doFork_meets exhausted hang full noHeap sound.ok sound.tasks runs
    isUser) ((doFork_pcbs cpu noHeap mm).mono fun _ _ steps => sound.segs.steps steps))
  intro out next both
  obtain ⟨⟨-, rfl⟩ | ⟨child, role', space', -, forks⟩, segs⟩ := both
  · exact sound.goesTo rfl
  obtain ⟨pgdir, table⟩ := forks.pcbTable
  refine ⟨⟨role', space', insert child procs, forks.ok, forks.tasks, segs, ?_⟩,
    .of_same forks.shmCtrl⟩
  rw [table]
  constructor
  · intro tcb inTable user
    rw [List.mem_append, List.mem_singleton] at inTable
    obtain old | rfl := inTable
    · exact sound.placed.low tcb old user
    · exact sound.placed.low ccpu mem isUser
  · intro tcb inTable user vpn now
    rw [List.mem_append, List.mem_singleton] at inTable
    obtain old | rfl := inTable
    · obtain before | ⟨isChild, -⟩ := forks.copies tcb.pid vpn now
      · exact sound.placed.inside tcb old user vpn before
      · exact absurd isChild (forks.fresh tcb old)
    · -- The child has its pages where its parent has its own.
      obtain before | ⟨-, parents⟩ := forks.copies child vpn now
      · have mem' := sound.ok.procs.touched child vpn before
        obtain ⟨tcb, old, isPid⟩ := sound.tasks.alive child mem'
        exact absurd isPid (forks.fresh tcb old)
      · exact sound.placed.inside ccpu mem isUser vpn parents

/-- `do_thread_create` adds a thread with the page table and segment of its process. -/
theorem doThreadCreate_sound (sound : Consistent mm role space procs)
    (runs : mm.curCpu cpu = some ccpu) (isUser : ncpu ≤ ccpu.pid) (noHeap : Bool) :
    Meets accepted (doThreadCreate cpu noHeap) mm fun _ next => GoesTo mm next := by
  have mem := TasksOk.current_mem runs
  obtain ⟨inProcs, root⟩ := sound.tasks.home ccpu mem isUser
  unfold doThreadCreate
  rw [meets_curCpu_bind runs]
  simp only [meets_get_bind]
  cases allocTid mm ccpu.pid with
  | none => exact sound.goesTo rfl
  | some tid =>
    apply meets_ite
    · intro _
      exact sound.goesTo rfl
    intro room
    apply meets_ite
    · intro _
      exact sound.goesTo rfl
    intro _
    rw [meets_pcbTableAdd_bind (Nat.lt_of_not_le room), meets_pure]
    have tasks : TasksOk { mm with pcbTable := mm.pcbTable ++ [{ ccpu with tid }] } role
        (insert ccpu.pid procs) := by
      apply @TasksOk.add mm _ role role procs sound.tasks { ccpu with tid } (fun _ _ => rfl)
        (fun _ _ is => Or.inr is) isUser root
      · rfl
      · rfl
    rw [Finset.insert_eq_of_mem inProcs] at tasks
    refine ⟨⟨role, space, procs, { sound.ok with }, tasks, ?_, ?_⟩, .of_same rfl⟩
    · apply sound.segs.add
      · exact sound.segs.ordered ccpu mem
      · intro tcb inTable same
        exact sound.segs.agree tcb inTable ccpu mem same
    · constructor
      · intro tcb inTable user
        rw [List.mem_append, List.mem_singleton] at inTable
        obtain old | rfl := inTable
        · exact sound.placed.low tcb old user
        · exact sound.placed.low ccpu mem isUser
      · intro tcb inTable user vpn now
        rw [List.mem_append, List.mem_singleton] at inTable
        obtain old | rfl := inTable
        · exact sound.placed.inside tcb old user vpn now
        · exact sound.placed.inside ccpu mem isUser vpn now

/-- The scheduler deletes a thread, and its process keeps its first one. -/
theorem reapThread_sound (sound : Consistent mm role space procs) (pid tid : Nat) :
    Meets accepted (reapThread pid tid) mm fun _ next => GoesTo mm next := by
  unfold reapThread
  simp only [meets_get_bind]
  apply meets_ite
  · intro _
    exact sound.goesTo rfl
  intro spared
  push Not at spared
  obtain ⟨other, first, second, main, mainMem, isPid, isMain⟩ := spared
  have keeps : ∀ tcb : Tcb, tcb.pid ≠ pid ∨ tcb.tid ≠ tid →
      decide (¬ (tcb.pid = pid ∧ tcb.tid = tid)) = true := by
    intro tcb differ
    apply decide_eq_true
    intro both
    obtain notPid | notTid := differ
    · exact notPid both.1
    · exact notTid both.2
  have mainKept := keeps main (Or.inr (by omega))
  rw [meets_set]
  refine ⟨⟨role, space, procs, { sound.ok with }, ?_, sound.segs.filter _,
    sound.placed.fewer (fun tcb inTable => List.mem_of_mem_filter inTable) fun _ _ now => now⟩,
    .of_same rfl⟩
  have survives : ∀ member, (∃ tcb ∈ mm.pcbTable, tcb.pid = member) → ∃ tcb ∈ mm.pcbTable,
      tcb.pid = member ∧ decide (¬ (tcb.pid = pid ∧ tcb.tid = tid)) = true := by
    intro member alive
    by_cases same : member = pid
    · exact ⟨main, mainMem, by omega, mainKept⟩
    · obtain ⟨tcb, inTable, isMember⟩ := alive
      exact ⟨tcb, inTable, isMember, keeps tcb (Or.inl (by omega))⟩
  apply @TasksOk.filter mm _ role procs sound.tasks fun tcb => ¬ (tcb.pid = pid ∧ tcb.tid = tid)
  · intro member inProcs
    exact survives member (sound.tasks.alive member inProcs)
  · intro i small
    exact survives i (sound.tasks.idle i small)
  · intro i small tcb isRunning
    have runs := List.find?_some isRunning
    simp only [decide_eq_true_eq] at runs
    apply keeps
    by_contra both
    push Not at both
    rw [both.1, both.2] at runs
    obtain rfl | rfl : i = 0 ∨ i = 1 := by
      simp only [ncpu] at small
      omega
    · exact first runs.symm
    · exact second runs.symm
  · rfl
  · rfl

/-- A processor switches to a thread that is there. -/
theorem switchTo_sound (sound : Consistent mm role space procs) (pid tid : Nat) :
    Meets accepted (switchTo cpu pid tid) mm fun _ next => GoesTo mm next := by
  unfold switchTo
  simp only [meets_get_bind]
  cases found : mm.pcbTable.find? fun tcb => tcb.pid = pid ∧ tcb.tid = tid with
  | none => exact sound.goesTo rfl
  | some tcb =>
    apply meets_ite
    · intro _
      exact sound.goesTo rfl
    intro _
    rw [meets_set]
    refine ⟨⟨role, space, procs, { sound.ok with }, ?_, sound.segs, sound.placed⟩, .of_same rfl⟩
    refine ⟨sound.tasks.home, sound.tasks.alive, sound.tasks.user, sound.tasks.roots,
      sound.tasks.idle, ?_⟩
    intro i small
    by_cases here : i = cpu
    · refine ⟨tcb, ?_⟩
      unfold Mm.curCpu
      rw [here]
      simpa only [put_same, Prod.mk.injEq] using found
    · obtain ⟨running, isRunning⟩ := sound.tasks.runs i small
      refine ⟨running, ?_⟩
      unfold Mm.curCpu at isRunning ⊢
      simpa only [put_other _ _ here] using isRunning

/-! ## Runs -/

/-- The kernel has started, and nothing has run but the idle processes. -/
structure Mm.Started (mm : Mm) : Prop extends mm.Booted where
  /-- The PCBs. -/
  idle : mm.Idle
  /-- What the processors run. -/
  current : ∀ cpu < ncpu, mm.current cpu = (cpu, 0)
  /-- The kernel's half of its top table. -/
  kernelTop : ∀ i, numPteEntry / 2 ≤ i → KernelEntry (mm.tables 0 i)
  /-- The kernel's other table holds large pages. -/
  kernelPages : ∀ i, (mm.tables 1 i).v = false ∨ (mm.tables 1 i).xwr = true
  /-- No shared page is in use. -/
  shmCtrl : ∀ id, (mm.shmCtrl id).nproc = 0
  /-- No page fault has been counted. -/
  fault : mm.fault.lastPid = none

/-- The roles of the page tables when the kernel has started. -/
def bootRole (table : Nat) : Role := if table < 2 then .kernel else .free

/-- No table is a process's. -/
theorem bootRole_node {table pid : Nat} {path : List Nat} :
    bootRole table ≠ .node pid path := by
  unfold bootRole
  split <;> simp

/-- What the kernel starts with is consistent. -/
theorem Mm.Started.ok (started : mm.Started) :
    Ok mm bootRole (fun _ _ => .untouched) ∅ none where
  frames :=
    { priv := fun _ _ _ is => nomatch is
      multi := by
        intro _ _ _ uses
        obtain is | is := uses <;> cases is
      once := by
        intro _ _ _ _ uses
        obtain is | is := uses <;> cases is
      owned := by
        intro frame _ used
        rw [started.frames] at used
        exact absurd rfl used
      finite := by
        intro frame
        apply Set.Finite.subset Set.finite_empty
        intro page uses
        obtain is | is := uses <;> cases is
      counted := by
        intro frame _ is
        rw [started.frames] at is
        exact absurd is.symm shared_ne_free
      holds := fun _ is => nomatch is }
  frameIndex := started.indexes.frames
  slots :=
    { marked := fun _ _ _ is => nomatch is
      once := fun _ _ _ _ _ is => nomatch is
      used := by
        intro slot _ used
        rw [started.slots] at used
        exact absurd rfl used }
  slotIndex := started.indexes.slots
  shm := by
    have idle : ∀ id, ¬ (mm.shmCtrl id).Active := by
      intro id
      unfold ShmCtrl.Active
      rw [started.shmCtrl]
      exact Nat.lt_irrefl 0
    exact
      { listed := fun id _ active => absurd active (idle id)
        distinct := fun id _ active => absurd active (idle id)
        nonempty := fun id _ active => absurd active (idle id)
        count := fun id _ active => absurd active (idle id)
        apart := fun id _ _ _ active => absurd active (idle id)
        notCow := fun id _ active => absurd active (idle id)
        known := fun _ _ _ is => nomatch is
        low := fun _ _ _ is => nomatch is }
  procs :=
    { touched := fun _ _ touched => absurd rfl touched
      named := fun _ mem => absurd mem (Finset.notMem_empty _)
      few := by decide }
  clock := started.indexes.clock
  shape :=
    { kernel := by
        intro table
        unfold bootRole
        split
        · simp only [true_iff]
          omega
        · simp only [reduceCtorEq, false_iff]
          omega
      kernelTop := started.kernelTop
      kernelHalf := fun _ _ _ is => absurd is bootRole_node
      kernelPages := started.kernelPages
      inner := fun _ _ _ _ is => absurd is bootRole_node
      leaf := fun _ _ _ _ _ is => absurd is bootRole_node
      bare := fun _ _ _ => rfl
      parent := fun _ _ _ _ is => absurd is bootRole_node
      unique := fun _ _ _ _ is => absurd is bootRole_node
      inside := by
        intro table used
        by_contra large
        apply used
        unfold bootRole
        simp only [npt] at large
        rw [if_neg (by omega)] }
  tabs :=
    { marked := by
        intro table _
        rw [started.tables]
        change (if table < 2 then 0 else cmapFree) = _
        unfold bootRole
        split <;> rfl
      named := fun _ _ _ is => absurd is bootRole_node
      index := started.indexes.tables }

/-- So are the PCBs. -/
theorem Mm.Started.sound (started : mm.Started) : mm.Sound := by
  have small : ∀ tcb ∈ mm.pcbTable, tcb.pid < ncpu := by
    intro tcb mem
    rw [started.idle] at mem
    obtain ⟨cpu, inRange, rfl⟩ := List.mem_map.mp mem
    exact List.mem_range.mp inRange
  have idle : ∀ cpu < ncpu, ∃ tcb ∈ mm.pcbTable, tcb.pid = cpu := by
    intro cpu inRange
    rw [started.idle]
    exact ⟨_, List.mem_map_of_mem (List.mem_range.mpr inRange), rfl⟩
  refine ⟨bootRole, fun _ _ => .untouched, ∅, started.ok, ?_, ?_, ?_⟩
  · constructor
    · intro tcb mem isUser
      exact absurd (small tcb mem) (Nat.not_lt.mpr isUser)
    · intro pid mem
      exact absurd mem (Finset.notMem_empty _)
    · intro pid mem
      exact absurd mem (Finset.notMem_empty _)
    · intro table pid is
      exact absurd is bootRole_node
    · exact idle
    · intro cpu inRange
      unfold Mm.curCpu
      rw [started.idle, started.current cpu inRange]
      have both : cpu = 0 ∨ cpu = 1 := by
        simp only [ncpu] at inRange
        omega
      obtain rfl | rfl := both
      · exact ⟨_, rfl⟩
      · exact ⟨_, rfl⟩
  · exact SegsOk.of_reached started.idle .start
  · constructor
    · intro tcb mem isUser
      exact absurd (small tcb mem) (Nat.not_lt.mpr isUser)
    · intro tcb mem isUser
      exact absurd (small tcb mem) (Nat.not_lt.mpr isUser)

/--
An event that can happen: system calls and accesses are those of a user process, and programs are
linked where programs are.
-/
structure MmLegal (mm : Mm) (event : Nat × MmEvent) : Prop where
  /-- There are two processors. -/
  cpu : event.1 < ncpu
  /-- The idle processes make no system calls. -/
  user : event.2.byUser = true → ncpu ≤ (mm.current event.1).1
  /-- The programs in the image. -/
  linked : ∀ program flags argc argv, event.2 = .exec (some program) flags argc argv →
    program.Linked

/-- The page fault of an event is at least the third one of its process at its address. -/
def FaultRepeats (mm : Mm) (event : Nat × MmEvent) : Prop :=
  match event.2 with
  | .pageFault stval _ time => mm.fault.Repeats (mm.current event.1).1 stval time
  | _ => False

/-- What runs on a processor that makes a system call is a user process. -/
theorem MmLegal.runs {event : Nat × MmEvent} (legal : MmLegal mm event)
    (sound : Consistent mm role space procs) (byUser : event.2.byUser = true) :
    ∃ ccpu, mm.curCpu event.1 = some ccpu ∧ ncpu ≤ ccpu.pid ∧
      (mm.current event.1).1 = ccpu.pid := by
  obtain ⟨ccpu, runs⟩ := sound.tasks.runs event.1 legal.cpu
  have isCurrent := List.find?_some runs
  simp only [decide_eq_true_eq] at isCurrent
  have user := legal.user byUser
  rw [← isCurrent] at user ⊢
  exact ⟨ccpu, runs, user, rfl⟩

/-- Every legal event leads to a consistent state, unless resources are exhausted. -/
theorem Mm.Sound.step (exhausted : accepted .noPageTable) (hang : accepted .noVictim)
    (full : accepted .noSwapPage) {event : Nat × MmEvent} (sound : mm.Sound)
    (legal : MmLegal mm event) (often : FaultRepeats mm event → accepted .repeatedFault) :
    Meets accepted (mmMachine event) mm fun _ next => GoesTo mm next := by
  obtain ⟨role, space, procs, sound⟩ := sound
  have runs := legal.runs sound
  have linked := legal.linked
  obtain ⟨cpu, event⟩ := event
  unfold mmMachine
  cases event with
  | load va =>
    obtain ⟨ccpu, runs, isUser, -⟩ := runs rfl
    exact meets_map _ (loadUser_sound sound runs isUser va)
  | store va value =>
    obtain ⟨ccpu, runs, isUser, -⟩ := runs rfl
    exact meets_map _ (storeUser_sound sound runs isUser va value)
  | pageFault stval isStore time =>
    obtain ⟨ccpu, runs, isUser, isCurrent⟩ := runs rfl
    unfold FaultRepeats at often
    simp only [isCurrent] at often
    apply meets_map
    apply Meets.mono (handlePagefault_sound exhausted hang full sound runs isUser often)
    intro out next done
    exact done.1
  | fork noHeap =>
    obtain ⟨ccpu, runs, isUser, -⟩ := runs rfl
    exact meets_map _ (doFork_sound exhausted hang full sound runs isUser noHeap)
  | shmPageGet key =>
    obtain ⟨ccpu, runs, isUser, -⟩ := runs rfl
    apply meets_map
    apply Meets.mono (shmPageGet_sound exhausted hang full key sound runs isUser)
    intro value next done
    exact done.1
  | shmPageDt addr =>
    obtain ⟨ccpu, runs, isUser, -⟩ := runs rfl
    exact meets_map _ (doShmPageDt_sound addr sound runs isUser)
  | sbrk size =>
    obtain ⟨ccpu, runs, isUser, -⟩ := runs rfl
    exact meets_map _ (doSbrk_sound size sound runs isUser)
  | exec img flags argc argv =>
    apply meets_map
    apply doExec_sound exhausted hang full sound
    intro program is
    subst is
    exact linked program flags argc argv rfl
  | threadCreate noHeap =>
    obtain ⟨ccpu, runs, isUser, -⟩ := runs rfl
    exact meets_map _ (doThreadCreate_sound sound runs isUser noHeap)
  | kill pid => exact meets_map _ (doKill_sound pid sound)
  | reapThread pid tid =>
    apply Meets.bind (reapThread_sound sound pid tid)
    intro _ next done
    exact done
  | switchTo pid tid =>
    apply Meets.bind (switchTo_sound sound pid tid)
    intro _ next done
    exact done
  | fillTlb vpn =>
    obtain ⟨ccpu, runs, isUser, -⟩ := runs rfl
    apply Meets.bind (fillTlb_sound sound runs isUser vpn)
    intro _ next done
    exact done

/-- The state is consistent wherever legal events lead to. -/
theorem Mm.Sound.of_reached {start : Mm} (started : start.Started)
    (reached : Reaches mmMachine MmLegal start mm) : mm.Sound := by
  apply @Reaches.invariant _ _ _ _ _ _ _ Mm.Sound started.sound _ _ reached
  intro here event sound legal
  apply Meets.mono (Mm.Sound.step trivial trivial trivial sound legal fun _ => trivial)
  intro _ next leads
  exact leads.sound

end GlucOS
