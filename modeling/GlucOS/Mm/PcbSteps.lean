import GlucOS.Mm.LoadLaws
import GlucOS.Mm.Tasks

/-! What the calls do to `pcb_table`, told once for every invariant of it. -/

namespace GlucOS

open Routine

/-- One change of `pcb_table`. -/
inductive PcbChange (table : List Tcb) : List Tcb → Prop
  /-- The main thread of a new process, with no segment yet or with that of its parent. -/
  | born {pid pgdir segStart segEnd : Nat} (fresh : ∀ tcb ∈ table, tcb.pid ≠ pid)
      (segment : segStart = segEnd ∨
        ∃ parent ∈ table, parent.segStart = segStart ∧ parent.segEnd = segEnd) :
      PcbChange table (table ++ [⟨pid, 0, pgdir, segStart, segEnd⟩])
  /-- One more thread of a process, with a copy of the PCB of its creator. -/
  | thread {creator : Tcb} {tid : Nat} (mem : creator ∈ table) (bound : tid ≤ tidMax)
      (free : ∀ tcb ∈ table, tcb.pid = creator.pid → tcb.tid ≠ tid) :
      PcbChange table (table ++ [{ creator with tid }])
  /-- Threads are deleted. -/
  | gone (stays : Tcb → Bool) : PcbChange table (table.filter stays)
  /-- All threads of a process get other bounds of their segment. -/
  | segment {owner : Tcb} (mem : owner ∈ table) (low high : Nat → Nat → Nat)
      (order : owner.segStart ≤ owner.segEnd →
        low owner.segStart owner.segEnd ≤ high owner.segStart owner.segEnd) :
      PcbChange table (table.map fun tcb => if tcb.pid = owner.pid then
        { tcb with
          segStart := low tcb.segStart tcb.segEnd
          segEnd := high tcb.segStart tcb.segEnd } else tcb)

/-- Any number of changes. -/
def PcbSteps : List Tcb → List Tcb → Prop := Relation.ReflTransGen PcbChange

/-- What every change keeps, any number of them keeps. -/
theorem PcbSteps.invariant {inv : List Tcb → Prop} {table next : List Tcb}
    (steps : PcbSteps table next) (base : inv table)
    (kept : ∀ table next, PcbChange table next → inv table → inv next) : inv next := by
  induction steps with
  | refl => exact base
  | tail _ change ih => exact kept _ _ change ih

/-! ## Calls -/

section Calls

-- Loops over whole page tables are never to be run by the elaborator.
attribute [local irreducible] forUpto

variable {mm : Mm} {cpu : Nat} {table : List Tcb}

/-- A routine that leaves the tasks alone adds no change. -/
theorem PcbSteps.keeps {A : Type} {routine : MmRoutine A} (steps : PcbSteps table mm.pcbTable)
    (keeps : Keeps Mm.tasks routine) :
    Meets (fun _ => True) routine mm fun _ next => PcbSteps table next.pcbTable := by
  apply (keeps.meets mm).mono
  intro _ next kept
  have same : next.pcbTable = mm.pcbTable := congrArg Prod.fst kept
  rwa [same]

/-- The process that runs is one of the tasks. -/
theorem curCpu_mem {tcb : Tcb} (runs : mm.curCpu cpu = some tcb) : tcb ∈ mm.pcbTable :=
  List.mem_of_find?_eq_some runs

/-- `cur_cpu` answers the process that runs. -/
theorem curCpu_meets (cpu : Nat) (mm : Mm) :
    Meets (fun _ => True) (curCpu cpu) mm fun tcb next => next = mm ∧ mm.curCpu cpu = some tcb := by
  unfold curCpu
  rw [meets_get_bind]
  split
  · rename_i tcb runs
    exact ⟨rfl, runs⟩
  · trivial

/-- A new identifier is that of no task. -/
theorem allocPid_fresh {pid : Nat} (found : allocPid mm = some pid) :
    ∀ tcb ∈ mm.pcbTable, tcb.pid ≠ pid := by
  intro tcb mem same
  have free := List.find?_some found
  simp only [decide_eq_true_eq] at free
  have none := List.find?_eq_none.mp free.2 tcb mem
  simp [same] at none

/-- A new thread identifier is that of no thread of the process. -/
theorem allocTid_free {pid tid : Nat} (found : allocTid mm pid = some tid) :
    tid ≤ tidMax ∧ ∀ tcb ∈ mm.pcbTable, tcb.pid = pid → tcb.tid ≠ tid := by
  have small := List.mem_range.mp (List.mem_of_find?_eq_some found)
  have free := List.find?_some found
  simp only [decide_eq_true_eq] at free
  constructor
  · omega
  · intro tcb mem same taken
    exact free.2 ⟨tcb, mem, same, taken⟩

/-- `pcb_table_add`. -/
theorem pcbTableAdd_meets (new : Tcb) (mm : Mm) :
    Meets (fun _ => True) (pcbTableAdd new) mm fun _ next =>
      next.pcbTable = mm.pcbTable ++ [new] := by
  unfold pcbTableAdd
  simp only [meets_get_bind]
  apply meets_stopIf_bind (fun _ => trivial)
  intro _
  rfl

/-- `shm_page_get`. -/
theorem shmPageGet_pcbs (cpu key : Nat) (mm : Mm) :
    Meets (fun _ => True) (shmPageGet cpu key) mm fun _ next =>
      PcbSteps mm.pcbTable next.pcbTable := by
  unfold shmPageGet
  apply Meets.bind (curCpu_meets cpu mm)
  intro ccpu here found
  obtain ⟨rfl, runs⟩ := found
  simp only [meets_get_bind]
  apply meets_ite
  · exact fun _ => .refl
  intro _
  apply meets_ite
  · exact fun _ => .refl
  intro _
  apply meets_ite
  · exact fun _ => .refl
  intro _
  -- Every thread gets the new end, which lies above the old one.
  simp only [setSegEnd, meets_modify_bind]
  have grown := PcbChange.segment (curCpu_mem runs) (fun low _ => low)
    (fun _ _ => roundUp ccpu.segEnd normalPageSize + normalPageSize) (by
      intro order
      simp only [roundUp, normalPageSize]
      omega)
  apply PcbSteps.keeps (.single grown)
  apply (shmJoin_tasks _ _ _ _).bind
  intro frame
  apply keeps_get_bind
  intro mm'
  apply Keeps.meets
  have rest : ∀ loc : PteLoc, Keeps Mm.tasks (do
      stopIf (loc.level ≠ 0) .corrupt
      writePte loc { Pte.zero.setVurwxad with shared := true, pfn := framePfn frame }
      localFlushTlbPage cpu (roundUp ccpu.segEnd normalPageSize)
      return roundUp ccpu.segEnd normalPageSize : MmRoutine Nat) := by
    intro loc
    apply (keeps_stopIf _ _).bind
    intro _
    apply (writePte_tasks _ _).bind
    intro _
    exact (localFlushTlbPage_tasks _ _).bind fun _ => keeps_pure _
  exact .ite ((va2pte_tasks _ _ _ _).bind rest) ((va2pte_tasks _ _ _ _).bind rest)

/-- `do_sbrk`. -/
theorem doSbrk_pcbs (cpu size : Nat) (mm : Mm) :
    Meets (fun _ => True) (doSbrk cpu size) mm fun _ next =>
      PcbSteps mm.pcbTable next.pcbTable := by
  unfold doSbrk
  apply Meets.bind (curCpu_meets cpu mm)
  intro ccpu here found
  obtain ⟨rfl, runs⟩ := found
  apply meets_ite
  · exact fun _ => .refl
  · intro _
    simp only [meets_modify_bind, meets_pure]
    apply Relation.ReflTransGen.single
    exact .segment (curCpu_mem runs) (fun low _ => low)
      (fun _ high => high + roundUp size 8 % 2 ^ 64) fun order => Nat.le_add_right_of_le order

/-- `do_thread_create`. -/
theorem doThreadCreate_pcbs (cpu : Nat) (noHeap : Bool) (mm : Mm) :
    Meets (fun _ => True) (doThreadCreate cpu noHeap) mm fun _ next =>
      PcbSteps mm.pcbTable next.pcbTable := by
  unfold doThreadCreate
  apply Meets.bind (curCpu_meets cpu mm)
  intro ccpu here found
  obtain ⟨rfl, runs⟩ := found
  simp only [meets_get_bind]
  split
  · exact .refl
  · rename_i tid isFree
    apply meets_ite
    · exact fun _ => .refl
    intro _
    apply meets_ite
    · exact fun _ => .refl
    intro _
    apply Meets.bind (pcbTableAdd_meets _ here)
    intro _ next added
    obtain ⟨small, free⟩ := allocTid_free isFree
    rw [meets_pure, added]
    exact .single (.thread (curCpu_mem runs) small free)

/-- `do_kill`. -/
theorem doKill_pcbs (cpu pid : Nat) (mm : Mm) :
    Meets (fun _ => True) (doKill cpu pid) mm fun _ next =>
      PcbSteps mm.pcbTable next.pcbTable := by
  unfold doKill
  apply meets_ite
  · exact fun _ => .refl
  · intro _
    simp only [meets_get_bind]
    split
    · exact .refl
    · apply meets_stopIf_bind (fun _ => trivial)
      intro _
      simp only [meets_modify_bind, meets_get_bind]
      apply meets_ite
      · intro _
        apply PcbSteps.keeps
        · exact .single (.gone _)
        · exact (freePagesOfProc_tasks _ _ _).bind fun _ => keeps_pure _
      · exact fun _ => .single (.gone _)

/-- `do_fork`. -/
theorem doFork_pcbs (cpu : Nat) (noHeap : Bool) (mm : Mm) :
    Meets (fun _ => True) (doFork cpu noHeap) mm fun _ next =>
      PcbSteps mm.pcbTable next.pcbTable := by
  unfold doFork
  apply Meets.bind (curCpu_meets cpu mm)
  intro ccpu here found
  obtain ⟨rfl, runs⟩ := found
  simp only [meets_get_bind]
  apply meets_ite
  · exact fun _ => .refl
  intro _
  apply meets_ite
  · exact fun _ => .refl
  intro _
  split
  · exact .refl
  · rename_i pid isNew
    apply meets_ite
    · exact fun _ => .refl
    intro _
    apply Meets.bind ((allocPagetable_tasks pid).meets here)
    intro pgdir next kept
    have same : next.pcbTable = here.pcbTable := congrArg Prod.fst kept
    apply Meets.bind (pcbTableAdd_meets _ next)
    intro _ last added
    -- The child has the segment of its parent, and an identifier of its own.
    have child : PcbSteps here.pcbTable last.pcbTable := by
      rw [added, same]
      exact .single (.born (allocPid_fresh isNew) (.inr ⟨ccpu, curCpu_mem runs, rfl, rfl⟩))
    apply child.keeps
    apply (sharePgtable_tasks _ _).bind
    intro _
    apply Keeps.bind
    · exact Keeps.forUpto (fun vpn2 => forkL2Entry_tasks _ _ _ _ _) _
    · exact fun _ => keeps_pure _

/-- The clean-up of `create_proc`. -/
theorem createFailed_pcbs (steps : PcbSteps table mm.pcbTable) (pgdir pid : Nat) :
    Meets (fun _ => True) (createFailed cpu pgdir pid) mm fun _ next =>
      PcbSteps table next.pcbTable := by
  unfold createFailed
  apply Meets.bind (steps.keeps (freePagesOfProc_tasks _ _ _))
  intro _ next freed
  exact freed.tail (.gone _)

/-- The segment that `load_task_img` answers. -/
theorem loadTaskImg_segment (img : TaskImg) (pgdir pid : Nat) :
    Meets (fun _ => True) (loadTaskImg cpu img pgdir pid) mm fun seg next =>
      next.tasks = mm.tasks ∧ seg.1 ≤ seg.2 := by
  unfold loadTaskImg
  apply Meets.bind ((@Keeps.forUpto _ _ _ Mm.tasks _ ?_ _).meets mm)
  · intro _ filled kept
    apply Meets.bind ((@Keeps.forUpto _ _ _ Mm.tasks _ ?_ _).meets filled)
    · intro _ last kept'
      rw [meets_pure]
      constructor
      · exact kept'.trans kept
      · simp only [roundUp]
        omega
    · exact fun _ => (allocPageHelper_tasks _ _ _ _).discard
  · intro i
    exact (allocPageHelper_tasks _ _ _ _).bind fun frame => keeps_modify fun _ => rfl

/-- `create_proc`. -/
theorem createProc_pcbs (cpu : Nat) (img : Option TaskImg) (flags : CreateFlags) (mm : Mm) :
    Meets (fun _ => True) (createProc cpu img flags) mm fun _ next =>
      PcbSteps mm.pcbTable next.pcbTable := by
  unfold createProc
  simp only [meets_get_bind]
  apply meets_ite
  · exact fun _ => .refl
  intro _
  split
  · trivial
  · rename_i pid isNew
    apply Meets.bind ((allocPagetable_tasks pid).meets mm)
    intro pgdir next kept
    apply Meets.bind ((sharePgtable_tasks pgdir 0).meets next)
    intro _ shared kept'
    have same : shared.pcbTable = mm.pcbTable := congrArg Prod.fst (kept'.trans kept)
    apply meets_ite
    · intro _
      have nothing : PcbSteps mm.pcbTable shared.pcbTable := by
        rw [same]
        exact .refl
      apply Meets.bind (nothing.keeps (freePagesOfProc_tasks _ _ _))
      exact fun _ _ freed => freed
    intro _
    apply Meets.bind (pcbTableAdd_meets _ shared)
    intro _ added joined
    rw [same] at joined
    have born : PcbSteps mm.pcbTable added.pcbTable := by
      rw [joined]
      exact .single (.born (allocPid_fresh isNew) (.inl rfl))
    split
    · exact createFailed_pcbs born pgdir pid
    · rename_i img
      apply Meets.bind (loadTaskImg_segment img pgdir pid)
      intro seg loaded filled
      obtain ⟨kept'', order⟩ := filled
      have listed : loaded.pcbTable = added.pcbTable := congrArg Prod.fst kept''
      have bornLoaded : PcbSteps mm.pcbTable loaded.pcbTable := by rwa [listed]
      apply meets_ite
      · exact fun _ => createFailed_pcbs bornLoaded pgdir pid
      intro _
      apply Meets.bind ((allocPageHelper_tasks _ _ _ _).discard.meets loaded)
      intro _ mapped kept₃
      have listed' : mapped.pcbTable = mm.pcbTable ++ [⟨pid, 0, pgdir, 0, 0⟩] := by
        rw [← joined, ← listed]
        exact congrArg Prod.fst kept₃
      have bornMapped : PcbSteps mm.pcbTable mapped.pcbTable := by
        rwa [listed', ← joined]
      apply meets_ite
      · exact fun _ => createFailed_pcbs bornMapped pgdir pid
      intro _
      simp only [meets_modify_bind, meets_pure]
      -- The new process is in the table, and gets the segment of its program.
      have mem : (⟨pid, 0, pgdir, 0, 0⟩ : Tcb) ∈ mapped.pcbTable := by
        rw [listed']
        exact List.mem_append_right _ (List.mem_singleton.mpr rfl)
      exact bornMapped.tail (.segment mem (fun _ _ => seg.1) (fun _ _ => seg.2) fun _ => order)

/-- `do_exec`. -/
theorem doExec_pcbs (cpu : Nat) (img : Option TaskImg) (flags : CreateFlags) (argc : Int)
    (argv : List (List Nat)) (mm : Mm) :
    Meets (fun _ => True) (doExec cpu img flags argc argv) mm fun _ next =>
      PcbSteps mm.pcbTable next.pcbTable := by
  unfold doExec
  apply meets_ite
  · exact fun _ => .refl
  intro _
  apply Meets.bind (createProc_pcbs cpu img flags mm)
  intro created next steps
  split
  · exact steps
  · simp only [meets_get_bind]
    split
    · trivial
    · apply steps.keeps
      apply (pokeUser_tasks _ _ _).bind
      intro _
      exact (copyArgs_tasks _ _ _ _ _).discard.bind fun _ => keeps_pure _

/-- A routine whose answer is converted. -/
theorem meets_map {A B : Type} {accepted : MmStop → Prop} {mm : Mm} {routine : MmRoutine A}
    {post : B → Mm → Prop} (convert : A → B)
    (meets : Meets accepted routine mm fun value => post (convert value)) :
    Meets accepted (convert <$> routine) mm post := by
  change Meets accepted (routine >>= fun value => pure (convert value)) mm post
  apply meets.bind
  intro value next reached
  rw [meets_pure]
  exact reached

/-- `handle_pagefault`. -/
theorem handlePagefault_pcbs (cpu stval : Nat) (isStore : Bool) (time : Nat) (mm : Mm) :
    Meets (fun _ => True) (handlePagefault cpu stval isStore time) mm fun _ next =>
      PcbSteps mm.pcbTable next.pcbTable := by
  unfold handlePagefault
  apply Meets.bind (curCpu_meets cpu mm)
  intro ccpu here found
  obtain ⟨rfl, -⟩ := found
  simp only [countFault, meets_modify_bind]
  apply meets_stopIf_bind (fun _ => trivial)
  intro _
  apply Meets.bind ((va2pte_tasks _ _ _ _).meets _)
  intro loc next kept
  have same : next.pcbTable = here.pcbTable := congrArg Prod.fst kept
  have steps : PcbSteps here.pcbTable next.pcbTable := by
    rw [same]
    exact .refl
  simp only [meets_get_bind]
  apply meets_stopIf_bind (fun _ => trivial)
  intro _
  apply meets_ite
  · intro _
    apply steps.keeps
    apply (readPte_tasks loc).bind
    intro entry
    apply Keeps.ite
    · exact (allocPageHelper_tasks _ _ _ _).discard.bind fun _ => keeps_pure _
    · apply Keeps.ite
      · apply Keeps.ite_bind
        · exact breakCow_tasks _ _ _ _
        · intro _
          apply (readPte_tasks loc).bind
          intro entry
          apply (writePte_tasks _ _).bind
          intro _
          exact (localFlushTlbPage_tasks _ _).bind fun _ => keeps_pure _
      · apply (swapFromDisk_tasks _ _ _).bind
        intro reloaded
        split
        · exact keeps_stop _
        · exact keeps_pure _
  · -- An illegal address ends the process.
    intro _
    have killed : Meets (fun _ => True) (discard (doKill cpu ccpu.pid) : MmRoutine Unit) next
        fun _ last => PcbSteps here.pcbTable last.pcbTable := by
      apply meets_discard
      rw [← same]
      exact doKill_pcbs cpu ccpu.pid next
    apply Meets.bind killed
    exact fun _ _ ended => ended

/-- Every event of the machine changes `pcb_table` in these ways only. -/
theorem mmStep_pcbs (cpu : Nat) (event : MmEvent) (mm : Mm) :
    Meets (fun _ => True) (mmStep cpu event) mm fun _ next =>
      PcbSteps mm.pcbTable next.pcbTable := by
  cases event with
  | load va => exact PcbSteps.keeps .refl ((loadUser_tasks cpu va).map _)
  | store va value => exact PcbSteps.keeps .refl ((storeUser_tasks cpu va value).map _)
  | pageFault stval isStore time =>
    exact meets_map _ (handlePagefault_pcbs cpu stval isStore time mm)
  | fork noHeap => exact meets_map _ (doFork_pcbs cpu noHeap mm)
  | shmPageGet key => exact meets_map _ (shmPageGet_pcbs cpu key mm)
  | shmPageDt addr => exact PcbSteps.keeps .refl ((shmPageDt_tasks cpu addr none).map _)
  | sbrk size => exact meets_map _ (doSbrk_pcbs cpu size mm)
  | exec img flags argc argv => exact meets_map _ (doExec_pcbs cpu img flags argc argv mm)
  | threadCreate noHeap => exact meets_map _ (doThreadCreate_pcbs cpu noHeap mm)
  | kill pid => exact meets_map _ (doKill_pcbs cpu pid mm)
  | reapThread pid tid =>
    unfold mmStep reapThread
    simp only [meets_assoc, meets_get_bind]
    split
    · exact .refl
    · exact .single (.gone _)
  | switchTo pid tid =>
    unfold mmStep switchTo
    simp only [meets_assoc, meets_get_bind]
    split
    · exact .refl
    · split <;> exact .refl
  | fillTlb vpn =>
    exact PcbSteps.keeps .refl ((fillTlb_tasks cpu vpn).bind fun _ => keeps_pure _)

end Calls

end GlucOS
