import GlucOS.Lib.Keep
import GlucOS.Mm.Machine

/-! Routines of memory management that leave the tasks as they are. -/

namespace GlucOS

open Routine

/-- The tasks, what the processors run, and the static variables of `handle_pagefault`. -/
def Mm.tasks (mm : Mm) : List Tcb × (Nat → Nat × Nat) × FaultMemo :=
  (mm.pcbTable, mm.current, mm.fault)

/-! ## Page tables -/

/-- Reading an entry. -/
theorem readPte_tasks (loc : PteLoc) : Keeps Mm.tasks (readPte loc) := ⟨fun _ => rfl⟩

/-- Writing an entry. -/
theorem writePte_tasks (loc : PteLoc) (entry : Pte) : Keeps Mm.tasks (writePte loc entry) :=
  ⟨fun _ => rfl⟩

/-- Following an entry. -/
theorem tableOf_tasks (entry : Pte) : Keeps Mm.tasks (tableOf entry) := by
  unfold tableOf
  split
  · exact keeps_pure _
  · exact keeps_stop _

/-- The PCB of what runs. -/
theorem curCpu_tasks (cpu : Nat) : Keeps Mm.tasks (curCpu cpu) := by
  unfold curCpu
  apply keeps_get_bind
  intro mm
  split
  · rfl
  · trivial

/-- `alloc_pagetable`. -/
theorem allocPagetable_tasks (pid : Nat) : Keeps Mm.tasks (allocPagetable pid) := by
  unfold allocPagetable
  apply (keeps_stopIf _ _).bind
  intro _
  apply keeps_get_bind
  intro mm
  apply meets_stopIf_bind (fun _ => trivial)
  intro _
  rfl

/-- `free_pagetable`. -/
theorem freePagetable_tasks (table : Nat) : Keeps Mm.tasks (freePagetable table) := by
  unfold freePagetable
  apply (keeps_stopIf _ _).bind
  intro _
  apply keeps_get_bind
  intro mm
  apply meets_stopIf_bind (fun _ => trivial)
  intro _
  apply meets_stopIf_bind (fun _ => trivial)
  intro _
  rfl

/-- `share_pgtable`. -/
theorem sharePgtable_tasks (dest src : Nat) : Keeps Mm.tasks (sharePgtable dest src) :=
  keeps_modify fun _ => rfl

/-- `va2pte` from the table of one level on. -/
theorem va2pteFrom_tasks (va : Nat) (alloc : Bool) (pid level table : Nat) :
    Keeps Mm.tasks (va2pteFrom va alloc pid level table) := by
  induction level generalizing table with
  | zero =>
    unfold va2pteFrom
    apply (readPte_tasks _).bind
    intro entry
    apply Keeps.ite
    · exact .ite (keeps_pure _) (keeps_stop _)
    · exact keeps_pure _
  | succ level ih =>
    unfold va2pteFrom
    apply (readPte_tasks _).bind
    intro entry
    apply Keeps.ite
    · exact .ite (keeps_pure _) ((tableOf_tasks entry).bind ih)
    · apply Keeps.ite
      · apply (keeps_stopIf _ _).bind
        intro _
        apply (allocPagetable_tasks pid).bind
        intro next
        exact (writePte_tasks _ _).bind fun _ => ih next
      · exact keeps_pure _

/-- `va2pte`. -/
theorem va2pte_tasks (va pgdir : Nat) (alloc : Bool) (pid : Nat) :
    Keeps Mm.tasks (va2pte va pgdir alloc pid) := va2pteFrom_tasks va alloc pid 2 pgdir

/-- `va2kva`. -/
theorem va2kva_tasks (va pgdir : Nat) : Keeps Mm.tasks (va2kva va pgdir) := by
  unfold va2kva
  apply (va2pte_tasks va pgdir false 0).bind
  intro loc
  apply (readPte_tasks loc).bind
  intro entry
  apply Keeps.ite
  · split <;> exact keeps_pure _
  · exact keeps_pure _

/-- Dropping a cached translation. -/
theorem localFlushTlbPage_tasks (cpu va : Nat) : Keeps Mm.tasks (localFlushTlbPage cpu va) :=
  keeps_modify fun _ => rfl

/-! ## Page frames and the swap partition -/

/-- `alloc_swap_page`. -/
theorem allocSwapPage_tasks (pid : Nat) : Keeps Mm.tasks (allocSwapPage pid) := by
  unfold allocSwapPage
  apply (keeps_stopIf _ _).bind
  intro _
  apply keeps_get_bind
  intro mm
  apply meets_ite <;> exact fun _ => rfl

/-- `free_swap_page`. -/
theorem freeSwapPage_tasks (slot : Nat) : Keeps Mm.tasks (freeSwapPage slot) := by
  unfold freeSwapPage
  apply (keeps_stopIf _ _).bind
  intro _
  apply keeps_get_bind
  intro mm
  apply meets_stopIf_bind (fun _ => trivial)
  intro _
  rfl

/-- `free_page`. -/
theorem freePage_tasks (pfn : Nat) : Keeps Mm.tasks (freePage pfn) := by
  unfold freePage
  apply (keeps_stopIf _ _).bind
  intro _
  apply keeps_get_bind
  intro mm
  apply meets_stopIf_bind (fun _ => trivial)
  intro _
  rfl

/-- One user less of a copy-on-write frame. -/
theorem releaseCow_tasks (pgidx pfn : Nat) : Keeps Mm.tasks (releaseCow pgidx pfn) := by
  unfold releaseCow
  apply keeps_get_bind
  intro mm
  apply meets_stopIf_bind (fun _ => trivial)
  intro _
  rw [meets_set_bind]
  exact (Keeps.ite (freePage_tasks pfn) (keeps_pure ())).after rfl

/-- Moving the clock pointer. -/
theorem stepClock_tasks : Keeps Mm.tasks stepClock := keeps_modify fun _ => rfl

/-- The clock loop. -/
theorem clockScan_tasks (cpu fuel : Nat) : Keeps Mm.tasks (clockScan cpu fuel) := by
  induction fuel with
  | zero => exact keeps_stop _
  | succ fuel ih =>
    unfold clockScan
    apply keeps_get_bind
    intro mm
    apply meets_stopIf_bind (fun _ => trivial)
    intro _
    apply meets_ite
    · intro _
      exact (stepClock_tasks.bind fun _ => ih).meets mm
    · intro _
      split
      · trivial
      · rename_i tcb found
        apply ((va2pte_tasks _ _ _ _).bind fun loc => (readPte_tasks loc).bind fun entry =>
          (keeps_stopIf _ _).bind fun _ => ?_).meets mm
        apply Keeps.ite
        · exact (writePte_tasks _ _).bind fun _ => stepClock_tasks.bind fun _ => ih
        · exact keeps_pure _

/-- `swap_to_disk`. -/
theorem swapToDisk_tasks (cpu : Nat) : Keeps Mm.tasks (swapToDisk cpu) := by
  unfold swapToDisk
  apply (clockScan_tasks cpu _).bind
  intro found
  apply (allocSwapPage_tasks found.2).bind
  intro slot?
  split
  · exact keeps_stop _
  · apply keeps_get_bind
    intro mm
    rw [meets_set_bind]
    apply Keeps.after _ rfl
    apply (readPte_tasks _).bind
    intro entry
    apply (writePte_tasks _ _).bind
    intro _
    apply (localFlushTlbPage_tasks _ _).bind
    intro _
    apply (keeps_stopIf _ _).bind
    intro _
    exact stepClock_tasks.bind fun _ => keeps_pure _

/-- `alloc_page`. -/
theorem allocPage_tasks (cpu pid uva : Nat) : Keeps Mm.tasks (allocPage cpu pid uva) := by
  unfold allocPage
  apply (keeps_stopIf _ _).bind
  intro _
  apply keeps_get_bind
  intro mm
  apply meets_ite
  · intro _
    apply ((swapToDisk_tasks cpu).bind fun frame => ?_).meets mm
    apply keeps_modify_bind
    · exact fun _ => rfl
    · exact keeps_pure _
  · intro _
    rfl

/-- `alloc_page_helper`. -/
theorem allocPageHelper_tasks (cpu va pgdir pid : Nat) :
    Keeps Mm.tasks (allocPageHelper cpu va pgdir pid) := by
  unfold allocPageHelper
  apply (va2pte_tasks _ _ _ _).bind
  intro loc
  apply (keeps_stopIf _ _).bind
  intro _
  apply (readPte_tasks loc).bind
  intro entry
  apply (keeps_stopIf _ _).bind
  intro _
  apply (allocPage_tasks _ _ _).bind
  intro frame
  apply (readPte_tasks loc).bind
  intro entry
  exact (writePte_tasks _ _).bind fun _ => keeps_pure _

/-- `swap_from_disk`. -/
theorem swapFromDisk_tasks (cpu : Nat) (loc : PteLoc) (uva : Nat) :
    Keeps Mm.tasks (swapFromDisk cpu loc uva) := by
  unfold swapFromDisk
  apply (readPte_tasks loc).bind
  intro entry
  apply Keeps.ite
  · exact keeps_pure _
  · apply (curCpu_tasks cpu).bind
    intro ccpu
    apply (allocPage_tasks _ _ _).bind
    intro frame
    apply keeps_modify_bind
    · exact fun _ => rfl
    · apply (freeSwapPage_tasks _).bind
      intro _
      apply (readPte_tasks loc).bind
      intro entry
      exact (writePte_tasks _ _).bind fun _ => keeps_pure _

/-! ## Shared pages -/

/-- The part of `shm_page_get` that finds or allocates the page frame. -/
theorem shmJoin_tasks (cpu shmid uva : Nat) (ccpu : Tcb) :
    Keeps Mm.tasks (shmJoin cpu shmid uva ccpu) := by
  unfold shmJoin
  apply keeps_get_bind
  intro mm
  apply meets_ite
  · intro _
    apply ((allocPageHelper_tasks _ _ _ _).bind fun frame => ?_).meets mm
    apply keeps_modify_bind
    · exact fun _ => rfl
    · apply keeps_modify_bind
      · exact fun _ => rfl
      · exact keeps_pure _
  · intro _
    split
    · trivial
    · rfl

/-- The part of `shm_page_dt` that discounts the user. -/
theorem shmLeave_tasks (pid : Nat) (entry : Pte) : Keeps Mm.tasks (shmLeave pid entry) := by
  unfold shmLeave
  apply keeps_get_bind
  intro mm
  dsimp only
  split
  · trivial
  · split
    · trivial
    · apply meets_stopIf_bind (fun _ => trivial)
      intro _
      rw [meets_set_bind]
      apply Keeps.after _ rfl
      apply Keeps.ite
      · exact (freePage_tasks _).bind fun _ => keeps_pure _
      · exact keeps_pure _

/-- `shm_page_dt` for a process that is known. -/
theorem shmDetach_tasks (cpu addr : Nat) (own : Bool) (pid pgdir : Nat) :
    Keeps Mm.tasks (shmDetach cpu addr own pid pgdir) := by
  unfold shmDetach
  apply (va2pte_tasks _ _ _ _).bind
  intro loc
  apply (readPte_tasks loc).bind
  intro entry
  apply Keeps.ite
  · exact keeps_pure _
  · apply (keeps_stopIf _ _).bind
    intro _
    apply (writePte_tasks _ _).bind
    intro _
    exact Keeps.ite_bind (localFlushTlbPage_tasks _ _) fun _ => shmLeave_tasks _ _

/-- `shm_page_dt`. -/
theorem shmPageDt_tasks (cpu addr : Nat) (owner : Option (Nat × Nat)) :
    Keeps Mm.tasks (shmPageDt cpu addr owner) := by
  unfold shmPageDt
  split
  · exact (curCpu_tasks cpu).bind fun _ => shmDetach_tasks _ _ _ _ _
  · exact shmDetach_tasks _ _ _ _ _

/-! ## Processes -/

/-- One entry of the innermost loop of `free_pages_of_proc`. -/
theorem freeLeaf_tasks (cpu pid pgdir va : Nat) (loc : PteLoc) :
    Keeps Mm.tasks (freeLeaf cpu pid pgdir va loc) := by
  unfold freeLeaf
  apply (readPte_tasks loc).bind
  intro entry
  apply Keeps.ite
  · apply (keeps_stopIf _ _).bind
    intro _
    apply Keeps.ite
    · exact (shmPageDt_tasks _ _ _).bind fun _ => keeps_stopIf _ _
    · exact .ite (releaseCow_tasks _ _) (freePage_tasks _)
  · exact .ite (freeSwapPage_tasks _) (keeps_pure _)

/-- One entry of the middle loop of `free_pages_of_proc`. -/
theorem freeL1Entry_tasks (cpu pid pgdir vpn2 vpn1 l1 : Nat) :
    Keeps Mm.tasks (freeL1Entry cpu pid pgdir vpn2 vpn1 l1) := by
  unfold freeL1Entry
  apply (readPte_tasks _).bind
  intro entry
  apply Keeps.ite
  · apply (keeps_stopIf _ _).bind
    intro _
    apply (tableOf_tasks entry).bind
    intro l0
    apply Keeps.bind
    · apply Keeps.forUpto
      exact fun vpn0 => freeLeaf_tasks _ _ _ _ _
    · exact fun _ => freePagetable_tasks l0
  · exact keeps_pure _

/-- One entry of the outer loop of `free_pages_of_proc`. -/
theorem freeL2Entry_tasks (cpu pid pgdir vpn2 : Nat) :
    Keeps Mm.tasks (freeL2Entry cpu pid pgdir vpn2) := by
  unfold freeL2Entry
  apply (readPte_tasks _).bind
  intro entry
  apply Keeps.ite
  · apply (keeps_stopIf _ _).bind
    intro _
    apply (tableOf_tasks entry).bind
    intro l1
    apply Keeps.bind
    · apply Keeps.forUpto
      exact fun vpn1 => freeL1Entry_tasks _ _ _ _ _ _
    · exact fun _ => freePagetable_tasks l1
  · exact keeps_pure _

/-- `free_pages_of_proc`. -/
theorem freePagesOfProc_tasks (cpu pgdir pid : Nat) :
    Keeps Mm.tasks (freePagesOfProc cpu pgdir pid) := by
  unfold freePagesOfProc
  apply Keeps.bind
  · apply Keeps.forUpto
    exact fun vpn2 => freeL2Entry_tasks _ _ _ _
  · exact fun _ => freePagetable_tasks pgdir

/-- One entry of the innermost loop of `do_fork`. -/
theorem forkLeaf_tasks (cpu pid uva : Nat) (child parent : PteLoc) :
    Keeps Mm.tasks (forkLeaf cpu pid uva child parent) := by
  unfold forkLeaf
  apply (readPte_tasks parent).bind
  intro entry
  apply Keeps.ite
  · exact keeps_pure _
  · apply Keeps.ite_bind
    · exact (swapFromDisk_tasks _ _ _).discard
    · intro _
      apply (readPte_tasks parent).bind
      intro entry
      apply (keeps_stopIf _ _).bind
      intro _
      apply Keeps.ite
      · apply (keeps_stopIf _ _).bind
        intro _
        apply (allocPage_tasks _ _ _).bind
        intro frame
        apply (readPte_tasks parent).bind
        intro entry
        apply keeps_modify_bind
        · exact fun _ => rfl
        · exact (readPte_tasks child).bind fun _ => writePte_tasks _ _
      · apply Keeps.ite
        · apply (writePte_tasks _ _).bind
          intro _
          apply keeps_get_bind
          intro mm
          apply meets_stopIf_bind (fun _ => trivial)
          intro _
          rfl
        · exact (writePte_tasks _ _).bind fun _ => (writePte_tasks _ _).bind fun _ =>
            keeps_modify fun _ => rfl

/-- One entry of the middle loop of `do_fork`. -/
theorem forkL1Entry_tasks (cpu pid vpn2 vpn1 l1 l1p : Nat) :
    Keeps Mm.tasks (forkL1Entry cpu pid vpn2 vpn1 l1 l1p) := by
  unfold forkL1Entry
  apply (readPte_tasks _).bind
  intro entry
  apply Keeps.ite
  · apply (keeps_stopIf _ _).bind
    intro _
    apply (allocPagetable_tasks pid).bind
    intro l0
    apply (tableOf_tasks entry).bind
    intro l0p
    apply (readPte_tasks _).bind
    intro new
    apply (writePte_tasks _ _).bind
    intro _
    apply Keeps.forUpto
    exact fun vpn0 => forkLeaf_tasks _ _ _ _ _
  · exact keeps_pure _

/-- One entry of the outer loop of `do_fork`. -/
theorem forkL2Entry_tasks (cpu pid vpn2 pgdir pgdirp : Nat) :
    Keeps Mm.tasks (forkL2Entry cpu pid vpn2 pgdir pgdirp) := by
  unfold forkL2Entry
  apply (readPte_tasks _).bind
  intro entry
  apply Keeps.ite
  · apply (keeps_stopIf _ _).bind
    intro _
    apply (allocPagetable_tasks pid).bind
    intro l1
    apply (tableOf_tasks entry).bind
    intro l1p
    apply (readPte_tasks _).bind
    intro new
    apply (writePte_tasks _ _).bind
    intro _
    apply Keeps.forUpto
    exact fun vpn1 => forkL1Entry_tasks _ _ _ _ _ _
  · exact keeps_pure _

/-- `load_task_img`. -/
theorem loadTaskImg_tasks (cpu : Nat) (img : TaskImg) (pgdir pid : Nat) :
    Keeps Mm.tasks (loadTaskImg cpu img pgdir pid) := by
  unfold loadTaskImg
  apply (Keeps.forUpto ?_ _).bind
  · intro _
    apply (Keeps.forUpto ?_ _).bind
    · exact fun _ => keeps_pure _
    · exact fun _ => (allocPageHelper_tasks _ _ _ _).discard
  · intro i
    exact (allocPageHelper_tasks _ _ _ _).bind fun frame => keeps_modify fun _ => rfl

/-- Writing to the memory of a process. -/
theorem pokeUser_tasks (pgdir va : Nat) (bytes : List Nat) :
    Keeps Mm.tasks (pokeUser pgdir va bytes) := by
  unfold pokeUser
  apply (va2kva_tasks va pgdir).bind
  intro kva?
  split
  · exact keeps_stop _
  · exact keeps_modify fun _ => rfl

/-- The loop of `do_exec` that copies the arguments. -/
theorem copyArgs_tasks (pgdir argvBase : Nat) (args : List (List Nat)) (i sp : Nat) :
    Keeps Mm.tasks (copyArgs pgdir argvBase i sp args) := by
  induction args generalizing i sp with
  | nil => exact keeps_pure _
  | cons arg rest ih =>
    unfold copyArgs
    apply (pokeUser_tasks _ _ _).bind
    intro _
    exact (pokeUser_tasks _ _ _).bind fun _ => ih _ _

/-! ## Accesses -/

/-- The walk of the hardware. -/
theorem walkUser_tasks (cpu vpn : Nat) : Keeps Mm.tasks (walkUser cpu vpn) := by
  unfold walkUser
  apply Keeps.ite
  · exact keeps_pure _
  · apply (curCpu_tasks cpu).bind
    intro ccpu
    apply (va2pte_tasks _ _ _ _).bind
    intro loc
    apply (readPte_tasks loc).bind
    intro entry
    exact .ite (keeps_pure _) (keeps_pure _)

/-- A load. -/
theorem loadUser_tasks (cpu va : Nat) : Keeps Mm.tasks (loadUser cpu va) := by
  unfold loadUser
  apply (walkUser_tasks _ _).bind
  intro entry?
  split
  · exact keeps_pure _
  · exact .ite (keeps_get_bind fun _ => rfl) (keeps_pure _)

/-- A store. -/
theorem storeUser_tasks (cpu va value : Nat) : Keeps Mm.tasks (storeUser cpu va value) := by
  unfold storeUser
  apply (walkUser_tasks _ _).bind
  intro entry?
  split
  · exact keeps_pure _
  · apply Keeps.ite
    · apply keeps_modify_bind
      · exact fun _ => rfl
      · exact keeps_pure _
    · exact keeps_pure _

/-- A translation that is cached. -/
theorem fillTlb_tasks (cpu vpn : Nat) : Keeps Mm.tasks (fillTlb cpu vpn) := by
  unfold fillTlb
  apply (walkUser_tasks _ _).bind
  intro entry?
  split
  · exact keeps_pure _
  · exact keeps_modify fun _ => rfl

/-- The copy-on-write branch of `handle_pagefault`. -/
theorem breakCow_tasks (cpu stval : Nat) (loc : PteLoc) (pid : Nat) :
    Keeps Mm.tasks (breakCow cpu stval loc pid) := by
  unfold breakCow
  apply (readPte_tasks loc).bind
  intro entry
  apply (allocPage_tasks _ _ _).bind
  intro frame
  apply (readPte_tasks loc).bind
  intro entry
  apply keeps_modify_bind
  · exact fun _ => rfl
  · exact (writePte_tasks _ _).bind fun _ => releaseCow_tasks _ _

end GlucOS
