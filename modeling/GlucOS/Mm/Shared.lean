import GlucOS.Mm.Page

/-! Shared memory pages: `shm_page_get` and `shm_page_dt`. -/

namespace GlucOS

open Routine

/-- `clear_pgdir` of a page frame. -/
def clearFrame (frame : Nat) : MmRoutine Unit :=
  modify fun mm => { mm with frames := put mm.frames frame fun _ => 0 }

/-- Setting `seg_end` in every thread of a process. -/
def setSegEnd (pid segEnd : Nat) : MmRoutine Unit :=
  modify fun mm =>
    { mm with pcbTable := mm.pcbTable.map fun tcb =>
        if tcb.pid = pid then { tcb with segEnd } else tcb }

/-- The least index below the bound at which the list of users holds this entry. -/
def ShmCtrl.findOpid (ctrl : ShmCtrl) (user : Option Nat) : Option Nat :=
  (List.range npshm).find? fun i => ctrl.opid i = user

/-- The part of `shm_page_get` that finds or allocates the page frame and counts the user. -/
def shmJoin (cpu shmid uva : Nat) (ccpu : Tcb) : MmRoutine Nat := do
  let mm ← get
  if (mm.shmCtrl shmid).nproc = 0 then
    -- It is the first process using the page.
    let frame ← allocPageHelper cpu uva ccpu.pgdir ccpu.pid
    clearFrame frame
    modify fun mm =>
      { mm with
        pgCharmap := put mm.pgCharmap frame cmapShared
        pgUva := put mm.pgUva frame 1
        shmCtrl := put mm.shmCtrl shmid
          { nproc := (mm.shmCtrl shmid).nproc + 1
            pgidx := frame
            opid := fun i => if i = 0 then some ccpu.pid else none } }
    return frame
  else
    match (mm.shmCtrl shmid).findOpid none with
    | none => stop .corrupt
    | some pidid =>
      let ctrl := mm.shmCtrl shmid
      set { mm with
        pgUva := put mm.pgUva ctrl.pgidx (mm.pgUva ctrl.pgidx + 1)
        shmCtrl := put mm.shmCtrl shmid
          { ctrl with nproc := ctrl.nproc + 1, opid := put ctrl.opid pidid (some ccpu.pid) } }
      return ctrl.pgidx

/-- `shm_page_get`: the address of the shared page of a key in the current process, or 0. -/
def shmPageGet (cpu key : Nat) : MmRoutine Nat := do
  let shmid := u32 key % nshm
  let ccpu ← curCpu cpu
  let mm ← get
  let ctrl := mm.shmCtrl shmid
  if npshm ≤ ctrl.nproc then return 0
  else if 0 < ctrl.nproc ∧ ctrl.findOpid (some ccpu.pid) ≠ none then return 0
  else
    let uva := roundUp ccpu.segEnd normalPageSize
    if usegMax < uva + normalPageSize - ccpu.segStart then return 0
    else
      setSegEnd ccpu.pid (uva + normalPageSize)
      let frame ← shmJoin cpu shmid uva ccpu
      let mm ← get
      let loc ← if 1 < (mm.shmCtrl shmid).nproc then va2pte uva ccpu.pgdir true ccpu.pid
        else va2pte uva ccpu.pgdir false 0
      stopIf (loc.level ≠ 0) .corrupt
      writePte loc { Pte.zero.setVurwxad with shared := true, pfn := framePfn frame }
      localFlushTlbPage cpu uva
      return uva

/--
The part of `shm_page_dt` that finds the shared page of a cancelled entry and discounts the user.
-/
def shmLeave (pid : Nat) (entry : Pte) : MmRoutine Int := do
  let mm ← get
  let used : Nat → Bool := fun i =>
    0 < (mm.shmCtrl i).nproc && (mm.shmCtrl i).pgidx = entry.pgidx
  match (List.range nshm).find? used with
  | none => stop .corrupt
  | some shmid =>
    let ctrl := mm.shmCtrl shmid
    match ctrl.findOpid (some pid) with
    | none => stop .corrupt
    | some i =>
      stopIf (mm.pgUva ctrl.pgidx ≠ ctrl.nproc) .corrupt
      set { mm with
        pgUva := put mm.pgUva ctrl.pgidx (mm.pgUva ctrl.pgidx - 1)
        shmCtrl := put mm.shmCtrl shmid
          { ctrl with nproc := ctrl.nproc - 1, opid := put ctrl.opid i none } }
      if ctrl.nproc - 1 = 0 then
        -- This is the last process using it.
        freePage entry.pfn
        return 1
      else return 0

/-- `shm_page_dt` for a process that is known; a process that asks itself drops the translation. -/
def shmDetach (cpu addr : Nat) (own : Bool) (pid pgdir : Nat) : MmRoutine Int := do
  let loc ← va2pte addr pgdir false 0
  let entry ← readPte loc
  if loc.level ≠ 0 ∨ entry.shared = false then return -1
  else
    stopIf (entry.v = false) .corrupt
    writePte loc Pte.zero
    if own then localFlushTlbPage cpu addr else pure ()
    shmLeave pid entry

/--
`shm_page_dt`: cancels the shared page at an address of a process, and answers the number of page
frames freed, or -1.

The process and its top page table are the current ones when none are given.
-/
def shmPageDt (cpu addr : Nat) : Option (Nat × Nat) → MmRoutine Int
  | none => do
    let ccpu ← curCpu cpu
    shmDetach cpu addr true ccpu.pid ccpu.pgdir
  | some (pid, pgdir) => shmDetach cpu addr false pid pgdir

/-- `do_shm_page_dt`. -/
def doShmPageDt (cpu addr : Nat) : MmRoutine Int := shmPageDt cpu addr none

end GlucOS
