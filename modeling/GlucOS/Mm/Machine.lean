import GlucOS.Lib.Run
import GlucOS.Mm.Process

/-! The page fault handler, user accesses, and the machine that runs them on both processors. -/

namespace GlucOS

open Routine

/-- What the page fault handler did. -/
inductive FaultOut
  /-- The access may be tried again. -/
  | resolved
  /-- The address is illegal, and the process exits. -/
  | segfault
deriving DecidableEq, Repr

/-- The repetition count of `handle_pagefault`. -/
def countFault (pid stval time : Nat) : MmRoutine Unit :=
  modify fun mm =>
    { mm with fault :=
        if stval = mm.fault.lastStval ∧ some pid = mm.fault.lastPid ∧
            u32Sub time mm.fault.lastTime ≤ 1 then
          { mm.fault with pfYmr := mm.fault.pfYmr + 1 }
        else { pfYmr := 1, lastStval := stval, lastPid := some pid, lastTime := time } }

/-- The copy-on-write branch of `handle_pagefault`. -/
def breakCow (cpu stval : Nat) (loc : PteLoc) (pid : Nat) : MmRoutine Unit := do
  let entry ← readPte loc
  let pgidx := entry.pgidx
  let frame ← allocPage cpu pid stval
  let entry ← readPte loc
  modify fun mm => { mm with frames := put mm.frames frame (mm.frames entry.pgidx) }
  writePte loc { entry with pfn := framePfn frame, w := true, cow := false }
  releaseCow pgidx (framePfn pgidx)

/-- The addresses at which a page fault is resolved. -/
def Tcb.legal (tcb : Tcb) (stval : Nat) : Prop :=
  (stval < userSp ∧ userSp - ustackNpg * normalPageSize ≤ stval) ∨
    (tcb.segStart ≤ stval ∧ stval < tcb.segEnd)

instance (tcb : Tcb) (stval : Nat) : Decidable (tcb.legal stval) :=
  inferInstanceAs (Decidable (_ ∨ _))

/-- `handle_pagefault` for an access of the current process of a processor. -/
def handlePagefault (cpu stval : Nat) (isStore : Bool) (time : Nat) : MmRoutine FaultOut := do
  let ccpu ← curCpu cpu
  countFault ccpu.pid stval time
  stopIf (ccpu.pid < ncpu) .kernelFault
  let loc ← va2pte stval ccpu.pgdir false 0
  let mm ← get
  stopIf (3 ≤ mm.fault.pfYmr) .repeatedFault
  if ccpu.legal stval then
    let entry ← readPte loc
    if entry = Pte.zero then
      -- The page has not been allocated.
      discard (allocPageHelper cpu stval ccpu.pgdir ccpu.pid)
      return .resolved
    else if entry.v then
      if entry.cow ∧ isStore then breakCow cpu stval loc ccpu.pid else pure ()
      let entry ← readPte loc
      writePte loc { entry with a := true, d := true }
      localFlushTlbPage cpu stval
      return .resolved
    else
      match ← swapFromDisk cpu loc stval with
      | none => stop .corrupt
      | some _ => return .resolved
  else
    discard (doKill cpu ccpu.pid)
    return .segfault

/-- How many pages user space has; other addresses are the kernel's or no addresses at all. -/
def userVpns : Nat := 2 ^ 26

/-- The walk of the hardware, which answers an entry that is present and a user page's. -/
def walkUser (cpu vpn : Nat) : MmRoutine (Option Pte) := do
  if userVpns ≤ vpn then return none
  else
    let ccpu ← curCpu cpu
    let loc ← va2pte (vpn * normalPageSize) ccpu.pgdir false 0
    let entry ← readPte loc
    if loc.level = 0 ∧ entry.v = true ∧ entry.u = true then return some entry else return none

/-- A load of a byte, or nothing when it faults. -/
def loadUser (cpu va : Nat) : MmRoutine (Option Nat) := do
  match ← walkUser cpu (va / normalPageSize) with
  | none => return none
  | some entry =>
    if entry.r ∧ entry.a then
      let mm ← get
      return some (mm.frames entry.pgidx (va % normalPageSize))
    else return none

/-- A store of a byte; it answers whether the store was made, or faulted. -/
def storeUser (cpu va value : Nat) : MmRoutine Bool := do
  match ← walkUser cpu (va / normalPageSize) with
  | none => return false
  | some entry =>
    if entry.w ∧ entry.a ∧ entry.d then
      modify fun mm =>
        { mm with
          frames := put mm.frames entry.pgidx
            (put (mm.frames entry.pgidx) (va % normalPageSize) value) }
      return true
    else return false

/-- The processor caches the translation of a page of the process it runs, if there is one. -/
def fillTlb (cpu vpn : Nat) : MmRoutine Unit := do
  match ← walkUser cpu vpn with
  | none => return ()
  | some entry => modify fun mm => { mm with tlb := put mm.tlb cpu ((vpn, entry) :: mm.tlb cpu) }

/-- `switch_to` a thread that runs nowhere, with its `sfence.vma`. -/
def switchTo (cpu pid tid : Nat) : MmRoutine Unit := do
  let mm ← get
  match mm.pcbTable.find? fun tcb => tcb.pid = pid ∧ tcb.tid = tid with
  | none => return ()
  | some tcb =>
    if mm.running tcb then return ()
    else set { mm with current := put mm.current cpu (pid, tid), tlb := put mm.tlb cpu [] }

/-- A thread that has exited is deleted by the scheduler, while its process lives on. -/
def reapThread (pid tid : Nat) : MmRoutine Unit := do
  let mm ← get
  if tid = 0 ∨ mm.current 0 = (pid, tid) ∨ mm.current 1 = (pid, tid) ∨
      ¬ ∃ tcb ∈ mm.pcbTable, tcb.pid = pid ∧ tcb.tid = 0 then return ()
  else
    set { mm with pcbTable := mm.pcbTable.filter fun tcb => ¬ (tcb.pid = pid ∧ tcb.tid = tid) }

/-- What may happen next; all of it but the cache fills runs under the kernel lock. -/
inductive MmEvent
  /-- A load by the current process. -/
  | load (va : Nat)
  /-- A store by the current process. -/
  | store (va value : Nat)
  /-- A page fault of the current process. -/
  | pageFault (stval : Nat) (isStore : Bool) (time : Nat)
  /-- `do_fork`. -/
  | fork (noHeap : Bool)
  /-- `shm_page_get`. -/
  | shmPageGet (key : Nat)
  /-- `do_shm_page_dt`. -/
  | shmPageDt (addr : Nat)
  /-- `do_sbrk`. -/
  | sbrk (size : Nat)
  /-- `do_exec`. -/
  | exec (img : Option TaskImg) (flags : CreateFlags) (argc : Int) (argv : List (List Nat))
  /-- `do_thread_create`. -/
  | threadCreate (noHeap : Bool)
  /-- `do_kill`, also by `do_exit` and by the scheduler. -/
  | kill (pid : Nat)
  /-- The scheduler deletes a thread that has exited. -/
  | reapThread (pid tid : Nat)
  /-- The scheduler switches to a thread. -/
  | switchTo (pid tid : Nat)
  /-- The processor caches a translation. -/
  | fillTlb (vpn : Nat)

/-- What an event answers. -/
inductive MmOut
  /-- The byte loaded, or nothing when the load faulted. -/
  | loaded (value : Option Nat)
  /-- Whether the store was made. -/
  | stored (made : Bool)
  /-- What the page fault handler did. -/
  | faulted (out : FaultOut)
  /-- An identifier, or `INVALID_PID`. -/
  | ident (pid : Option Nat)
  /-- An address. -/
  | address (va : Nat)
  /-- A return code. -/
  | code (value : Int)
  /-- Nothing. -/
  | done
deriving DecidableEq, Repr

/-- One event on one processor. -/
def mmStep (cpu : Nat) : MmEvent → MmRoutine MmOut
  | .load va => .loaded <$> loadUser cpu va
  | .store va value => .stored <$> storeUser cpu va value
  | .pageFault stval isStore time => .faulted <$> handlePagefault cpu stval isStore time
  | .fork noHeap => .ident <$> doFork cpu noHeap
  | .shmPageGet key => .address <$> shmPageGet cpu key
  | .shmPageDt addr => .code <$> doShmPageDt cpu addr
  | .sbrk size => .address <$> doSbrk cpu size
  | .exec img flags argc argv => .ident <$> doExec cpu img flags argc argv
  | .threadCreate noHeap => .ident <$> doThreadCreate cpu noHeap
  | .kill pid => .ident <$> doKill cpu pid
  | .reapThread pid tid => do reapThread pid tid; return .done
  | .switchTo pid tid => do switchTo cpu pid tid; return .done
  | .fillTlb vpn => do fillTlb cpu vpn; return .done

/-- Events that only a process makes, so that the processor does not run its idle process. -/
def MmEvent.byUser : MmEvent → Bool
  | .exec .. | .kill .. | .reapThread .. | .switchTo .. => false
  | _ => true

end GlucOS
