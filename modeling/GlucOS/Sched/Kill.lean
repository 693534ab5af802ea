import GlucOS.Locking.Mbox

/-! The scheduler, the creation of processes and threads, and their end. -/

namespace GlucOS.Sched

open Routine

/-! ## Creation -/

/-- `create_proc` on the side of the scheduler; the loader is part of the environment. -/
def createProc (env : Env) (cpuMask : Nat) : KernelRoutine (Option Nat) := do
  let k ← get
  if uprocMax + ncpu ≤ k.pcbTable.length then return none
  else
    match k.allocPid with
    | none => stop (.panic .noPid)
    | some pid =>
      if env.heap then
        set (k.addPcb pid 0 cpuMask)
        return some pid
      else return none

/-- A new `cpu_mask` for all threads of a process. -/
def Kernel.setMask (k : Kernel) (pid cpuMask : Nat) : Kernel :=
  { k with
    pcb := fun h => if h ∈ k.pcbSearchAll pid then { k.pcb h with cpuMask } else k.pcb h }

/-- All bits of a 32-bit mask. -/
def allCpus : Nat := 2 ^ 32 - 1

/-- `start_glush`. -/
def startGlush (env : Env) : KernelRoutine Unit := do
  let k ← get
  match ← createProc env (k.cur env.cpu).cpuMask with
  | none => modify fun k => { k with pidGlush := none }
  | some pid =>
    modify fun k => { k.setMask pid allCpus with pidGlush := some pid }

/-! ## Threads and processes that end -/

/-- `thread_kill`. -/
def threadKill (env : Env) (p : PcbRef) : KernelRoutine Unit := do
  let k ← get
  let pcb := k.pcb p
  let found := (k.queue pcb.phead).find? fun h =>
    (k.pcb h).pid = pcb.pid ∧ (k.pcb h).tid = pcb.tid
  if pcb.status = .running then stop (.panic .threadRunning)
  else if found ≠ some p then stop (.panic .pheadError)
  else
    unblockAll env (.wait p)
    let k ← get
    if p ∉ k.queue pcb.phead then stop (.panic .notInQueue)
    else if p ∉ k.pcbTable then stop (.panic .notInTable)
    else set (k.drop p)

/-- One round of the loop of `do_kill`: a running thread is only marked. -/
def killThread (env : Env) (h : PcbRef) : KernelRoutine Unit := do
  let k ← get
  if (k.pcb h).status ≠ .running ∧ (k.pcb h).status ≠ .exiting then threadKill env h
  else set (k.setStatus h .exiting)

/-- The loop of `do_kill` over the threads found. -/
def killThreads (env : Env) : List PcbRef → KernelRoutine Unit
  | [] => pure ()
  | h :: rest => do
    killThread env h
    killThreads env rest

/-- The end of `do_kill`: once the last thread is gone, so are the resources. -/
def finishKill (env : Env) (pid : Nat) : KernelRoutine Unit := do
  let k ← get
  if k.pcbSearchAll pid = [] then
    noteDone (.terminated pid)
    ressReleaseKilled env pid
    let k ← get
    if k.pidGlush = some pid then startGlush env else return ()
  else return ()

/-- `do_kill` of a process that is not the current one; it tells whether there was one. -/
def killOther (env : Env) (pid : Nat) : KernelRoutine Bool := do
  let k ← get
  if pid < ncpu ∨ k.pcbSearchAll pid = [] then return false
  else
    killThreads env (k.pcbSearchAll pid)
    finishKill env pid
    return true

/-! ## The scheduler -/

/-- The loop of `do_scheduler` from one PCB of the ready queue on; it tells whether it switched. -/
def scanReady (env : Env) (ccpu : PcbRef) : Nat → PcbRef → KernelRoutine Bool
  | 0, _ => stop .dangling
  | fuel + 1, p => do
    if p = ccpu then return false
    else
      let k ← get
      -- The successor is stored before the PCB may be freed.
      let nextp := ringNext (k.queue .ready) p
      if p ∉ k.queue .ready then stop .dangling
      else if k.runnable env.cpu p then
        set (k.switchTo env.cpu p)
        return true
      else if (k.pcb p).status = .exited then
        let kpid := (k.pcb p).pid
        if kpid = (k.pcb ccpu).pid then stop (.panic .failedToKill)
        else
          let killed ← killOther env kpid
          if killed then scanReady env ccpu fuel nextp
          else stop (.panic .failedToKill)
      else if (k.pcb p).status = .zombie then
        threadKill env p
        scanReady env ccpu fuel nextp
      else scanReady env ccpu fuel nextp

/-- `do_scheduler`, whose loop visits each PCB once, and a new one for each that it reaps. -/
def doScheduler (env : Env) : KernelRoutine Bool := do
  checkSleeping env
  checkSleepingOnNic env
  let k ← get
  let ccpu := k.current env.cpu
  let switched ← scanReady env ccpu (2 * (k.queue .ready).length + 1)
    (ringNext (k.queue .ready) ccpu)
  if switched then return true
  else
    let k ← get
    stopIf (ncpu ≤ (k.cur env.cpu).pid) (.panic .noReadyProcess)
    return false

/-- The end of a process or a thread that is current: it never comes back from the scheduler. -/
def leave (env : Env) (status : TaskStatus) : KernelRoutine Out := do
  modify fun k => k.setStatus (k.current env.cpu) status
  let switched ← doScheduler env
  if switched then return .exited else stop (.panic .stillRunning)

/-- `do_kill`. -/
def doKill (env : Env) (pid : Int) : KernelRoutine Out := do
  let k ← get
  if pid < (ncpu : Int) ∨ k.pcbSearchAll pid.toNat = [] then return .returned invalidPid
  else if (k.cur env.cpu).pid = pid.toNat then
    killThreads env (k.pcbSearchAll pid.toNat)
    leave env .exited
  else
    killThreads env (k.pcbSearchAll pid.toNat)
    finishKill env pid.toNat
    return .returned pid

/-- `do_exit`. -/
def doExit (env : Env) : KernelRoutine Out := do
  let k ← get
  doKill env (k.cur env.cpu).pid

/-- `do_thread_exit`. -/
def doThreadExit (env : Env) : KernelRoutine Out := do
  let k ← get
  if (k.cur env.cpu).tid = 0 then doExit env else leave env .zombie

/-! ## System calls -/

/-- `do_waitpid`. -/
def doWaitpid (env : Env) (pid : Int) : KernelRoutine Out := do
  let k ← get
  if pid < 0 then return .returned invalidPid
  else
    match k.pcbSearch pid.toNat with
    | none => return .returned invalidPid
    | some p =>
      if pid.toNat = (k.cur env.cpu).pid then return .returned invalidPid
      else if ∃ h ∈ k.queue (.wait (k.current env.cpu)), (k.pcb h).pid = pid.toNat then
        return .returned invalidPid
      else
        doBlock env (.wait p) none .toUser
        return .blocked

/-- `do_thread_wait`. -/
def doThreadWait (env : Env) (tid : Nat) : KernelRoutine Out := do
  let k ← get
  if tid = 0 ∨ tid = (k.cur env.cpu).tid then return .returned 1
  else
    match k.pcbSearchTcb (k.cur env.cpu).pid tid with
    | none => return .returned 2
    | some p =>
      doBlock env (.wait p) none .toUser
      return .blocked

/-- `do_thread_create`, with the check of its arguments done. -/
def doThreadCreate (env : Env) (valid : Bool) : KernelRoutine Out := do
  let k ← get
  match k.allocTid (k.cur env.cpu).pid with
  | none => return .returned invalidPid
  | some tid =>
    if uprocMax + ncpu ≤ k.pcbTable.length ∨ valid = false ∨ env.heap = false then
      return .returned invalidPid
    else
      set (k.addPcb (k.cur env.cpu).pid tid allCpus)
      return .returned tid

/-- `do_fork` on the side of the scheduler. -/
def doFork (env : Env) : KernelRoutine Out := do
  let k ← get
  if 1 < (k.pcbSearchAll (k.cur env.cpu).pid).length then return .returned invalidPid
  else if uprocMax + ncpu ≤ k.pcbTable.length then return .returned invalidPid
  else
    match k.allocPid with
    | none => return .returned invalidPid
    | some pid =>
      if env.heap then
        set (k.addPcb pid 0 (k.cur env.cpu).cpuMask)
        return .returned pid
      else return .returned invalidPid

/-- `ARGC_MAX` of `do_exec`. -/
def argcMax : Int := 8

/-- `do_exec`; the caller ends when its arguments lie at illegal addresses. -/
def doExec (env : Env) (argc : Int) (argvLegal : Bool) : KernelRoutine Out := do
  let k ← get
  if argcMax < argc then return .returned invalidPid
  else
    match ← createProc env (k.cur env.cpu).cpuMask with
    | none => return .returned invalidPid
    | some pid => if argvLegal then return .returned pid else doExit env

/-- `do_taskset` of an existing process. -/
def doTaskset (pid : Int) (cpuMask : Nat) : KernelRoutine Out := do
  let k ← get
  if pid < (ncpu : Int) ∨ k.pcbSearchAll pid.toNat = [] then return .returned invalidPid
  else
    set (k.setMask pid.toNat cpuMask)
    return .returned pid

end GlucOS.Sched
