import GlucOS.Sched.Machine

/-! The dispatcher of system calls, with its table and the saved registers it works on. -/

namespace GlucOS.Dispatch

open Routine Sched

/-- `NUM_SYSCALLS`. -/
def numSyscalls : Nat := 96

/-- What a pointer of `syscall` leads to. -/
inductive Handler
  | invalidSyscall
  | doExec | doKill | doExit | doWaitpid | doGetpid | doSleep | doScheduler | doProcessShow
  | doTaskset | doFork | doThreadCreate | doThreadWait | doThreadExit
  | doScreenWrite | biosGetchar | screenMoveCursor | screenReflush | screenClear | screenRclear
  | screenSetCylim | doUlog | kprintAvailTable | getTimeBase | getTicks
  | doMutexLockInit | doMutexLockAcquire | doMutexLockRelease | doSemaphoreInit | doSemaphoreUp
  | doSemaphoreDown | doSemaphoreDestroy | doBarrierInit | doBarrierWait | doBarrierDestroy
  | doMboxOpen | doMboxClose | doMboxSend | doMboxRecv
  | doSbrk | shmPageGet | doShmPageDt
  | doNetSend | doNetRecv | doNetSendArray | doNetRecvStream
  | doMkfs | doFsinfo | doOpen | doClose | doChangedir | doRead | doWrite | doLseek | doGetpath
  | doReaddir | doMkdir | doRemove | doHlink
deriving DecidableEq, Repr

/-- The build options that leave out some of the calls. -/
structure Options where
  /-- `MULTITHREADING`. -/
  multithreading : Bool
  /-- `NIC`. -/
  nic : Bool

/-- Entries of the table with their numbers. -/
abbrev Entries := List (Nat × Handler)

/-- The assignments of `init_syscall`, with the numbers of `SYS_exec` and its like. -/
def assigned (options : Options) : Entries :=
  ([(0, .doExec), (3, .doKill), (1, .doExit), (4, .doWaitpid), (6, .doGetpid), (2, .doSleep),
    (7, .doScheduler), (5, .doProcessShow), (8, .doTaskset), (9, .doFork)] : Entries) ++
  (if options.multithreading then
    [(10, .doThreadCreate), (11, .doThreadWait), (12, .doThreadExit)] else [] : Entries) ++
  ([(20, .doScreenWrite), (21, .biosGetchar), (22, .screenMoveCursor), (23, .screenReflush),
    (24, .screenClear), (25, .screenRclear), (26, .screenSetCylim), (27, .doUlog),
    (95, .kprintAvailTable), (30, .getTimeBase), (31, .getTicks)] : Entries) ++
  ([(40, .doMutexLockInit), (41, .doMutexLockAcquire), (42, .doMutexLockRelease),
    (56, .doSemaphoreInit), (57, .doSemaphoreUp), (58, .doSemaphoreDown),
    (59, .doSemaphoreDestroy), (44, .doBarrierInit), (45, .doBarrierWait),
    (46, .doBarrierDestroy)] : Entries) ++
  ([(52, .doMboxOpen), (53, .doMboxClose), (54, .doMboxSend), (55, .doMboxRecv)] : Entries) ++
  ([(60, .doSbrk), (61, .shmPageGet), (62, .doShmPageDt)] : Entries) ++
  (if options.nic then
    [(70, .doNetSend), (71, .doNetRecv), (72, .doNetSendArray), (73, .doNetRecvStream)]
    else [] : Entries) ++
  ([(80, .doMkfs), (81, .doFsinfo), (82, .doOpen), (83, .doClose), (84, .doChangedir),
    (85, .doRead), (86, .doWrite), (87, .doLseek), (88, .doGetpath), (89, .doReaddir),
    (90, .doMkdir), (91, .doRemove), (92, .doHlink)] : Entries)

/-- `init_syscall`. -/
def initSyscall (options : Options) : List Handler :=
  (assigned options).foldl (fun table entry => table.set entry.1 entry.2)
    (List.replicate numSyscalls .invalidSyscall)

/-- The kernel with the saved registers of the process that entered it. -/
structure Trap where
  /-- The kernel. -/
  kernel : Kernel
  /-- `regs` of `regs_context_t`. -/
  regs : Fin 32 → BitVec 64

/-- Why a handler does not come back. -/
inductive NoReturn
  /-- The process has ended, and another one runs. -/
  | ended (kernel : Kernel)
  /-- The kernel stopped. -/
  | stopped (reason : KernelStop)

/-- Why the dispatcher does not come back. -/
inductive DispatchStop
  /-- `syscall` was read outside the table. -/
  | outside (sysno : Int)
  /-- The panic of `invalid_syscall`, with all that it prints. -/
  | panic (sysno : Int) (pid : Nat) (args : List (BitVec 64))
  /-- What was called does not come back. -/
  | called (reason : NoReturn)

/-- What the handlers do with their arguments; each one comes back with a result or does not. -/
abbrev Handlers := Handler → List (BitVec 64) → Routine Trap NoReturn (BitVec 64)

/-- The `args` of `handle_syscall`. -/
def Trap.args (trap : Trap) : List (BitVec 64) :=
  [trap.regs 10, trap.regs 11, trap.regs 12, trap.regs 13, trap.regs 14]

/-- What the dispatcher calls runs inside it. -/
def calling {A : Type} (routine : Routine Trap NoReturn A) : Routine Trap DispatchStop A :=
  fun trap => (routine trap).mapError .called

/-- `syscall[sysno]`. -/
def syscallAt (options : Options) (sysno : Int) : Routine Trap DispatchStop Handler :=
  match sysno with
  | .ofNat n =>
    match (initSyscall options)[n]? with
    | some func => pure func
    | none => stop (.outside n)
  | .negSucc n => stop (.outside (.negSucc n))

/-- `do_exit` as the dispatcher sees it: it only comes back if the process goes on. -/
def exitCaller (env : Env) : Routine Trap NoReturn Unit := fun trap =>
  match doExit env trap.kernel with
  | .ok (.exited, kernel) => .error (.ended kernel)
  | .ok (_, kernel) => .ok ((), { trap with kernel })
  | .error reason => .error (.stopped reason)

/-- `invalid_syscall`. -/
def invalidSyscall (env : Env) (sysno : Int) (args : List (BitVec 64)) :
    Routine Trap DispatchStop Unit := do
  let trap ← get
  if ncpu ≤ (trap.kernel.cur env.cpu).pid then calling (exitCaller env)
  else stop (.panic sysno (trap.kernel.cur env.cpu).pid args)

/-- The condition under which `handle_syscall` reports the number. -/
def isInvalid (options : Options) (sysno : Int) : Routine Trap DispatchStop Bool :=
  if (numSyscalls : Int) ≤ sysno then pure true
  else do
    let func ← syscallAt options sysno
    return func = .invalidSyscall

/-- The end of `handle_syscall`, which is also reached when `invalid_syscall` comes back. -/
def callHandler (options : Options) (handlers : Handlers) (sysno : Int) :
    Routine Trap DispatchStop Unit := do
  let func ← syscallAt options sysno
  let trap ← get
  let rt ← calling (handlers func trap.args)
  modify fun trap => { trap with regs := Function.update trap.regs 10 rt }

/-- `handle_syscall`, which takes the number for a signed one. -/
def handleSyscall (options : Options) (handlers : Handlers) (env : Env) :
    Routine Trap DispatchStop Unit := do
  let trap ← get
  let sysno := (trap.regs 17).toInt
  let invalid ← isInvalid options sysno
  if invalid then
    invalidSyscall env sysno trap.args
    callHandler options handlers sysno
  else callHandler options handlers sysno

end GlucOS.Dispatch
