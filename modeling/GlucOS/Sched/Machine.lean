import GlucOS.Locking.MboxTransfer

/-! The two processors taking turns under the kernel lock. -/

namespace GlucOS.Sched

open Routine

/-- The system calls that schedule or synchronize. -/
inductive Call
  /-- `sys_yield`. -/
  | yield
  /-- `sys_sleep`. -/
  | sleep (sleepTime : Nat)
  /-- `sys_exit`. -/
  | exit
  /-- `sys_kill`. -/
  | kill (pid : Int)
  /-- `sys_waitpid`. -/
  | waitpid (pid : Int)
  /-- `sys_thread_create`. -/
  | threadCreate (valid : Bool)
  /-- `sys_thread_wait`. -/
  | threadWait (tid : Nat)
  /-- `sys_thread_exit`. -/
  | threadExit
  /-- `sys_exec`. -/
  | exec (argc : Int) (argvLegal : Bool)
  /-- `sys_fork`. -/
  | fork
  /-- `sys_taskset` of an existing process. -/
  | taskset (pid : Int) (cpuMask : Nat)
  /-- `sys_mlock_init`. -/
  | mutexInit (key : Int)
  /-- `sys_mlock_acquire`. -/
  | mutexAcquire (mlockIdx : Int)
  /-- `sys_mlock_release`. -/
  | mutexRelease (mlockIdx : Int)
  /-- `sys_sema_init`. -/
  | semaphoreInit (key value : Int)
  /-- `sys_sema_up`. -/
  | semaphoreUp (sidx : Int)
  /-- `sys_sema_down`. -/
  | semaphoreDown (sidx : Int)
  /-- `sys_sema_destroy`. -/
  | semaphoreDestroy (sidx : Int)
  /-- `sys_barr_init`. -/
  | barrierInit (key goal : Int)
  /-- `sys_barr_wait`. -/
  | barrierWait (bidx : Int)
  /-- `sys_barr_destroy`. -/
  | barrierDestroy (bidx : Int)
  /-- `sys_mbox_open`. -/
  | mboxOpen (name : Nat)
  /-- `sys_mbox_close`. -/
  | mboxClose (midx : Int)
  /-- `sys_mbox_send`. -/
  | mboxSend (midx : Int) (msg msgLength : Nat)
  /-- `sys_mbox_recv`. -/
  | mboxRecv (midx : Int) (msg msgLength : Nat)
  /-- `sys_net_send`. -/
  | netSend
  /-- `sys_net_recv`. -/
  | netRecv (pktNum : Nat)

/-- `do_net_send` as far as the scheduler sees it. -/
def doNetSend (env : Env) : KernelRoutine Out := do
  if env.nic = 0 then
    doBlock env .nicSend none .netSend
    return .blocked
  else return .returned 0

/-- `do_net_recv` with so many packets missing. -/
def doNetRecv (env : Env) (left : Nat) : KernelRoutine Out := do
  if env.nic < left then
    modify fun k => k.setPcb (k.current env.cpu) fun pcb => { pcb with reqLen := left - env.nic }
    doBlock env .nicRecv none (.netRecv (left - env.nic))
    return .blocked
  else return .returned 0

/-- `do_scheduler` as a system call. -/
def doYield (env : Env) : KernelRoutine Out := do
  discard (doScheduler env)
  return .scheduled

/-- `handle_syscall`. -/
def handleSyscall (env : Env) : Call → KernelRoutine Out
  | .yield => doYield env
  | .sleep sleepTime => do doSleep env sleepTime; return .blocked
  | .exit => doExit env
  | .kill pid => doKill env pid
  | .waitpid pid => doWaitpid env pid
  | .threadCreate valid => doThreadCreate env valid
  | .threadWait tid => doThreadWait env tid
  | .threadExit => doThreadExit env
  | .exec argc argvLegal => doExec env argc argvLegal
  | .fork => doFork env
  | .taskset pid cpuMask => doTaskset pid cpuMask
  | .mutexInit key => doMutexLockInit key
  | .mutexAcquire mlockIdx => doMutexLockAcquire env mlockIdx
  | .mutexRelease mlockIdx => doMutexLockRelease env mlockIdx
  | .semaphoreInit key value => doSemaphoreInit env key value
  | .semaphoreUp sidx => doSemaphoreUp env sidx
  | .semaphoreDown sidx => doSemaphoreDown env sidx
  | .semaphoreDestroy sidx => doSemaphoreDestroy env sidx
  | .barrierInit key goal => doBarrierInit env key goal
  | .barrierWait bidx => doBarrierWait env bidx
  | .barrierDestroy bidx => doBarrierDestroy env bidx
  | .mboxOpen name => doMboxOpen env name
  | .mboxClose midx => doMboxClose env midx
  | .mboxSend midx msg msgLength => doMboxSend env midx msg msgLength
  | .mboxRecv midx msg msgLength => doMboxRecv env midx msg msgLength
  | .netSend => doNetSend env
  | .netRecv pktNum => doNetRecv env pktNum

/-- What a process does when it is switched to in the middle of a call. -/
def resumeCall (env : Env) : Resume → KernelRoutine Out
  | .toUser => stop .notEnabled
  | .mutexAcquire i => do
    spinLockAcquire (.mutex i)
    mutexAcquireLoop env i
  | .semaphoreDown i => do
    spinLockAcquire (.semaphore i)
    semaphoreDownEnd i
  | .barrierWait i goal => do
    spinLockAcquire (.barrier i)
    spinLockRelease (.barrier i)
    return .returned goal
  | .mboxSend i msg msgLength blockYmr => mboxAgain i (mboxSendLoop env i msg msgLength blockYmr)
  | .mboxRecv i msg msgLength blockYmr => mboxAgain i (mboxRecvLoop env i msg msgLength blockYmr)
  | .netSend => doNetSend env
  | .netRecv left => doNetRecv env left

/-- Why a processor enters the kernel, or goes on in it. -/
inductive Entry
  /-- The timer interrupt. -/
  | timer
  /-- The interrupt of the network card: queue of frames to send empty, enough frames received. -/
  | nic (txqe rxdmt0 : Bool)
  /-- A system call of a user process. -/
  | syscall (call : Call)
  /-- A segment fault, another exception or an unknown system call of a user process. -/
  | fault
  /-- The process just switched to goes on in the middle of a call. -/
  | resume

/-- One event of the machine. -/
structure Event where
  /-- What the kernel finds outside its state. -/
  env : Env
  /-- Why the processor runs the kernel. -/
  entry : Entry

/-- `handle_irq_ext`. -/
def handleIrqExt (env : Env) (txqe rxdmt0 : Bool) : KernelRoutine Out := do
  if txqe then unblockAll env .nicSend else pure ()
  if rxdmt0 then unblockAll env .nicRecv else pure ()
  return .scheduled

/-- The handlers that `interrupt_helper` calls. -/
def handleEntry (env : Env) : Entry → KernelRoutine Out
  | .timer => doYield env
  | .nic txqe rxdmt0 => handleIrqExt env txqe rxdmt0
  | .syscall call => handleSyscall env call
  | .fault => doExit env
  | .resume => do
    let k ← get
    match ← resumeCall env (k.cur env.cpu).resume with
    | .returned value =>
      modify fun k => k.setResume (k.current env.cpu) .toUser
      return .returned value
    | out => return out

/-- Whether a process goes on in the middle of a call, holding the kernel lock. -/
def Kernel.inCall (k : Kernel) (cpu : Nat) : Prop := (k.cur cpu).resume ≠ .toUser

instance (k : Kernel) (cpu : Nat) : Decidable (k.inCall cpu) :=
  inferInstanceAs (Decidable (_ ≠ _))

/-- Whether an entry needs a user process. -/
def Entry.byUser : Entry → Bool
  | .syscall _ | .fault => true
  | .timer | .nic .. | .resume => false

/--
What may happen next.

A process in the middle of a call goes on before any processor enters the kernel.
-/
def Enabled (k : Kernel) (event : Event) : Prop :=
  event.env.cpu < ncpu ∧
    match event.entry with
    | .resume => k.inCall event.env.cpu
    | entry => (∀ cpu < ncpu, ¬ k.inCall cpu) ∧
        (entry.byUser = true → ncpu ≤ (k.cur event.env.cpu).pid)

instance (k : Kernel) (event : Event) : Decidable (Enabled k event) := by
  unfold Enabled
  cases event.entry <;> infer_instance

/-- `interrupt_helper`: a process that was killed while it ran ends as soon as it enters. -/
def interruptHelper (env : Env) (entry : Entry) : KernelRoutine Out := do
  let k ← get
  if (k.cur env.cpu).status = .exiting then doExit env else handleEntry env entry

/-- One event under the kernel lock. -/
def step (event : Event) : KernelRoutine Out := do
  let k ← get
  if Enabled k event then
    match event.entry with
    | .resume => handleEntry event.env .resume
    | entry => interruptHelper event.env entry
  else stop .notEnabled

/-- The idle process of a processor. -/
def idlePcb (cpu : Nat) : Pcb :=
  { pid := cpu, tid := 0, status := .running, wakeupTime := 0, phead := .ready, reqLen := 0,
    cpuMask := 2 ^ cpu, resume := .toUser }

/--
The state after `init_pcb` and `init_locks`.

The PCBs of the idle processes are at the addresses below `ncpu`.
-/
def initPcb (timeMaxSec : Nat) : Kernel where
  pcb := idlePcb
  pcbTable := List.range ncpu
  queue := fun q => if q = .ready then List.range ncpu else []
  current := id
  pidGlush := none
  newPcb := ncpu
  slock := fun _ => false
  mlocks := fun _ => ⟨false, none⟩
  semaphores := fun _ => ⟨none, 0⟩
  barriers := fun _ => ⟨none, 0, 0⟩
  mailboxes := fun _ => ⟨none, fun _ => 0, 0, 0⟩
  timeMaxSec
  history := []

/-- The state once `main` has started `glush`, from which the processors take turns. -/
def initial (timeMaxSec : Nat) : Kernel :=
  { (initPcb timeMaxSec).addPcb ncpu 0 allCpus with pidGlush := some ncpu }

end GlucOS.Sched
