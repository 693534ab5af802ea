import GlucOS.Lib.CircularList
import GlucOS.Lib.Routine
import GlucOS.Mm.PageTable

/-! The state shared by the scheduler and the synchronization objects, and its elementary changes. -/

namespace GlucOS.Sched

open Routine

/-- `LOCK_NUM`: how many mutex locks there are. -/
def lockNum : Nat := 16

/-- `SEMAPHORE_NUM`: how many semaphores there are. -/
def semaphoreNum : Nat := 16

/-- `BARRIER_NUM`: how many barriers there are. -/
def barrierNum : Nat := 16

/-- `MBOX_NUM`: how many mailboxes there are. -/
def mboxNum : Nat := 16

/-- `MAX_MBOX_LENGTH`: how many bytes a mailbox holds. -/
def maxMboxLength : Nat := 71

/-- `RXDESCS`: receive descriptors of the network card. -/
def rxdescs : Nat := 64

/-- `KVA_MIN`: the first kernel address. -/
def kvaMin : Nat := 0xffffffc000000000

/-- `INVALID_PID` as a returned value. -/
def invalidPid : Int := -1

/-- `INT32_MIN`, the failure of the synchronization calls. -/
def int32Min : Int := -2 ^ 31

/-- Wrapping to the 32 bits of an `int`. -/
def wrapInt32 (value : Int) : Int := (value + 2 ^ 31) % 2 ^ 32 - 2 ^ 31

/-- A wrapped value is a 32-bit one. -/
theorem wrapInt32_lt (value : Int) : wrapInt32 value < 2 ^ 31 := by
  unfold wrapInt32
  omega

/-- Values that fit are not changed by wrapping. -/
theorem wrapInt32_of_fits {value : Int} (low : -2 ^ 31 ≤ value) (high : value < 2 ^ 31) :
    wrapInt32 value = value := by
  unfold wrapInt32
  omega

/-- The address of a PCB; addresses are not used again after the PCB is freed. -/
abbrev PcbRef := Nat

/-- `task_status_t`. -/
inductive TaskStatus
  /-- Linked in some queue but the ready queue. -/
  | sleeping
  /-- Current on some processor. -/
  | running
  /-- Waiting for a processor. -/
  | ready
  /-- Left its processor while being killed. -/
  | exited
  /-- Killed while it runs. -/
  | exiting
  /-- A child thread that left by itself. -/
  | zombie
deriving DecidableEq, Repr

/-- The queues a PCB may be linked in. -/
inductive QueueRef
  /-- `ready_queue`, with the running processes. -/
  | ready
  /-- `sleep_queue`. -/
  | sleep
  /-- `block_queue` of a mutex lock. -/
  | mutex (i : Nat)
  /-- `block_queue` of a semaphore. -/
  | semaphore (i : Nat)
  /-- `block_queue` of a barrier. -/
  | barrier (i : Nat)
  /-- `block_queue_s` of a mailbox. -/
  | mboxSend (i : Nat)
  /-- `block_queue_r` of a mailbox. -/
  | mboxRecv (i : Nat)
  /-- `send_block_queue` of the network card. -/
  | nicSend
  /-- `recv_block_queue` of the network card. -/
  | nicRecv
  /-- `wait_queue` of a PCB. -/
  | wait (h : PcbRef)
deriving DecidableEq, Repr

/-- Where a process goes on when it is switched to: what its kernel stack says. -/
inductive Resume
  /-- The system call is over but for its return to user mode. -/
  | toUser
  /-- Inside the loop of `do_mutex_lock_acquire`. -/
  | mutexAcquire (mlockIdx : Nat)
  /-- Inside `do_semaphore_down`. -/
  | semaphoreDown (sidx : Nat)
  /-- Inside `do_barrier_wait`, with its local `goal`. -/
  | barrierWait (bidx : Nat) (goal : Int)
  /-- Inside the loop of `do_mbox_send`. -/
  | mboxSend (midx msg msgLength blockYmr : Nat)
  /-- Inside the loop of `do_mbox_recv`. -/
  | mboxRecv (midx msg msgLength blockYmr : Nat)
  /-- Inside the loop of `do_net_send`. -/
  | netSend
  /-- Inside the loop of `do_net_recv`, with so many packets missing. -/
  | netRecv (left : Nat)
deriving DecidableEq, Repr

/-- What scheduling and synchronization use of `pcb_t`. -/
structure Pcb where
  /-- Process identifier. -/
  pid : Nat
  /-- Thread identifier. -/
  tid : Nat
  /-- Its state. -/
  status : TaskStatus
  /-- When to wake it up. -/
  wakeupTime : Nat
  /-- The queue it is linked in. -/
  phead : QueueRef
  /-- Length of its mailbox or network request. -/
  reqLen : Nat
  /-- The processors it may run on, one bit each. -/
  cpuMask : Nat
  /-- Where it goes on. -/
  resume : Resume

/-- `mutex_lock_t`, but for its spin lock and its queue. -/
structure MutexLock where
  /-- Whether its status is `LOCKED`. -/
  locked : Bool
  /-- The owner's PID. -/
  opid : Option Nat

/-- `semaphore_t`, but for its spin lock and its queue. -/
structure Semaphore where
  /-- Who initialised it, if it is valid. -/
  opid : Option Nat
  /-- Its value. -/
  value : Int

/-- `barrier_t`, but for its spin lock and its queue. -/
structure Barrier where
  /-- Who initialised it, if it is valid. -/
  opid : Option Nat
  /-- How many processes should come. -/
  goal : Int
  /-- How many processes have come. -/
  come : Int

/-- `mailbox_t`, but for its spin lock and its queues. -/
structure Mailbox where
  /-- Who opened it, if it is open. -/
  opid : Option Nat
  /-- The bytes of the buffer. -/
  buf : Nat → UInt8
  /-- First byte. -/
  bufHead : Nat
  /-- Behind the last byte. -/
  bufTail : Nat

/-- The spin locks of the synchronization objects. -/
inductive SpinLock
  /-- Of a mutex lock. -/
  | mutex (i : Nat)
  /-- Of a semaphore. -/
  | semaphore (i : Nat)
  /-- Of a barrier. -/
  | barrier (i : Nat)
  /-- Of a mailbox. -/
  | mailbox (i : Nat)
deriving DecidableEq, Repr

/-- What calls have done; the kernel itself keeps no such record. -/
inductive Note
  /-- `do_mutex_lock_acquire` returned the lock to a thread. -/
  | acquired (i : Nat) (h : PcbRef) (pid : Nat)
  /-- `do_mutex_lock_release` succeeded for a thread. -/
  | released (i : Nat) (h : PcbRef) (pid : Nat)
  /-- The last thread of a process is gone. -/
  | terminated (pid : Nat)
  /-- `do_semaphore_init` succeeded. -/
  | semInit (i : Nat) (value : Int)
  /-- `do_semaphore_up` succeeded. -/
  | semUp (i : Nat)
  /-- A `do_semaphore_down` was granted. -/
  | semGranted (i : Nat)
  /-- `do_barrier_wait` let its caller pass with all who waited. -/
  | passed (i : Nat) (group : List PcbRef) (goal : Int)
  /-- `do_mbox_open` opened a closed mailbox. -/
  | opened (i : Nat)
  /-- `do_mbox_send` succeeded. -/
  | sent (i : Nat) (bytes : List UInt8)
  /-- `do_mbox_recv` succeeded. -/
  | received (i : Nat) (bytes : List UInt8)
deriving DecidableEq

/-- The state of the scheduler and of the synchronization objects. -/
structure Kernel where
  /-- The PCB at an address. -/
  pcb : PcbRef → Pcb
  /-- The entries of `pcb_table` that are not null, in order. -/
  pcbTable : List PcbRef
  /-- Every queue from its head. -/
  queue : QueueRef → List PcbRef
  /-- `current_running`. -/
  current : Nat → PcbRef
  /-- `pid_glush`, with nothing for `INVALID_PID`. -/
  pidGlush : Option Nat
  /-- The address of the next PCB. -/
  newPcb : PcbRef
  /-- Whether a spin lock is held. -/
  slock : SpinLock → Bool
  /-- The mutex locks. -/
  mlocks : Nat → MutexLock
  /-- The semaphores. -/
  semaphores : Nat → Semaphore
  /-- The barriers. -/
  barriers : Nat → Barrier
  /-- The mailboxes. -/
  mailboxes : Nat → Mailbox
  /-- The latest time anybody may sleep to. -/
  timeMaxSec : Nat
  /-- What calls have done, the last one first. -/
  history : List Note

/-- What the kernel finds outside this state when it is entered. -/
structure Env where
  /-- The processor. -/
  cpu : Nat
  /-- The time in seconds. -/
  now : Nat
  /-- Whether there is memory for a new process, and its image can be loaded. -/
  heap : Bool
  /-- How many frames the network card takes or gives. -/
  nic : Nat
  /-- The bytes of the memory of the current process, but for the illegal addresses. -/
  readByte : Nat → Option UInt8
  /-- Where the current process may be written to. -/
  canWrite : Nat → Bool

/-- The consistency checks that call `panic_g`. -/
inductive Panic
  /-- `do_scheduler`: cannot find a ready process. -/
  | noReadyProcess
  /-- `do_block`: cannot find a READY process. -/
  | noReadyForBlock
  /-- `thread_kill`: the thread is running. -/
  | threadRunning
  /-- `thread_kill`: `phead` of the thread is wrong. -/
  | pheadError
  /-- A PCB cannot be removed from its queue. -/
  | notInQueue
  /-- A PCB cannot be removed from `pcb_table`. -/
  | notInTable
  /-- A queued process is not sleeping. -/
  | notSleeping
  /-- The current process is not in the ready queue. -/
  | notInReady
  /-- `do_scheduler`: failed to kill an exited process. -/
  | failedToKill
  /-- A killed process or an exited thread still runs. -/
  | stillRunning
  /-- There is no PID for a new process, or no entry in `pcb_table`. -/
  | noPid
  /-- A free spin lock is released. -/
  | spinNotHeld
  /-- A semaphore has a nonnegative value and waiters. -/
  | semaphoreQueue
  /-- The buffer of a mailbox is full. -/
  | mboxFull
  /-- The buffer of a mailbox is empty. -/
  | mboxEmpty
deriving DecidableEq, Repr

/-- Why the kernel does not go on. -/
inductive KernelStop
  /-- The event does not happen in this state. -/
  | notEnabled
  /-- A consistency check failed. -/
  | panic (check : Panic)
  /-- A spin lock is never released. -/
  | spins (lock : SpinLock)
  /-- A link of a freed PCB was followed, or the scheduler went around for ever. -/
  | dangling
deriving DecidableEq, Repr

/-- How a call or an interrupt ends for the process that was current. -/
inductive Out
  /-- The call returns. -/
  | returned (value : Int)
  /-- The process is blocked, and the call goes on later. -/
  | blocked
  /-- The thread does not run any more. -/
  | exited
  /-- The scheduler has run. -/
  | scheduled
deriving DecidableEq, Repr

/-- A kernel routine. -/
abbrev KernelRoutine := Routine Kernel KernelStop

namespace Kernel

/-- The current process of a processor. -/
def cur (k : Kernel) (cpu : Nat) : Pcb := k.pcb (k.current cpu)

/-- `pcb_search`. -/
def pcbSearch (k : Kernel) (pid : Nat) : Option PcbRef :=
  k.pcbTable.find? fun h => (k.pcb h).pid = pid

/-- `pcb_search_all`. -/
def pcbSearchAll (k : Kernel) (pid : Nat) : List PcbRef :=
  k.pcbTable.filter fun h => (k.pcb h).pid = pid

/-- `pcb_search_tcb`. -/
def pcbSearchTcb (k : Kernel) (pid tid : Nat) : Option PcbRef :=
  k.pcbTable.find? fun h => (k.pcb h).pid = pid ∧ (k.pcb h).tid = tid

/-- `alloc_pid`: the first unused identifier. -/
def allocPid (k : Kernel) : Option Nat :=
  (List.range' ncpu (2 * uprocMax + 1 - ncpu)).find? fun pid => (k.pcbSearch pid).isNone

/-- `alloc_tid`: the first unused identifier of a child thread. -/
def allocTid (k : Kernel) (pid : Nat) : Option Nat :=
  (List.range' 1 tidMax).find? fun tid => (k.pcbSearchTcb pid tid).isNone

/-- Whether a processor may switch to a process. -/
def runnable (k : Kernel) (cpu : Nat) (h : PcbRef) : Bool :=
  (k.pcb h).status = .ready && (k.pcb h).cpuMask.testBit cpu

/-- A change of one PCB. -/
def setPcb (k : Kernel) (h : PcbRef) (change : Pcb → Pcb) : Kernel :=
  { k with pcb := Function.update k.pcb h (change (k.pcb h)) }

/-- A new status of a process. -/
def setStatus (k : Kernel) (h : PcbRef) (status : TaskStatus) : Kernel :=
  k.setPcb h fun pcb => { pcb with status }

/-- A new place where a process goes on. -/
def setResume (k : Kernel) (h : PcbRef) (resume : Resume) : Kernel :=
  k.setPcb h fun pcb => { pcb with resume }

/-- A sleeping process becomes ready, right after the current one. -/
def wake (k : Kernel) (cpu : Nat) (q : QueueRef) (h : PcbRef) : Kernel :=
  { k.setPcb h fun pcb => { pcb with status := .ready, phead := .ready } with
    queue := Function.update (Function.update k.queue q ((k.queue q).erase h)) .ready
      (insertAfter (k.queue .ready) (k.current cpu) h) }

/-- A PCB leaves its queue and `pcb_table`, and is freed. -/
def drop (k : Kernel) (h : PcbRef) : Kernel :=
  { k with
    queue := Function.update k.queue (k.pcb h).phead ((k.queue (k.pcb h).phead).erase h)
    pcbTable := k.pcbTable.erase h }

/-- The switch of `do_scheduler`. -/
def switchTo (k : Kernel) (cpu : Nat) (p : PcbRef) : Kernel :=
  let left := if (k.cur cpu).status = .running then k.setStatus (k.current cpu) .ready else k
  { left.setStatus p .running with current := Function.update k.current cpu p }

/-- The switch of `do_block`: the current process goes to the tail of a queue. -/
def blockOn (k : Kernel) (cpu : Nat) (q : QueueRef) (resume : Resume) (p : PcbRef) : Kernel :=
  let ccpu := k.current cpu
  { (k.setStatus p .running).setPcb ccpu fun pcb =>
      { pcb with status := .sleeping, phead := q, resume } with
    current := Function.update k.current cpu p
    queue := Function.update (Function.update k.queue .ready ((k.queue .ready).erase ccpu)) q
      (k.queue q ++ [ccpu]) }

/-- A new PCB at the tails of the ready queue and of `pcb_table`. -/
def addPcb (k : Kernel) (pid tid cpuMask : Nat) : Kernel :=
  { k with
    pcb := Function.update k.pcb k.newPcb
      { pid, tid, status := .ready, wakeupTime := 0, phead := .ready, reqLen := 0, cpuMask,
        resume := .toUser }
    pcbTable := k.pcbTable ++ [k.newPcb]
    queue := Function.update (Function.update k.queue (.wait k.newPcb) []) .ready
      (k.queue .ready ++ [k.newPcb])
    newPcb := k.newPcb + 1 }

/-- One more note. -/
def note (k : Kernel) (entry : Note) : Kernel := { k with history := entry :: k.history }

end Kernel

/-- Noting what a call has done. -/
def noteDone (entry : Note) : KernelRoutine Unit := modify fun k => k.note entry

/-- `spin_lock_acquire`: under the kernel lock nobody releases a lock that is waited for. -/
def spinLockAcquire (lock : SpinLock) : KernelRoutine Unit := do
  let k ← get
  if k.slock lock then stop (.spins lock)
  else set { k with slock := Function.update k.slock lock true }

/-- `spin_lock_release`. -/
def spinLockRelease (lock : SpinLock) : KernelRoutine Unit := do
  let k ← get
  if k.slock lock then set { k with slock := Function.update k.slock lock false }
  else stop (.panic .spinNotHeld)

/-- `do_block`, with the spin lock to release and the place where the process goes on later. -/
def doBlock (env : Env) (q : QueueRef) (slock : Option SpinLock) (resume : Resume) :
    KernelRoutine Unit := do
  let k ← get
  match (ringAfter (k.queue .ready) (k.current env.cpu)).find? (k.runnable env.cpu) with
  | none => stop (.panic .noReadyForBlock)
  | some p =>
    if k.current env.cpu ∉ k.queue .ready then stop (.panic .notInQueue)
    else
      set (k.blockOn env.cpu q resume p)
      match slock with
      | none => return ()
      | some lock => spinLockRelease lock

/-- `do_unblock`: the head of a queue becomes ready. -/
def doUnblock (env : Env) (q : QueueRef) : KernelRoutine Unit := do
  let k ← get
  match k.queue q with
  | [] => stop (.panic .notInQueue)
  | h :: _ =>
    if (k.pcb h).status ≠ .sleeping then stop (.panic .notSleeping)
    else if k.current env.cpu ∉ k.queue .ready then stop (.panic .notInReady)
    else set (k.wake env.cpu q h)

/-- Waking the head of a queue as long as a condition on it holds, at most so often. -/
def unblockUpTo (env : Env) (q : QueueRef) (cond : Kernel → PcbRef → Bool) :
    Nat → KernelRoutine Unit
  | 0 => pure ()
  | n + 1 => do
    let k ← get
    match k.queue q with
    | [] => return ()
    | h :: _ =>
      if cond k h then
        doUnblock env q
        unblockUpTo env q cond n
      else return ()

/-- The loop that wakes the head of a queue as long as a condition on it holds. -/
def unblockWhile (env : Env) (q : QueueRef) (cond : Kernel → PcbRef → Bool) :
    KernelRoutine Unit := do
  let k ← get
  unblockUpTo env q cond (k.queue q).length

/-- The loop that wakes a whole queue. -/
def unblockAll (env : Env) (q : QueueRef) : KernelRoutine Unit := unblockWhile env q fun _ _ => true

/-- `wake_up`: a process leaves the sleep queue. -/
def wakeUp (env : Env) (t : PcbRef) : KernelRoutine Unit := do
  let k ← get
  if (k.pcb t).status ≠ .sleeping then stop (.panic .notSleeping)
  else if t ∉ k.queue .sleep then stop (.panic .notInQueue)
  else if k.current env.cpu ∉ k.queue .ready then stop (.panic .notInReady)
  else set (k.wake env.cpu .sleep t)

/-- One round of the loop of `check_sleeping`. -/
def checkSleeper (env : Env) (pw : PcbRef) : KernelRoutine Unit := do
  let k ← get
  if (k.pcb pw).status ≠ .sleeping then stop (.panic .notSleeping)
  else if (k.pcb pw).wakeupTime ≤ env.now then wakeUp env pw
  else return ()

/-- The rounds of `check_sleeping`, for every process that sleeps when it starts. -/
def checkSleepers (env : Env) : List PcbRef → KernelRoutine Unit
  | [] => pure ()
  | pw :: rest => do
    checkSleeper env pw
    checkSleepers env rest

/-- `check_sleeping`. -/
def checkSleeping (env : Env) : KernelRoutine Unit := do
  let k ← get
  checkSleepers env (k.queue .sleep)

/-- `check_sleeping_on_nic`. -/
def checkSleepingOnNic (env : Env) : KernelRoutine Unit :=
  unblockWhile env .nicRecv fun k h => (k.pcb h).reqLen ≤ rxdescs / 2

/-- `do_sleep`. -/
def doSleep (env : Env) (sleepTime : Nat) : KernelRoutine Unit := do
  let k ← get
  set (k.setPcb (k.current env.cpu) fun pcb =>
    { pcb with
      status := .sleeping
      wakeupTime := min (env.now + sleepTime) k.timeMaxSec })
  doBlock env .sleep none .toUser

end GlucOS.Sched
