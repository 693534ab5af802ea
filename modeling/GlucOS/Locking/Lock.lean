import GlucOS.Sched.Kernel

/-! Mutex locks, semaphores and barriers. -/

namespace GlucOS.Sched

open Routine

namespace Kernel

/-- A change of one mutex lock. -/
def setMlock (k : Kernel) (i : Nat) (lock : MutexLock) : Kernel :=
  { k with mlocks := Function.update k.mlocks i lock }

/-- A change of one semaphore. -/
def setSemaphore (k : Kernel) (i : Nat) (sema : Semaphore) : Kernel :=
  { k with semaphores := Function.update k.semaphores i sema }

/-- A change of one barrier. -/
def setBarrier (k : Kernel) (i : Nat) (barrier : Barrier) : Kernel :=
  { k with barriers := Function.update k.barriers i barrier }

/-- A queue whose head pointer is set to null. -/
def clearQueue (k : Kernel) (q : QueueRef) : Kernel :=
  { k with queue := Function.update k.queue q [] }

end Kernel

/-! ## Mutex locks -/

/-- `do_mutex_lock_init`. -/
def doMutexLockInit (key : Int) : KernelRoutine Out :=
  return .returned ((key % 2 ^ 32).toNat % lockNum : Nat)

/-- The rest of `do_mutex_lock_acquire` once the spin lock is held. -/
def mutexAcquireLoop (env : Env) (i : Nat) : KernelRoutine Out := do
  let k ← get
  let pid := (k.cur env.cpu).pid
  if (k.mlocks i).locked = true ∧ (k.mlocks i).opid ≠ some pid then
    doBlock env (.mutex i) (some (.mutex i)) (.mutexAcquire i)
    return .blocked
  else
    set (k.setMlock i { locked := true, opid := some pid })
    spinLockRelease (.mutex i)
    noteDone (.acquired i (k.current env.cpu) pid)
    return .returned i

/-- `do_mutex_lock_acquire`. -/
def doMutexLockAcquire (env : Env) (mlockIdx : Int) : KernelRoutine Out := do
  if (lockNum : Int) ≤ mlockIdx ∨ mlockIdx < 0 then return .returned (-1)
  else
    spinLockAcquire (.mutex mlockIdx.toNat)
    mutexAcquireLoop env mlockIdx.toNat

/-- `do_mutex_lock_release`. -/
def doMutexLockRelease (env : Env) (mlockIdx : Int) : KernelRoutine Out := do
  if (lockNum : Int) ≤ mlockIdx ∨ mlockIdx < 0 then return .returned (-1)
  else
    let i := mlockIdx.toNat
    spinLockAcquire (.mutex i)
    let k ← get
    let pid := (k.cur env.cpu).pid
    if (k.mlocks i).locked = true ∧ (k.mlocks i).opid ≠ some pid then
      spinLockRelease (.mutex i)
      return .returned (-2)
    else if (k.mlocks i).locked = false then
      spinLockRelease (.mutex i)
      return .returned (-3)
    else
      -- The owner stays recorded, but the status tells that it holds the lock no more.
      set (k.setMlock i { k.mlocks i with locked := false })
      if k.queue (.mutex i) = [] then pure () else doUnblock env (.mutex i)
      spinLockRelease (.mutex i)
      noteDone (.released i (k.current env.cpu) pid)
      return .returned i

/-- The part of `ress_release_killed` about one mutex lock. -/
def mutexReleaseKilled (env : Env) (kpid i : Nat) : KernelRoutine Unit := do
  spinLockAcquire (.mutex i)
  let k ← get
  if (k.mlocks i).locked = true ∧ (k.mlocks i).opid = some kpid then
    match k.queue (.mutex i) with
    | [] => set (k.setMlock i { k.mlocks i with locked := false })
    | temp :: _ =>
      -- The lock stays locked and goes to the process that waited longest.
      doUnblock env (.mutex i)
      modify fun k => k.setMlock i { k.mlocks i with opid := some (k.pcb temp).pid }
    spinLockRelease (.mutex i)
  else spinLockRelease (.mutex i)

/-! ## Semaphores -/

/-- `do_semaphore_init`; the initial value is a 32-bit `int`. -/
def doSemaphoreInit (env : Env) (key initial : Int) : KernelRoutine Out := do
  let value := wrapInt32 initial
  let sidx := (key % 2 ^ 32).toNat % semaphoreNum
  spinLockAcquire (.semaphore sidx)
  let k ← get
  if (k.semaphores sidx).opid ≠ none then
    spinLockRelease (.semaphore sidx)
    return .returned int32Min
  else
    set ((k.clearQueue (.semaphore sidx)).setSemaphore sidx
      { opid := some (k.cur env.cpu).pid, value })
    spinLockRelease (.semaphore sidx)
    noteDone (.semInit sidx value)
    return .returned sidx

/-- `do_semaphore_up`. -/
def doSemaphoreUp (env : Env) (sidx : Int) : KernelRoutine Out := do
  if (semaphoreNum : Int) ≤ sidx ∨ sidx < 0 then return .returned int32Min
  else
    let i := sidx.toNat
    spinLockAcquire (.semaphore i)
    let k ← get
    let sema := k.semaphores i
    if sema.opid = none then
      spinLockRelease (.semaphore i)
      return .returned int32Min
    else
      set (k.setSemaphore i { sema with value := wrapInt32 (sema.value + 1) })
      noteDone (.semUp i)
      if sema.value < 0 then
        if k.queue (.semaphore i) = [] then
          -- A process in the queue was killed, or the initial value was negative.
          modify fun k => k.setSemaphore i { sema with value := 0 }
        else
          doUnblock env (.semaphore i)
          noteDone (.semGranted i)
      let k ← get
      let value := (k.semaphores i).value
      stopIf (0 ≤ value ∧ k.queue (.semaphore i) ≠ []) (.panic .semaphoreQueue)
      spinLockRelease (.semaphore i)
      return .returned value

/-- The end of `do_semaphore_down`. -/
def semaphoreDownEnd (i : Nat) : KernelRoutine Out := do
  let k ← get
  spinLockRelease (.semaphore i)
  return .returned (k.semaphores i).value

/-- `do_semaphore_down`. -/
def doSemaphoreDown (env : Env) (sidx : Int) : KernelRoutine Out := do
  if (semaphoreNum : Int) ≤ sidx ∨ sidx < 0 then return .returned int32Min
  else
    let i := sidx.toNat
    spinLockAcquire (.semaphore i)
    let k ← get
    let sema := k.semaphores i
    if sema.opid = none then
      spinLockRelease (.semaphore i)
      return .returned int32Min
    else
      let value := wrapInt32 (sema.value - 1)
      set (k.setSemaphore i { sema with value })
      if value < 0 then
        doBlock env (.semaphore i) (some (.semaphore i)) (.semaphoreDown i)
        return .blocked
      else
        noteDone (.semGranted i)
        semaphoreDownEnd i

/-- `do_semaphore_destroy`. -/
def doSemaphoreDestroy (env : Env) (sidx : Int) : KernelRoutine Out := do
  if (semaphoreNum : Int) ≤ sidx ∨ sidx < 0 then return .returned int32Min
  else
    let i := sidx.toNat
    spinLockAcquire (.semaphore i)
    let k ← get
    let sema := k.semaphores i
    if sema.opid ≠ none ∧ sema.opid ≠ some (k.cur env.cpu).pid then
      spinLockRelease (.semaphore i)
      return .returned int32Min
    else
      set (k.setSemaphore i { sema with opid := none })
      unblockAll env (.semaphore i)
      spinLockRelease (.semaphore i)
      return .returned sidx

/-- The part of `ress_release_killed` about one semaphore. -/
def semaphoreReleaseKilled (env : Env) (kpid i : Nat) : KernelRoutine Unit := do
  spinLockAcquire (.semaphore i)
  let k ← get
  if (k.semaphores i).opid = some kpid then
    set (k.setSemaphore i { k.semaphores i with opid := none })
    unblockAll env (.semaphore i)
    spinLockRelease (.semaphore i)
  else spinLockRelease (.semaphore i)

/-! ## Barriers -/

/-- `do_barrier_init`. -/
def doBarrierInit (env : Env) (key goal : Int) : KernelRoutine Out := do
  let bidx := (key % 2 ^ 32).toNat % barrierNum
  spinLockAcquire (.barrier bidx)
  let k ← get
  if (k.barriers bidx).opid ≠ none then
    spinLockRelease (.barrier bidx)
    return .returned int32Min
  else
    set ((k.clearQueue (.barrier bidx)).setBarrier bidx
      { opid := some (k.cur env.cpu).pid, goal, come := 0 })
    spinLockRelease (.barrier bidx)
    return .returned bidx

/-- `do_barrier_wait`; `come` stays below `goal`, so that counting never wraps. -/
def doBarrierWait (env : Env) (bidx : Int) : KernelRoutine Out := do
  if (barrierNum : Int) ≤ bidx ∨ bidx < 0 then return .returned int32Min
  else
    let i := bidx.toNat
    spinLockAcquire (.barrier i)
    let k ← get
    let barrier := k.barriers i
    if barrier.opid = none then
      spinLockRelease (.barrier i)
      return .returned int32Min
    else if barrier.goal ≤ barrier.come + 1 then
      set (k.setBarrier i { barrier with come := 0 })
      unblockAll env (.barrier i)
      spinLockRelease (.barrier i)
      noteDone (.passed i (k.queue (.barrier i) ++ [k.current env.cpu]) barrier.goal)
      return .returned barrier.goal
    else
      set (k.setBarrier i { barrier with come := barrier.come + 1 })
      doBlock env (.barrier i) (some (.barrier i)) (.barrierWait i barrier.goal)
      return .blocked

/-- `do_barrier_destroy`. -/
def doBarrierDestroy (env : Env) (bidx : Int) : KernelRoutine Out := do
  if (barrierNum : Int) ≤ bidx ∨ bidx < 0 then return .returned int32Min
  else
    let i := bidx.toNat
    spinLockAcquire (.barrier i)
    let k ← get
    let barrier := k.barriers i
    if barrier.opid ≠ none ∧ barrier.opid ≠ some (k.cur env.cpu).pid then
      spinLockRelease (.barrier i)
      return .returned int32Min
    else
      set (k.setBarrier i { barrier with opid := none })
      unblockAll env (.barrier i)
      spinLockRelease (.barrier i)
      return .returned bidx

/-- The part of `ress_release_killed` about one barrier. -/
def barrierReleaseKilled (env : Env) (kpid i : Nat) : KernelRoutine Unit := do
  spinLockAcquire (.barrier i)
  let k ← get
  if (k.barriers i).opid = some kpid then
    set (k.setBarrier i { k.barriers i with opid := none })
    unblockAll env (.barrier i)
    spinLockRelease (.barrier i)
  else spinLockRelease (.barrier i)

end GlucOS.Sched
