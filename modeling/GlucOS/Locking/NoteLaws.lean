import GlucOS.Lib.Keep
import GlucOS.Sched.Machine

/-! Only three calls note anything about semaphores. -/

namespace GlucOS.Sched

open Routine

/-- Whether a note is about a semaphore. -/
def Note.isSem : Note → Bool
  | .semInit .. | .semUp _ | .semGranted _ => true
  | _ => false

/-- What was noted about semaphores. -/
def Kernel.semNotes (k : Kernel) : List Note := k.history.filter Note.isSem

variable {env : Env} {A : Type}

/-! ## Locks, queues and time -/

/-- A new state that differs in other things, and then a routine that notes none of it. -/
theorem set_semNotes {k k' : Kernel} {rest : KernelRoutine A} (same : k'.semNotes = k.semNotes)
    (keeps : Routine.Keeps Kernel.semNotes rest) :
    Meets (fun _ => True) (do set k'; rest) k fun _ next => next.semNotes = k.semNotes :=
  keeps.after same

/-- Noting something else. -/
theorem noteDone_semNotes {entry : Note} (other : entry.isSem = false) :
    Routine.Keeps Kernel.semNotes (noteDone entry) := by
  apply keeps_modify
  intro k
  unfold Kernel.semNotes Kernel.note
  -- The filter drops what is about something else.
  rw [List.filter_cons_of_neg (by simp [other])]

/-- `spin_lock_acquire`. -/
theorem spinLockAcquire_semNotes (lock : SpinLock) :
    Routine.Keeps Kernel.semNotes (spinLockAcquire lock) := by
  unfold spinLockAcquire
  apply keeps_get_bind
  intro k
  -- A lock that is held stops the call, a free one is only marked.
  split
  · trivial
  · rfl

/-- `spin_lock_release`. -/
theorem spinLockRelease_semNotes (lock : SpinLock) :
    Routine.Keeps Kernel.semNotes (spinLockRelease lock) := by
  unfold spinLockRelease
  apply keeps_get_bind
  intro k
  split
  · rfl
  · trivial

/-- Releasing a lock before an answer. -/
theorem release_semNotes (lock : SpinLock) (value : A) :
    Routine.Keeps Kernel.semNotes (do spinLockRelease lock; return value) :=
  (spinLockRelease_semNotes lock).bind fun _ => keeps_pure value

/-- `do_block`. -/
theorem doBlock_semNotes (q : QueueRef) (slock : Option SpinLock) (resume : Resume) :
    Routine.Keeps Kernel.semNotes (doBlock env q slock resume) := by
  unfold doBlock
  apply keeps_get_bind
  intro k
  split
  · trivial
  · split
    · trivial
    -- The lock that is given up notes nothing either.
    · cases slock with
      | none => rfl
      | some lock => exact set_semNotes rfl (spinLockRelease_semNotes lock)

/-- Blocking before an answer. -/
theorem blocked_semNotes (q : QueueRef) (slock : Option SpinLock) (resume : Resume) (value : A) :
    Routine.Keeps Kernel.semNotes (do doBlock env q slock resume; return value) :=
  (doBlock_semNotes q slock resume).bind fun _ => keeps_pure value

/-- `do_unblock`. -/
theorem doUnblock_semNotes (q : QueueRef) : Routine.Keeps Kernel.semNotes (doUnblock env q) := by
  unfold doUnblock
  apply keeps_get_bind
  intro k
  split
  · trivial
  · split
    · trivial
    · split
      · trivial
      · rfl

/-- Waking heads of a queue. -/
theorem unblockUpTo_semNotes (q : QueueRef) (cond : Kernel → PcbRef → Bool) (n : Nat) :
    Routine.Keeps Kernel.semNotes (unblockUpTo env q cond n) := by
  -- The induction is on the number of heads that may still be woken.
  induction n with
  | zero => exact keeps_pure ()
  | succ n ih =>
    unfold unblockUpTo
    apply keeps_get_bind
    intro k
    split
    · rfl
    · apply Routine.Keeps.meets
      apply Routine.Keeps.ite
      · exact (doUnblock_semNotes q).bind fun _ => ih
      · exact keeps_pure ()

/-- Waking as long as a condition holds. -/
theorem unblockWhile_semNotes (q : QueueRef) (cond : Kernel → PcbRef → Bool) :
    Routine.Keeps Kernel.semNotes (unblockWhile env q cond) := by
  unfold unblockWhile
  apply keeps_get_bind
  intro k
  exact (unblockUpTo_semNotes q cond _).meets k

/-- Waking a whole queue. -/
theorem unblockAll_semNotes (q : QueueRef) : Routine.Keeps Kernel.semNotes (unblockAll env q) :=
  unblockWhile_semNotes q _

/-- `wake_up`. -/
theorem wakeUp_semNotes (t : PcbRef) : Routine.Keeps Kernel.semNotes (wakeUp env t) := by
  unfold wakeUp
  apply keeps_get_bind
  intro k
  split
  · trivial
  · split
    · trivial
    · split
      · trivial
      · rfl

/-- The rounds of `check_sleeping`. -/
theorem checkSleepers_semNotes (sleepers : List PcbRef) :
    Routine.Keeps Kernel.semNotes (checkSleepers env sleepers) := by
  induction sleepers with
  | nil => exact keeps_pure ()
  | cons pw rest ih =>
    unfold checkSleepers
    apply Routine.Keeps.bind
    · unfold checkSleeper
      apply keeps_get_bind
      intro k
      apply Routine.Keeps.meets
      exact .ite (keeps_stop _) (.ite (wakeUp_semNotes pw) (keeps_pure ()))
    · exact fun _ => ih

/-- `check_sleeping`. -/
theorem checkSleeping_semNotes : Routine.Keeps Kernel.semNotes (checkSleeping env) := by
  unfold checkSleeping
  apply keeps_get_bind
  intro k
  exact (checkSleepers_semNotes _).meets k

/-- `do_sleep`. -/
theorem doSleep_semNotes (sleepTime : Nat) : Routine.Keeps Kernel.semNotes (doSleep env sleepTime) := by
  unfold doSleep
  apply keeps_get_bind
  intro k
  exact set_semNotes rfl (doBlock_semNotes _ _ _)

/-! ## Locks, semaphores and barriers -/

/-- The rest of `do_mutex_lock_acquire`. -/
theorem mutexAcquireLoop_semNotes (i : Nat) :
    Routine.Keeps Kernel.semNotes (mutexAcquireLoop env i) := by
  unfold mutexAcquireLoop
  apply keeps_get_bind
  intro k
  apply meets_ite
  · intro _
    exact (blocked_semNotes _ _ _ _).meets k
  · intro _
    apply set_semNotes rfl
    apply (spinLockRelease_semNotes _).bind
    intro _
    exact (noteDone_semNotes rfl).bind fun _ => keeps_pure _

/-- `do_mutex_lock_acquire`. -/
theorem doMutexLockAcquire_semNotes (mlockIdx : Int) :
    Routine.Keeps Kernel.semNotes (doMutexLockAcquire env mlockIdx) := by
  unfold doMutexLockAcquire
  apply Routine.Keeps.ite
  · exact keeps_pure _
  · exact (spinLockAcquire_semNotes _).bind fun _ => mutexAcquireLoop_semNotes _

/-- `do_mutex_lock_release`. -/
theorem doMutexLockRelease_semNotes (mlockIdx : Int) :
    Routine.Keeps Kernel.semNotes (doMutexLockRelease env mlockIdx) := by
  unfold doMutexLockRelease
  apply Routine.Keeps.ite
  · exact keeps_pure _
  · apply (spinLockAcquire_semNotes _).bind
    intro _
    apply keeps_get_bind
    intro k
    apply meets_ite
    · intro _
      exact (release_semNotes _ _).meets k
    · intro _
      apply meets_ite
      · intro _
        exact (release_semNotes _ _).meets k
      · intro _
        apply set_semNotes rfl
        have ends : ∀ entry : Note, entry.isSem = false → ∀ i : Nat,
            Routine.Keeps Kernel.semNotes (do
              spinLockRelease (.mutex i)
              noteDone entry
              return .returned i : KernelRoutine Out) := by
          intro entry other i
          apply (spinLockRelease_semNotes _).bind
          intro _
          exact (noteDone_semNotes other).bind fun _ => keeps_pure _
        apply Routine.Keeps.ite
        · exact ends _ rfl _
        · exact (doUnblock_semNotes _).bind fun _ => ends _ rfl _

/-- The part of `ress_release_killed` about one mutex lock. -/
theorem mutexReleaseKilled_semNotes (kpid i : Nat) :
    Routine.Keeps Kernel.semNotes (mutexReleaseKilled env kpid i) := by
  unfold mutexReleaseKilled
  apply (spinLockAcquire_semNotes _).bind
  intro _
  apply keeps_get_bind
  intro k
  apply meets_ite
  · intro _
    split
    · exact set_semNotes rfl (spinLockRelease_semNotes _)
    · apply Routine.Keeps.meets
      apply (doUnblock_semNotes _).bind
      intro _
      apply keeps_modify_bind
      · exact fun _ => rfl
      · exact spinLockRelease_semNotes _
  · intro _
    exact (spinLockRelease_semNotes _).meets k

/-- The end of `do_semaphore_down`. -/
theorem semaphoreDownEnd_semNotes (i : Nat) : Routine.Keeps Kernel.semNotes (semaphoreDownEnd i) := by
  unfold semaphoreDownEnd
  apply keeps_get_bind
  intro k
  exact (release_semNotes _ _).meets k

/-- `do_semaphore_destroy`. -/
theorem doSemaphoreDestroy_semNotes (sidx : Int) :
    Routine.Keeps Kernel.semNotes (doSemaphoreDestroy env sidx) := by
  unfold doSemaphoreDestroy
  apply Routine.Keeps.ite
  · exact keeps_pure _
  · apply (spinLockAcquire_semNotes _).bind
    intro _
    apply keeps_get_bind
    intro k
    apply meets_ite
    · intro _
      exact (release_semNotes _ _).meets k
    · intro _
      apply set_semNotes rfl
      exact (unblockAll_semNotes _).bind fun _ => release_semNotes _ _

/-- The part of `ress_release_killed` about one semaphore. -/
theorem semaphoreReleaseKilled_semNotes (kpid i : Nat) :
    Routine.Keeps Kernel.semNotes (semaphoreReleaseKilled env kpid i) := by
  unfold semaphoreReleaseKilled
  apply (spinLockAcquire_semNotes _).bind
  intro _
  apply keeps_get_bind
  intro k
  apply meets_ite
  · intro _
    apply set_semNotes rfl
    exact (unblockAll_semNotes _).bind fun _ => spinLockRelease_semNotes _
  · intro _
    exact (spinLockRelease_semNotes _).meets k

/-- `do_barrier_init`. -/
theorem doBarrierInit_semNotes (key goal : Int) :
    Routine.Keeps Kernel.semNotes (doBarrierInit env key goal) := by
  unfold doBarrierInit
  apply (spinLockAcquire_semNotes _).bind
  intro _
  apply keeps_get_bind
  intro k
  apply meets_ite
  · intro _
    exact (release_semNotes _ _).meets k
  · intro _
    exact set_semNotes rfl (release_semNotes _ _)

/-- `do_barrier_wait`. -/
theorem doBarrierWait_semNotes (bidx : Int) :
    Routine.Keeps Kernel.semNotes (doBarrierWait env bidx) := by
  unfold doBarrierWait
  apply Routine.Keeps.ite
  · exact keeps_pure _
  · apply (spinLockAcquire_semNotes _).bind
    intro _
    apply keeps_get_bind
    intro k
    apply meets_ite
    · intro _
      exact (release_semNotes _ _).meets k
    · intro _
      apply meets_ite
      · intro _
        apply set_semNotes rfl
        apply (unblockAll_semNotes _).bind
        intro _
        apply (spinLockRelease_semNotes _).bind
        intro _
        exact (noteDone_semNotes rfl).bind fun _ => keeps_pure _
      · intro _
        exact set_semNotes rfl (blocked_semNotes _ _ _ _)

/-- `do_barrier_destroy`. -/
theorem doBarrierDestroy_semNotes (bidx : Int) :
    Routine.Keeps Kernel.semNotes (doBarrierDestroy env bidx) := by
  unfold doBarrierDestroy
  apply Routine.Keeps.ite
  · exact keeps_pure _
  · apply (spinLockAcquire_semNotes _).bind
    intro _
    apply keeps_get_bind
    intro k
    apply meets_ite
    · intro _
      exact (release_semNotes _ _).meets k
    · intro _
      apply set_semNotes rfl
      exact (unblockAll_semNotes _).bind fun _ => release_semNotes _ _

/-- The part of `ress_release_killed` about one barrier. -/
theorem barrierReleaseKilled_semNotes (kpid i : Nat) :
    Routine.Keeps Kernel.semNotes (barrierReleaseKilled env kpid i) := by
  unfold barrierReleaseKilled
  apply (spinLockAcquire_semNotes _).bind
  intro _
  apply keeps_get_bind
  intro k
  apply meets_ite
  · intro _
    apply set_semNotes rfl
    exact (unblockAll_semNotes _).bind fun _ => spinLockRelease_semNotes _
  · intro _
    exact (spinLockRelease_semNotes _).meets k

/-! ## Mailboxes -/

/-- `do_mbox_open` once the name is read. -/
theorem mboxOpen_semNotes (s : Nat) : Routine.Keeps Kernel.semNotes (mboxOpen env s) := by
  unfold mboxOpen
  apply (spinLockAcquire_semNotes _).bind
  intro _
  apply keeps_get_bind
  intro k
  apply meets_ite
  · intro _
    apply set_semNotes rfl
    exact (noteDone_semNotes rfl).bind fun _ => release_semNotes _ _
  · intro _
    exact (release_semNotes _ _).meets k

/-- `do_mbox_close`. -/
theorem doMboxClose_semNotes (midx : Int) : Routine.Keeps Kernel.semNotes (doMboxClose env midx) := by
  unfold doMboxClose
  apply Routine.Keeps.ite
  · exact keeps_pure _
  · apply (spinLockAcquire_semNotes _).bind
    intro _
    apply keeps_get_bind
    intro k
    apply meets_ite
    · intro _
      exact (release_semNotes _ _).meets k
    · intro _
      apply set_semNotes rfl
      apply (unblockAll_semNotes _).bind
      intro _
      exact (unblockAll_semNotes _).bind fun _ => release_semNotes _ _

/-- One round of `mbox_release_killed`. -/
theorem mailboxReleaseKilled_semNotes (kpid i : Nat) :
    Routine.Keeps Kernel.semNotes (mailboxReleaseKilled env kpid i) := by
  unfold mailboxReleaseKilled
  apply (spinLockAcquire_semNotes _).bind
  intro _
  apply keeps_get_bind
  intro k
  apply meets_ite
  · intro _
    apply set_semNotes rfl
    apply (unblockAll_semNotes _).bind
    intro _
    exact (unblockAll_semNotes _).bind fun _ => spinLockRelease_semNotes _
  · intro _
    exact (spinLockRelease_semNotes _).meets k

/-- `ress_release_killed`. -/
theorem ressReleaseKilled_semNotes (kpid : Nat) :
    Routine.Keeps Kernel.semNotes (ressReleaseKilled env kpid) := by
  unfold ressReleaseKilled
  apply (Routine.Keeps.forUpto (mutexReleaseKilled_semNotes kpid) _).bind
  intro _
  apply (Routine.Keeps.forUpto (semaphoreReleaseKilled_semNotes kpid) _).bind
  intro _
  apply (Routine.Keeps.forUpto (barrierReleaseKilled_semNotes kpid) _).bind
  intro _
  exact Routine.Keeps.forUpto (mailboxReleaseKilled_semNotes kpid) _

/-! ## Creation and termination -/

/-- `create_proc`. -/
theorem createProc_semNotes (cpuMask : Nat) :
    Routine.Keeps Kernel.semNotes (createProc env cpuMask) := by
  unfold createProc
  apply keeps_get_bind
  intro k
  split
  · rfl
  · split
    · trivial
    · split <;> rfl

/-- `start_glush`. -/
theorem startGlush_semNotes : Routine.Keeps Kernel.semNotes (startGlush env) := by
  unfold startGlush
  apply keeps_get_bind
  intro k
  apply Routine.Keeps.meets
  apply (createProc_semNotes _).bind
  intro created
  split
  · exact keeps_modify fun _ => rfl
  · exact keeps_modify fun _ => rfl

/-- `thread_kill`. -/
theorem threadKill_semNotes (p : PcbRef) : Routine.Keeps Kernel.semNotes (threadKill env p) := by
  unfold threadKill
  apply keeps_get_bind
  intro k
  dsimp only
  split
  · trivial
  · split
    · trivial
    · apply Routine.Keeps.meets
      apply (unblockAll_semNotes _).bind
      intro _
      apply keeps_get_bind
      intro k'
      split
      · trivial
      · split
        · trivial
        · rfl

/-- The loop of `do_kill` over the threads found. -/
theorem killThreads_semNotes (threads : List PcbRef) :
    Routine.Keeps Kernel.semNotes (killThreads env threads) := by
  induction threads with
  | nil => exact keeps_pure ()
  | cons h rest ih =>
    unfold killThreads
    apply Routine.Keeps.bind
    · unfold killThread
      apply keeps_get_bind
      intro k
      apply meets_ite
      · exact fun _ => (threadKill_semNotes h).meets k
      · exact fun _ => rfl
    · exact fun _ => ih

/-- The end of `do_kill`. -/
theorem finishKill_semNotes (pid : Nat) : Routine.Keeps Kernel.semNotes (finishKill env pid) := by
  unfold finishKill
  apply keeps_get_bind
  intro k
  apply Routine.Keeps.meets
  apply Routine.Keeps.ite
  · apply (noteDone_semNotes rfl).bind
    intro _
    apply (ressReleaseKilled_semNotes pid).bind
    intro _
    apply keeps_get_bind
    intro k'
    apply Routine.Keeps.meets
    exact .ite startGlush_semNotes (keeps_pure ())
  · exact keeps_pure ()

/-- `do_kill` of another process. -/
theorem killOther_semNotes (pid : Nat) : Routine.Keeps Kernel.semNotes (killOther env pid) := by
  unfold killOther
  apply keeps_get_bind
  intro k
  apply Routine.Keeps.meets
  apply Routine.Keeps.ite
  · exact keeps_pure _
  · apply (killThreads_semNotes _).bind
    intro _
    exact (finishKill_semNotes pid).bind fun _ => keeps_pure _

/-- The loop of `do_scheduler`. -/
theorem scanReady_semNotes (ccpu : PcbRef) (fuel : Nat) :
    ∀ p, Routine.Keeps Kernel.semNotes (scanReady env ccpu fuel p) := by
  induction fuel with
  | zero => exact fun _ => keeps_stop _
  | succ fuel ih =>
    intro p
    unfold scanReady
    apply Routine.Keeps.ite
    · exact keeps_pure _
    · apply keeps_get_bind
      intro k
      split
      · trivial
      · split
        · apply set_semNotes _ (keeps_pure _)
          unfold Kernel.switchTo
          split <;> rfl
        · apply Routine.Keeps.meets
          apply Routine.Keeps.ite
          · apply Routine.Keeps.ite
            · exact keeps_stop _
            · apply (killOther_semNotes _).bind
              intro killed
              exact .ite (ih _) (keeps_stop _)
          · apply Routine.Keeps.ite
            · exact (threadKill_semNotes p).bind fun _ => ih _
            · exact ih _

/-- `do_scheduler`. -/
theorem doScheduler_semNotes : Routine.Keeps Kernel.semNotes (doScheduler env) := by
  unfold doScheduler
  apply checkSleeping_semNotes.bind
  intro _
  apply Routine.Keeps.bind (unblockWhile_semNotes _ _)
  intro _
  apply keeps_get_bind
  intro k
  apply Routine.Keeps.meets
  apply (scanReady_semNotes _ _ _).bind
  intro switched
  apply Routine.Keeps.ite
  · exact keeps_pure _
  · apply keeps_get_bind
    intro k'
    apply Routine.Keeps.meets
    exact (keeps_stopIf _ _).bind fun _ => keeps_pure _

/-- The end of what is current. -/
theorem leave_semNotes (status : TaskStatus) : Routine.Keeps Kernel.semNotes (leave env status) := by
  unfold leave
  apply keeps_modify_bind
  · exact fun _ => rfl
  · apply doScheduler_semNotes.bind
    intro switched
    exact .ite (keeps_pure _) (keeps_stop _)

/-- `do_kill`. -/
theorem doKill_semNotes (pid : Int) : Routine.Keeps Kernel.semNotes (doKill env pid) := by
  unfold doKill
  apply keeps_get_bind
  intro k
  apply Routine.Keeps.meets
  apply Routine.Keeps.ite
  · exact keeps_pure _
  · apply Routine.Keeps.ite
    · exact (killThreads_semNotes _).bind fun _ => leave_semNotes _
    · apply (killThreads_semNotes _).bind
      intro _
      exact (finishKill_semNotes _).bind fun _ => keeps_pure _

/-- `do_exit`. -/
theorem doExit_semNotes : Routine.Keeps Kernel.semNotes (doExit env) := by
  unfold doExit
  apply keeps_get_bind
  intro k
  exact (doKill_semNotes _).meets k

/-! ## Other calls -/

/-- The copy loop of `do_mbox_send`. -/
theorem copyIn_semNotes (i : Nat) (addrs : List Nat) :
    Routine.Keeps Kernel.semNotes (copyIn env i addrs) := by
  induction addrs with
  | nil => exact keeps_pure _
  | cons addr rest ih =>
    unfold copyIn
    split
    · exact keeps_pure _
    · apply keeps_get_bind
      intro k
      split
      · trivial
      · exact set_semNotes rfl ih

/-- The copy loop of `do_mbox_recv`. -/
theorem copyOut_semNotes (i : Nat) (addrs : List Nat) :
    Routine.Keeps Kernel.semNotes (copyOut env i addrs) := by
  induction addrs with
  | nil => exact keeps_pure _
  | cons addr rest ih =>
    unfold copyOut
    apply keeps_get_bind
    intro k
    split
    · trivial
    · exact set_semNotes rfl (.ite ih (keeps_pure _))

/-- The rest of `do_mbox_send`. -/
theorem mboxSendLoop_semNotes (i msg msgLength blockYmr : Nat) :
    Routine.Keeps Kernel.semNotes (mboxSendLoop env i msg msgLength blockYmr) := by
  unfold mboxSendLoop
  apply keeps_get_bind
  intro k
  apply meets_ite
  · intro _
    exact set_semNotes rfl (blocked_semNotes _ _ _ _)
  · intro _
    apply Routine.Keeps.meets
    apply (copyIn_semNotes _ _).bind
    intro legal
    apply Routine.Keeps.ite
    · apply (unblockWhile_semNotes _ _).bind
      intro _
      apply (spinLockRelease_semNotes _).bind
      intro _
      exact (noteDone_semNotes rfl).bind fun _ => keeps_pure _
    · exact doExit_semNotes

/-- The rest of `do_mbox_recv`. -/
theorem mboxRecvLoop_semNotes (i msg msgLength blockYmr : Nat) :
    Routine.Keeps Kernel.semNotes (mboxRecvLoop env i msg msgLength blockYmr) := by
  unfold mboxRecvLoop
  apply keeps_get_bind
  intro k
  apply meets_ite
  · intro _
    exact set_semNotes rfl (blocked_semNotes _ _ _ _)
  · intro _
    apply Routine.Keeps.meets
    apply (copyOut_semNotes _ _).bind
    intro legal
    apply Routine.Keeps.ite
    · apply (unblockAll_semNotes _).bind
      intro _
      apply (spinLockRelease_semNotes _).bind
      intro _
      exact (noteDone_semNotes rfl).bind fun _ => keeps_pure _
    · exact doExit_semNotes

/-- What is done with a mailbox once its lock is held, when it is open. -/
theorem mboxOpened_semNotes (i : Nat) {again : KernelRoutine Out}
    (keeps : Routine.Keeps Kernel.semNotes again) : Routine.Keeps Kernel.semNotes (mboxAgain i again) := by
  unfold mboxAgain
  apply (spinLockAcquire_semNotes _).bind
  intro _
  apply keeps_get_bind
  intro k
  apply Routine.Keeps.meets
  exact .ite (release_semNotes _ _) keeps

/-- `do_mbox_send`. -/
theorem doMboxSend_semNotes (midx : Int) (msg msgLength : Nat) :
    Routine.Keeps Kernel.semNotes (doMboxSend env midx msg msgLength) := by
  unfold doMboxSend
  exact .ite (keeps_pure _) (mboxOpened_semNotes _ (mboxSendLoop_semNotes _ _ _ _))

/-- `do_mbox_recv`. -/
theorem doMboxRecv_semNotes (midx : Int) (msg msgLength : Nat) :
    Routine.Keeps Kernel.semNotes (doMboxRecv env midx msg msgLength) := by
  unfold doMboxRecv
  apply Routine.Keeps.ite
  · exact keeps_pure _
  · exact .ite (keeps_pure _) (mboxOpened_semNotes _ (mboxRecvLoop_semNotes _ _ _ _))

/-- `do_net_send`. -/
theorem doNetSend_semNotes : Routine.Keeps Kernel.semNotes (doNetSend env) := by
  unfold doNetSend
  exact .ite (blocked_semNotes _ _ _ _) (keeps_pure _)

/-- `do_net_recv`. -/
theorem doNetRecv_semNotes (left : Nat) : Routine.Keeps Kernel.semNotes (doNetRecv env left) := by
  unfold doNetRecv
  apply Routine.Keeps.ite
  · apply keeps_modify_bind
    · exact fun _ => rfl
    · exact blocked_semNotes _ _ _ _
  · exact keeps_pure _

/-- `do_waitpid`. -/
theorem doWaitpid_semNotes (pid : Int) : Routine.Keeps Kernel.semNotes (doWaitpid env pid) := by
  unfold doWaitpid
  apply keeps_get_bind
  intro k
  apply Routine.Keeps.meets
  apply Routine.Keeps.ite
  · exact keeps_pure _
  · split
    · exact keeps_pure _
    · apply Routine.Keeps.ite
      · exact keeps_pure _
      · exact .ite (keeps_pure _) (blocked_semNotes _ _ _ _)

/-- `do_thread_wait`. -/
theorem doThreadWait_semNotes (tid : Nat) : Routine.Keeps Kernel.semNotes (doThreadWait env tid) := by
  unfold doThreadWait
  apply keeps_get_bind
  intro k
  apply Routine.Keeps.meets
  apply Routine.Keeps.ite
  · exact keeps_pure _
  · split
    · exact keeps_pure _
    · exact blocked_semNotes _ _ _ _

/-- `do_thread_create`. -/
theorem doThreadCreate_semNotes (valid : Bool) :
    Routine.Keeps Kernel.semNotes (doThreadCreate env valid) := by
  unfold doThreadCreate
  apply keeps_get_bind
  intro k
  split
  · rfl
  · apply meets_ite
    · exact fun _ => rfl
    · exact fun _ => set_semNotes rfl (keeps_pure _)

/-- `do_thread_exit`. -/
theorem doThreadExit_semNotes : Routine.Keeps Kernel.semNotes (doThreadExit env) := by
  unfold doThreadExit
  apply keeps_get_bind
  intro k
  apply Routine.Keeps.meets
  exact .ite doExit_semNotes (leave_semNotes _)

/-- `do_exec`. -/
theorem doExec_semNotes (argc : Int) (argvLegal : Bool) :
    Routine.Keeps Kernel.semNotes (doExec env argc argvLegal) := by
  unfold doExec
  apply keeps_get_bind
  intro k
  apply Routine.Keeps.meets
  apply Routine.Keeps.ite
  · exact keeps_pure _
  · apply (createProc_semNotes _).bind
    intro created
    split
    · exact keeps_pure _
    · exact .ite (keeps_pure _) doExit_semNotes

/-- `do_fork`. -/
theorem doFork_semNotes : Routine.Keeps Kernel.semNotes (doFork env) := by
  unfold doFork
  apply keeps_get_bind
  intro k
  apply meets_ite
  · exact fun _ => rfl
  intro _
  apply meets_ite
  · exact fun _ => rfl
  intro _
  split
  · rfl
  · apply meets_ite
    · exact fun _ => set_semNotes rfl (keeps_pure _)
    · exact fun _ => rfl

/-- `do_taskset`. -/
theorem doTaskset_semNotes (pid : Int) (cpuMask : Nat) :
    Routine.Keeps Kernel.semNotes (doTaskset pid cpuMask) := by
  unfold doTaskset
  apply keeps_get_bind
  intro k
  apply meets_ite
  · exact fun _ => rfl
  · exact fun _ => set_semNotes rfl (keeps_pure _)

/-- `do_mbox_open`. -/
theorem doMboxOpen_semNotes (name : Nat) : Routine.Keeps Kernel.semNotes (doMboxOpen env name) := by
  unfold doMboxOpen
  split
  · exact doExit_semNotes
  · exact mboxOpen_semNotes _

/-- `handle_irq_ext`. -/
theorem handleIrqExt_semNotes (txqe rxdmt0 : Bool) :
    Routine.Keeps Kernel.semNotes (handleIrqExt env txqe rxdmt0) := by
  unfold handleIrqExt
  have second : Routine.Keeps Kernel.semNotes (do
      if rxdmt0 then unblockAll env .nicRecv else pure ()
      return .scheduled : KernelRoutine Out) :=
    .ite ((unblockAll_semNotes _).bind fun _ => keeps_pure _) (keeps_pure _)
  exact .ite ((unblockAll_semNotes _).bind fun _ => second) second

/-- The calls that change the value of a semaphore. -/
def Call.setsSem : Call → Bool
  | .semaphoreInit .. | .semaphoreUp _ | .semaphoreDown _ => true
  | _ => false

/-- The other system calls. -/
theorem handleSyscall_semNotes {call : Call} (other : call.setsSem = false) :
    Routine.Keeps Kernel.semNotes (handleSyscall env call) := by
  cases call with
  | yield => exact doScheduler_semNotes.discard.bind fun _ => keeps_pure _
  | sleep sleepTime => exact (doSleep_semNotes sleepTime).bind fun _ => keeps_pure _
  | exit => exact doExit_semNotes
  | kill pid => exact doKill_semNotes pid
  | waitpid pid => exact doWaitpid_semNotes pid
  | threadCreate valid => exact doThreadCreate_semNotes valid
  | threadWait tid => exact doThreadWait_semNotes tid
  | threadExit => exact doThreadExit_semNotes
  | exec argc argvLegal => exact doExec_semNotes argc argvLegal
  | fork => exact doFork_semNotes
  | taskset pid cpuMask => exact doTaskset_semNotes pid cpuMask
  | mutexInit key => exact keeps_pure _
  | mutexAcquire mlockIdx => exact doMutexLockAcquire_semNotes mlockIdx
  | mutexRelease mlockIdx => exact doMutexLockRelease_semNotes mlockIdx
  | semaphoreInit key value => cases other
  | semaphoreUp sidx => cases other
  | semaphoreDown sidx => cases other
  | semaphoreDestroy sidx => exact doSemaphoreDestroy_semNotes sidx
  | barrierInit key goal => exact doBarrierInit_semNotes key goal
  | barrierWait bidx => exact doBarrierWait_semNotes bidx
  | barrierDestroy bidx => exact doBarrierDestroy_semNotes bidx
  | mboxOpen name => exact doMboxOpen_semNotes name
  | mboxClose midx => exact doMboxClose_semNotes midx
  | mboxSend midx msg msgLength => exact doMboxSend_semNotes midx msg msgLength
  | mboxRecv midx msg msgLength => exact doMboxRecv_semNotes midx msg msgLength
  | netSend => exact doNetSend_semNotes
  | netRecv pktNum => exact doNetRecv_semNotes pktNum

/-- A process that goes on in the middle of a call. -/
theorem resumeCall_semNotes (resume : Resume) :
    Routine.Keeps Kernel.semNotes (resumeCall env resume) := by
  cases resume with
  | toUser => exact keeps_stop _
  | mutexAcquire i => exact (spinLockAcquire_semNotes _).bind fun _ => mutexAcquireLoop_semNotes i
  | semaphoreDown i => exact (spinLockAcquire_semNotes _).bind fun _ => semaphoreDownEnd_semNotes i
  | barrierWait i goal => exact (spinLockAcquire_semNotes _).bind fun _ => release_semNotes _ _
  | mboxSend i msg msgLength blockYmr => exact mboxOpened_semNotes i (mboxSendLoop_semNotes _ _ _ _)
  | mboxRecv i msg msgLength blockYmr => exact mboxOpened_semNotes i (mboxRecvLoop_semNotes _ _ _ _)
  | netSend => exact doNetSend_semNotes
  | netRecv left => exact doNetRecv_semNotes left

/-- An entry for one of these calls. -/
def Entry.setsSem : Entry → Bool
  | .syscall call => call.setsSem
  | _ => false

/-- The other entries. -/
theorem handleEntry_semNotes {entry : Entry} (other : entry.setsSem = false) :
    Routine.Keeps Kernel.semNotes (handleEntry env entry) := by
  cases entry with
  | timer => exact doScheduler_semNotes.discard.bind fun _ => keeps_pure _
  | nic txqe rxdmt0 => exact handleIrqExt_semNotes txqe rxdmt0
  | syscall call => exact handleSyscall_semNotes other
  | fault => exact doExit_semNotes
  | resume =>
    apply keeps_get_bind
    intro k
    apply Routine.Keeps.meets
    apply (resumeCall_semNotes _).bind
    intro out
    split
    · apply keeps_modify_bind
      · exact fun _ => rfl
      · exact keeps_pure _
    · exact keeps_pure _

/-- Whether an event makes one of these calls; a process that was killed makes none. -/
def SetsSem (k : Kernel) (event : Event) : Prop :=
  event.entry.setsSem = true ∧ (k.cur event.env.cpu).status ≠ .exiting

/-- The other events note nothing about semaphores. -/
theorem step_semNotes {k k' : Kernel} {event : Event} {out : Out} (other : ¬ SetsSem k event)
    (ran : step event k = .ok (out, k')) : k'.semNotes = k.semNotes := by
  have meets : Meets (fun _ => True) (step event) k fun _ next => next.semNotes = k.semNotes := by
    unfold step
    rw [meets_get_bind]
    apply meets_ite
    · intro _
      by_cases setting : event.entry.setsSem = true
      · -- The process was killed, so that it ends instead.
        have killed : (k.cur event.env.cpu).status = .exiting := by
          by_contra alive
          exact other ⟨setting, alive⟩
        have notResume : event.entry ≠ .resume := by
          intro same
          rw [same] at setting
          cases setting
        split
        · exact absurd ‹event.entry = .resume› notResume
        · unfold interruptHelper
          rw [meets_get_bind, if_pos killed]
          exact doExit_semNotes.meets k
      · have calm : event.entry.setsSem = false := by simpa using setting
        split
        · exact (handleEntry_semNotes rfl).meets k
        · unfold interruptHelper
          rw [meets_get_bind]
          apply meets_ite
          · exact fun _ => doExit_semNotes.meets k
          · exact fun _ => (handleEntry_semNotes calm).meets k
    · exact fun _ => trivial
  exact meets.of_ok ran

end GlucOS.Sched
