import GlucOS.Sched.InvariantLaws

/-! The routines in which nobody ends, and nobody begins or stops to wait for the end of another. -/

namespace GlucOS.Sched

open Routine

/-- The states of a thread that was killed, or has left by itself. -/
def TaskStatus.ending : TaskStatus → Bool
  | .exited | .exiting | .zombie => true
  | .sleeping | .running | .ready => false

/-- Nobody ended, and the waits for ends are as they were; there may be more threads. -/
structure Still (k k' : Kernel) : Prop where
  /-- Nobody is freed. -/
  kept : ∀ h ∈ k.pcbTable, h ∈ k'.pcbTable
  /-- Whoever is new has a new address. -/
  fresh : ∀ h ∈ k'.pcbTable, h ∈ k.pcbTable ∨ k.newPcb ≤ h ∧ h < k'.newPcb
  /-- Addresses are not used again. -/
  newer : k.newPcb ≤ k'.newPcb
  /-- Processes keep their identifiers. -/
  pid : ∀ h < k.newPcb, (k'.pcb h).pid = (k.pcb h).pid
  /-- Nobody was killed, and nobody left. -/
  ending : ∀ h ∈ k'.pcbTable, (k'.pcb h).status.ending = true →
    h ∈ k.pcbTable ∧ (k.pcb h).status = (k'.pcb h).status
  /-- The same threads wait for the end of each thread, and none for the end of a new one. -/
  waits : ∀ x, k'.queue (.wait x) = k.queue (.wait x) ∨
    k.newPcb ≤ x ∧ k'.queue (.wait x) = []
  /-- What was noted stays noted. -/
  history : k.history <:+ k'.history

/-- Every reason to stop. -/
def anyStop (_ : KernelStop) : Prop := True

namespace Still

variable {k k₁ k' : Kernel}

/-- Nothing happens. -/
theorem refl (k : Kernel) : Still k k where
  kept := fun _ live => live
  fresh := fun _ live => .inl live
  newer := le_rfl
  pid := fun _ _ => rfl
  ending := fun _ live _ => ⟨live, rfl⟩
  waits := fun _ => .inl rfl
  history := List.suffix_rfl

/-- One thing after the other. -/
theorem trans (first : Still k k₁) (second : Still k₁ k') : Still k k' where
  kept := fun h live => second.kept h (first.kept h live)
  fresh := by
    intro h live
    -- Who was new in between is new now.
    cases second.fresh h live with
    | inl before =>
      cases first.fresh h before with
      | inl older => exact .inl older
      | inr new => exact .inr ⟨new.1, lt_of_lt_of_le new.2 second.newer⟩
    | inr new => exact .inr ⟨first.newer.trans new.1, new.2⟩
  newer := first.newer.trans second.newer
  pid := fun h old =>
    (second.pid h (lt_of_lt_of_le old first.newer)).trans (first.pid h old)
  ending := by
    intro h live ends
    obtain ⟨live₁, same₁⟩ := second.ending h live ends
    obtain ⟨before, same⟩ := first.ending h live₁ (by rw [same₁]; exact ends)
    exact ⟨before, same.trans same₁⟩
  waits := by
    intro x
    cases second.waits x with
    | inl same => rw [same]; exact first.waits x
    | inr new => exact .inr ⟨first.newer.trans new.1, new.2⟩
  history := first.history.trans second.history

/-- Only what nobody's end depends on is changed. -/
theorem of_same (pcbTable : k'.pcbTable = k.pcbTable) (newPcb : k'.newPcb = k.newPcb)
    (pid : ∀ h, (k'.pcb h).pid = (k.pcb h).pid)
    (ending : ∀ h, (k'.pcb h).status.ending = true → (k.pcb h).status = (k'.pcb h).status)
    (waits : ∀ x, k'.queue (.wait x) = k.queue (.wait x)) (history : k.history <:+ k'.history) :
    Still k k' where
  kept := fun _ live => pcbTable ▸ live
  fresh := fun _ live => .inl (pcbTable ▸ live)
  newer := newPcb.ge
  pid := fun h _ => pid h
  ending := fun h live ends => ⟨pcbTable ▸ live, ending h ends⟩
  waits := fun x => .inl (waits x)
  history := history

/-- The objects change, and no PCB does. -/
theorem of_pcb (pcbTable : k'.pcbTable = k.pcbTable) (newPcb : k'.newPcb = k.newPcb)
    (pcb : k'.pcb = k.pcb) (waits : ∀ x, k'.queue (.wait x) = k.queue (.wait x))
    (history : k.history <:+ k'.history) : Still k k' :=
  .of_same pcbTable newPcb (fun _ => by rw [pcb]) (fun h _ => by rw [pcb]) waits history

/-- Only spin locks and synchronization objects change. -/
theorem objects (k : Kernel) (slock : SpinLock → Bool) (mlocks : Nat → MutexLock)
    (semaphores : Nat → Semaphore) (barriers : Nat → Barrier) (mailboxes : Nat → Mailbox) :
    Still k { k with slock, mlocks, semaphores, barriers, mailboxes } :=
  .of_pcb rfl rfl rfl (fun _ => rfl) List.suffix_rfl

/-- One PCB changes, and is not about to end if it was not before. -/
theorem setPcb (k : Kernel) (h : PcbRef) (change : Pcb → Pcb)
    (pid : (change (k.pcb h)).pid = (k.pcb h).pid)
    (ending : (change (k.pcb h)).status.ending = true →
      (k.pcb h).status = (change (k.pcb h)).status) : Still k (k.setPcb h change) := by
  refine .of_same rfl rfl (fun x => ?_) (fun x ends => ?_) (fun _ => rfl) List.suffix_rfl
  · by_cases same : x = h
    · rw [same, Kernel.setPcb_same]; exact pid
    · rw [Kernel.setPcb_other k change same]
  · by_cases same : x = h
    · rw [same, Kernel.setPcb_same] at ends ⊢
      exact ending ends
    · rw [Kernel.setPcb_other k change same]

/-- A status of a process that is not about to end. -/
theorem setStatus (k : Kernel) (h : PcbRef) {status : TaskStatus}
    (stays : status.ending = false) : Still k (k.setStatus h status) := by
  refine setPcb k h _ rfl fun ends => ?_
  rw [stays] at ends
  cases ends

/-- A process is woken that does not wait for the end of another. -/
theorem wake (k : Kernel) (cpu : Nat) {q : QueueRef} (h : PcbRef) (away : ∀ x, q ≠ .wait x) :
    Still k (k.wake cpu q h) := by
  have pcbs : Still k (k.setPcb h fun pcb => { pcb with status := .ready, phead := .ready }) :=
    setPcb k h _ rfl fun ends => by cases ends
  refine pcbs.trans (.of_pcb rfl rfl rfl (fun x => ?_) List.suffix_rfl)
  -- Neither the queue it leaves nor the ready queue is one of those.
  show Function.update (Function.update k.queue q ((k.queue q).erase h)) .ready
    (insertAfter (k.queue .ready) (k.current cpu) h) (.wait x) = k.queue (.wait x)
  rw [Function.update_of_ne (by simp), Function.update_of_ne (away x).symm]

/-- The scheduler switches. -/
theorem switchTo (k : Kernel) (cpu : Nat) (p : PcbRef) : Still k (k.switchTo cpu p) := by
  have enters : ∀ left : Kernel, Still left (left.setStatus p .running) :=
    fun left => setStatus left p rfl
  unfold Kernel.switchTo
  split
  · have leaves : Still k (k.setStatus (k.current cpu) .ready) :=
      setStatus k (k.current cpu) rfl
    exact (leaves.trans (enters _)).trans (.of_pcb rfl rfl rfl (fun _ => rfl) List.suffix_rfl)
  · exact (enters k).trans (.of_pcb rfl rfl rfl (fun _ => rfl) List.suffix_rfl)

/-- The current process blocks, but not to wait for the end of another. -/
theorem blockOn (k : Kernel) (cpu : Nat) {q : QueueRef} (resume : Resume) (p : PcbRef)
    (away : ∀ x, q ≠ .wait x) : Still k (k.blockOn cpu q resume p) := by
  have enters : Still k (k.setStatus p .running) := setStatus k p rfl
  have sleeps : Still (k.setStatus p .running)
      ((k.setStatus p .running).setPcb (k.current cpu) fun pcb =>
        { pcb with status := .sleeping, phead := q, resume }) :=
    setPcb _ _ _ rfl fun ends => by cases ends
  refine (enters.trans sleeps).trans (.of_pcb rfl rfl rfl (fun x => ?_) List.suffix_rfl)
  show Function.update (Function.update k.queue .ready ((k.queue .ready).erase (k.current cpu))) q
    (k.queue q ++ [k.current cpu]) (.wait x) = k.queue (.wait x)
  rw [Function.update_of_ne (away x).symm, Function.update_of_ne (by simp)]

/-- A new thread, for whose end nobody waits. -/
theorem addPcb (k : Kernel) (pid tid cpuMask : Nat) : Still k (k.addPcb pid tid cpuMask) where
  kept := fun _ live => List.mem_append_left _ live
  fresh := by
    intro h live
    cases List.mem_append.mp live with
    | inl older => exact .inl older
    | inr new =>
      rw [List.mem_singleton] at new
      exact .inr ⟨new.ge, new ▸ Nat.lt_succ_self _⟩
  newer := Nat.le_succ _
  pid := by
    intro h old
    have older : (k.addPcb pid tid cpuMask).pcb h = k.pcb h :=
      Function.update_of_ne (Nat.ne_of_lt old) _ _
    rw [older]
  ending := by
    intro h live ends
    by_cases new : h = k.newPcb
    · -- The new thread is ready.
      have ready : ((k.addPcb pid tid cpuMask).pcb h).status = .ready := by
        rw [new]
        show (Function.update k.pcb k.newPcb _ k.newPcb).status = _
        rw [Function.update_self]
      rw [ready] at ends
      cases ends
    · have older : (k.addPcb pid tid cpuMask).pcb h = k.pcb h := Function.update_of_ne new _ _
      rw [older]
      refine ⟨?_, rfl⟩
      cases List.mem_append.mp live with
      | inl before => exact before
      | inr here => exact absurd (List.mem_singleton.mp here) new
  waits := by
    intro x
    show Function.update (Function.update k.queue (.wait k.newPcb) []) .ready
      (k.queue .ready ++ [k.newPcb]) (.wait x) = _ ∨ _ ∧ Function.update
        (Function.update k.queue (.wait k.newPcb) []) .ready (k.queue .ready ++ [k.newPcb])
          (.wait x) = []
    rw [Function.update_of_ne (by simp)]
    by_cases new : x = k.newPcb
    · subst new
      exact .inr ⟨le_rfl, Function.update_self _ _ _⟩
    · exact .inl (Function.update_of_ne (by simpa using new) _ _)
  history := List.suffix_rfl

/-- A new processor mask. -/
theorem setMask (k : Kernel) (pid cpuMask : Nat) : Still k (k.setMask pid cpuMask) := by
  have status := k.setMask_field pid cpuMask Pcb.status fun _ _ => rfl
  exact .of_same rfl rfl (k.setMask_field pid cpuMask Pcb.pid fun _ _ => rfl)
    (fun h _ => (status h).symm) (fun _ => rfl) List.suffix_rfl

/-- A queue of a synchronization object is emptied. -/
theorem clearQueue (k : Kernel) {q : QueueRef} (away : ∀ x, q ≠ .wait x) :
    Still k (k.clearQueue q) :=
  .of_pcb rfl rfl rfl (fun x => Function.update_of_ne (away x).symm _ _) List.suffix_rfl

/-- A note is added. -/
theorem note (k : Kernel) (entry : Note) : Still k (k.note entry) :=
  .of_pcb rfl rfl rfl (fun _ => rfl) (List.suffix_cons _ _)

/-- What the rest of a routine keeps is kept since before the last change. -/
theorem after {A : Type} {rest : KernelRoutine A} (first : Still k k₁)
    (more : Meets anyStop rest k₁ fun _ => Still k₁) : Meets anyStop rest k₁ fun _ => Still k :=
  more.mono fun _ _ later => first.trans later

/-- One routine and then another. -/
theorem bind {A B : Type} {routine : KernelRoutine A} {rest : A → KernelRoutine B}
    (first : Meets anyStop routine k fun _ => Still k)
    (more : ∀ value k₁, Meets anyStop (rest value) k₁ fun _ => Still k₁) :
    Meets anyStop (routine >>= rest) k fun _ => Still k :=
  Meets.bind first fun value k₁ before => before.after (more value k₁)

end Still

section

variable {env : Env} (k : Kernel)

/-! ## Queues -/

/-- `spin_lock_acquire`. -/
theorem spinLockAcquire_still (lock : SpinLock) :
    Meets anyStop (spinLockAcquire lock) k fun _ => Still k := by
  unfold spinLockAcquire
  rw [meets_get_bind]
  refine meets_ite (fun _ => trivial) (fun _ => ?_)
  exact .objects k _ _ _ _ _

/-- `spin_lock_release`. -/
theorem spinLockRelease_still (lock : SpinLock) :
    Meets anyStop (spinLockRelease lock) k fun _ => Still k := by
  unfold spinLockRelease
  rw [meets_get_bind]
  exact meets_ite (fun _ => .objects k _ _ _ _ _) fun _ => trivial

/-- `do_block` on a queue that is no thread's `wait_queue`. -/
theorem doBlock_still {q : QueueRef} (slock : Option SpinLock) (resume : Resume)
    (away : ∀ x, q ≠ .wait x) :
    Meets anyStop (doBlock env q slock resume) k fun _ => Still k := by
  unfold doBlock
  rw [meets_get_bind]
  split
  · trivial
  · refine meets_ite (fun _ => trivial) (fun _ => ?_)
    rw [meets_set_bind]
    apply Still.after (Still.blockOn k env.cpu resume _ away)
    split
    · exact .refl _
    · exact spinLockRelease_still _ _

/-- `do_unblock` of a queue that is no thread's `wait_queue`. -/
theorem doUnblock_still {q : QueueRef} (away : ∀ x, q ≠ .wait x) :
    Meets anyStop (doUnblock env q) k fun _ => Still k := by
  unfold doUnblock
  rw [meets_get_bind]
  split
  · trivial
  · refine meets_ite (fun _ => trivial) (fun _ => ?_)
    refine meets_ite (fun _ => trivial) (fun _ => ?_)
    exact Still.wake k env.cpu _ away

/-- The loops that wake the heads of such a queue. -/
theorem unblockUpTo_still {q : QueueRef} (cond : Kernel → PcbRef → Bool) (away : ∀ x, q ≠ .wait x)
    (n : Nat) : ∀ k, Meets anyStop (unblockUpTo env q cond n) k fun _ => Still k := by
  -- Each round wakes one more.
  induction n with
  | zero => exact fun k => .refl k
  | succ n ih =>
    intro k
    unfold unblockUpTo
    rw [meets_get_bind]
    split
    · exact .refl k
    · exact meets_ite (fun _ => Still.bind (doUnblock_still k away) fun _ => ih) fun _ => .refl k

/-- The same loops with their bound. -/
theorem unblockWhile_still {q : QueueRef} (cond : Kernel → PcbRef → Bool)
    (away : ∀ x, q ≠ .wait x) :
    Meets anyStop (unblockWhile env q cond) k fun _ => Still k := by
  unfold unblockWhile
  rw [meets_get_bind]
  exact unblockUpTo_still cond away _ k

/-- `wake_up`. -/
theorem wakeUp_still (t : PcbRef) : Meets anyStop (wakeUp env t) k fun _ => Still k := by
  unfold wakeUp
  rw [meets_get_bind]
  refine meets_ite (fun _ => trivial) (fun _ => ?_)
  refine meets_ite (fun _ => trivial) (fun _ => ?_)
  refine meets_ite (fun _ => trivial) (fun _ => ?_)
  exact Still.wake k env.cpu t (by simp)

/-- The loop of `check_sleeping`. -/
theorem checkSleepers_still (sleepers : List PcbRef) :
    ∀ k, Meets anyStop (checkSleepers env sleepers) k fun _ => Still k := by
  induction sleepers with
  | nil => exact fun k => .refl k
  | cons pw rest ih =>
    intro k
    refine Still.bind ?_ fun _ => ih
    unfold checkSleeper
    rw [meets_get_bind]
    refine meets_ite (fun _ => trivial) (fun _ => ?_)
    exact meets_ite (fun _ => wakeUp_still k pw) fun _ => .refl k

/-- `check_sleeping`. -/
theorem checkSleeping_still : Meets anyStop (checkSleeping env) k fun _ => Still k := by
  unfold checkSleeping
  rw [meets_get_bind]
  exact checkSleepers_still _ k

/-- `check_sleeping_on_nic`. -/
theorem checkSleepingOnNic_still : Meets anyStop (checkSleepingOnNic env) k fun _ => Still k :=
  unblockWhile_still k _ (by simp)

/-- `do_sleep`. -/
theorem doSleep_still (sleepTime : Nat) :
    Meets anyStop (doSleep env sleepTime) k fun _ => Still k := by
  unfold doSleep
  rw [meets_get_bind, meets_set_bind]
  apply Still.after
  · exact Still.setPcb k _ _ rfl fun ends => by cases ends
  · exact doBlock_still _ _ _ (by simp)

/-! ## Synchronization objects -/

/-- A routine that only releases a spin lock before it answers. -/
theorem release_still {A : Type} (lock : SpinLock) (value : A) :
    Meets anyStop (spinLockRelease lock >>= fun _ => pure value) k fun _ => Still k :=
  Still.bind (spinLockRelease_still k lock) fun _ k => .refl k

/-- A routine that releases a spin lock and notes what was done before it answers. -/
theorem releaseNote_still {A : Type} (lock : SpinLock) (entry : Note) (value : A) :
    Meets anyStop (do spinLockRelease lock; noteDone entry; return value) k fun _ => Still k :=
  Still.bind (spinLockRelease_still k lock) fun _ k => Still.note k entry

/-- Blocking before the call is over. -/
theorem blocked_still {A : Type} {q : QueueRef} (slock : Option SpinLock) (resume : Resume)
    (value : A) (away : ∀ x, q ≠ .wait x) :
    Meets anyStop (doBlock env q slock resume >>= fun _ => pure value) k fun _ => Still k :=
  Still.bind (doBlock_still k slock resume away) fun _ k => .refl k

/-- The rest of `do_mutex_lock_acquire`. -/
theorem mutexAcquireLoop_still (i : Nat) :
    Meets anyStop (mutexAcquireLoop env i) k fun _ => Still k := by
  unfold mutexAcquireLoop
  rw [meets_get_bind]
  refine meets_ite (fun _ => blocked_still k _ _ _ (by simp)) (fun _ => ?_)
  rw [meets_set_bind]
  apply Still.after (.objects k _ _ _ _ _)
  exact releaseNote_still _ _ _ _

/-- `do_mutex_lock_acquire`. -/
theorem doMutexLockAcquire_still (mlockIdx : Int) :
    Meets anyStop (doMutexLockAcquire env mlockIdx) k fun _ => Still k := by
  unfold doMutexLockAcquire
  refine meets_ite (fun _ => .refl k) (fun _ => ?_)
  exact Still.bind (spinLockAcquire_still k _) fun _ k => mutexAcquireLoop_still k _

/-- `do_mutex_lock_release`. -/
theorem doMutexLockRelease_still (mlockIdx : Int) :
    Meets anyStop (doMutexLockRelease env mlockIdx) k fun _ => Still k := by
  unfold doMutexLockRelease
  refine meets_ite (fun _ => .refl k) (fun _ => ?_)
  refine Still.bind (spinLockAcquire_still k _) fun _ k => ?_
  rw [meets_get_bind]
  refine meets_ite (fun _ => release_still _ _ _) (fun _ => ?_)
  refine meets_ite (fun _ => release_still _ _ _) (fun _ => ?_)
  rw [meets_set_bind]
  apply Still.after (.objects k _ _ _ _ _)
  -- The first process that waits for the lock is woken, if there is one.
  refine meets_ite (fun _ => releaseNote_still _ _ _ _) (fun _ => ?_)
  exact Still.bind (doUnblock_still _ (by simp)) fun _ k => releaseNote_still k _ _ _

/-- The part of `ress_release_killed` about one mutex lock. -/
theorem mutexReleaseKilled_still (kpid i : Nat) :
    Meets anyStop (mutexReleaseKilled env kpid i) k fun _ => Still k := by
  unfold mutexReleaseKilled
  refine Still.bind (spinLockAcquire_still k _) fun _ k => ?_
  rw [meets_get_bind]
  refine meets_ite (fun _ => ?_) (fun _ => spinLockRelease_still _ _)
  split
  · rw [meets_set_bind]
    exact Still.after (.objects k _ _ _ _ _) (spinLockRelease_still _ _)
  · refine Still.bind (doUnblock_still k (by simp)) fun _ k => ?_
    rw [meets_modify_bind]
    exact Still.after (.objects k _ _ _ _ _) (spinLockRelease_still _ _)

/-- `do_semaphore_init`. -/
theorem doSemaphoreInit_still (key initial : Int) :
    Meets anyStop (doSemaphoreInit env key initial) k fun _ => Still k := by
  unfold doSemaphoreInit
  refine Still.bind (spinLockAcquire_still k _) fun _ k => ?_
  rw [meets_get_bind]
  refine meets_ite (fun _ => release_still _ _ _) (fun _ => ?_)
  rw [meets_set_bind]
  apply Still.after ((Still.clearQueue k (by simp)).trans (.objects _ _ _ _ _ _))
  exact releaseNote_still _ _ _ _

/-- `do_semaphore_up`. -/
theorem doSemaphoreUp_still (sidx : Int) :
    Meets anyStop (doSemaphoreUp env sidx) k fun _ => Still k := by
  unfold doSemaphoreUp
  refine meets_ite (fun _ => .refl k) (fun _ => ?_)
  refine Still.bind (spinLockAcquire_still k _) fun _ k => ?_
  rw [meets_get_bind]
  refine meets_ite (fun _ => release_still _ _ _) (fun _ => ?_)
  rw [meets_set_bind]
  apply Still.after (.objects k _ _ _ _ _)
  refine Still.bind (Still.note _ _) fun _ k₁ => ?_
  -- However the waiters are treated, the call goes on with the check and the spin lock.
  have last : ∀ k₂ : Kernel, Meets anyStop (do
      let k ← get
      let value := (k.semaphores sidx.toNat).value
      stopIf (0 ≤ value ∧ k.queue (.semaphore sidx.toNat) ≠ []) (.panic .semaphoreQueue)
      spinLockRelease (.semaphore sidx.toNat)
      return Out.returned value) k₂ fun _ => Still k₂ := by
    intro k₂
    rw [meets_get_bind]
    exact meets_stopIf_bind (fun _ => trivial) fun _ => release_still k₂ _ _
  refine meets_ite (fun _ => ?_) (fun _ => last k₁)
  refine meets_ite (fun _ => ?_) (fun _ => ?_)
  · rw [meets_modify_bind]
    exact Still.after (.objects k₁ _ _ _ _ _) (last _)
  · refine Still.bind (doUnblock_still k₁ (by simp)) fun _ k₂ => ?_
    exact Still.bind (Still.note k₂ _) fun _ => last

/-- The end of `do_semaphore_down`. -/
theorem semaphoreDownEnd_still (i : Nat) :
    Meets anyStop (semaphoreDownEnd i) k fun _ => Still k := by
  unfold semaphoreDownEnd
  rw [meets_get_bind]
  exact release_still k _ _

/-- `do_semaphore_down`. -/
theorem doSemaphoreDown_still (sidx : Int) :
    Meets anyStop (doSemaphoreDown env sidx) k fun _ => Still k := by
  unfold doSemaphoreDown
  refine meets_ite (fun _ => .refl k) (fun _ => ?_)
  refine Still.bind (spinLockAcquire_still k _) fun _ k => ?_
  rw [meets_get_bind]
  refine meets_ite (fun _ => release_still _ _ _) (fun _ => ?_)
  rw [meets_set_bind]
  apply Still.after (.objects k _ _ _ _ _)
  refine meets_ite (fun _ => blocked_still _ _ _ _ (by simp)) (fun _ => ?_)
  exact Still.bind (Still.note _ _) fun _ k => semaphoreDownEnd_still k _

/-- What is done to an object, and to all who wait in one of its queues. -/
theorem wakeAll_still {q : QueueRef} (lock : SpinLock) (away : ∀ x, q ≠ .wait x) :
    Meets anyStop (unblockAll env q >>= fun _ => spinLockRelease lock) k fun _ => Still k :=
  Still.bind (unblockWhile_still k _ away) fun _ k => spinLockRelease_still k lock

/-- `do_semaphore_destroy`. -/
theorem doSemaphoreDestroy_still (sidx : Int) :
    Meets anyStop (doSemaphoreDestroy env sidx) k fun _ => Still k := by
  unfold doSemaphoreDestroy
  refine meets_ite (fun _ => .refl k) (fun _ => ?_)
  refine Still.bind (spinLockAcquire_still k _) fun _ k => ?_
  rw [meets_get_bind]
  refine meets_ite (fun _ => release_still _ _ _) (fun _ => ?_)
  rw [meets_set_bind]
  apply Still.after (.objects k _ _ _ _ _)
  exact Still.bind (unblockWhile_still _ _ (by simp)) fun _ k => release_still k _ _

/-- The part of `ress_release_killed` about one semaphore. -/
theorem semaphoreReleaseKilled_still (kpid i : Nat) :
    Meets anyStop (semaphoreReleaseKilled env kpid i) k fun _ => Still k := by
  unfold semaphoreReleaseKilled
  refine Still.bind (spinLockAcquire_still k _) fun _ k => ?_
  rw [meets_get_bind]
  refine meets_ite (fun _ => ?_) (fun _ => spinLockRelease_still _ _)
  rw [meets_set_bind]
  exact Still.after (.objects k _ _ _ _ _) (wakeAll_still _ _ (by simp))

/-- `do_barrier_init`. -/
theorem doBarrierInit_still (key goal : Int) :
    Meets anyStop (doBarrierInit env key goal) k fun _ => Still k := by
  unfold doBarrierInit
  refine Still.bind (spinLockAcquire_still k _) fun _ k => ?_
  rw [meets_get_bind]
  refine meets_ite (fun _ => release_still _ _ _) (fun _ => ?_)
  rw [meets_set_bind]
  apply Still.after ((Still.clearQueue k (by simp)).trans (.objects _ _ _ _ _ _))
  exact release_still _ _ _

/-- `do_barrier_wait`. -/
theorem doBarrierWait_still (bidx : Int) :
    Meets anyStop (doBarrierWait env bidx) k fun _ => Still k := by
  unfold doBarrierWait
  refine meets_ite (fun _ => .refl k) (fun _ => ?_)
  refine Still.bind (spinLockAcquire_still k _) fun _ k => ?_
  rw [meets_get_bind]
  refine meets_ite (fun _ => release_still _ _ _) (fun _ => ?_)
  refine meets_ite (fun _ => ?_) (fun _ => ?_)
  · -- The last process comes, and all others are woken.
    rw [meets_set_bind]
    apply Still.after (.objects k _ _ _ _ _)
    exact Still.bind (unblockWhile_still _ _ (by simp)) fun _ k => releaseNote_still k _ _ _
  · rw [meets_set_bind]
    apply Still.after (.objects k _ _ _ _ _)
    exact blocked_still _ _ _ _ (by simp)

/-- `do_barrier_destroy`. -/
theorem doBarrierDestroy_still (bidx : Int) :
    Meets anyStop (doBarrierDestroy env bidx) k fun _ => Still k := by
  unfold doBarrierDestroy
  refine meets_ite (fun _ => .refl k) (fun _ => ?_)
  refine Still.bind (spinLockAcquire_still k _) fun _ k => ?_
  rw [meets_get_bind]
  refine meets_ite (fun _ => release_still _ _ _) (fun _ => ?_)
  rw [meets_set_bind]
  apply Still.after (.objects k _ _ _ _ _)
  exact Still.bind (unblockWhile_still _ _ (by simp)) fun _ k => release_still k _ _

/-- The part of `ress_release_killed` about one barrier. -/
theorem barrierReleaseKilled_still (kpid i : Nat) :
    Meets anyStop (barrierReleaseKilled env kpid i) k fun _ => Still k := by
  unfold barrierReleaseKilled
  refine Still.bind (spinLockAcquire_still k _) fun _ k => ?_
  rw [meets_get_bind]
  refine meets_ite (fun _ => ?_) (fun _ => spinLockRelease_still _ _)
  rw [meets_set_bind]
  exact Still.after (.objects k _ _ _ _ _) (wakeAll_still _ _ (by simp))

/-- `do_mbox_open` once the name is read. -/
theorem mboxOpen_still (s : Nat) : Meets anyStop (mboxOpen env s) k fun _ => Still k := by
  unfold mboxOpen
  refine Still.bind (spinLockAcquire_still k _) fun _ k => ?_
  rw [meets_get_bind]
  refine meets_ite (fun _ => ?_) (fun _ => release_still _ _ _)
  rw [meets_set_bind]
  have empties := (Still.clearQueue k (q := .mboxRecv (s % mboxNum)) (by simp)).trans
    (Still.clearQueue _ (q := .mboxSend (s % mboxNum)) (by simp))
  apply Still.after (empties.trans (.objects _ _ _ _ _ _))
  exact Still.bind (Still.note _ _) fun _ k => release_still k _ _

/-- `do_mbox_close`. -/
theorem doMboxClose_still (midx : Int) :
    Meets anyStop (doMboxClose env midx) k fun _ => Still k := by
  unfold doMboxClose
  refine meets_ite (fun _ => .refl k) (fun _ => ?_)
  refine Still.bind (spinLockAcquire_still k _) fun _ k => ?_
  rw [meets_get_bind]
  refine meets_ite (fun _ => release_still _ _ _) (fun _ => ?_)
  rw [meets_set_bind]
  apply Still.after (.objects k _ _ _ _ _)
  refine Still.bind (unblockWhile_still _ _ (by simp)) fun _ k => ?_
  exact Still.bind (unblockWhile_still _ _ (by simp)) fun _ k => release_still k _ _

/-- One round of `mbox_release_killed`. -/
theorem mailboxReleaseKilled_still (kpid i : Nat) :
    Meets anyStop (mailboxReleaseKilled env kpid i) k fun _ => Still k := by
  unfold mailboxReleaseKilled
  refine Still.bind (spinLockAcquire_still k _) fun _ k => ?_
  rw [meets_get_bind]
  refine meets_ite (fun _ => ?_) (fun _ => spinLockRelease_still _ _)
  rw [meets_set_bind]
  apply Still.after (.objects k _ _ _ _ _)
  refine Still.bind (unblockWhile_still _ _ (by simp)) fun _ k => ?_
  exact wakeAll_still _ _ (by simp)

/-- A loop of `ress_release_killed`. -/
theorem forUpto_still {body : Nat → KernelRoutine Unit}
    (round : ∀ i k, Meets anyStop (body i) k fun _ => Still k) (n : Nat) :
    Meets anyStop (forUpto n body) k fun _ => Still k :=
  meets_forUpto (fun _ => Still k) n (.refl k) fun i _ here before => before.after (round i here)

/-- `ress_release_killed`. -/
theorem ressReleaseKilled_still (kpid : Nat) :
    Meets anyStop (ressReleaseKilled env kpid) k fun _ => Still k := by
  unfold ressReleaseKilled
  refine Still.bind (forUpto_still k (fun i k => mutexReleaseKilled_still k kpid i) _) fun _ k => ?_
  refine Still.bind (forUpto_still k (fun i k => semaphoreReleaseKilled_still k kpid i) _)
    fun _ k => ?_
  refine Still.bind (forUpto_still k (fun i k => barrierReleaseKilled_still k kpid i) _)
    fun _ k => ?_
  exact forUpto_still k (fun i k => mailboxReleaseKilled_still k kpid i) _

/-- The copy loop of `do_mbox_send`. -/
theorem copyIn_still (i : Nat) (addrs : List Nat) :
    ∀ k, Meets anyStop (copyIn env i addrs) k fun _ => Still k := by
  induction addrs with
  | nil => exact fun k => .refl k
  | cons addr rest ih =>
    intro k
    unfold copyIn
    split
    · exact .refl k
    · rw [meets_get_bind]
      split
      · trivial
      · rw [meets_set_bind]
        exact Still.after (.objects k _ _ _ _ _) (ih _)

/-- The copy loop of `do_mbox_recv`. -/
theorem copyOut_still (i : Nat) (addrs : List Nat) :
    ∀ k, Meets anyStop (copyOut env i addrs) k fun _ => Still k := by
  induction addrs with
  | nil => exact fun k => .refl k
  | cons addr rest ih =>
    intro k
    unfold copyOut
    rw [meets_get_bind]
    split
    · trivial
    · rw [meets_set_bind]
      apply Still.after (.objects k _ _ _ _ _)
      exact meets_ite (fun _ => ih _) fun _ => .refl _

/-! ## Creation, and the network card -/

/-- `create_proc`. -/
theorem createProc_still (cpuMask : Nat) :
    Meets anyStop (createProc env cpuMask) k fun _ => Still k := by
  unfold createProc
  rw [meets_get_bind]
  refine meets_ite (fun _ => .refl k) (fun _ => ?_)
  split
  · trivial
  · refine meets_ite (fun _ => ?_) (fun _ => .refl k)
    exact Still.addPcb k _ _ _

/-- `start_glush`. -/
theorem startGlush_still : Meets anyStop (startGlush env) k fun _ => Still k := by
  unfold startGlush
  rw [meets_get_bind]
  refine Still.bind (createProc_still k _) fun created k => ?_
  -- Either way only the new process and what it is called may differ.
  cases created with
  | none => exact .of_pcb rfl rfl rfl (fun _ => rfl) List.suffix_rfl
  | some pid =>
    exact (Still.setMask k pid allCpus).trans (.of_pcb rfl rfl rfl (fun _ => rfl) List.suffix_rfl)

/-- `do_thread_create`. -/
theorem doThreadCreate_still (valid : Bool) :
    Meets anyStop (doThreadCreate env valid) k fun _ => Still k := by
  unfold doThreadCreate
  rw [meets_get_bind]
  split
  · exact .refl k
  · exact meets_ite (fun _ => .refl k) fun _ => Still.addPcb k _ _ _

/-- `do_fork`. -/
theorem doFork_still : Meets anyStop (doFork env) k fun _ => Still k := by
  unfold doFork
  rw [meets_get_bind]
  refine meets_ite (fun _ => .refl k) (fun _ => ?_)
  refine meets_ite (fun _ => .refl k) (fun _ => ?_)
  split
  · exact .refl k
  · exact meets_ite (fun _ => Still.addPcb k _ _ _) fun _ => .refl k

/-- `do_taskset`. -/
theorem doTaskset_still (pid : Int) (cpuMask : Nat) :
    Meets anyStop (doTaskset pid cpuMask) k fun _ => Still k := by
  unfold doTaskset
  rw [meets_get_bind]
  exact meets_ite (fun _ => .refl k) fun _ => Still.setMask k _ _

/-- `do_net_send`. -/
theorem doNetSend_still : Meets anyStop (doNetSend env) k fun _ => Still k := by
  unfold doNetSend
  exact meets_ite (fun _ => blocked_still k _ _ _ (by simp)) fun _ => .refl k

/-- `do_net_recv`. -/
theorem doNetRecv_still (left : Nat) :
    Meets anyStop (doNetRecv env left) k fun _ => Still k := by
  unfold doNetRecv
  refine meets_ite (fun _ => ?_) (fun _ => .refl k)
  rw [meets_modify_bind]
  apply Still.after (Still.setPcb k _ _ rfl fun _ => rfl)
  exact blocked_still _ _ _ _ (by simp)

/-- `handle_irq_ext`. -/
theorem handleIrqExt_still (txqe rxdmt0 : Bool) :
    Meets anyStop (handleIrqExt env txqe rxdmt0) k fun _ => Still k := by
  have receivers : ∀ k, Meets anyStop (do
      if rxdmt0 then unblockAll env .nicRecv else pure ()
      return Out.scheduled) k fun _ => Still k := by
    intro k
    refine meets_ite (fun _ => ?_) (fun _ => .refl k)
    exact Still.bind (unblockWhile_still k _ (by simp)) fun _ k => .refl k
  unfold handleIrqExt
  refine meets_ite (fun _ => ?_) (fun _ => receivers k)
  exact Still.bind (unblockWhile_still k _ (by simp)) fun _ => receivers

end

end GlucOS.Sched
