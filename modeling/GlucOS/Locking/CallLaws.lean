import GlucOS.Sched.KillLaws

/-! How the calls on mutex locks, semaphores and barriers end. -/

namespace GlucOS.Sched

open Routine

section

variable {env : Env} {cpu : Nat} {k k₁ k' : Kernel}

/-- What a process may block in favour of is not the process itself. -/
theorem CanBlock.differ {p : PcbRef} (can : CanBlock cpu k p) (ok : SchedOk cpu k)
    (small : cpu < ncpu) : p ≠ k.current cpu := by
  have runnable := can.runnable
  unfold Kernel.runnable at runnable
  simp only [Bool.and_eq_true, decide_eq_true_eq] at runnable
  exact fun same => ok.ready_not_current runnable.1 cpu small same.symm

/-- After blocking another process runs. -/
theorem CanBlock.runs {p : PcbRef} (can : CanBlock cpu k p) (ok : SchedOk cpu k)
    (small : cpu < ncpu) (q : QueueRef) (resume : Resume) :
    ((k.blockOn cpu q resume p).cur cpu).status = .running := by
  have differ := can.differ ok small
  unfold Kernel.cur Kernel.blockOn Kernel.setStatus
  simp [Kernel.setPcb, differ]

/-- A call that blocks while it holds a spin lock. -/
theorem Ends.block_locked {lock : SpinLock} (free : k.slock lock = false)
    (changes : Changes cpu none (k.hold lock) k') (slock : k'.slock = (k.hold lock).slock)
    (runs : (k'.cur cpu).status = .running) : Ends cpu none none k .blocked (k'.letGo lock) where
  changes := (Relation.ReflTransGen.head (.spin _) changes).tail (.spin _)
  slock := by
    show Function.update k'.slock lock false = k.slock
    rw [slock]
    unfold Kernel.hold
    rw [Function.update_idem, ← free, Function.update_eq_self]
  process := .inr ⟨by simp, runs⟩
  awake := .none _

/-- Clearing a queue leaves the ready queue alone. -/
theorem Kernel.clearQueue_ready {q : QueueRef} (blocked : q ≠ .ready) :
    (k.clearQueue q).queue .ready = k.queue .ready :=
  Function.update_of_ne blocked.symm _ _

/-! ## Mutex locks -/

/-- Asking for a mutex lock, also again after waking up. -/
theorem mutexAcquire_ends (ok : KernelOk env.cpu k) (small : env.cpu < ncpu)
    (runs : (k.cur env.cpu).status = .running) (user : ncpu ≤ k.current env.cpu) (i : Nat)
    (locking : ∀ j, (k.cur env.cpu).resume = .mutexAcquire j → j = i) :
    Meets (Stops k.slock) (spinLockAcquire (.mutex i) >>= fun _ => mutexAcquireLoop env i) k
      fun out k' => Ends env.cpu none none k out k' ∧
        ((∃ value, out = .returned value) → (k'.mlocks i).locked = true) := by
  refine meets_region fun free => ?_
  have held := (ok.hold small (.mutex i)).toSchedOk
  unfold mutexAcquireLoop
  rw [meets_get_bind]
  refine meets_ite (fun foreign => ?_) (fun mine => ?_)
  · refine Meets.bind (meets_doBlock_locked held small user
      (by show (k.cur env.cpu).status ≠ _; simp [runs]) _ _ (Kernel.hold_held k _)) ?_
    rintro _ _ ⟨p, can, rfl⟩
    refine ⟨.block_locked free (.single ?_) rfl (can.runs held small _ _), by simp⟩
    exact .mutex (.block foreign.1 foreign.2 can rfl locking)
  · rw [meets_set_bind]
    refine meets_spinLockRelease_bind (Kernel.hold_held k _) ?_
    have keeps : Keeps env.cpu none (k.hold (.mutex i))
        (((k.hold (.mutex i)).setMlock i ⟨true, some (k.cur env.cpu).pid⟩).note
          (.acquired i (k.current env.cpu) (k.cur env.cpu).pid)) := by
      refine .of_change (.mutex (.acquire fun locked => ?_)) (.objects rfl rfl rfl rfl rfl rfl)
      by_contra other
      exact mine ⟨locked, other⟩
    refine ⟨(keeps.locked free).ends ok.toSchedOk small _, fun _ => ?_⟩
    simp [Kernel.note, Kernel.letGo, Kernel.setMlock]

/-- `do_mutex_lock_acquire`. -/
theorem doMutexLockAcquire_ends (caller : Caller env.cpu k) (mlockIdx : Int) :
    Meets (Stops k.slock) (doMutexLockAcquire env mlockIdx) k (Ends env.cpu none none k) := by
  obtain ⟨ok, small, runs, user, locking⟩ := caller
  unfold doMutexLockAcquire
  refine meets_ite (fun _ => ?_) (fun _ => ?_)
  · exact (Keeps.refl env.cpu none k).ends ok.toSchedOk small _
  · refine (mutexAcquire_ends ok small runs user mlockIdx.toNat ?_).mono fun _ _ done => done.1
    exact fun j wanted => absurd wanted (locking j)

/-- `do_mutex_lock_release`. -/
theorem doMutexLockRelease_ends (caller : Caller env.cpu k) (mlockIdx : Int) :
    Meets (Stops k.slock) (doMutexLockRelease env mlockIdx) k (Ends env.cpu none none k) := by
  obtain ⟨ok, small, runs, user, locking⟩ := caller
  have goes := fun {k' : Kernel} (keeps : Keeps env.cpu none k k') => keeps.ends ok.toSchedOk small
  unfold doMutexLockRelease
  refine meets_ite (fun _ => goes (.refl _ _ k) _) (fun _ => ?_)
  refine meets_region fun free => ?_
  generalize mlockIdx.toNat = i at free ⊢
  have held := (ok.hold small (.mutex i)).toSchedOk
  rw [meets_get_bind]
  refine meets_ite (fun _ => ?_) (fun mine => ?_)
  · exact meets_spinLockRelease_bind (Kernel.hold_held k _) (goes (.nothing free) _)
  refine meets_ite (fun _ => ?_) (fun unlocked => ?_)
  · exact meets_spinLockRelease_bind (Kernel.hold_held k _) (goes (.nothing free) _)
  have locked : ((k.hold (.mutex i)).mlocks i).locked = true := by simpa using unlocked
  have own : ((k.hold (.mutex i)).mlocks i).opid = some ((k.hold (.mutex i)).cur env.cpu).pid := by
    by_contra other
    exact mine ⟨locked, other⟩
  rw [meets_set_bind]
  cases queued : (k.hold (.mutex i)).queue (.mutex i) with
  | nil =>
    rw [if_pos rfl]
    refine meets_spinLockRelease_bind (Kernel.hold_held k _) ?_
    rw [meets_noteDone]
    refine goes (Keeps.locked_note free ?_) _
    exact .of_change (.mutex (.releaseFree locked own queued)) (.objects rfl rfl rfl rfl rfl rfl)
  | cons h rest =>
    have unlocked' := held.setMlock i { (k.hold (.mutex i)).mlocks i with locked := false }
    rw [if_neg (by simp)]
    refine Meets.bind (meets_doUnblock unlocked' small queued (by simp)) ?_
    rintro _ _ rfl
    refine meets_spinLockRelease_bind (Kernel.hold_held k _) ?_
    rw [meets_noteDone]
    refine goes (Keeps.locked_note free ?_) _
    refine .of_change (.mutex (.releaseWake locked own queued rfl)) ?_
    have woken := Stirs.wake unlocked' small (mem_of_head queued) (by simp)
    refine Stirs.trans (Stirs.trans ?_ woken) ?_
    · exact .objects rfl rfl rfl rfl rfl rfl
    · exact .objects rfl rfl rfl rfl rfl rfl

/-! ## Semaphores -/

/-- `do_semaphore_init`. -/
theorem doSemaphoreInit_ends (caller : Caller env.cpu k) (key initial : Int) :
    Meets (Stops k.slock) (doSemaphoreInit env key initial) k (Ends env.cpu none none k) := by
  obtain ⟨ok, small, runs, user, locking⟩ := caller
  have goes := fun {k' : Kernel} (keeps : Keeps env.cpu none k k') => keeps.ends ok.toSchedOk small
  unfold doSemaphoreInit
  generalize (key % 2 ^ 32).toNat % semaphoreNum = i
  refine meets_region fun free => ?_
  rw [meets_get_bind]
  refine meets_ite (fun _ => ?_) (fun invalid => ?_)
  · exact meets_spinLockRelease_bind (Kernel.hold_held k _) (goes (.nothing free) _)
  · have closed : ((k.hold (.semaphore i)).semaphores i).opid = none := not_not.mp invalid
    rw [meets_set_bind]
    refine meets_spinLockRelease_bind (Kernel.hold_held k _) ?_
    rw [meets_noteDone]
    refine goes (Keeps.locked_note free ?_) _
    refine .of_change (.semaphore (.init _ (wrapInt32_lt initial) closed)) (.objects rfl ?_ rfl rfl rfl rfl)
    exact Kernel.clearQueue_ready (q := .semaphore i) (by simp)

/-- The counting part of `do_semaphore_up`. -/
theorem semaphoreUp_keeps (ok : KernelOk env.cpu k) (small : env.cpu < ncpu) (i : Nat)
    (valid : (k.semaphores i).opid ≠ none) {A : Type} {accepted : KernelStop → Prop}
    {rest : KernelRoutine A} {after : A → Kernel → Prop}
    (goes : ∀ k', Keeps env.cpu none k k' → Meets accepted rest k' after) :
    Meets accepted (do
      set (k.setSemaphore i { k.semaphores i with value := wrapInt32 ((k.semaphores i).value + 1) })
      noteDone (.semUp i)
      if (k.semaphores i).value < 0 then
        if k.queue (.semaphore i) = [] then
          modify fun next => next.setSemaphore i { k.semaphores i with value := 0 }
        else
          doUnblock env (.semaphore i)
          noteDone (.semGranted i)
      rest) k after := by
  have counted := (ok.toSchedOk.setSemaphore i
    { k.semaphores i with value := wrapInt32 ((k.semaphores i).value + 1) }).note (.semUp i)
  rw [meets_set_bind, meets_noteDone]
  refine meets_ite (fun negative => ?_) (fun nonneg => ?_)
  · cases queued : k.queue (.semaphore i) with
    | nil =>
      rw [if_pos rfl, meets_modify_bind]
      refine goes _ ?_
      have same : ((k.setSemaphore i { k.semaphores i with
          value := wrapInt32 ((k.semaphores i).value + 1) }).note (.semUp i)).setSemaphore i
            { k.semaphores i with value := 0 } =
          (k.setSemaphore i { k.semaphores i with value := 0 }).note (.semUp i) := by
        unfold Kernel.setSemaphore Kernel.note
        simp only [Function.update_idem]
      rw [same]
      exact .of_change (.semaphore (.upReset valid negative queued))
        (.objects rfl rfl rfl rfl rfl rfl)
    | cons h rest =>
      rw [if_neg (by simp)]
      refine Meets.bind (meets_doUnblock counted small queued (by simp)) ?_
      rintro _ _ rfl
      rw [meets_noteDone]
      refine goes _ (.of_change (.semaphore (.upWake valid negative queued rfl)) ?_)
      have woken := Stirs.wake counted small (mem_of_head queued) (by simp)
      refine Stirs.trans (Stirs.trans ?_ woken) ?_
      · exact .objects rfl rfl rfl rfl rfl rfl
      · exact .objects rfl rfl rfl rfl rfl rfl
  · exact goes _ (.of_change (.semaphore (.upFree valid (Int.not_lt.mp nonneg)))
      (.objects rfl rfl rfl rfl rfl rfl))

/-- `do_semaphore_up`. -/
theorem doSemaphoreUp_ends (caller : Caller env.cpu k) (sidx : Int) :
    Meets (fun reason => Stops k.slock reason ∨ reason = .panic .semaphoreQueue)
      (doSemaphoreUp env sidx) k (Ends env.cpu none none k) := by
  obtain ⟨ok, small, runs, user, locking⟩ := caller
  have goes := fun {k' : Kernel} (keeps : Keeps env.cpu none k k') => keeps.ends ok.toSchedOk small
  unfold doSemaphoreUp
  refine meets_ite (fun _ => goes (.refl _ _ k) _) (fun _ => ?_)
  refine meets_spinLockAcquire (fun held => .inl held) fun free => ?_
  generalize sidx.toNat = i at free ⊢
  have held := ok.hold small (.semaphore i)
  rw [meets_get_bind]
  refine meets_ite (fun _ => ?_) (fun valid => ?_)
  · exact meets_spinLockRelease_bind (Kernel.hold_held k _) (goes (.nothing free) _)
  refine semaphoreUp_keeps held small i valid fun k' keeps => ?_
  rw [meets_get_bind]
  refine meets_stopIf_bind (fun _ => .inr rfl) fun _ => ?_
  refine meets_spinLockRelease_bind (by rw [keeps.slock]; exact Kernel.hold_held k _) ?_
  exact goes (keeps.locked free) _

/-- `do_semaphore_down`. -/
theorem doSemaphoreDown_ends (caller : Caller env.cpu k) (sidx : Int) :
    Meets (Stops k.slock) (doSemaphoreDown env sidx) k (Ends env.cpu none none k) := by
  obtain ⟨ok, small, runs, user, locking⟩ := caller
  have goes := fun {k' : Kernel} (keeps : Keeps env.cpu none k k') => keeps.ends ok.toSchedOk small
  unfold doSemaphoreDown
  refine meets_ite (fun _ => goes (.refl _ _ k) _) (fun _ => ?_)
  refine meets_region fun free => ?_
  generalize sidx.toNat = i at free ⊢
  have held := ok.hold small (.semaphore i)
  rw [meets_get_bind]
  refine meets_ite (fun _ => ?_) (fun valid => ?_)
  · exact meets_spinLockRelease_bind (Kernel.hold_held k _) (goes (.nothing free) _)
  rw [meets_set_bind]
  refine meets_ite (fun negative => ?_) (fun nonneg => ?_)
  · have counted := held.toSchedOk.setSemaphore i { (k.hold (.semaphore i)).semaphores i with
      value := wrapInt32 (((k.hold (.semaphore i)).semaphores i).value - 1) }
    refine Meets.bind (meets_doBlock_locked counted small user
      (by show (k.cur env.cpu).status ≠ _; simp [runs]) _ _ (Kernel.hold_held k _)) ?_
    rintro _ _ ⟨p, can, rfl⟩
    refine .block_locked free (.single ?_) rfl (can.runs counted small _ _)
    exact .semaphore (.block valid negative ⟨can.queued, can.runnable, can.stays, can.user⟩ rfl
      locking)
  · rw [meets_noteDone]
    unfold semaphoreDownEnd
    rw [meets_get_bind]
    refine meets_spinLockRelease_bind (Kernel.hold_held k _) ?_
    refine goes (Keeps.locked free ?_) _
    exact .of_change (.semaphore (.pass valid (Int.not_lt.mp nonneg)))
      (.objects rfl rfl rfl rfl rfl rfl)

/-- `do_semaphore_destroy`. -/
theorem doSemaphoreDestroy_ends (caller : Caller env.cpu k) (sidx : Int) :
    Meets (Stops k.slock) (doSemaphoreDestroy env sidx) k (Ends env.cpu none none k) := by
  obtain ⟨ok, small, runs, user, locking⟩ := caller
  have goes := fun {k' : Kernel} (keeps : Keeps env.cpu none k k') => keeps.ends ok.toSchedOk small
  unfold doSemaphoreDestroy
  refine meets_ite (fun _ => goes (.refl _ _ k) _) (fun _ => ?_)
  refine meets_region fun free => ?_
  generalize sidx.toNat = i at free ⊢
  have held := ok.hold small (.semaphore i)
  rw [meets_get_bind]
  refine meets_ite (fun _ => ?_) (fun _ => ?_)
  · exact meets_spinLockRelease_bind (Kernel.hold_held k _) (goes (.nothing free) _)
  have invalid := held.toSchedOk.setSemaphore i
    { (k.hold (.semaphore i)).semaphores i with opid := none }
  rw [meets_set_bind]
  refine Meets.bind (meets_unblockAll invalid small (by simp)) ?_
  rintro _ k' ⟨wakes, empty⟩
  have stirs := Stirs.wakes small (by simp) wakes invalid
  refine meets_spinLockRelease_bind (by rw [stirs.slock]; exact Kernel.hold_held k _) ?_
  refine goes (Keeps.locked free (.of_change (.semaphore (.close wakes empty)) ?_)) _
  refine Stirs.trans ?_ stirs
  exact .objects rfl rfl rfl rfl rfl rfl

/-! ## Barriers -/

/-- `do_barrier_init`. -/
theorem doBarrierInit_ends (caller : Caller env.cpu k) (key goal : Int) :
    Meets (Stops k.slock) (doBarrierInit env key goal) k (Ends env.cpu none none k) := by
  obtain ⟨ok, small, runs, user, locking⟩ := caller
  have goes := fun {k' : Kernel} (keeps : Keeps env.cpu none k k') => keeps.ends ok.toSchedOk small
  unfold doBarrierInit
  generalize (key % 2 ^ 32).toNat % barrierNum = i
  refine meets_region fun free => ?_
  rw [meets_get_bind]
  refine meets_ite (fun _ => ?_) (fun invalid => ?_)
  · exact meets_spinLockRelease_bind (Kernel.hold_held k _) (goes (.nothing free) _)
  · have closed : ((k.hold (.barrier i)).barriers i).opid = none := not_not.mp invalid
    rw [meets_set_bind]
    refine meets_spinLockRelease_bind (Kernel.hold_held k _) ?_
    refine goes (Keeps.locked free ?_) _
    refine .of_change (.barrier (.init goal closed)) (.objects rfl ?_ rfl rfl rfl rfl)
    exact Kernel.clearQueue_ready (q := .barrier i) (by simp)

/-- `do_barrier_wait`. -/
theorem doBarrierWait_ends (caller : Caller env.cpu k) (bidx : Int) :
    Meets (Stops k.slock) (doBarrierWait env bidx) k (Ends env.cpu none none k) := by
  obtain ⟨ok, small, runs, user, locking⟩ := caller
  have goes := fun {k' : Kernel} (keeps : Keeps env.cpu none k k') => keeps.ends ok.toSchedOk small
  unfold doBarrierWait
  refine meets_ite (fun _ => goes (.refl _ _ k) _) (fun _ => ?_)
  refine meets_region fun free => ?_
  generalize bidx.toNat = i at free ⊢
  have held := ok.hold small (.barrier i)
  rw [meets_get_bind]
  refine meets_ite (fun _ => ?_) (fun valid => ?_)
  · exact meets_spinLockRelease_bind (Kernel.hold_held k _) (goes (.nothing free) _)
  refine meets_ite (fun all => ?_) (fun few => ?_)
  · have passed := held.toSchedOk.setBarrier i { (k.hold (.barrier i)).barriers i with come := 0 }
    rw [meets_set_bind]
    refine Meets.bind (meets_unblockAll passed small (by simp)) ?_
    rintro _ k' ⟨wakes, empty⟩
    have stirs := Stirs.wakes small (by simp) wakes passed
    refine meets_spinLockRelease_bind (by rw [stirs.slock]; exact Kernel.hold_held k _) ?_
    rw [meets_noteDone]
    refine goes (Keeps.locked_note free (.of_change (.barrier (.pass valid all rfl wakes empty)) ?_)) _
    refine Stirs.trans (Stirs.trans ?_ stirs) ?_
    · exact .objects rfl rfl rfl rfl rfl rfl
    · exact .objects rfl rfl rfl rfl rfl rfl
  · have counted := held.toSchedOk.setBarrier i { (k.hold (.barrier i)).barriers i with
      come := ((k.hold (.barrier i)).barriers i).come + 1 }
    rw [meets_set_bind]
    refine Meets.bind (meets_doBlock_locked counted small user
      (by show (k.cur env.cpu).status ≠ _; simp [runs]) _ _ (Kernel.hold_held k _)) ?_
    rintro _ _ ⟨p, can, rfl⟩
    refine .block_locked free (.single ?_) rfl (can.runs counted small _ _)
    exact .barrier (.block valid (Int.not_le.mp few)
      ⟨can.queued, can.runnable, can.stays, can.user⟩ rfl locking)

/-- `do_barrier_destroy`. -/
theorem doBarrierDestroy_ends (caller : Caller env.cpu k) (bidx : Int) :
    Meets (Stops k.slock) (doBarrierDestroy env bidx) k (Ends env.cpu none none k) := by
  obtain ⟨ok, small, runs, user, locking⟩ := caller
  have goes := fun {k' : Kernel} (keeps : Keeps env.cpu none k k') => keeps.ends ok.toSchedOk small
  unfold doBarrierDestroy
  refine meets_ite (fun _ => goes (.refl _ _ k) _) (fun _ => ?_)
  refine meets_region fun free => ?_
  generalize bidx.toNat = i at free ⊢
  have held := ok.hold small (.barrier i)
  rw [meets_get_bind]
  refine meets_ite (fun _ => ?_) (fun _ => ?_)
  · exact meets_spinLockRelease_bind (Kernel.hold_held k _) (goes (.nothing free) _)
  have invalid := held.toSchedOk.setBarrier i { (k.hold (.barrier i)).barriers i with opid := none }
  rw [meets_set_bind]
  refine Meets.bind (meets_unblockAll invalid small (by simp)) ?_
  rintro _ k' ⟨wakes, empty⟩
  have stirs := Stirs.wakes small (by simp) wakes invalid
  refine meets_spinLockRelease_bind (by rw [stirs.slock]; exact Kernel.hold_held k _) ?_
  refine goes (Keeps.locked free (.of_change (.barrier (.close wakes empty)) ?_)) _
  refine Stirs.trans ?_ stirs
  exact .objects rfl rfl rfl rfl rfl rfl

end

end GlucOS.Sched
