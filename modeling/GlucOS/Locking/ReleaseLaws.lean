import GlucOS.Sched.RoutineLaws

/-! What a killed process gives back, and that its killer goes on. -/

namespace GlucOS.Sched

open Routine

section

variable {env : Env} {victim : Option Nat} {kpid : Nat} {k k' : Kernel}

/-- Holding a spin lock keeps the invariant. -/
theorem KernelOk.hold {cpu : Nat} (ok : KernelOk cpu k) (small : cpu < ncpu) (lock : SpinLock) :
    KernelOk cpu (k.hold lock) := by
  have change : Change cpu none k (k.hold lock) := .spin _
  exact change.ok ok small

/-- A region under one spin lock, as a whole. -/
theorem meets_region {A : Type} {lock : SpinLock} {rest : Unit → KernelRoutine A}
    {after : A → Kernel → Prop}
    (goes : k.slock lock = false → Meets (Stops k.slock) (rest ()) (k.hold lock) after) :
    Meets (Stops k.slock) (spinLockAcquire lock >>= rest) k after :=
  meets_spinLockAcquire (fun held => held) goes

/-- Leaving a region in which nothing has happened. -/
theorem Keeps.nothing {cpu : Nat} {lock : SpinLock} (free : k.slock lock = false) :
    Keeps cpu victim k ((k.hold lock).letGo lock) := .locked free (.refl _ _ _)

/-- A mutex lock of a process that has ended is freed, or handed over. -/
theorem mutexReleaseKilled_keeps (victim : Option Nat) (ok : KernelOk env.cpu k)
    (small : env.cpu < ncpu) {i : Nat} (silent : holder i k.history ≠ some kpid) :
    Meets (Stops k.slock) (mutexReleaseKilled env kpid i) k fun _ k' =>
      Keeps env.cpu victim k k' ∧ k'.history = k.history := by
  unfold mutexReleaseKilled
  refine meets_region fun free => ?_
  have held := ok.hold small (.mutex i)
  rw [meets_get_bind]
  refine meets_ite (fun owned => ?_) (fun _ => ?_)
  · obtain ⟨locked, own⟩ := owned
    cases queued : (k.hold (.mutex i)).queue (.mutex i) with
    | nil =>
      simp only [meets_set_bind]
      refine meets_spinLockRelease (Kernel.hold_held k _) ⟨.locked free ?_, rfl⟩
      exact .of_change (.mutex (.killedFree silent locked own queued))
        (.objects rfl rfl rfl rfl rfl rfl)
    | cons h rest =>
      simp only
      refine Meets.bind (meets_doUnblock held.toSchedOk small queued (by simp)) ?_
      rintro _ _ rfl
      rw [meets_modify_bind]
      refine meets_spinLockRelease (Kernel.hold_held k _) ⟨.locked free ?_, rfl⟩
      rw [Kernel.wake_pcb_same]
      refine .of_change (.mutex (.handOver silent locked own queued)) ?_
      exact (Stirs.wake held.toSchedOk small (mem_of_head queued) (by simp)).trans
        (.objects rfl rfl rfl rfl rfl rfl)
  · exact meets_spinLockRelease (Kernel.hold_held k _) ⟨.nothing free, rfl⟩

/-- A semaphore of a process that has ended becomes invalid. -/
theorem semaphoreReleaseKilled_keeps (victim : Option Nat) (ok : KernelOk env.cpu k)
    (small : env.cpu < ncpu) (i : Nat) :
    Meets (Stops k.slock) (semaphoreReleaseKilled env kpid i) k fun _ =>
      Keeps env.cpu victim k := by
  unfold semaphoreReleaseKilled
  refine meets_region fun free => ?_
  have held := ok.hold small (.semaphore i)
  rw [meets_get_bind]
  refine meets_ite (fun owned => ?_) (fun _ => ?_)
  · have invalid := held.toSchedOk.setSemaphore i
      { (k.hold (.semaphore i)).semaphores i with opid := none }
    rw [meets_set_bind]
    refine Meets.bind (meets_unblockAll invalid small (by simp)) ?_
    rintro _ k' ⟨wakes, empty⟩
    have stirs := Stirs.wakes small (by simp) wakes invalid
    refine meets_spinLockRelease (by rw [stirs.slock]; exact Kernel.hold_held k _) ?_
    refine .locked free (.of_change (.semaphore (.close wakes empty)) ?_)
    refine Stirs.trans ?_ stirs
    exact .objects rfl rfl rfl rfl rfl rfl
  · exact meets_spinLockRelease (Kernel.hold_held k _) (.nothing free)

/-- A barrier of a process that has ended becomes invalid. -/
theorem barrierReleaseKilled_keeps (victim : Option Nat) (ok : KernelOk env.cpu k)
    (small : env.cpu < ncpu) (i : Nat) :
    Meets (Stops k.slock) (barrierReleaseKilled env kpid i) k fun _ => Keeps env.cpu victim k := by
  unfold barrierReleaseKilled
  refine meets_region fun free => ?_
  have held := ok.hold small (.barrier i)
  rw [meets_get_bind]
  refine meets_ite (fun owned => ?_) (fun _ => ?_)
  · have invalid := held.toSchedOk.setBarrier i
      { (k.hold (.barrier i)).barriers i with opid := none }
    rw [meets_set_bind]
    refine Meets.bind (meets_unblockAll invalid small (by simp)) ?_
    rintro _ k' ⟨wakes, empty⟩
    have stirs := Stirs.wakes small (by simp) wakes invalid
    refine meets_spinLockRelease (by rw [stirs.slock]; exact Kernel.hold_held k _) ?_
    refine .locked free (.of_change (.barrier (.close wakes empty)) ?_)
    refine Stirs.trans ?_ stirs
    exact .objects rfl rfl rfl rfl rfl rfl
  · exact meets_spinLockRelease (Kernel.hold_held k _) (.nothing free)

/-- The receivers and senders of a mailbox that is closed are woken. -/
theorem meets_closeMailbox {A : Type} (victim : Option Nat) {accepted : KernelStop → Prop}
    (ok : KernelOk env.cpu k) (small : env.cpu < ncpu) (i : Nat) {rest : KernelRoutine A}
    {after : A → Kernel → Prop}
    (goes : ∀ k', Keeps env.cpu victim k k' → Meets accepted rest k' after) :
    Meets accepted (do
      set (k.setMailbox i { k.mailboxes i with opid := none })
      unblockAll env (.mboxRecv i)
      unblockAll env (.mboxSend i)
      rest) k after := by
  have closed := ok.toSchedOk.setMailbox i { k.mailboxes i with opid := none }
  rw [meets_set_bind]
  refine Meets.bind (meets_unblockAll closed small (by simp)) ?_
  rintro _ k₁ ⟨receivers, noReceivers⟩
  obtain ⟨ok₁, -⟩ := Frame.wakes (ofMailbox i) victim small (by simp) (.inl (.inr rfl))
    receivers closed
  refine Meets.bind (meets_unblockAll ok₁ small (by simp)) ?_
  rintro _ k' ⟨senders, noSenders⟩
  obtain ⟨-, frame⟩ := Frame.wakes (QueueRef.mboxSend i = ·) victim small (by simp) (.inl rfl)
    senders ok₁
  -- Waking the senders brings no receiver back.
  have stillNone : k'.queue (.mboxRecv i) = [] := by
    have shrunk := frame.shrink (.mboxRecv i) (by simp) rfl (by simp)
    rw [noReceivers] at shrunk
    exact List.sublist_nil.mp shrunk
  refine goes k' (.of_change (.mailbox (.close receivers senders stillNone noSenders)) ?_)
  refine Stirs.trans ?_ ((Stirs.wakes small (by simp) receivers closed).trans
    (Stirs.wakes small (by simp) senders ok₁))
  exact .objects rfl rfl rfl rfl rfl rfl

/-- A mailbox of a process that has ended is closed. -/
theorem mailboxReleaseKilled_keeps (victim : Option Nat) (ok : KernelOk env.cpu k)
    (small : env.cpu < ncpu) (i : Nat) :
    Meets (Stops k.slock) (mailboxReleaseKilled env kpid i) k fun _ => Keeps env.cpu victim k := by
  unfold mailboxReleaseKilled
  refine meets_region fun free => ?_
  have held := ok.hold small (.mailbox i)
  rw [meets_get_bind]
  refine meets_ite (fun owned => ?_) (fun _ => ?_)
  · refine meets_closeMailbox victim held small i fun k' keeps => ?_
    refine meets_spinLockRelease (by rw [keeps.slock]; exact Kernel.hold_held k _) ?_
    exact .locked free keeps
  · exact meets_spinLockRelease (Kernel.hold_held k _) (.nothing free)

/-- A loop of rounds that each let the current process go on. -/
theorem meets_rounds (victim : Option Nat) {body : Nat → KernelRoutine Unit} (n : Nat)
    (round : ∀ i < n, ∀ k', Keeps env.cpu victim k k' →
      Meets (Stops k'.slock) (body i) k' fun _ => Keeps env.cpu victim k') :
    Meets (Stops k.slock) (forUpto n body) k fun _ => Keeps env.cpu victim k := by
  refine meets_forUpto (fun _ => Keeps env.cpu victim k) n (.refl _ _ _) ?_
  intro i small k' keeps
  rw [← keeps.slock]
  exact (round i small k' keeps).mono fun _ _ more => keeps.trans more

/-- `ress_release_killed` lets the current process go on. -/
theorem ressReleaseKilled_keeps (victim : Option Nat) (ok : KernelOk env.cpu k)
    (small : env.cpu < ncpu) (silent : ∀ i, holder i k.history ≠ some kpid) :
    Meets (Stops k.slock) (ressReleaseKilled env kpid) k fun _ => Keeps env.cpu victim k := by
  unfold ressReleaseKilled
  -- Nothing is noted while the locks are released, so that none is held by the killed process.
  have mutexes : Meets (Stops k.slock) (forUpto lockNum (mutexReleaseKilled env kpid)) k
      fun _ k' => Keeps env.cpu victim k k' ∧ k'.history = k.history := by
    refine meets_forUpto (fun _ k' => Keeps env.cpu victim k k' ∧ k'.history = k.history)
      lockNum ⟨.refl _ _ _, rfl⟩ ?_
    rintro i - k' ⟨keeps, history⟩
    rw [← keeps.slock]
    have quiet : holder i k'.history ≠ some kpid := by
      rw [history]
      exact silent i
    refine (mutexReleaseKilled_keeps victim (keeps.ok ok small) small quiet).mono ?_
    rintro _ _ ⟨more, same⟩
    exact ⟨keeps.trans more, same.trans history⟩
  refine Meets.bind mutexes ?_
  rintro _ k₁ ⟨keeps₁, -⟩
  have ok₁ := keeps₁.ok ok small
  rw [← keeps₁.slock]
  refine Meets.bind (meets_rounds victim _ fun i _ k' keeps =>
    semaphoreReleaseKilled_keeps victim (keeps.ok ok₁ small) small i) ?_
  rintro _ k₂ keeps₂
  have ok₂ := keeps₂.ok ok₁ small
  rw [← keeps₂.slock]
  refine Meets.bind (meets_rounds victim _ fun i _ k' keeps =>
    barrierReleaseKilled_keeps victim (keeps.ok ok₂ small) small i) ?_
  rintro _ k₃ keeps₃
  have ok₃ := keeps₃.ok ok₂ small
  rw [← keeps₃.slock]
  refine (meets_rounds victim _ fun i _ k' keeps =>
    mailboxReleaseKilled_keeps victim (keeps.ok ok₃ small) small i).mono ?_
  exact fun _ _ keeps₄ => keeps₁.trans (keeps₂.trans (keeps₃.trans keeps₄))

end

end GlucOS.Sched
