import GlucOS.Locking.NoteLaws
import GlucOS.Locking.SemaphoreLaws

/-! The value of a semaphore covers those who wait for it, until it is counted below its end. -/

namespace GlucOS.Sched

open Routine

/-- A 32-bit value that is as far below zero as so many wait. -/
structure CoversWaiters (value : Int) (waiters : Nat) : Prop where
  /-- The value is not below the least one. -/
  low : int32Min ≤ value
  /-- Nor above the greatest one. -/
  high : value < 2 ^ 31
  /-- No more wait than it is below zero. -/
  covers : (waiters : Int) ≤ max 0 (-value)

namespace CoversWaiters

variable {value : Int} {waiters : Nat}

/-- A wrapped value fits. -/
theorem of_wrapped (covers : (waiters : Int) ≤ max 0 (-wrapInt32 value)) :
    CoversWaiters (wrapInt32 value) waiters where
  low := by
    unfold wrapInt32 int32Min
    omega
  high := wrapInt32_lt value
  covers := covers

/-- While the value is not negative, nobody waits. -/
theorem nobody (covers : CoversWaiters value waiters) (nonneg : 0 ≤ value) : waiters = 0 := by
  have few := covers.covers
  omega

/-- Any initial value covers an empty queue. -/
theorem start (value : Int) : CoversWaiters (wrapInt32 value) 0 := by
  apply of_wrapped
  omega

/-- A token comes, and nobody waits for it. -/
theorem put (covers : CoversWaiters value waiters) (nonneg : 0 ≤ value) :
    CoversWaiters (wrapInt32 (value + 1)) waiters := by
  have none := covers.nobody nonneg
  apply of_wrapped
  omega

/-- A token comes, and the first who waits gets it. -/
theorem handOn (covers : CoversWaiters value (waiters + 1)) (negative : value < 0) :
    CoversWaiters (wrapInt32 (value + 1)) waiters := by
  have few := covers.covers
  have low := covers.low
  unfold int32Min at low
  apply of_wrapped
  rw [wrapInt32_of_fits (by omega) (by omega)]
  push_cast at few
  omega

/-- A token is taken, unless the value is the least one while somebody waits. -/
theorem take (covers : CoversWaiters value waiters)
    (nonneg : 0 ≤ wrapInt32 (value - 1)) (safe : value = int32Min → waiters = 0) :
    CoversWaiters (wrapInt32 (value - 1)) waiters := by
  have few := covers.covers
  have low := covers.low
  have high := covers.high
  have none : waiters = 0 := by
    by_cases least : value = int32Min
    · exact safe least
    · -- Without wrapping the value was positive.
      unfold int32Min at least low
      rw [wrapInt32_of_fits (by omega) (by omega)] at nonneg
      omega
  apply of_wrapped
  omega

/-- One more waits. -/
theorem join (covers : CoversWaiters value waiters) (negative : wrapInt32 (value - 1) < 0) :
    CoversWaiters (wrapInt32 (value - 1)) (waiters + 1) := by
  have few := covers.covers
  have low := covers.low
  have high := covers.high
  apply of_wrapped
  push_cast
  unfold int32Min at low
  unfold wrapInt32 at *
  omega

/-- Some who wait are killed. -/
theorem fewer (covers : CoversWaiters value waiters) {left : Nat} (less : left ≤ waiters) :
    CoversWaiters value left where
  low := covers.low
  high := covers.high
  covers := by
    have few := covers.covers
    omega

end CoversWaiters

/-- The value of a valid semaphore covers those who wait for it and are not to be killed. -/
def SemCovered (i : Nat) (victim : Option Nat) (k : Kernel) : Prop :=
  (k.semaphores i).opid ≠ none →
    CoversWaiters (k.semaphores i).value (k.waiting victim (.semaphore i)).length

/-- The values of all valid semaphores cover those who wait. -/
def AllCovered (k : Kernel) : Prop := ∀ i, SemCovered i none k

section

variable {cpu i : Nat} {victim : Option Nat} {own : QueueRef → Prop} {k k' : Kernel} {env : Env}
  {h : PcbRef} {rest : List PcbRef} {sema : Semaphore}

/-! ## Events that set no value -/

/-- A change that spares a semaphore. -/
theorem SemCovered.frame (covered : SemCovered i victim k) (frame : Frame own victim k k')
    (foreign : ¬ own (.semaphore i)) : SemCovered i victim k' := by
  unfold SemCovered
  rw [frame.semaphores i foreign, frame.waiting _ (by simp) rfl foreign]
  exact covered

/-- A note about a semaphore is one more. -/
theorem Kernel.length_semNotes (k : Kernel) {entry : Note} (about : entry.isSem = true) :
    (k.note entry).semNotes.length = k.semNotes.length + 1 := by
  unfold Kernel.semNotes Kernel.note
  rw [List.filter_cons_of_pos about, List.length_cons]

/-- No note about a semaphore is lost. -/
theorem semNotes_le (kept : k.history <:+ k'.history) :
    k.semNotes.length ≤ k'.semNotes.length := (kept.filter _).length_le

/-- A change of a semaphore keeps the notes. -/
theorem SemaphoreChange.history (change : SemaphoreChange cpu victim i k k') :
    k.history <:+ k'.history := by
  cases change with
  | init value fits closed => exact List.suffix_cons _ _
  | upFree valid nonneg => exact List.suffix_cons _ _
  | upReset valid neg empty => exact List.suffix_cons _ _
  | upWake valid neg queued calm => exact (List.suffix_cons _ _).trans (List.suffix_cons _ _)
  | pass valid nonneg => exact List.suffix_cons _ _
  | block valid neg can calm locking => exact List.suffix_rfl
  | close wakes empty =>
    rw [wakes.history]
    exact List.suffix_rfl

/-- A change of a semaphore that notes nothing. -/
theorem SemCovered.change (covered : SemCovered i victim k)
    (change : SemaphoreChange cpu victim i k k')
    (silent : k'.semNotes.length = k.semNotes.length) : SemCovered i victim k' := by
  -- All but blocking and destroying are noted.
  have noted : ∀ (here : Kernel) (entry : Note), k.semNotes.length ≤ here.semNotes.length →
      entry.isSem = true → (here.note entry).semNotes.length ≠ k.semNotes.length := by
    intro here entry kept about
    rw [here.length_semNotes about]
    omega
  -- A noted change contradicts the silence, and destroying makes the semaphore invalid.
  cases change with
  | init value fits closed => exact absurd silent (noted _ _ (semNotes_le List.suffix_rfl) rfl)
  | upFree valid nonneg => exact absurd silent (noted _ _ (semNotes_le List.suffix_rfl) rfl)
  | upReset valid neg empty => exact absurd silent (noted _ _ (semNotes_le List.suffix_rfl) rfl)
  | upWake valid neg queued calm =>
    exact absurd silent (noted _ _ (semNotes_le (List.suffix_cons _ _)) rfl)
  | pass valid nonneg => exact absurd silent (noted _ _ (semNotes_le List.suffix_rfl) rfl)
  | @block p valid neg can calm locking =>
    subst calm
    intro _
    have joined := (covered valid).join neg
    rw [Kernel.waiting_none] at joined ⊢
    rw [Kernel.blockOn_queue, List.length_append, List.length_singleton]
    show CoversWaiters (Function.update k.semaphores i _ i).value ((k.queue _).length + 1)
    rw [Function.update_self]
    exact joined
  | close wakes empty =>
    intro valid
    have invalid : (k'.semaphores i).opid = none := by
      rw [wakes.semaphores]
      simp [Kernel.setSemaphore]
    exact absurd invalid valid

/-- An event that sets no value of a semaphore. -/
theorem step_covers {event : Event} {out : Out} (resting : Resting k) (covered : AllCovered k)
    (other : ¬ SetsSem k event) (ran : step event k = .ok (out, k')) : AllCovered k' := by
  intro i
  have steps := steps_of_ran resting ran
  -- Who is killed by the event need not be covered.
  have before : SemCovered i (Sched.victim k event) k := by
    intro valid
    have all := covered i valid
    rw [Kernel.waiting_none] at all
    exact all.fewer (List.length_filter_le _ _)
  have after : k.semNotes.length ≤ k'.semNotes.length ∧
      (k'.semNotes.length = k.semNotes.length → SemCovered i (Sched.victim k event) k') := by
    apply @ran_invariant _ _ _ _ (fun here => k.semNotes.length ≤ here.semNotes.length ∧
      (here.semNotes.length = k.semNotes.length → SemCovered i (Sched.victim k event) here))
      resting ran
    -- A change is about the semaphore, or leaves it and its queue alone.
    · intro k₁ k₂ ok change more
      obtain ⟨grown, soFar⟩ := more
      rcases change.semaphore_or_frame ok (enabled_of_ran ran).1 i with about | frame
      · have longer := semNotes_le about.history
        constructor
        · omega
        · intro silent
          exact (soFar (by omega)).change about (by omega)
      · obtain ⟨later, history, -⟩ := frame.history
        have longer := semNotes_le ⟨later, history.symm⟩
        constructor
        · omega
        · intro silent
          exact (soFar (by omega)).frame frame (by simp)
    · exact fun _ _ _ _ _ more => more
    · exact ⟨Nat.le_refl _, fun _ => before⟩
  have silent : k'.semNotes.length = k.semNotes.length :=
    congrArg List.length (step_semNotes other ran)
  -- Afterwards nobody waits who was to be killed.
  have ended := after.2 silent
  unfold SemCovered at ended ⊢
  rw [steps.awake.waiting steps.rests.ok.toSchedOk (by simp)] at ended
  rwa [Kernel.waiting_none]

/-! ## The calls that set a value -/

/-- The panic of `do_semaphore_up`. -/
def noQueuePanic (reason : KernelStop) : Prop := reason ≠ .panic .semaphoreQueue

/-- Semaphores and their queues are all that matters. -/
theorem AllCovered.same (covered : AllCovered k) (semaphores : k'.semaphores = k.semaphores)
    (queue : ∀ i, k'.queue (.semaphore i) = k.queue (.semaphore i)) : AllCovered k' := by
  intro i
  unfold SemCovered
  rw [semaphores, Kernel.waiting_none, queue, ← Kernel.waiting_none]
  exact covered i

/-- One semaphore and its queue change. -/
theorem AllCovered.set (covered : AllCovered k)
    (semaphores : k'.semaphores = Function.update k.semaphores i sema)
    (covers : CoversWaiters sema.value (k'.queue (.semaphore i)).length)
    (queue : ∀ j ≠ i, k'.queue (.semaphore j) = k.queue (.semaphore j)) : AllCovered k' := by
  intro j
  unfold SemCovered
  rw [semaphores, Kernel.waiting_none]
  -- The other semaphores and their queues are as before.
  by_cases same : j = i
  · subst same
    rw [Function.update_self]
    exact fun _ => covers
  · rw [Function.update_of_ne same, queue j same, ← Kernel.waiting_none]
    exact covered j

/-- `spin_lock_acquire`. -/
theorem spinLockAcquire_covers (covered : AllCovered k) (lock : SpinLock) :
    Meets noQueuePanic (spinLockAcquire lock) k fun _ k' => AllCovered k' := by
  unfold spinLockAcquire
  rw [meets_get_bind]
  split
  · simp [noQueuePanic]
  · exact covered.same rfl fun _ => rfl

/-- `spin_lock_release`. -/
theorem spinLockRelease_covers (covered : AllCovered k) (lock : SpinLock) :
    Meets noQueuePanic (spinLockRelease lock) k fun _ k' => AllCovered k' := by
  unfold spinLockRelease
  rw [meets_get_bind]
  split
  · exact covered.same rfl fun _ => rfl
  · simp [noQueuePanic]

/-- Releasing a lock before an answer. -/
theorem release_covers (covered : AllCovered k) (lock : SpinLock) (out : Out) :
    Meets noQueuePanic (do spinLockRelease lock; return out) k fun _ k' => AllCovered k' :=
  (spinLockRelease_covers covered lock).bind fun _ _ kept => kept

/-- `do_semaphore_init`. -/
theorem doSemaphoreInit_covers (covered : AllCovered k) (key initial : Int) :
    Meets noQueuePanic (doSemaphoreInit env key initial) k fun _ k' => AllCovered k' := by
  unfold doSemaphoreInit
  apply (spinLockAcquire_covers covered _).bind
  intro _ k₁ covered₁
  rw [meets_get_bind]
  apply meets_ite
  · exact fun _ => release_covers covered₁ _ _
  · intro _
    rw [meets_set_bind]
    -- Nobody is in the queue of a new semaphore.
    apply Meets.bind (spinLockRelease_covers (covered₁.set rfl _ _) _)
    · exact fun _ k₂ covered₂ => covered₂.same rfl fun _ => rfl
    · show CoversWaiters _ (Function.update k₁.queue _ [] _).length
      rw [Function.update_self]
      exact .start initial
    · intro j other
      exact Function.update_of_ne (by simpa using other) ..

/-- The check of `do_semaphore_up` passes where the value covers those who wait. -/
theorem semaphoreUpEnd_covers (covered : AllCovered k) (valid : (k.semaphores i).opid ≠ none) :
    Meets noQueuePanic (do
      let k ← get
      let value := (k.semaphores i).value
      stopIf (0 ≤ value ∧ k.queue (.semaphore i) ≠ []) (.panic .semaphoreQueue)
      spinLockRelease (.semaphore i)
      return .returned value : KernelRoutine Out) k fun _ k' => AllCovered k' := by
  rw [meets_get_bind]
  apply meets_stopIf_bind
  · intro failed
    have none := (covered i valid).nobody failed.1
    rw [Kernel.waiting_none] at none
    exact absurd (List.eq_nil_of_length_eq_zero none) failed.2
  · exact fun _ => release_covers covered _ _

/-- `do_unblock` of somebody who waits. -/
theorem doUnblock_wakes {q : QueueRef} (queued : k.queue q = h :: rest) :
    Meets noQueuePanic (doUnblock env q) k fun _ k' => k' = k.wake env.cpu q h := by
  unfold doUnblock
  rw [meets_get_bind, queued]
  dsimp only
  split
  · simp [noQueuePanic]
  · split
    · simp [noQueuePanic]
    · rw [meets_set]

/-- `do_semaphore_up`. -/
theorem doSemaphoreUp_covers (covered : AllCovered k) (sidx : Int) :
    Meets noQueuePanic (doSemaphoreUp env sidx) k fun _ k' => AllCovered k' := by
  unfold doSemaphoreUp
  apply meets_ite
  · exact fun _ => covered
  intro _
  apply (spinLockAcquire_covers covered _).bind
  intro _ k₁ covered₁
  generalize sidx.toNat = i
  rw [meets_get_bind]
  apply meets_ite
  · exact fun _ => release_covers covered₁ _ _
  intro valid
  have covers := covered₁ i valid
  rw [Kernel.waiting_none] at covers
  -- Counting up keeps the owner, so the semaphore stays valid.
  have kept : ∀ (semaphores : Nat → Semaphore) (value : Int),
      (Function.update semaphores i { k₁.semaphores i with value } i).opid ≠ none := by
    intro semaphores value
    rw [Function.update_self]
    exact valid
  rw [meets_set_bind, meets_noteDone]
  apply meets_ite
  · intro negative
    cases queued : k₁.queue (.semaphore i) with
    | nil =>
      -- Nobody waits, and the value starts anew.
      rw [if_pos rfl, meets_modify_bind]
      apply semaphoreUpEnd_covers
      · apply covered₁.set (Function.update_idem ..)
        · show CoversWaiters 0 (k₁.queue (.semaphore i)).length
          rw [queued]
          exact .start 0
        · exact fun _ _ => rfl
      · exact kept _ _
    | cons h rest =>
      rw [if_neg (by simp)]
      have first : ((k₁.setSemaphore i { k₁.semaphores i with
          value := wrapInt32 ((k₁.semaphores i).value + 1) }).note (.semUp i)).queue
            (.semaphore i) = h :: rest := queued
      apply Meets.bind (doUnblock_wakes first)
      intro _ k₂ woken
      subst woken
      rw [meets_noteDone]
      apply semaphoreUpEnd_covers
      · -- The first one is woken, and the others are one less.
        apply covered₁.set rfl
        · show CoversWaiters _ ((Kernel.wake _ env.cpu (.semaphore i) h).queue (.semaphore i)).length
          rw [Kernel.wake_source _ env.cpu h (by simp)]
          show CoversWaiters _ ((k₁.queue (.semaphore i)).erase h).length
          rw [queued, List.length_cons] at covers
          rw [queued, List.erase_cons_head]
          exact covers.handOn negative
        · intro j other
          have differ : QueueRef.semaphore j ≠ .semaphore i := by simpa using other
          have blocked : QueueRef.semaphore j ≠ .ready := by simp
          exact Kernel.wake_other _ env.cpu h blocked differ
      · exact kept _ _
  -- A value that is not negative covers nobody, so there is nobody to wake.
  · intro nonneg
    apply semaphoreUpEnd_covers
    · apply covered₁.set rfl
      · exact covers.put (Int.not_lt.mp nonneg)
      · exact fun _ _ => rfl
    · exact kept _ _

/-- `do_block` of the current process. -/
theorem doBlock_blocks {q : QueueRef} (slock : Option SpinLock) (resume : Resume) :
    Meets noQueuePanic (doBlock env q slock resume) k fun _ k' =>
      ∃ p slocks, k' = { k.blockOn env.cpu q resume p with slock := slocks } := by
  unfold doBlock
  rw [meets_get_bind]
  split
  · simp [noQueuePanic]
  · rename_i p found
    apply meets_ite
    · simp [noQueuePanic]
    · intro _
      rw [meets_set_bind]
      cases slock with
      | none => exact ⟨p, _, rfl⟩
      | some lock =>
        show Meets noQueuePanic (spinLockRelease lock) _ _
        unfold spinLockRelease
        rw [meets_get_bind]
        split
        · exact ⟨p, _, rfl⟩
        · simp [noQueuePanic]

/-- `do_semaphore_down`, unless it finds the least value while somebody waits. -/
theorem doSemaphoreDown_covers (covered : AllCovered k) (sidx : Int)
    (safe : 0 ≤ sidx → sidx < semaphoreNum → (k.semaphores sidx.toNat).opid ≠ none →
      (k.semaphores sidx.toNat).value = int32Min → k.queue (.semaphore sidx.toNat) = []) :
    Meets noQueuePanic (doSemaphoreDown env sidx) k fun _ k' => AllCovered k' := by
  unfold doSemaphoreDown
  apply meets_ite
  · exact fun _ => covered
  intro inside
  -- Taking the lock changes neither the semaphores nor the queues.
  have same : Meets noQueuePanic (spinLockAcquire (.semaphore sidx.toNat)) k fun _ k' =>
      k'.semaphores = k.semaphores ∧ k'.queue = k.queue := by
    unfold spinLockAcquire
    rw [meets_get_bind]
    split
    · simp [noQueuePanic]
    · exact ⟨rfl, rfl⟩
  apply same.bind
  intro _ k₁ kept
  obtain ⟨semaphores, queue⟩ := kept
  have covered₁ : AllCovered k₁ := covered.same semaphores fun i => by rw [queue]
  have safe₁ := safe (by omega) (by omega)
  rw [← semaphores, ← queue] at safe₁
  generalize sidx.toNat = i at safe₁ ⊢
  rw [meets_get_bind]
  apply meets_ite
  · exact fun _ => release_covers covered₁ _ _
  intro valid
  have covers := covered₁ i valid
  rw [Kernel.waiting_none] at covers
  rw [meets_set_bind]
  apply meets_ite
  · intro negative
    apply (doBlock_blocks _ _).bind
    intro _ k₂ blocked
    obtain ⟨p, slocks, rfl⟩ := blocked
    apply covered₁.set rfl
    · show CoversWaiters _ ((Kernel.blockOn _ env.cpu (.semaphore i) (.semaphoreDown i) p).queue _).length
      rw [Kernel.blockOn_queue, List.length_append, List.length_singleton]
      exact covers.join negative
    · intro j other
      show Function.update (Function.update k₁.queue .ready _) (.semaphore i) _ (.semaphore j) = _
      rw [Function.update_of_ne (by simpa using other), Function.update_of_ne (by simp)]
  · intro nonneg
    rw [meets_noteDone]
    unfold semaphoreDownEnd
    rw [meets_get_bind]
    apply release_covers
    apply covered₁.set rfl
    · apply covers.take (Int.not_lt.mp nonneg)
      -- The least value wraps to the greatest one, which is safe only if nobody waits.
      intro least
      rw [safe₁ valid least]
      rfl
    · exact fun _ _ => rfl

/-! ## Runs -/

/-- A process is about to count down a semaphore with the least value, for which somebody waits. -/
def CountsBelow (k : Kernel) (event : Event) : Prop :=
  ∃ i < semaphoreNum, event.entry = .syscall (.semaphoreDown i) ∧
    (k.cur event.env.cpu).status ≠ .exiting ∧ (k.semaphores i).opid ≠ none ∧
    (k.semaphores i).value = int32Min ∧ k.queue (.semaphore i) ≠ []

/-- A system call of a process that was not killed. -/
theorem step_syscall {event : Event} {call : Call} {out : Out}
    (entry : event.entry = .syscall call) (alive : (k.cur event.env.cpu).status ≠ .exiting)
    (ran : step event k = .ok (out, k')) : handleSyscall event.env call k = .ok (out, k') := by
  obtain ⟨env, entry'⟩ := event
  subst entry
  have enabled := enabled_of_ran ran
  change (if Enabled k ⟨env, .syscall call⟩ then interruptHelper env (.syscall call)
    else stop .notEnabled : KernelRoutine Out) k = _ at ran
  rw [if_pos enabled] at ran
  change (if (k.cur env.cpu).status = .exiting then doExit env
    else handleEntry env (.syscall call) : KernelRoutine Out) k = _ at ran
  rw [if_neg alive] at ran
  exact ran

/-- Every other event keeps all semaphores covered. -/
theorem allCovered_step {event : Event} {out : Out} (resting : Resting k) (covered : AllCovered k)
    (spares : ¬ CountsBelow k event) (ran : step event k = .ok (out, k')) : AllCovered k' := by
  by_cases sets : SetsSem k event
  · obtain ⟨about, alive⟩ := sets
    -- Only system calls set the value of a semaphore.
    cases entry : event.entry with
    | timer => simp [entry, Entry.setsSem] at about
    | nic txqe rxdmt0 => simp [entry, Entry.setsSem] at about
    | fault => simp [entry, Entry.setsSem] at about
    | resume => simp [entry, Entry.setsSem] at about
    | syscall call =>
      have called := step_syscall entry alive ran
      rw [entry] at about
      -- One lemma for each of the three calls.
      cases call with
      | semaphoreInit key value => exact (doSemaphoreInit_covers covered key value).of_ok called
      | semaphoreUp sidx => exact (doSemaphoreUp_covers covered sidx).of_ok called
      | semaphoreDown sidx =>
        apply (doSemaphoreDown_covers covered sidx _).of_ok called
        intro low high valid least
        by_contra waits
        have same : ((sidx.toNat : Nat) : Int) = sidx := Int.toNat_of_nonneg low
        exact spares ⟨sidx.toNat, by omega, by rw [entry, same], alive, valid, least, waits⟩
      | _ => cases about
  · exact step_covers resting covered sets ran

end

/--
As long as no process counts down a semaphore with the least value while somebody waits for it, the
values cover those who wait, and the check of `do_semaphore_up` does not fail.
-/
theorem semaphores_cover (timeMaxSec : Nat) (k : Kernel)
    (reached : Reaches step (fun k event => ¬ CountsBelow k event) (initial timeMaxSec) k) :
    (∀ i, (k.semaphores i).opid ≠ none →
      ((k.queue (.semaphore i)).length : Int) ≤ max 0 (-(k.semaphores i).value)) ∧
    ∀ (env : Env) (sidx : Int), doSemaphoreUp env sidx k ≠ .error (.panic .semaphoreQueue) := by
  -- The induction is on the run, and `AllCovered` is what each step keeps.
  have covered : AllCovered k := by
    induction reached with
    | start =>
      intro i valid
      exact absurd rfl valid
    | step before spares ran ih => exact allCovered_step (reaches_resting before) ih spares ran
  constructor
  · intro i valid
    have covers := (covered i valid).covers
    rwa [Kernel.waiting_none] at covers
  · intro env sidx stopped
    exact (doSemaphoreUp_covers covered sidx).of_error stopped rfl

/-- No semaphore has the least value. -/
def noneLeast (k : Kernel) (_ : Event) : Bool :=
  (List.range semaphoreNum).all fun i => (k.semaphores i).value ≠ int32Min

/-- The waiter of a run is covered. -/
theorem semaphores_cover_downRun : ∃ k, runWhere step noneLeast (initial 100) downRun = some k ∧
    (k.queue (.semaphore 0)).length = 1 ∧
    ((k.queue (.semaphore 0)).length : Int) ≤ max 0 (-(k.semaphores 0).value) ∧
    ∀ (env : Env) (sidx : Int), doSemaphoreUp env sidx k ≠ .error (.panic .semaphoreQueue) := by
  have left : (runWhere step noneLeast (initial 100) downRun).map (fun k =>
      ((k.queue (.semaphore 0)).length, (k.semaphores 0).opid)) = some (1, some 2) := by
    decide +kernel
  obtain ⟨k, ran, found⟩ := Option.map_eq_some_iff.mp left
  rw [Prod.mk.injEq] at found
  have spares : ∀ k event, noneLeast k event = true → ¬ CountsBelow k event := by
    intro k event none below
    obtain ⟨i, inside, -, -, -, least, -⟩ := below
    have other := List.all_eq_true.mp none i (List.mem_range.mpr inside)
    simp [least] at other
  obtain ⟨covers, calm⟩ := semaphores_cover 100 k (.of_events_where spares ran)
  exact ⟨k, ran, found.1, covers 0 (by simp [found.2]), calm⟩

/-- A semaphore starts one above the least value, so that the second of two downs passes. -/
def belowRun : List Event :=
  [⟨quietEnv 0, .timer⟩, ⟨quietEnv 0, .syscall (.exec 1 true)⟩,
    ⟨quietEnv 0, .syscall (.semaphoreInit 0 (-2147483647))⟩, ⟨quietEnv 1, .timer⟩,
    ⟨quietEnv 1, .syscall (.semaphoreDown 0)⟩, ⟨quietEnv 0, .syscall (.semaphoreDown 0)⟩]

/-- Then one process waits at the greatest value; after another down, an up panics. -/
theorem semaphores_do_not_cover :
    (¬ ∀ (timeMaxSec : Nat) (k : Kernel),
      Reaches step (fun _ _ => True) (initial timeMaxSec) k → ∀ i, (k.semaphores i).opid ≠ none →
        ((k.queue (.semaphore i)).length : Int) ≤ max 0 (-(k.semaphores i).value)) ∧
    ¬ ∀ (timeMaxSec : Nat) (k : Kernel),
      Reaches step (fun _ _ => True) (initial timeMaxSec) k → ∀ (env : Env) (sidx : Int),
        doSemaphoreUp env sidx k ≠ .error (.panic .semaphoreQueue) := by
  constructor
  -- One process waits while the value is the greatest one.
  · intro cover
    have left : (runEvents step (initial 100) belowRun).map (fun k =>
        ((k.semaphores 0).opid, (k.semaphores 0).value, k.queue (.semaphore 0))) =
          some (some 2, 2147483647, [3]) := by decide +kernel
    obtain ⟨k, ran, found⟩ := Option.map_eq_some_iff.mp left
    simp only [Prod.mk.injEq] at found
    have covers := cover 100 k (.of_events ran) 0 (by simp [found.1])
    rw [found.2.1, found.2.2] at covers
    simp at covers
  -- One more down makes the value pass where somebody waits, and the next up finds them.
  · intro calm
    have left : (runEvents step (initial 100)
        (belowRun ++ [⟨quietEnv 0, .syscall (.semaphoreDown 0)⟩])).map (fun k =>
          match doSemaphoreUp (quietEnv 0) 0 k with
          | .error reason => some reason
          | .ok _ => none) = some (some (.panic .semaphoreQueue)) := by decide +kernel
    obtain ⟨k, ran, found⟩ := Option.map_eq_some_iff.mp left
    have stays := calm 100 k (.of_events ran) (quietEnv 0) 0
    cases up : doSemaphoreUp (quietEnv 0) 0 k with
    | error reason =>
      rw [up] at found stays
      exact stays (congrArg Except.error (Option.some.inj found))
    | ok answer =>
      rw [up] at found
      cases found

end GlucOS.Sched
