import GlucOS.Sched.Safety

/-! One synchronization object through all changes: those about it, and those that spare it. -/

namespace GlucOS.Sched

section

variable {cpu : Nat} {victim : Option Nat} {own : QueueRef → Prop} {k k' : Kernel}

/-- Spin locks are no concern of the objects they protect. -/
theorem Frame.spin (slock : SpinLock → Bool) : Frame own victim k { k with slock } := by
  refine .objects rfl rfl (fun _ _ => rfl) rfl (fun _ _ => rfl) (fun _ _ => rfl) (fun _ _ => rfl)
    (fun _ _ => rfl) ⟨[], rfl, by simp⟩

/-- Whose queues a change may own besides those of one object. -/
theorem Change.about_or_frame (ok : KernelOk cpu k) (small : cpu < ncpu)
    (change : Change cpu victim k k') :
    (∃ i, MutexChange cpu victim i k k' ∧ Frame (ofMutex i) victim k k') ∨
      (∃ i, SemaphoreChange cpu victim i k k' ∧ Frame (ofSemaphore i) victim k k') ∨
      (∃ i, BarrierChange cpu victim i k k' ∧ Frame (ofBarrier i) victim k k') ∨
      (∃ i, MailboxChange cpu victim i k k' ∧ Frame (ofMailbox i) victim k k') ∨
      Frame noQueue victim k k' := by
  cases change with
  | spin slock => exact .inr (.inr (.inr (.inr (.spin slock))))
  | sched change => exact .inr (.inr (.inr (.inr (change.frame ok.toSchedOk small))))
  | mutex change => exact .inl ⟨_, change, change.frame ok.toSchedOk small⟩
  | semaphore change => exact .inr (.inl ⟨_, change, (change.sched_frame ok small).2⟩)
  | barrier change => exact .inr (.inr (.inl ⟨_, change, (change.sched_frame ok small).2⟩))
  | mailbox change => exact .inr (.inr (.inr (.inl ⟨_, change, (change.sched_frame ok small).2⟩)))

/-- A change is about a mutex lock, or spares it. -/
theorem Change.mutex_or_frame (ok : KernelOk cpu k) (small : cpu < ncpu) (i : Nat)
    (change : Change cpu victim k k') :
    MutexChange cpu victim i k k' ∨ Frame (· ≠ .mutex i) victim k k' := by
  rcases change.about_or_frame ok small with ⟨j, about, frame⟩ | ⟨j, -, frame⟩ | ⟨j, -, frame⟩ |
    ⟨j, -, frame⟩ | frame
  · by_cases same : j = i
    · exact .inl (same ▸ about)
    · refine .inr (frame.mono ?_)
      rintro q rfl
      simpa using same
  · exact .inr (frame.mono (by rintro q rfl; simp))
  · exact .inr (frame.mono (by rintro q rfl; simp))
  · exact .inr (frame.mono (by rintro q (rfl | rfl) <;> simp))
  · exact .inr (frame.mono fun q owned => owned.elim)

/-- A change is about a semaphore, or spares it. -/
theorem Change.semaphore_or_frame (ok : KernelOk cpu k) (small : cpu < ncpu) (i : Nat)
    (change : Change cpu victim k k') :
    SemaphoreChange cpu victim i k k' ∨ Frame (· ≠ .semaphore i) victim k k' := by
  rcases change.about_or_frame ok small with ⟨j, -, frame⟩ | ⟨j, about, frame⟩ | ⟨j, -, frame⟩ |
    ⟨j, -, frame⟩ | frame
  · exact .inr (frame.mono (by rintro q rfl; simp))
  · by_cases same : j = i
    · exact .inl (same ▸ about)
    · refine .inr (frame.mono ?_)
      rintro q rfl
      simpa using same
  · exact .inr (frame.mono (by rintro q rfl; simp))
  · exact .inr (frame.mono (by rintro q (rfl | rfl) <;> simp))
  · exact .inr (frame.mono fun q owned => owned.elim)

/-- A change is about a barrier, or spares it. -/
theorem Change.barrier_or_frame (ok : KernelOk cpu k) (small : cpu < ncpu) (i : Nat)
    (change : Change cpu victim k k') :
    BarrierChange cpu victim i k k' ∨ Frame (· ≠ .barrier i) victim k k' := by
  rcases change.about_or_frame ok small with ⟨j, -, frame⟩ | ⟨j, -, frame⟩ | ⟨j, about, frame⟩ |
    ⟨j, -, frame⟩ | frame
  · exact .inr (frame.mono (by rintro q rfl; simp))
  · exact .inr (frame.mono (by rintro q rfl; simp))
  · by_cases same : j = i
    · exact .inl (same ▸ about)
    · refine .inr (frame.mono ?_)
      rintro q rfl
      simpa using same
  · exact .inr (frame.mono (by rintro q (rfl | rfl) <;> simp))
  · exact .inr (frame.mono fun q owned => owned.elim)

/-- The queues that do not belong to a mailbox. -/
def offMailbox (i : Nat) (q : QueueRef) : Prop := q ≠ .mboxSend i ∧ q ≠ .mboxRecv i

/-- A change is about a mailbox, or spares it. -/
theorem Change.mailbox_or_frame (ok : KernelOk cpu k) (small : cpu < ncpu) (i : Nat)
    (change : Change cpu victim k k') :
    MailboxChange cpu victim i k k' ∨ Frame (offMailbox i) victim k k' := by
  rcases change.about_or_frame ok small with ⟨j, -, frame⟩ | ⟨j, -, frame⟩ | ⟨j, -, frame⟩ |
    ⟨j, about, frame⟩ | frame
  · exact .inr (frame.mono (by rintro q rfl; simp [offMailbox]))
  · exact .inr (frame.mono (by rintro q rfl; simp [offMailbox]))
  · exact .inr (frame.mono (by rintro q rfl; simp [offMailbox]))
  · by_cases same : j = i
    · exact .inl (same ▸ about)
    · refine .inr (frame.mono ?_)
      rintro q (rfl | rfl) <;> simpa [offMailbox] using same
  · exact .inr (frame.mono fun q owned => owned.elim)

end

/-! ## What those in a queue wait for -/

/-- Everybody in a queue goes on in a way, and asks for a number of bytes, that fit the queue. -/
def Asks (q : QueueRef) (fit : Resume → Nat → Prop) (k : Kernel) : Prop :=
  ∀ h ∈ k.queue q, fit (k.pcb h).resume (k.pcb h).reqLen

section

variable {cpu : Nat} {victim : Option Nat} {own : QueueRef → Prop} {k k' : Kernel}
  {q any : QueueRef} {fit : Resume → Nat → Prop}

/-- Blocking puts the current process at the tail of a queue. -/
theorem Kernel.blockOn_queue (k : Kernel) (cpu : Nat) (q : QueueRef) (resume : Resume)
    (p : PcbRef) : (k.blockOn cpu q resume p).queue q = k.queue q ++ [k.current cpu] :=
  Function.update_self ..

/-- Blocking concerns only its own queue and the ready one. -/
theorem Kernel.blockOn_queue_other (k : Kernel) (cpu : Nat) (resume : Resume) (p : PcbRef)
    (differ : any ≠ q) (blocked : any ≠ .ready) :
    (k.blockOn cpu q resume p).queue any = k.queue any := by
  show Function.update (Function.update k.queue .ready _) q _ any = _
  rw [Function.update_of_ne differ, Function.update_of_ne blocked]

/-- Blocking leaves what others wait for. -/
theorem Kernel.blockOn_other (k : Kernel) (cpu : Nat) (q : QueueRef) (resume : Resume) (p : PcbRef)
    {h : PcbRef} (differ : h ≠ k.current cpu) :
    ((k.blockOn cpu q resume p).pcb h).resume = (k.pcb h).resume ∧
      ((k.blockOn cpu q resume p).pcb h).reqLen = (k.pcb h).reqLen := by
  have same : (k.blockOn cpu q resume p).pcb h = (k.setStatus p .running).pcb h :=
    Function.update_of_ne differ _ _
  rw [same]
  exact ⟨Kernel.setStatus_field Pcb.resume (fun _ _ => rfl) k p _ h,
    Kernel.setStatus_field Pcb.reqLen (fun _ _ => rfl) k p _ h⟩

/-- What the process that blocks waits for. -/
theorem Kernel.blockOn_self (k : Kernel) (cpu : Nat) (q : QueueRef) (resume : Resume) (p : PcbRef) :
    ((k.blockOn cpu q resume p).pcb (k.current cpu)).resume = resume ∧
      ((k.blockOn cpu q resume p).pcb (k.current cpu)).reqLen = (k.cur cpu).reqLen := by
  have same : (k.blockOn cpu q resume p).pcb (k.current cpu) =
      { (k.setStatus p .running).pcb (k.current cpu) with
        status := .sleeping, phead := q, resume } :=
    Function.update_self ..
  rw [same]
  exact ⟨rfl, Kernel.setStatus_field Pcb.reqLen (fun _ _ => rfl) k p _ _⟩

namespace Asks

/-- A change that spares a queue spares what its members ask for. -/
theorem frame (asks : Asks q fit k) (frame : Frame own victim k k') (foreign : ¬ own q)
    (blocked : q ≠ .ready) (object : q.plain = false) : Asks q fit k' := by
  intro h inside
  obtain ⟨resume, reqLen⟩ := frame.request q blocked object foreign h inside
  rw [resume, reqLen]
  exact asks h ((frame.shrink q blocked object foreign).subset inside)

/-- Waking one process leaves what the others ask for. -/
theorem wake (cpu : Nat) (any : QueueRef) (h : PcbRef) (asks : Asks q fit k)
    (blocked : q ≠ .ready) :
    Asks q fit (k.wake cpu any h) := by
  intro x inside
  have before : x ∈ k.queue q := by
    by_cases same : q = any
    · subst same
      rw [Kernel.wake_source k cpu h blocked] at inside
      exact List.mem_of_mem_erase inside
    · rw [Kernel.wake_other k cpu h blocked same] at inside
      exact inside
  by_cases same : x = h
  · subst same
    rw [Kernel.wake_pcb_same]
    exact asks x before
  · rw [Kernel.wake_pcb_other cpu any same]
    exact asks x before

/-- Waking processes leaves what the others ask for. -/
theorem wakes (wakes : Wakes cpu any k k') (blocked : q ≠ .ready) :
    Asks q fit k → Asks q fit k' := by
  induction wakes with
  | refl k => exact fun asks => asks
  | head queued more ih => exact fun asks => ih (asks.wake _ _ _ blocked)

/-- A process that blocks asks for what fits the queue it enters. -/
theorem blockOn {resume : Resume} {p : PcbRef} (asks : Asks q fit k)
    (outside : k.current cpu ∉ k.queue q) (fits : any = q → fit resume (k.cur cpu).reqLen)
    (blocked : q ≠ .ready) : Asks q fit (k.blockOn cpu any resume p) := by
  intro h inside
  have others : h ∈ k.queue q →
      fit ((k.blockOn cpu any resume p).pcb h).resume ((k.blockOn cpu any resume p).pcb h).reqLen := by
    intro before
    have differ : h ≠ k.current cpu := fun same => outside (same ▸ before)
    obtain ⟨same, same'⟩ := k.blockOn_other cpu any resume p differ
    rw [same, same']
    exact asks h before
  by_cases own : q = any
  · subst own
    rw [Kernel.blockOn_queue] at inside
    rcases List.mem_append.mp inside with before | new
    · exact others before
    · obtain rfl := List.mem_singleton.mp new
      obtain ⟨same, same'⟩ := k.blockOn_self cpu q resume p
      rw [same, same']
      exact fits rfl
  · rw [Kernel.blockOn_queue_other k cpu resume p own blocked] at inside
    exact others inside

end Asks

/-- The current process is in no queue but the ready one. -/
theorem SchedOk.current_outside (ok : SchedOk cpu k) (small : cpu < ncpu) (blocked : q ≠ .ready) :
    k.current cpu ∉ k.queue q := by
  intro inside
  exact ok.current_not_sleeping small (ok.sleeping_of_queued inside blocked)

end

/-! ## Who goes on waiting -/

section

variable {acting : Nat} {victim : Option Nat} {k : Kernel} {q : QueueRef}

/-- Nobody waits in an empty queue. -/
theorem Kernel.waiting_nil (empty : k.queue q = []) : k.waiting victim q = [] := by
  simp [Kernel.waiting, empty]

/-- When nobody is killed, everybody in a queue goes on waiting. -/
theorem Kernel.waiting_none (k : Kernel) (q : QueueRef) : k.waiting none q = k.queue q := by
  simp [Kernel.waiting]

/-- When nobody in a queue is killed, everybody in it goes on waiting. -/
theorem Kernel.waiting_all (spared : ∀ h ∈ k.queue q, victim ≠ some (k.pcb h).pid) :
    k.waiting victim q = k.queue q :=
  List.filter_eq_self.mpr fun h inside => by simpa using spared h inside

/-- Nobody in a queue is killed at the end of an event, so that everybody still waits. -/
theorem Awake.waiting (awake : Awake victim k) (ok : SchedOk acting k) (blocked : q ≠ .ready) :
    k.waiting victim q = k.queue q := by
  refine Kernel.waiting_all fun h inside killed => ?_
  exact awake h (ok.queueLive q h inside).1 killed (ok.sleeping_of_queued inside blocked)

end

/-! ## Events and runs -/

section

variable {k k' : Kernel} {event : Event} {out : Out}

/-- An event that has happened was possible. -/
theorem enabled_of_ran (ran : step event k = .ok (out, k')) : Enabled k event := by
  by_contra disabled
  rw [step_disabled disabled] at ran
  simp at ran

/-- What every change of an event keeps is kept by the event. -/
theorem ran_invariant {inv : Kernel → Prop} (resting : Resting k)
    (ran : step event k = .ok (out, k'))
    (kept : ∀ k₁ k₂, KernelOk event.env.cpu k₁ →
      Change event.env.cpu (victim k event) k₁ k₂ → inv k₁ → inv k₂)
    (broken : ∀ k₁ i mbox, KernelOk event.env.cpu k₁ → mbox.opid = (k₁.mailboxes i).opid →
      inv k₁ → inv (k₁.setMailbox i mbox))
    (before : inv k) : inv k' := by
  have enabled := enabled_of_ran ran
  have ok := (enabled.acts resting).1
  exact (Deeds.invariant enabled.1 kept broken ok before (steps_of_ran resting ran).changes).2

/-- What every change keeps holds in every state that is reached. -/
theorem reaches_invariant {inv : Kernel → Prop} {timeMaxSec : Nat}
    {allowed : Kernel → Event → Prop} (start : inv (initial timeMaxSec))
    (kept : ∀ cpu victim k₁ k₂, cpu < ncpu → KernelOk cpu k₁ → Change cpu victim k₁ k₂ →
      inv k₁ → inv k₂)
    (broken : ∀ k₁ i mbox, mbox.opid = (k₁.mailboxes i).opid → inv k₁ →
      inv (k₁.setMailbox i mbox))
    (reached : Reaches step allowed (initial timeMaxSec) k) : inv k := by
  induction reached with
  | start => exact start
  | step before _ ran ih =>
    have resting := reaches_resting before
    have small := (enabled_of_ran ran).1
    refine ran_invariant resting ran (fun k₁ k₂ ok change => ?_) (fun k₁ i mbox _ opid => ?_) ih
    · exact kept _ _ k₁ k₂ small ok change
    · exact broken k₁ i mbox opid

end

end GlucOS.Sched
