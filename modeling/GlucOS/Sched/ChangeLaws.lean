import GlucOS.Sched.Frame

/-! Every change keeps the invariant of the kernel, and the objects it is not about. -/

namespace GlucOS.Sched

/-- The scheduler's invariant, and that what is closed has no waiters. -/
structure KernelOk (acting : Nat) (k : Kernel) : Prop extends SchedOk acting k where
  /-- An invalid semaphore has no waiters. -/
  semaphoreClosed : ∀ i, (k.semaphores i).opid = none → k.queue (.semaphore i) = []
  /-- An invalid barrier has no waiters. -/
  barrierClosed : ∀ i, (k.barriers i).opid = none → k.queue (.barrier i) = []
  /-- A closed mailbox has no senders. -/
  sendClosed : ∀ i, (k.mailboxes i).opid = none → k.queue (.mboxSend i) = []
  /-- A closed mailbox has no receivers. -/
  recvClosed : ∀ i, (k.mailboxes i).opid = none → k.queue (.mboxRecv i) = []
  /-- The first byte of a mailbox is inside its buffer. -/
  bufHead : ∀ i, (k.mailboxes i).bufHead ≤ maxMboxLength
  /-- The last byte of a mailbox is inside its buffer. -/
  bufTail : ∀ i, (k.mailboxes i).bufTail ≤ maxMboxLength

/-- The queue of a mutex lock. -/
def ofMutex (i : Nat) (q : QueueRef) : Prop := q = .mutex i

/-- The queue of a semaphore. -/
def ofSemaphore (i : Nat) (q : QueueRef) : Prop := q = .semaphore i

/-- The queue of a barrier. -/
def ofBarrier (i : Nat) (q : QueueRef) : Prop := q = .barrier i

/-- The queues of a mailbox. -/
def ofMailbox (i : Nat) (q : QueueRef) : Prop := q = .mboxSend i ∨ q = .mboxRecv i

/-- No queue at all. -/
def noQueue (_ : QueueRef) : Prop := False

section

variable {acting cpu : Nat} {own : QueueRef → Prop} {victim : Option Nat} {k k' : Kernel}

/-- Objects that are not owned stay as they are, so only the others have to be looked at. -/
theorem KernelOk.of_frame (ok : KernelOk acting k) (sched : SchedOk acting k')
    (frame : Frame own victim k k')
    (semaphore : ∀ i, own (.semaphore i) → (k'.semaphores i).opid = none →
      k'.queue (.semaphore i) = [])
    (barrier : ∀ i, own (.barrier i) → (k'.barriers i).opid = none → k'.queue (.barrier i) = [])
    (closed : ∀ i, own (.mboxSend i) ∨ own (.mboxRecv i) → (k'.mailboxes i).opid = none →
      k'.queue (.mboxSend i) = [] ∧ k'.queue (.mboxRecv i) = [])
    (ring : ∀ i, own (.mboxSend i) → (k'.mailboxes i).bufHead ≤ maxMboxLength ∧
      (k'.mailboxes i).bufTail ≤ maxMboxLength) : KernelOk acting k' := by
  have empty : ∀ q, q ≠ .ready → q.plain = false → ¬ own q → k.queue q = [] → k'.queue q = [] := by
    intro q blocked object foreign before
    have shrunk := frame.shrink q blocked object foreign
    rw [before] at shrunk
    exact List.sublist_nil.mp shrunk
  refine { sched with
    semaphoreClosed := ?_
    barrierClosed := ?_
    sendClosed := ?_
    recvClosed := ?_
    bufHead := ?_
    bufTail := ?_ }
  · intro i
    by_cases owned : own (.semaphore i)
    · exact semaphore i owned
    · rw [frame.semaphores i owned]
      exact fun invalid => empty _ (by simp) rfl owned (ok.semaphoreClosed i invalid)
  · intro i
    by_cases owned : own (.barrier i)
    · exact barrier i owned
    · rw [frame.barriers i owned]
      exact fun invalid => empty _ (by simp) rfl owned (ok.barrierClosed i invalid)
  · intro i invalid
    by_cases owned : own (.mboxSend i)
    · exact (closed i (.inl owned) invalid).1
    · rw [frame.mailboxes i owned] at invalid
      exact empty _ (by simp) rfl owned (ok.sendClosed i invalid)
  · intro i invalid
    by_cases owned : own (.mboxSend i) ∨ own (.mboxRecv i)
    · exact (closed i owned invalid).2
    · rw [not_or] at owned
      rw [frame.mailboxes i owned.1] at invalid
      exact empty _ (by simp) rfl owned.2 (ok.recvClosed i invalid)
  · intro i
    by_cases owned : own (.mboxSend i)
    · exact (ring i owned).1
    · rw [frame.mailboxes i owned]
      exact ok.bufHead i
  · intro i
    by_cases owned : own (.mboxSend i)
    · exact (ring i owned).2
    · rw [frame.mailboxes i owned]
      exact ok.bufTail i

/-- Blocking in a queue that is owned, or plain. -/
theorem Frame.blockOn (ok : SchedOk cpu k) (small : cpu < ncpu) {q : QueueRef} (resume : Resume)
    {p : PcbRef} (can : CanBlock cpu k p) (blocked : q ≠ .ready) (goal : own q ∨ q.plain = true)
    (locking : ∀ i, ¬ own (.mutex i) → (k.cur cpu).resume ≠ .mutexAcquire i) :
    Frame own victim k (k.blockOn cpu q resume p) := by
  have ready : (k.pcb p).status = .ready := by
    have := can.runnable
    unfold Kernel.runnable at this
    simp only [Bool.and_eq_true, decide_eq_true_eq] at this
    exact this.1
  have differ : p ≠ k.current cpu := fun same => ok.ready_not_current ready cpu small same.symm
  have switched := ok.switchTo small can.queued can.runnable can.stays
  have queues : (k.switchTo cpu p).queue = k.queue := by
    unfold Kernel.switchTo
    split <;> rfl
  have sameResume : ∀ x, ((k.switchTo cpu p).pcb x).resume = (k.pcb x).resume := by
    intro x
    unfold Kernel.switchTo
    split
    · exact (Kernel.setStatus_field Pcb.resume (fun _ _ => rfl) _ p _ x).trans
        (Kernel.setStatus_field Pcb.resume (fun _ _ => rfl) k _ _ x)
    · exact Kernel.setStatus_field Pcb.resume (fun _ _ => rfl) k p _ x
  rw [Kernel.blockOn_eq k resume differ]
  refine (Frame.switchTo cpu p).trans (Frame.move switched rfl (q := .ready) ?_ (.inr (.inr rfl))
    (goal.imp_right .inl) ?_)
  · rw [queues]
    exact ok.currentReady cpu small
  · intro i foreign x holds
    obtain ⟨inReady, resume', status⟩ := holds
    -- The process that blocks asks for no lock of somebody else.
    have other : x ≠ k.current cpu := by
      rintro rfl
      rw [sameResume] at resume'
      exact locking i foreign resume'
    refine ⟨?_, ?_, ?_⟩
    · show x ∈ Function.update (Function.update (k.switchTo cpu p).queue .ready _) q _ .ready
      rw [Function.update_of_ne blocked.symm, Function.update_self]
      exact (List.mem_erase_of_ne other).mpr inReady
    · rw [Kernel.move_pcb_other _ _ _ _ _ other]
      exact resume'
    · rw [Kernel.move_pcb_other _ _ _ _ _ other]
      exact status

/-- Blocking keeps the scheduler's invariant. -/
theorem SchedOk.blocks (ok : SchedOk cpu k) (small : cpu < ncpu) {q : QueueRef} (resume : Resume)
    {p : PcbRef} (can : CanBlock cpu k p) (blocked : q ≠ .ready)
    (waited : ∀ x, q = .wait x → x ∈ k.pcbTable ∧ x ≠ k.current cpu) :
    SchedOk cpu (k.blockOn cpu q resume p) :=
  ok.blockOn small can.queued can.runnable can.stays can.user resume blocked waited

/-! ## Scheduling -/

namespace SchedChange

/-- Scheduling keeps the scheduler's invariant. -/
theorem sched (ok : SchedOk cpu k) (small : cpu < ncpu) (change : SchedChange cpu victim k k') :
    SchedOk cpu k' := by
  cases change with
  | wake queued plain => exact ok.wake small queued (QueueRef.ne_ready_of_plain plain)
  | drop live alone away user why => exact ok.drop live alone away user
  | exiting live runs user why => exact ok.setExiting live runs user
  | leave user goal locking => exact ok.leave small user goal
  | switch queued runnable stays => exact ok.switchTo small queued runnable stays
  | block resume plain can waited calm locking =>
    exact ok.blocks small resume can (QueueRef.ne_ready_of_plain plain) waited
  | create cpuMask room user fresh stays => exact ok.addPcb room user fresh stays
  | mask cpuMask user => exact ok.mask cpuMask user
  | request wakeupTime reqLen =>
    exact ok.setPcb rfl rfl rfl rfl (fun _ => rfl) (.inr (.inr rfl))
  | finish done => exact ok.setPcb rfl rfl rfl rfl (fun _ => rfl) (.inr (.inl rfl))
  | glush pid => exact ok.congr rfl rfl rfl rfl rfl
  | terminated gone => exact ok.congr rfl rfl rfl rfl rfl

/-- A change of the current PCB that keeps its identity and its queue. -/
theorem frame_current (ok : SchedOk cpu k) (small : cpu < ncpu) {change : Pcb → Pcb}
    (pid : (change (k.cur cpu)).pid = (k.cur cpu).pid)
    (woken : ∀ i, (k.mlocks i).locked = false → (k.cur cpu).resume = .mutexAcquire i →
      ((k.cur cpu).status = .ready ∨ (k.cur cpu).status = .running) →
      victim ≠ some (k.cur cpu).pid →
      (change (k.cur cpu)).resume = .mutexAcquire i ∧
        ((change (k.cur cpu)).status = .ready ∨ (change (k.cur cpu)).status = .running)) :
    Frame own victim k (k.setPcb (k.current cpu) change) := by
  refine Frame.pcbs rfl rfl (Kernel.setPcb_field Pcb.pid k _ change pid) ?_ ?_ rfl rfl rfl rfl rfl
  · intro q blocked h inside
    have differ : h ≠ k.current cpu := by
      rintro rfl
      exact blocked ((ok.queueLive q _ inside).2.symm.trans
        (ok.queueLive _ _ (ok.currentReady cpu small)).2)
    rw [Kernel.setPcb_other k change differ]
    exact ⟨rfl, rfl⟩
  · intro i free h holds spared
    obtain ⟨inReady, resume, status⟩ := holds
    by_cases same : h = k.current cpu
    · subst same
      refine ⟨inReady, ?_⟩
      rw [Kernel.setPcb_same]
      exact woken i free resume status spared
    · refine ⟨inReady, ?_⟩
      rw [Kernel.setPcb_other k change same]
      exact ⟨resume, status⟩

/-- Scheduling leaves the synchronization objects alone. -/
theorem frame (ok : SchedOk cpu k) (small : cpu < ncpu) (change : SchedChange cpu victim k k') :
    Frame noQueue victim k k' := by
  cases change with
  | wake queued plain =>
    exact Frame.wake ok small queued (QueueRef.ne_ready_of_plain plain) (.inr plain)
  | @drop h live alone away user why =>
    have mem : ∀ q, q ≠ .ready → (k.drop h).waiting victim q = k.waiting victim q := by
      intro q blocked
      unfold Kernel.waiting
      show List.filter _ (Function.update k.queue _ _ q) = _
      by_cases home : q = (k.pcb h).phead
      · subst home
        rw [Function.update_self, (ok.queueNodup _).erase_eq_filter, List.filter_filter]
        refine List.filter_congr fun x inside => ?_
        -- Only a thread that is killed on purpose is freed outside the ready queue.
        have sleeps := (ok.asleep h live).mpr blocked
        have killed : victim = some (k.pcb h).pid := by
          rcases why with killed | exited | zombie
          · exact killed
          · simp [exited] at sleeps
          · simp [zombie] at sleeps
        by_cases same : x = h
        · subst same
          simp [killed, Kernel.drop]
        · have kept : (x != h) = true := by simpa using same
          simp only [kept, Kernel.drop, Bool.and_true]
          rfl
      · rw [Function.update_of_ne home]
        rfl
    refine ⟨fun q blocked _ _ => mem q blocked, ?_, fun _ _ _ _ _ _ => ⟨rfl, rfl⟩, le_rfl,
      fun _ _ => rfl, ?_, fun _ _ => rfl, fun _ _ => rfl, fun _ _ => rfl, fun _ _ => rfl,
      ⟨[], rfl, by simp⟩⟩
    · intro q _ _ _
      show (Function.update k.queue _ _ q).Sublist _
      by_cases home : q = (k.pcb h).phead
      · subst home
        rw [Function.update_self]
        exact List.erase_sublist
      · rw [Function.update_of_ne home]
    · intro i _ _ x holds _ spared
      obtain ⟨inReady, resume, status⟩ := holds
      have differ : x ≠ h := by
        rintro rfl
        rcases why with killed | exited | zombie
        · exact spared killed
        · simp [exited] at status
        · simp [zombie] at status
      refine ⟨?_, resume, status⟩
      show x ∈ Function.update k.queue _ _ .ready
      by_cases home : (QueueRef.ready) = (k.pcb h).phead
      · rw [← home, Function.update_self]
        exact (List.mem_erase_of_ne differ).mpr inReady
      · rw [Function.update_of_ne home]
        exact inReady
  | @exiting h live runs user why =>
    refine Frame.pcbs rfl rfl (Kernel.setStatus_field Pcb.pid (fun _ _ => rfl) k h _) ?_ ?_
      rfl rfl rfl rfl rfl
    · intro q _ x _
      exact ⟨Kernel.setStatus_field Pcb.resume (fun _ _ => rfl) k h _ x,
        Kernel.setStatus_field Pcb.reqLen (fun _ _ => rfl) k h _ x⟩
    · intro i _ x holds spared
      obtain ⟨inReady, resume, status⟩ := holds
      have differ : x ≠ h := by
        rintro rfl
        rcases why with killed | exits
        · exact spared killed
        · simp [exits] at status
      refine ⟨inReady, ?_⟩
      rw [Kernel.setStatus, Kernel.setPcb_other k _ differ]
      exact ⟨resume, status⟩
  | leave user goal locking =>
    exact frame_current ok small rfl fun i _ resume _ _ => absurd resume (locking i)
  | switch queued runnable stays => exact Frame.switchTo cpu _
  | block resume plain can waited calm locking =>
    exact Frame.blockOn ok small resume can (QueueRef.ne_ready_of_plain plain) (.inr plain)
      fun i _ => locking i
  | @create pid tid cpuMask room user fresh stays =>
    have older : ∀ x, x < k.newPcb → (k.addPcb pid tid cpuMask).pcb x = k.pcb x :=
      fun x old => Function.update_of_ne (Nat.ne_of_lt old) _ _
    have same : ∀ q, q ≠ .ready → q.plain = false →
        (k.addPcb pid tid cpuMask).queue q = k.queue q := by
      intro q blocked object
      have differ : q ≠ .wait k.newPcb := by
        rintro rfl
        simp [QueueRef.plain] at object
      show Function.update (Function.update k.queue _ _) _ _ q = _
      rw [Function.update_of_ne blocked, Function.update_of_ne differ]
    have oldMember : ∀ q, ∀ h ∈ k.queue q, h < k.newPcb :=
      fun q h inside => ok.tableOld h (ok.queueLive q h inside).1
    refine ⟨?_, ?_, ?_, Nat.le_succ _, fun x old => by rw [older x old], ?_, fun _ _ => rfl,
      fun _ _ => rfl, fun _ _ => rfl, fun _ _ => rfl, ⟨[], rfl, by simp⟩⟩
    · intro q blocked object _
      unfold Kernel.waiting
      rw [same q blocked object]
      refine List.filter_congr fun x inside => ?_
      rw [older x (oldMember q x inside)]
    · intro q blocked object _
      rw [same q blocked object]
    · intro q blocked object _ h inside
      rw [same q blocked object] at inside
      rw [older h (oldMember q h inside)]
      exact ⟨rfl, rfl⟩
    · intro i _ _ x holds old _
      obtain ⟨inReady, resume, status⟩ := holds
      unfold Kernel.Woken
      rw [older x old]
      refine ⟨?_, resume, status⟩
      have longer : (k.addPcb pid tid cpuMask).queue .ready = k.queue .ready ++ [k.newPcb] := by
        simp [Kernel.addPcb]
      rw [longer]
      exact List.mem_append_left _ inReady
  | @mask pid cpuMask user =>
    have sameResume := k.setMask_field pid cpuMask Pcb.resume fun _ _ => rfl
    refine Frame.pcbs rfl rfl (k.setMask_field pid cpuMask Pcb.pid fun _ _ => rfl) ?_ ?_
      rfl rfl rfl rfl rfl
    · exact fun q _ x _ => ⟨sameResume x, k.setMask_field pid cpuMask Pcb.reqLen (fun _ _ => rfl) x⟩
    · intro i _ x holds _
      obtain ⟨inReady, resume, status⟩ := holds
      refine ⟨inReady, by rw [sameResume]; exact resume, ?_⟩
      rw [k.setMask_field pid cpuMask Pcb.status (fun _ _ => rfl)]
      exact status
  | request wakeupTime reqLen =>
    exact frame_current ok small rfl fun i _ resume status _ => ⟨resume, status⟩
  | finish done =>
    refine frame_current ok small rfl fun i free resume _ _ => ?_
    rw [done i resume] at free
    simp at free
  | glush pid =>
    exact Frame.pcbs rfl rfl (fun _ => rfl) (fun _ _ _ _ => ⟨rfl, rfl⟩) (fun _ _ _ holds _ => holds)
      rfl rfl rfl rfl rfl
  | terminated gone => exact Frame.note _ (by simp [Note.about])

/-- Scheduling keeps the invariant of the kernel. -/
theorem ok (ok : KernelOk cpu k) (small : cpu < ncpu) (change : SchedChange cpu victim k k') :
    KernelOk cpu k' :=
  ok.of_frame (change.sched ok.toSchedOk small) (change.frame ok.toSchedOk small)
    (fun _ owned => owned.elim) (fun _ owned => owned.elim) (fun _ owned => by
      rcases owned with owned | owned <;> exact owned.elim) (fun _ owned => owned.elim)

end SchedChange

/-! ## Synchronization objects -/

/-- The head of a queue is in it. -/
theorem mem_of_head {q : QueueRef} {h : PcbRef} {rest : List PcbRef}
    (queued : k.queue q = h :: rest) : h ∈ k.queue q := by simp [queued]

/-- The scheduler's invariant does not look at the mutex locks. -/
theorem SchedOk.setMlock (ok : SchedOk acting k) (i : Nat) (lock : MutexLock) :
    SchedOk acting (k.setMlock i lock) := ok.congr rfl rfl rfl rfl rfl

/-- The scheduler's invariant does not look at the semaphores. -/
theorem SchedOk.setSemaphore (ok : SchedOk acting k) (i : Nat) (sema : Semaphore) :
    SchedOk acting (k.setSemaphore i sema) := ok.congr rfl rfl rfl rfl rfl

/-- The scheduler's invariant does not look at the barriers. -/
theorem SchedOk.setBarrier (ok : SchedOk acting k) (i : Nat) (barrier : Barrier) :
    SchedOk acting (k.setBarrier i barrier) := ok.congr rfl rfl rfl rfl rfl

/-- The scheduler's invariant does not look at the mailboxes. -/
theorem SchedOk.setMailbox (ok : SchedOk acting k) (i : Nat) (mbox : Mailbox) :
    SchedOk acting (k.setMailbox i mbox) := ok.congr rfl rfl rfl rfl rfl

/-- The scheduler's invariant does not look at the notes. -/
theorem SchedOk.note (ok : SchedOk acting k) (entry : Note) : SchedOk acting (k.note entry) :=
  ok.congr rfl rfl rfl rfl rfl

/-- Clearing an empty queue does nothing. -/
theorem Kernel.clearQueue_empty {q : QueueRef} (empty : k.queue q = []) : k.clearQueue q = k := by
  unfold Kernel.clearQueue
  rw [← empty, Function.update_eq_self]

/-- Another request length keeps the scheduler's invariant. -/
theorem SchedOk.setReqLen (ok : SchedOk acting k) (h : PcbRef) (reqLen : Nat) :
    SchedOk acting (k.setPcb h fun pcb => { pcb with reqLen }) :=
  ok.setPcb rfl rfl rfl rfl (fun _ => rfl) (.inr (.inr rfl))

/-- Storing a request length does not matter for blocking. -/
theorem canBlock_setReqLen {p : PcbRef} (reqLen : Nat) :
    CanBlock cpu (k.setPcb (k.current cpu) fun pcb => { pcb with reqLen }) p ↔
      CanBlock cpu k p := by
  have status := Kernel.setPcb_field Pcb.status k (k.current cpu)
    (fun pcb => { pcb with reqLen }) rfl
  have mask := Kernel.setPcb_field Pcb.cpuMask k (k.current cpu)
    (fun pcb => { pcb with reqLen }) rfl
  have runs : (k.setPcb (k.current cpu) fun pcb => { pcb with reqLen }).runnable cpu p =
      k.runnable cpu p := by
    unfold Kernel.runnable
    rw [status, mask]
  have stays : ((k.setPcb (k.current cpu) fun pcb => { pcb with reqLen }).cur cpu).status =
      (k.cur cpu).status := status _
  constructor
  · exact fun can => ⟨can.queued, runs ▸ can.runnable, stays ▸ can.stays, can.user⟩
  · exact fun can => ⟨can.queued, runs.symm ▸ can.runnable, stays.symm ▸ can.stays, can.user⟩

namespace Wakes

variable {q : QueueRef}

/-- Waking changes no semaphore. -/
theorem semaphores (wakes : Wakes cpu q k k') : k'.semaphores = k.semaphores := by
  induction wakes with
  | refl k => rfl
  | head queued more ih => exact ih

/-- Waking changes no barrier. -/
theorem barriers (wakes : Wakes cpu q k k') : k'.barriers = k.barriers := by
  induction wakes with
  | refl k => rfl
  | head queued more ih => exact ih

/-- Waking changes no mailbox. -/
theorem mailboxes (wakes : Wakes cpu q k k') : k'.mailboxes = k.mailboxes := by
  induction wakes with
  | refl k => rfl
  | head queued more ih => exact ih

/-- Waking notes nothing. -/
theorem history (wakes : Wakes cpu q k k') : k'.history = k.history := by
  induction wakes with
  | refl k => rfl
  | head queued more ih => exact ih

end Wakes

namespace MutexChange

variable {i : Nat}

/-- A change of a mutex lock keeps the scheduler's invariant. -/
theorem sched (ok : SchedOk cpu k) (small : cpu < ncpu) (change : MutexChange cpu victim i k k') :
    SchedOk cpu k' := by
  cases change with
  | acquire free => exact (ok.setMlock _ _).note _
  | block held foreign can calm locking => exact ok.blocks small _ can (by simp) (by simp)
  | releaseFree held own empty => exact (ok.setMlock _ _).note _
  | releaseWake held own queued calm =>
    exact ((ok.setMlock i _).wake small (mem_of_head queued) (by simp)).note _
  | killedFree silent held own empty => exact ok.setMlock _ _
  | handOver silent held own queued =>
    exact (ok.wake small (mem_of_head queued) (by simp)).setMlock _ _

/-- A change of a mutex lock leaves the other objects alone. -/
theorem frame (ok : SchedOk cpu k) (small : cpu < ncpu) (change : MutexChange cpu victim i k k') :
    Frame (ofMutex i) victim k k' := by
  cases change with
  | acquire free =>
    refine Frame.trans (Frame.setMlock _ rfl) (Frame.note _ ?_)
    exact fun q about => (Option.some.inj about).symm
  | block held foreign can calm locking =>
    refine Frame.blockOn ok small _ can (by simp) (.inl rfl) ?_
    intro j other resume
    exact other (congrArg QueueRef.mutex (locking j resume))
  | releaseFree held own empty =>
    refine Frame.trans (Frame.setMlock _ rfl) (Frame.note _ ?_)
    exact fun q about => (Option.some.inj about).symm
  | @releaseWake h rest held own queued =>
    have freed := ok.setMlock i { k.mlocks i with locked := false }
    have woken : Frame (ofMutex i) victim _ _ :=
      Frame.wake freed small (h := h) (q := .mutex i) (mem_of_head queued) (by simp) (.inl rfl)
    refine Frame.trans (Frame.trans (Frame.setMlock _ rfl) woken) (Frame.note _ ?_)
    exact fun q about => (Option.some.inj about).symm
  | killedFree silent held own empty => exact Frame.setMlock _ rfl
  | handOver silent held own queued =>
    exact Frame.trans (Frame.wake ok small (mem_of_head queued) (by simp) (.inl rfl))
      (Frame.setMlock _ rfl)

/-- A change of a mutex lock keeps the invariant of the kernel. -/
theorem ok (ok : KernelOk cpu k) (small : cpu < ncpu) (change : MutexChange cpu victim i k k') :
    KernelOk cpu k' :=
  ok.of_frame (change.sched ok.toSchedOk small) (change.frame ok.toSchedOk small)
    (by simp [ofMutex]) (by simp [ofMutex]) (by simp [ofMutex]) (by simp [ofMutex])

end MutexChange

namespace SemaphoreChange

variable {i : Nat}

/-- A change of a semaphore keeps the scheduler's invariant, and the other objects. -/
theorem sched_frame (ok : KernelOk cpu k) (small : cpu < ncpu)
    (change : SemaphoreChange cpu victim i k k') :
    SchedOk cpu k' ∧ Frame (ofSemaphore i) victim k k' := by
  have sched := ok.toSchedOk
  have own : ∀ q, some (QueueRef.semaphore i) = some q → ofSemaphore i q :=
    fun q about => (Option.some.inj about).symm
  cases change with
  | init value fits closed =>
    rw [Kernel.clearQueue_empty (ok.semaphoreClosed i closed)]
    exact ⟨(sched.setSemaphore _ _).note _,
      Frame.trans (Frame.setSemaphore _ rfl) (Frame.note _ own)⟩
  | upFree valid nonneg =>
    exact ⟨(sched.setSemaphore _ _).note _,
      Frame.trans (Frame.setSemaphore _ rfl) (Frame.note _ own)⟩
  | upReset valid neg empty =>
    exact ⟨(sched.setSemaphore _ _).note _,
      Frame.trans (Frame.setSemaphore _ rfl) (Frame.note _ own)⟩
  | upWake valid neg queued calm =>
    have counted := (sched.setSemaphore i
      { k.semaphores i with value := wrapInt32 ((k.semaphores i).value + 1) }).note (.semUp i)
    have woken : Frame (ofSemaphore i) victim _ _ :=
      Frame.wake counted small (mem_of_head queued) (by simp) (.inl rfl)
    refine ⟨(counted.wake small (mem_of_head queued) (by simp)).note _, ?_⟩
    refine Frame.trans (Frame.trans ?_ woken) (Frame.note _ own)
    exact Frame.trans (Frame.setSemaphore _ rfl) (Frame.note _ own)
  | pass valid nonneg =>
    exact ⟨(sched.setSemaphore _ _).note _,
      Frame.trans (Frame.setSemaphore _ rfl) (Frame.note _ own)⟩
  | @block p valid neg can calm locking =>
    have counted := sched.setSemaphore i
      { k.semaphores i with value := wrapInt32 ((k.semaphores i).value - 1) }
    have can' : CanBlock cpu (k.setSemaphore i
      { k.semaphores i with value := wrapInt32 ((k.semaphores i).value - 1) }) p :=
      ⟨can.queued, can.runnable, can.stays, can.user⟩
    refine ⟨counted.blocks small _ can' (by simp) (by simp), ?_⟩
    exact Frame.trans (Frame.setSemaphore _ rfl)
      (Frame.blockOn counted small _ can' (by simp) (.inl rfl) fun j _ => locking j)
  | close wakes empty =>
    obtain ⟨after, frame⟩ := Frame.wakes (ofSemaphore i) victim small
      (by simp) (.inl rfl) wakes (sched.setSemaphore i _)
    exact ⟨after, Frame.trans (Frame.setSemaphore _ rfl) frame⟩

/-- A change of a semaphore keeps the invariant of the kernel. -/
theorem ok (ok : KernelOk cpu k) (small : cpu < ncpu)
    (change : SemaphoreChange cpu victim i k k') : KernelOk cpu k' := by
  obtain ⟨after, frame⟩ := sched_frame ok small change
  refine ok.of_frame after frame ?_ (by simp [ofSemaphore]) (by simp [ofSemaphore])
    (by simp [ofSemaphore])
  intro j owned invalid
  obtain rfl : j = i := by simpa [ofSemaphore] using owned
  cases change with
  | init value fits closed => simp [Kernel.note, Kernel.setSemaphore] at invalid
  | upFree valid nonneg => simp [Kernel.note, Kernel.setSemaphore, valid] at invalid
  | upReset valid neg empty => exact empty
  | upWake valid neg queued calm =>
    simp [Kernel.note, Kernel.setSemaphore, Kernel.wake, Kernel.setPcb, valid] at invalid
  | pass valid nonneg => simp [Kernel.note, Kernel.setSemaphore, valid] at invalid
  | block valid neg can calm locking =>
    simp [Kernel.setSemaphore, Kernel.blockOn, Kernel.setStatus, Kernel.setPcb, valid] at invalid
  | close wakes empty => exact empty

end SemaphoreChange

namespace BarrierChange

variable {i : Nat}

/-- A change of a barrier keeps the scheduler's invariant, and the other objects. -/
theorem sched_frame (ok : KernelOk cpu k) (small : cpu < ncpu)
    (change : BarrierChange cpu victim i k k') :
    SchedOk cpu k' ∧ Frame (ofBarrier i) victim k k' := by
  have sched := ok.toSchedOk
  cases change with
  | init goal closed =>
    rw [Kernel.clearQueue_empty (ok.barrierClosed i closed)]
    exact ⟨sched.setBarrier _ _, Frame.setBarrier _ rfl⟩
  | pass valid all calm wakes empty =>
    obtain ⟨after, frame⟩ := Frame.wakes (ofBarrier i) victim small
      (by simp) (.inl rfl) wakes (sched.setBarrier i _)
    refine ⟨after.note _, Frame.trans (Frame.trans (Frame.setBarrier _ rfl) frame)
      (Frame.note _ ?_)⟩
    exact fun q about => (Option.some.inj about).symm
  | @block p valid few can calm locking =>
    have counted := sched.setBarrier i
      { k.barriers i with come := (k.barriers i).come + 1 }
    have can' : CanBlock cpu (k.setBarrier i
      { k.barriers i with come := (k.barriers i).come + 1 }) p :=
      ⟨can.queued, can.runnable, can.stays, can.user⟩
    refine ⟨counted.blocks small _ can' (by simp) (by simp), ?_⟩
    exact Frame.trans (Frame.setBarrier _ rfl)
      (Frame.blockOn counted small _ can' (by simp) (.inl rfl) fun j _ => locking j)
  | close wakes empty =>
    obtain ⟨after, frame⟩ := Frame.wakes (ofBarrier i) victim small
      (by simp) (.inl rfl) wakes (sched.setBarrier i _)
    exact ⟨after, Frame.trans (Frame.setBarrier _ rfl) frame⟩

/-- A change of a barrier keeps the invariant of the kernel. -/
theorem ok (ok : KernelOk cpu k) (small : cpu < ncpu)
    (change : BarrierChange cpu victim i k k') : KernelOk cpu k' := by
  obtain ⟨after, frame⟩ := sched_frame ok small change
  refine ok.of_frame after frame (by simp [ofBarrier]) ?_ (by simp [ofBarrier])
    (by simp [ofBarrier])
  intro j owned invalid
  obtain rfl : j = i := by simpa [ofBarrier] using owned
  cases change with
  | init goal closed => simp [Kernel.setBarrier] at invalid
  | pass valid all calm wakes empty => exact empty
  | block valid few can calm locking =>
    simp [Kernel.setBarrier, Kernel.blockOn, Kernel.setStatus, Kernel.setPcb, valid] at invalid
  | close wakes empty => exact empty

end BarrierChange

namespace Mailbox

/-- Indexes stay inside the buffer. -/
theorem nextIndex_le {index : Nat} : nextIndex index ≤ maxMboxLength := by
  unfold nextIndex
  split
  · exact Nat.zero_le _
  · omega

/-- Entering bytes keeps the owner, and the last byte inside the buffer. -/
theorem enterAll_keeps {bytes : List UInt8} {mbox mbox' : Mailbox}
    (entered : mbox.enterAll bytes = some mbox') :
    mbox'.opid = mbox.opid ∧ mbox'.bufHead = mbox.bufHead ∧
      (mbox.bufTail ≤ maxMboxLength → mbox'.bufTail ≤ maxMboxLength) := by
  induction bytes generalizing mbox with
  | nil =>
    cases entered
    exact ⟨rfl, rfl, id⟩
  | cons d rest ih =>
    simp only [enterAll, queueEnter] at entered
    split at entered
    · simp only [Option.bind_some] at entered
      obtain ⟨opid, head, tail⟩ := ih entered
      exact ⟨opid, head, fun _ => tail nextIndex_le⟩
    · simp at entered

/-- Taking bytes out keeps the owner, and the first byte inside the buffer. -/
theorem departAll_keeps {n : Nat} {bytes : List UInt8} {mbox mbox' : Mailbox}
    (departed : mbox.departAll n = some (bytes, mbox')) :
    mbox'.opid = mbox.opid ∧ mbox'.bufTail = mbox.bufTail ∧
      (mbox.bufHead ≤ maxMboxLength → mbox'.bufHead ≤ maxMboxLength) := by
  induction n generalizing mbox bytes with
  | zero =>
    cases departed
    exact ⟨rfl, rfl, id⟩
  | succ n ih =>
    simp only [departAll, queueDepart] at departed
    split at departed
    · simp only [Option.bind_some] at departed
      obtain ⟨⟨tail, last⟩, ran, same⟩ := Option.map_eq_some_iff.mp departed
      cases same
      obtain ⟨opid, tail, head⟩ := ih ran
      exact ⟨opid, tail, fun _ => head nextIndex_le⟩
    · simp at departed

end Mailbox

namespace MailboxChange

variable {i : Nat}

/-- A change of a mailbox keeps the scheduler's invariant, and the other objects. -/
theorem sched_frame (ok : KernelOk cpu k) (small : cpu < ncpu)
    (change : MailboxChange cpu victim i k k') :
    SchedOk cpu k' ∧ Frame (ofMailbox i) victim k k' := by
  have sched := ok.toSchedOk
  have own : ∀ q, some (QueueRef.mboxSend i) = some q → ofMailbox i q :=
    fun q about => .inl (Option.some.inj about).symm
  cases change with
  | opens closed =>
    rw [Kernel.clearQueue_empty (ok.recvClosed i closed),
      Kernel.clearQueue_empty (ok.sendClosed i closed)]
    exact ⟨(sched.setMailbox _ _).note _,
      Frame.trans (Frame.setMailbox _ (.inl rfl)) (Frame.note _ own)⟩
  | close receivers senders noReceivers noSenders =>
    obtain ⟨after₁, frame₁⟩ := Frame.wakes (ofMailbox i) victim small
      (by simp) (.inl (.inr rfl)) receivers (sched.setMailbox i _)
    obtain ⟨after₂, frame₂⟩ := Frame.wakes (ofMailbox i) victim small
      (by simp) (.inl (.inl rfl)) senders after₁
    exact ⟨after₂, Frame.trans (Frame.setMailbox _ (.inl rfl)) (frame₁.trans frame₂)⟩
  | @blockSend p msgLength resume valid full can calm locking =>
    have stored := sched.setReqLen (k.current cpu) msgLength
    have can' := (canBlock_setReqLen msgLength).mpr can
    refine ⟨stored.blocks small _ can' (by simp) (by simp), ?_⟩
    refine Frame.trans (SchedChange.frame_current sched small rfl ?_)
      (Frame.blockOn stored small _ can' (by simp) (.inl (.inl rfl)) ?_)
    · exact fun j _ wanted => absurd wanted (locking j)
    · intro j _ wanted
      have before : (k.cur cpu).resume = .mutexAcquire j := by
        simpa [Kernel.cur, Kernel.setPcb] using wanted
      exact locking j before
  | @blockRecv p msgLength resume valid empty can calm locking =>
    have stored := sched.setReqLen (k.current cpu) msgLength
    have can' := (canBlock_setReqLen msgLength).mpr can
    refine ⟨stored.blocks small _ can' (by simp) (by simp), ?_⟩
    refine Frame.trans (SchedChange.frame_current sched small rfl ?_)
      (Frame.blockOn stored small _ can' (by simp) (.inl (.inr rfl)) ?_)
    · exact fun j _ wanted => absurd wanted (locking j)
    · intro j _ wanted
      have before : (k.cur cpu).resume = .mutexAcquire j := by
        simpa [Kernel.cur, Kernel.setPcb] using wanted
      exact locking j before
  | sent valid entered calm wakes stopped =>
    obtain ⟨after, frame⟩ := Frame.wakes (ofMailbox i) victim small
      (by simp) (.inl (.inr rfl)) wakes (sched.setMailbox i _)
    exact ⟨after.note _, Frame.trans (Frame.setMailbox _ (.inl rfl))
      (frame.trans (Frame.note _ own))⟩
  | received valid departed calm wakes empty =>
    obtain ⟨after, frame⟩ := Frame.wakes (ofMailbox i) victim small
      (by simp) (.inl (.inl rfl)) wakes (sched.setMailbox i _)
    exact ⟨after.note _, Frame.trans (Frame.setMailbox _ (.inl rfl))
      (frame.trans (Frame.note _ own))⟩

/-- A change of a mailbox keeps the invariant of the kernel. -/
theorem ok (ok : KernelOk cpu k) (small : cpu < ncpu)
    (change : MailboxChange cpu victim i k k') : KernelOk cpu k' := by
  obtain ⟨after, frame⟩ := sched_frame ok small change
  refine ok.of_frame after frame (by simp [ofMailbox]) (by simp [ofMailbox]) ?_ ?_
  · intro j owned invalid
    obtain rfl : j = i := by simpa [ofMailbox] using owned
    cases change with
    | opens closed => simp [Kernel.note, Kernel.setMailbox] at invalid
    | close receivers senders noReceivers noSenders => exact ⟨noSenders, noReceivers⟩
    | blockSend resume valid full can calm locking => exact absurd invalid valid
    | blockRecv resume valid empty can calm locking => exact absurd invalid valid
    | sent valid entered calm wakes stopped =>
      have kept := (Mailbox.enterAll_keeps entered).1
      simp [Kernel.note, wakes.mailboxes, Kernel.setMailbox, kept, valid] at invalid
    | received valid departed calm wakes empty =>
      have kept := (Mailbox.departAll_keeps departed).1
      simp [Kernel.note, wakes.mailboxes, Kernel.setMailbox, kept, valid] at invalid
  · intro j owned
    obtain rfl : j = i := by simpa [ofMailbox] using owned
    have head := ok.bufHead j
    have tail := ok.bufTail j
    cases change with
    | opens closed => simp [Kernel.note, Kernel.setMailbox]
    | close receivers senders noReceivers noSenders =>
      rw [senders.mailboxes, receivers.mailboxes]
      simpa [Kernel.setMailbox] using ⟨head, tail⟩
    | blockSend resume valid full can calm locking => exact ⟨head, tail⟩
    | blockRecv resume valid empty can calm locking => exact ⟨head, tail⟩
    | sent valid entered calm wakes stopped =>
      obtain ⟨_, sameHead, inTail⟩ := Mailbox.enterAll_keeps entered
      simpa [Kernel.note, wakes.mailboxes, Kernel.setMailbox, sameHead]
        using ⟨head, inTail tail⟩
    | received valid departed calm wakes empty =>
      obtain ⟨_, sameTail, inHead⟩ := Mailbox.departAll_keeps departed
      simpa [Kernel.note, wakes.mailboxes, Kernel.setMailbox, sameTail]
        using ⟨inHead head, tail⟩

end MailboxChange

/-! ## Any change -/

/-- Every change keeps the invariant of the kernel. -/
theorem Change.ok (ok : KernelOk cpu k) (small : cpu < ncpu) (change : Change cpu victim k k') :
    KernelOk cpu k' := by
  cases change with
  | spin slock =>
    have sched : SchedOk cpu { k with slock } := ok.toSchedOk.congr rfl rfl rfl rfl rfl
    exact { sched with
      semaphoreClosed := ok.semaphoreClosed
      barrierClosed := ok.barrierClosed
      sendClosed := ok.sendClosed
      recvClosed := ok.recvClosed
      bufHead := ok.bufHead
      bufTail := ok.bufTail }
  | sched change => exact change.ok ok small
  | mutex change => exact change.ok ok small
  | semaphore change => exact change.ok ok small
  | barrier change => exact change.ok ok small
  | mailbox change => exact change.ok ok small

/-- So does every sequence of changes. -/
theorem Changes.ok (ok : KernelOk cpu k) (small : cpu < ncpu) (changes : Changes cpu victim k k') :
    KernelOk cpu k' := by
  induction changes with
  | refl => exact ok
  | tail _ last ih => exact last.ok ih small

/-- What every change keeps, changes one after the other keep. -/
theorem Changes.invariant {inv : Kernel → Prop} (small : cpu < ncpu)
    (step : ∀ k k', KernelOk cpu k → Change cpu victim k k' → inv k → inv k')
    (ok : KernelOk cpu k) (base : inv k) (changes : Changes cpu victim k k') :
    KernelOk cpu k' ∧ inv k' := by
  induction changes with
  | refl => exact ⟨ok, base⟩
  | tail _ last ih => exact ⟨last.ok ih.1 small, step _ _ ih.1 last ih.2⟩

/-- What every change keeps is kept by the changes of an event, when a broken copy keeps it too. -/
theorem Deeds.invariant {inv : Kernel → Prop} {broken : Option Nat} (small : cpu < ncpu)
    (step : ∀ k k', KernelOk cpu k → Change cpu victim k k' → inv k → inv k')
    (breaks : ∀ k i mbox, KernelOk cpu k → mbox.opid = (k.mailboxes i).opid → inv k →
      inv (k.setMailbox i mbox))
    (ok : KernelOk cpu k) (base : inv k) (deeds : Deeds cpu victim broken k k') :
    KernelOk cpu k' ∧ inv k' := by
  cases broken with
  | none => exact Changes.invariant small step ok base deeds
  | some i =>
    obtain ⟨k₁, mbox, before, head, tail, opid, after⟩ := deeds
    obtain ⟨ok₁, base₁⟩ := Changes.invariant small step ok base before
    have frame : Frame (ofMailbox i) victim k₁ (k₁.setMailbox i mbox) :=
      Frame.setMailbox mbox (.inl rfl)
    have ok₂ : KernelOk cpu (k₁.setMailbox i mbox) := by
      refine ok₁.of_frame (ok₁.toSchedOk.setMailbox i mbox) frame (by simp [ofMailbox])
        (by simp [ofMailbox]) ?_ ?_
      · intro j owned invalid
        obtain rfl : j = i := by simpa [ofMailbox] using owned
        have closed : (k₁.mailboxes j).opid = none := by
          rw [← opid]
          simpa [Kernel.setMailbox] using invalid
        exact ⟨ok₁.sendClosed j closed, ok₁.recvClosed j closed⟩
      · intro j owned
        obtain rfl : j = i := by simpa [ofMailbox] using owned
        simpa [Kernel.setMailbox] using ⟨head, tail⟩
    exact Changes.invariant small step ok₂ (breaks k₁ i mbox ok₁ opid base₁) after

/-- The changes of an event keep the invariant, even when a copy breaks. -/
theorem Deeds.ok {broken : Option Nat} (ok : KernelOk cpu k) (small : cpu < ncpu)
    (deeds : Deeds cpu victim broken k k') : KernelOk cpu k' := by
  have kept := Deeds.invariant small (fun _ _ _ _ _ => trivial) (fun _ _ _ _ _ _ => trivial) ok
    (trivial : (fun _ : Kernel => True) k) deeds
  exact kept.1

/-- One more change at the end. -/
theorem Deeds.tail {broken : Option Nat} {k₁ : Kernel} (deeds : Deeds cpu victim broken k k₁)
    (last : Change cpu victim k₁ k') : Deeds cpu victim broken k k' := by
  cases broken with
  | none => exact Relation.ReflTransGen.tail deeds last
  | some i =>
    obtain ⟨k₂, mbox, before, head, tail, opid, after⟩ := deeds
    exact ⟨k₂, mbox, before, head, tail, opid, after.tail last⟩

end

end GlucOS.Sched
