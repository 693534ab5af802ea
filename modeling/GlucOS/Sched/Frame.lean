import GlucOS.Sched.Change

/-! What a change leaves alone: the synchronization objects it is not about. -/

namespace GlucOS.Sched

/-- The processes of a queue that the event does not kill. -/
def Kernel.waiting (k : Kernel) (victim : Option Nat) (q : QueueRef) : List PcbRef :=
  (k.queue q).filter fun h => victim ≠ some (k.pcb h).pid

/-- The queue of the object a note is about. -/
def Note.about : Note → Option QueueRef
  | .acquired i _ _ | .released i _ _ => some (.mutex i)
  | .semInit i _ | .semUp i | .semGranted i => some (.semaphore i)
  | .passed i _ _ => some (.barrier i)
  | .opened i | .sent i _ | .received i _ => some (.mboxSend i)
  | .terminated _ => none

/--
The objects whose queues are not owned by a change stay what they are.

Only processes that the event kills leave their queues.
-/
structure Frame (own : QueueRef → Prop) (victim : Option Nat) (k k' : Kernel) : Prop where
  /-- The processes that go on waiting. -/
  waiting : ∀ q, q ≠ .ready → q.plain = false → ¬ own q → k'.waiting victim q = k.waiting victim q
  /-- Nobody joins. -/
  shrink : ∀ q, q ≠ .ready → q.plain = false → ¬ own q → (k'.queue q).Sublist (k.queue q)
  /-- What waits asks for the same. -/
  request : ∀ q, q ≠ .ready → q.plain = false → ¬ own q → ∀ h ∈ k'.queue q,
    (k'.pcb h).resume = (k.pcb h).resume ∧ (k'.pcb h).reqLen = (k.pcb h).reqLen
  /-- Addresses are not used again. -/
  newPcb : k.newPcb ≤ k'.newPcb
  /-- Identifiers are kept. -/
  pid : ∀ h < k.newPcb, (k'.pcb h).pid = (k.pcb h).pid
  /-- A process that will test a free lock again still will. -/
  woken : ∀ i, ¬ own (.mutex i) → (k.mlocks i).locked = false → ∀ h, k.Woken i h →
    h < k.newPcb → victim ≠ some (k.pcb h).pid → k'.Woken i h
  /-- The mutex locks. -/
  mlocks : ∀ i, ¬ own (.mutex i) → k'.mlocks i = k.mlocks i
  /-- The semaphores. -/
  semaphores : ∀ i, ¬ own (.semaphore i) → k'.semaphores i = k.semaphores i
  /-- The barriers. -/
  barriers : ∀ i, ¬ own (.barrier i) → k'.barriers i = k.barriers i
  /-- The mailboxes. -/
  mailboxes : ∀ i, ¬ own (.mboxSend i) → k'.mailboxes i = k.mailboxes i
  /-- The notes. -/
  history : ∃ new, k'.history = new ++ k.history ∧
    ∀ entry ∈ new, ∀ q, entry.about = some q → own q

namespace Frame

variable {own : QueueRef → Prop} {victim : Option Nat} {k k₁ k' : Kernel}

/-- Nothing happens. -/
theorem refl (own : QueueRef → Prop) (victim : Option Nat) (k : Kernel) : Frame own victim k k where
  waiting := fun _ _ _ _ => rfl
  shrink := fun _ _ _ _ => .refl _
  request := fun _ _ _ _ _ _ => ⟨rfl, rfl⟩
  newPcb := le_rfl
  pid := fun _ _ => rfl
  woken := fun _ _ _ _ holds _ _ => holds
  mlocks := fun _ _ => rfl
  semaphores := fun _ _ => rfl
  barriers := fun _ _ => rfl
  mailboxes := fun _ _ => rfl
  history := ⟨[], rfl, by simp⟩

/-- One change after another. -/
theorem trans (first : Frame own victim k k₁) (second : Frame own victim k₁ k') :
    Frame own victim k k' where
  waiting := fun q blocked object foreign =>
    (second.waiting q blocked object foreign).trans (first.waiting q blocked object foreign)
  shrink := fun q blocked object foreign =>
    (second.shrink q blocked object foreign).trans (first.shrink q blocked object foreign)
  request := by
    intro q blocked object foreign h inside
    obtain ⟨resume₂, reqLen₂⟩ := second.request q blocked object foreign h inside
    have before := (second.shrink q blocked object foreign).subset inside
    obtain ⟨resume₁, reqLen₁⟩ := first.request q blocked object foreign h before
    exact ⟨resume₂.trans resume₁, reqLen₂.trans reqLen₁⟩
  newPcb := first.newPcb.trans second.newPcb
  pid := fun h old => (second.pid h (Nat.lt_of_lt_of_le old first.newPcb)).trans (first.pid h old)
  woken := by
    intro i foreign free h holds old spared
    have free₁ : (k₁.mlocks i).locked = false := by rw [first.mlocks i foreign]; exact free
    have spared₁ : victim ≠ some (k₁.pcb h).pid := by rw [first.pid h old]; exact spared
    exact second.woken i foreign free₁ h (first.woken i foreign free h holds old spared)
      (Nat.lt_of_lt_of_le old first.newPcb) spared₁
  mlocks := fun i foreign => (second.mlocks i foreign).trans (first.mlocks i foreign)
  semaphores := fun i foreign => (second.semaphores i foreign).trans (first.semaphores i foreign)
  barriers := fun i foreign => (second.barriers i foreign).trans (first.barriers i foreign)
  mailboxes := fun i foreign => (second.mailboxes i foreign).trans (first.mailboxes i foreign)
  history := by
    obtain ⟨new₁, same₁, about₁⟩ := first.history
    obtain ⟨new₂, same₂, about₂⟩ := second.history
    refine ⟨new₂ ++ new₁, by rw [same₂, same₁, List.append_assoc], ?_⟩
    intro entry inside
    rcases List.mem_append.mp inside with inside | inside
    · exact about₂ entry inside
    · exact about₁ entry inside

/-- A change that owns fewer queues. -/
theorem mono {wider : QueueRef → Prop} (frame : Frame own victim k k')
    (widen : ∀ q, own q → wider q) : Frame wider victim k k' where
  waiting := fun q blocked object foreign =>
    frame.waiting q blocked object fun owned => foreign (widen q owned)
  shrink := fun q blocked object foreign =>
    frame.shrink q blocked object fun owned => foreign (widen q owned)
  request := fun q blocked object foreign =>
    frame.request q blocked object fun owned => foreign (widen q owned)
  newPcb := frame.newPcb
  pid := frame.pid
  woken := fun i foreign => frame.woken i fun owned => foreign (widen _ owned)
  mlocks := fun i foreign => frame.mlocks i fun owned => foreign (widen _ owned)
  semaphores := fun i foreign => frame.semaphores i fun owned => foreign (widen _ owned)
  barriers := fun i foreign => frame.barriers i fun owned => foreign (widen _ owned)
  mailboxes := fun i foreign => frame.mailboxes i fun owned => foreign (widen _ owned)
  history := by
    obtain ⟨new, same, about⟩ := frame.history
    exact ⟨new, same, fun entry inside q aboutQ => widen q (about entry inside q aboutQ)⟩

/-- A change of the objects alone. -/
theorem objects (pcb : k'.pcb = k.pcb) (newPcb : k'.newPcb = k.newPcb)
    (queue : ∀ q, ¬ own q → k'.queue q = k.queue q) (ready : k'.queue .ready = k.queue .ready)
    (mlocks : ∀ i, ¬ own (.mutex i) → k'.mlocks i = k.mlocks i)
    (semaphores : ∀ i, ¬ own (.semaphore i) → k'.semaphores i = k.semaphores i)
    (barriers : ∀ i, ¬ own (.barrier i) → k'.barriers i = k.barriers i)
    (mailboxes : ∀ i, ¬ own (.mboxSend i) → k'.mailboxes i = k.mailboxes i)
    (history : ∃ new, k'.history = new ++ k.history ∧
      ∀ entry ∈ new, ∀ q, entry.about = some q → own q) : Frame own victim k k' where
  waiting := by
    intro q _ _ foreign
    unfold Kernel.waiting
    rw [queue q foreign, pcb]
  shrink := by
    intro q _ _ foreign
    rw [queue q foreign]
  request := by
    intro q _ _ _ h _
    rw [pcb]
    exact ⟨rfl, rfl⟩
  newPcb := newPcb.ge
  pid := by
    intro h _
    rw [pcb]
  woken := by
    intro i _ _ h holds _ _
    unfold Kernel.Woken at holds ⊢
    rw [ready, pcb]
    exact holds
  mlocks := mlocks
  semaphores := semaphores
  barriers := barriers
  mailboxes := mailboxes
  history := history

/-- Another note. -/
theorem note (entry : Note) (about : ∀ q, entry.about = some q → own q) :
    Frame own victim k (k.note entry) :=
  objects rfl rfl (fun _ _ => rfl) rfl (fun _ _ => rfl) (fun _ _ => rfl) (fun _ _ => rfl)
    (fun _ _ => rfl) ⟨[entry], rfl, by simpa using about⟩

/-- Another mutex lock. -/
theorem setMlock {i : Nat} (lock : MutexLock) (owned : own (.mutex i)) :
    Frame own victim k (k.setMlock i lock) := by
  refine objects rfl rfl (fun _ _ => rfl) rfl ?_ (fun _ _ => rfl) (fun _ _ => rfl)
    (fun _ _ => rfl) ⟨[], rfl, by simp⟩
  intro j foreign
  have differ : j ≠ i := by
    rintro rfl
    exact foreign owned
  exact Function.update_of_ne differ _ _

/-- Another semaphore. -/
theorem setSemaphore {i : Nat} (sema : Semaphore) (owned : own (.semaphore i)) :
    Frame own victim k (k.setSemaphore i sema) := by
  refine objects rfl rfl (fun _ _ => rfl) rfl (fun _ _ => rfl) ?_ (fun _ _ => rfl)
    (fun _ _ => rfl) ⟨[], rfl, by simp⟩
  intro j foreign
  have differ : j ≠ i := by
    rintro rfl
    exact foreign owned
  exact Function.update_of_ne differ _ _

/-- Another barrier. -/
theorem setBarrier {i : Nat} (barrier : Barrier) (owned : own (.barrier i)) :
    Frame own victim k (k.setBarrier i barrier) := by
  refine objects rfl rfl (fun _ _ => rfl) rfl (fun _ _ => rfl) (fun _ _ => rfl) ?_
    (fun _ _ => rfl) ⟨[], rfl, by simp⟩
  intro j foreign
  have differ : j ≠ i := by
    rintro rfl
    exact foreign owned
  exact Function.update_of_ne differ _ _

/-- Another mailbox. -/
theorem setMailbox {i : Nat} (mbox : Mailbox) (owned : own (.mboxSend i)) :
    Frame own victim k (k.setMailbox i mbox) := by
  refine objects rfl rfl (fun _ _ => rfl) rfl (fun _ _ => rfl) (fun _ _ => rfl)
    (fun _ _ => rfl) ?_ ⟨[], rfl, by simp⟩
  intro j foreign
  have differ : j ≠ i := by
    rintro rfl
    exact foreign owned
  exact Function.update_of_ne differ _ _

/-- A queue is cleared. -/
theorem clearQueue {q : QueueRef} (owned : own q) (blocked : q ≠ .ready) :
    Frame own victim k (k.clearQueue q) := by
  refine objects rfl rfl ?_ ?_ (fun _ _ => rfl) (fun _ _ => rfl) (fun _ _ => rfl)
    (fun _ _ => rfl) ⟨[], rfl, by simp⟩
  · intro q' foreign
    have differ : q' ≠ q := by
      rintro rfl
      exact foreign owned
    exact Function.update_of_ne differ _ _
  · exact Function.update_of_ne blocked.symm _ _

/-- A change of PCBs that keeps what the objects know of them. -/
theorem pcbs (queue : k'.queue = k.queue) (newPcb : k'.newPcb = k.newPcb)
    (pid : ∀ h, (k'.pcb h).pid = (k.pcb h).pid)
    (request : ∀ q, q ≠ .ready → ∀ h ∈ k.queue q,
      (k'.pcb h).resume = (k.pcb h).resume ∧ (k'.pcb h).reqLen = (k.pcb h).reqLen)
    (woken : ∀ i, (k.mlocks i).locked = false → ∀ h, k.Woken i h →
      victim ≠ some (k.pcb h).pid → k'.Woken i h)
    (mlocks : k'.mlocks = k.mlocks) (semaphores : k'.semaphores = k.semaphores)
    (barriers : k'.barriers = k.barriers) (mailboxes : k'.mailboxes = k.mailboxes)
    (history : k'.history = k.history) : Frame own victim k k' where
  waiting := by
    intro q _ _ _
    unfold Kernel.waiting
    simp only [queue, pid]
  shrink := by
    intro q _ _ _
    rw [queue]
  request := by
    intro q blocked _ _ h inside
    rw [queue] at inside
    exact request q blocked h inside
  newPcb := newPcb.ge
  pid := fun h _ => pid h
  woken := fun i _ free h holds _ spared => woken i free h holds spared
  mlocks := by intro i _; rw [mlocks]
  semaphores := by intro i _; rw [semaphores]
  barriers := by intro i _; rw [barriers]
  mailboxes := by intro i _; rw [mailboxes]
  history := ⟨[], by rw [history]; rfl, by simp⟩

/-- A move of a PCB to or from a queue that is owned, or plain. -/
theorem move {acting : Nat} (ok : SchedOk acting k) {h : PcbRef} {q q' : QueueRef}
    {list : List PcbRef} {change : Pcb → Pcb}
    (pid : (change (k.pcb h)).pid = (k.pcb h).pid) (queued : h ∈ k.queue q)
    (source : own q ∨ q.plain = true ∨ q = .ready) (goal : own q' ∨ q'.plain = true ∨ q' = .ready)
    (woken : ∀ i, ¬ own (.mutex i) → ∀ x, k.Woken i x → (k.move h q q' list change).Woken i x) :
    Frame own victim k (k.move h q q' list change) := by
  have same : ∀ any, any ≠ .ready → any.plain = false → ¬ own any →
      (k.move h q q' list change).queue any = k.queue any := by
    intro any blocked object foreign
    have notGoal : any ≠ q' := by
      rintro rfl
      rcases goal with owned | plain | ready
      · exact foreign owned
      · simp [plain] at object
      · exact blocked ready
    have notSource : any ≠ q := by
      rintro rfl
      rcases source with owned | plain | ready
      · exact foreign owned
      · simp [plain] at object
      · exact blocked ready
    show Function.update (Function.update k.queue q _) q' list any = _
    rw [Function.update_of_ne notGoal, Function.update_of_ne notSource]
  have samePid : ∀ x, ((k.move h q q' list change).pcb x).pid = (k.pcb x).pid :=
    Kernel.setPcb_field Pcb.pid k h change pid
  have others : ∀ x, x ≠ h → (k.move h q q' list change).pcb x = k.pcb x :=
    fun x differ => Kernel.setPcb_other k change differ
  refine ⟨?_, ?_, ?_, le_rfl, fun x _ => samePid x, fun i foreign _ x holds _ _ =>
    woken i foreign x holds, fun _ _ => rfl, fun _ _ => rfl, fun _ _ => rfl, fun _ _ => rfl,
    ⟨[], rfl, by simp⟩⟩
  · intro any blocked object foreign
    unfold Kernel.waiting
    simp only [same any blocked object foreign, samePid]
  · intro any blocked object foreign
    rw [same any blocked object foreign]
  · intro any blocked object foreign x inside
    rw [same any blocked object foreign] at inside
    -- The PCB that moves is in none of these queues.
    have differ : x ≠ h := by
      rintro rfl
      have home := (ok.queueLive any x inside).2.symm.trans (ok.queueLive q x queued).2
      subst home
      rcases source with owned | plain | ready
      · exact foreign owned
      · simp [plain] at object
      · exact blocked ready
    rw [others x differ]
    exact ⟨rfl, rfl⟩

/-- Waking from a queue that is owned, or plain. -/
theorem wake {acting cpu : Nat} (ok : SchedOk acting k) (small : cpu < ncpu) {q : QueueRef}
    {h : PcbRef} (queued : h ∈ k.queue q) (blocked : q ≠ .ready)
    (source : own q ∨ q.plain = true) : Frame own victim k (k.wake cpu q h) := by
  rw [Kernel.wake_eq]
  refine move ok rfl queued (source.imp_right .inl) (.inr (.inr rfl)) ?_
  intro i _ x holds
  obtain ⟨inReady, resume, status⟩ := holds
  have here := ok.currentReady cpu small
  have differ : x ≠ h := by
    rintro rfl
    exact blocked ((ok.queueLive q x queued).2.symm.trans (ok.queueLive _ x inReady).2)
  show (k.wake cpu q h).Woken i x
  unfold Kernel.Woken
  rw [Kernel.wake_ready, Kernel.wake_pcb_other cpu q differ]
  exact ⟨(mem_insertAfter here).mpr (.inr inReady), resume, status⟩

/-- Waking one process after the other. -/
theorem wakes (own : QueueRef → Prop) (victim : Option Nat) {acting cpu : Nat} (small : cpu < ncpu) {q : QueueRef} (blocked : q ≠ .ready)
    (source : own q ∨ q.plain = true) (wakes : Wakes cpu q k k') :
    SchedOk acting k → SchedOk acting k' ∧ Frame own victim k k' := by
  -- The induction carries the invariant from one process to the next.
  induction wakes with
  | refl k => exact fun ok => ⟨ok, refl own victim k⟩
  | @head k k' h rest queued more ih =>
    intro ok
    have inside : h ∈ k.queue q := by simp [queued]
    obtain ⟨after, frame⟩ := ih (ok.wake small inside blocked)
    exact ⟨after, (wake ok small inside blocked source).trans frame⟩

/-- The switch of the scheduler. -/
theorem switchTo (cpu : Nat) (p : PcbRef) : Frame own victim k (k.switchTo cpu p) := by
  have sameOf : ∀ {A : Type} (field : Pcb → A),
      (∀ pcb status, field { pcb with status } = field pcb) →
      ∀ x, field ((k.switchTo cpu p).pcb x) = field (k.pcb x) := by
    intro A field keep x
    unfold Kernel.switchTo
    split
    · exact (Kernel.setStatus_field field keep _ p _ x).trans
        (Kernel.setStatus_field field keep k _ _ x)
    · exact Kernel.setStatus_field field keep k p _ x
  have sameResume := sameOf Pcb.resume fun _ _ => rfl
  have queue : (k.switchTo cpu p).queue = k.queue := by
    unfold Kernel.switchTo
    split <;> rfl
  refine pcbs queue ?_ (sameOf Pcb.pid fun _ _ => rfl) ?_ ?_ ?_ ?_ ?_ ?_ ?_
  · unfold Kernel.switchTo
    split <;> rfl
  · exact fun _ _ x _ => ⟨sameResume x, sameOf Pcb.reqLen (fun _ _ => rfl) x⟩
  · intro i _ x holds _
    obtain ⟨inReady, resume, status⟩ := holds
    refine ⟨by rw [queue]; exact inReady, by rw [sameResume]; exact resume, ?_⟩
    -- What is switched to runs, and what is left is ready or keeps its state.
    by_cases entered : x = p
    · subst entered
      unfold Kernel.switchTo Kernel.setStatus
      split <;> simp
    · unfold Kernel.switchTo Kernel.setStatus
      split
      · by_cases left : x = k.current cpu
        · have differ : k.current cpu ≠ p := fun same => entered (left.trans same)
          simp [Kernel.setPcb, left, differ]
        · simpa [Kernel.setPcb, entered, left] using status
      · simpa [Kernel.setPcb, entered] using status
  all_goals
    unfold Kernel.switchTo
    split <;> rfl

end Frame

end GlucOS.Sched
