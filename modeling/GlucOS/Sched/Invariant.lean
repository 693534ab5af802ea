import GlucOS.Sched.Machine

/-! The invariant that ties queues, states and processors together, and the changes that keep it. -/

namespace GlucOS.Sched

/--
Every PCB is in exactly one queue, and queues, states and current processes agree.

One processor is acting: its current process may be leaving, or go on in the middle of a call.
-/
structure SchedOk (acting : Nat) (k : Kernel) : Prop where
  /-- A PCB has one entry of the table. -/
  tableNodup : k.pcbTable.Nodup
  /-- The table is large enough. -/
  tableRoom : k.pcbTable.length ≤ uprocMax + ncpu
  /-- New addresses are unused. -/
  tableOld : ∀ h ∈ k.pcbTable, h < k.newPcb
  /-- What is queued is alive, and knows its queue. -/
  queueLive : ∀ q, ∀ h ∈ k.queue q, h ∈ k.pcbTable ∧ (k.pcb h).phead = q
  /-- What is alive is queued. -/
  queueHas : ∀ h ∈ k.pcbTable, h ∈ k.queue (k.pcb h).phead
  /-- No queue holds a PCB twice. -/
  queueNodup : ∀ q, (k.queue q).Nodup
  /-- Nobody waits for a PCB that was freed. -/
  waitLive : ∀ h, h ∉ k.pcbTable → k.queue (.wait h) = []
  /-- Nobody waits for itself. -/
  waitOther : ∀ h, h ∉ k.queue (.wait h)
  /-- The sleeping processes are those outside the ready queue. -/
  asleep : ∀ h ∈ k.pcbTable, (k.pcb h).status = .sleeping ↔ (k.pcb h).phead ≠ .ready
  /-- Threads differ in their identifiers. -/
  unique : ∀ h ∈ k.pcbTable, ∀ h' ∈ k.pcbTable, (k.pcb h).pid = (k.pcb h').pid →
    (k.pcb h).tid = (k.pcb h').tid → h = h'
  /-- Current processes are in the ready queue. -/
  currentReady : ∀ cpu < ncpu, k.current cpu ∈ k.queue .ready
  /-- Processors have different current processes. -/
  currentApart : ∀ cpu < ncpu, ∀ cpu' < ncpu, k.current cpu = k.current cpu' → cpu = cpu'
  /-- What runs is current somewhere. -/
  onCpu : ∀ h ∈ k.pcbTable, (k.pcb h).status = .running ∨ (k.pcb h).status = .exiting →
    ∃ cpu < ncpu, k.current cpu = h
  /-- What is current runs, but for what leaves. -/
  settled : ∀ cpu < ncpu, cpu ≠ acting →
    (k.cur cpu).status = .running ∨ (k.cur cpu).status = .exiting
  /-- What is current does not wait for a processor. -/
  notReady : ∀ cpu < ncpu, (k.cur cpu).status ≠ .ready
  /-- Only the acting processor is in the middle of a call. -/
  quiet : ∀ cpu < ncpu, cpu ≠ acting → ¬ k.inCall cpu
  /-- Idle processes are alive. -/
  idleLive : ∀ cpu < ncpu, cpu ∈ k.pcbTable
  /-- Idle processes have the lowest identifiers. -/
  idlePid : ∀ cpu < ncpu, (k.pcb cpu).pid = cpu
  /-- Idle processes run on their own processor only. -/
  idleMask : ∀ cpu < ncpu, (k.pcb cpu).cpuMask = 2 ^ cpu
  /-- Idle processes run or are ready. -/
  idleStatus : ∀ cpu < ncpu, (k.pcb cpu).status = .running ∨ (k.pcb cpu).status = .ready
  /-- Idle processes are current on their own processor only. -/
  idleOwn : ∀ cpu < ncpu, ∀ cpu' < ncpu, k.current cpu' = cpu → cpu' = cpu
  /-- The other processes have higher identifiers. -/
  userPid : ∀ h ∈ k.pcbTable, ncpu ≤ h → ncpu ≤ (k.pcb h).pid
  /-- A process that left has no thread but those being killed where they run. -/
  exitedAlone : ∀ h ∈ k.pcbTable, (k.pcb h).status = .exited →
    ∀ h' ∈ k.pcbTable, (k.pcb h').pid = (k.pcb h).pid → h' ≠ h → (k.pcb h').status = .exiting

namespace SchedOk

variable {acting : Nat} {k : Kernel}

/-- The queue of a PCB is the one it knows. -/
theorem mem_queue (ok : SchedOk acting k) {h : PcbRef} {q : QueueRef} :
    h ∈ k.queue q ↔ h ∈ k.pcbTable ∧ (k.pcb h).phead = q := by
  constructor
  · exact ok.queueLive q h
  · rintro ⟨live, here⟩
    exact here ▸ ok.queueHas h live

/-- Current processes are alive. -/
theorem currentLive (ok : SchedOk acting k) {cpu : Nat} (small : cpu < ncpu) :
    k.current cpu ∈ k.pcbTable := (ok.queueLive _ _ (ok.currentReady cpu small)).1

/-- Current processes do not sleep. -/
theorem current_not_sleeping (ok : SchedOk acting k) {cpu : Nat} (small : cpu < ncpu) :
    (k.cur cpu).status ≠ .sleeping := by
  intro sleeps
  have awake := (ok.queueLive _ _ (ok.currentReady cpu small)).2
  exact (ok.asleep _ (ok.currentLive small)).mp sleeps awake

/-- A PCB outside the ready queue sleeps. -/
theorem sleeping_of_queued (ok : SchedOk acting k) {h : PcbRef} {q : QueueRef}
    (queued : h ∈ k.queue q) (blocked : q ≠ .ready) : (k.pcb h).status = .sleeping := by
  obtain ⟨live, here⟩ := ok.queueLive q h queued
  exact (ok.asleep h live).mpr (here ▸ blocked)

/-- A PCB in the ready queue does not sleep. -/
theorem awake_of_ready (ok : SchedOk acting k) {h : PcbRef} (queued : h ∈ k.queue .ready) :
    (k.pcb h).status ≠ .sleeping := by
  obtain ⟨live, here⟩ := ok.queueLive _ h queued
  exact fun sleeps => (ok.asleep h live).mp sleeps here

/-- What does not run is current nowhere, unless the acting processor leaves it. -/
theorem not_current (ok : SchedOk acting k) {h : PcbRef} (idle : (k.pcb h).status ≠ .running)
    (alive : (k.pcb h).status ≠ .exiting) (left : h ≠ k.current acting) :
    ∀ cpu < ncpu, k.current cpu ≠ h := by
  intro cpu small same
  subst same
  by_cases other : cpu = acting
  · exact left (other ▸ rfl)
  · cases ok.settled cpu small other with
    | inl runs => exact idle runs
    | inr exits => exact alive exits

/-- A sleeping process is current nowhere. -/
theorem sleeping_not_current (ok : SchedOk acting k) {h : PcbRef}
    (sleeps : (k.pcb h).status = .sleeping) : ∀ cpu < ncpu, k.current cpu ≠ h := by
  intro cpu small same
  subst same
  exact ok.current_not_sleeping small sleeps

/-- A ready process is current nowhere. -/
theorem ready_not_current (ok : SchedOk acting k) {h : PcbRef}
    (ready : (k.pcb h).status = .ready) : ∀ cpu < ncpu, k.current cpu ≠ h := by
  intro cpu small same
  subst same
  exact ok.notReady cpu small ready

/-- Processes with a low identifier are the idle ones. -/
theorem eq_idle (ok : SchedOk acting k) {h : PcbRef} (live : h ∈ k.pcbTable)
    (low : (k.pcb h).pid < ncpu) : h < ncpu := by
  by_contra high
  have := ok.userPid h live (Nat.not_lt.mp high)
  omega

/-- User processes are not idle ones. -/
theorem user_ge (ok : SchedOk acting k) {h : PcbRef} (high : ncpu ≤ (k.pcb h).pid) : ncpu ≤ h := by
  by_contra low
  have := ok.idlePid h (by omega)
  omega

/-- A user process leaves the idle process of its processor ready. -/
theorem idle_ready (ok : SchedOk acting k) {cpu : Nat} (small : cpu < ncpu)
    (user : ncpu ≤ k.current cpu) : (k.pcb cpu).status = .ready := by
  cases ok.idleStatus cpu small with
  | inr ready => exact ready
  | inl runs =>
    -- The idle process could only run on its own processor, which has another current process.
    obtain ⟨cpu', small', same⟩ := ok.onCpu cpu (ok.idleLive cpu small) (.inl runs)
    have own := ok.idleOwn cpu small cpu' small' same
    rw [own] at same
    rw [same] at user
    omega

/-- Idle processes are in the ready queue. -/
theorem idle_queued (ok : SchedOk acting k) {cpu : Nat} (small : cpu < ncpu) :
    cpu ∈ k.queue .ready := by
  have live := ok.idleLive cpu small
  refine ok.mem_queue.mpr ⟨live, ?_⟩
  by_contra elsewhere
  have sleeps := (ok.asleep cpu live).mpr elsewhere
  cases ok.idleStatus cpu small with
  | inl runs => simp [runs] at sleeps
  | inr ready => simp [ready] at sleeps

/-- The idle process of a processor may run there. -/
theorem idle_runnable (ok : SchedOk acting k) {cpu : Nat} (small : cpu < ncpu)
    (user : ncpu ≤ k.current cpu) : k.runnable cpu cpu = true := by
  unfold Kernel.runnable
  rw [ok.idle_ready small user, ok.idleMask cpu small]
  simp

/-- An idle process may run on its own processor only. -/
theorem runnable_idle (ok : SchedOk acting k) {cpu idle : Nat} (small : idle < ncpu)
    (runnable : k.runnable cpu idle = true) : cpu = idle := by
  unfold Kernel.runnable at runnable
  rw [ok.idleMask idle small] at runnable
  simp only [Bool.and_eq_true, decide_eq_true_eq, Nat.testBit_two_pow] at runnable
  exact runnable.2.symm

end SchedOk

/-! ## Changes of single PCBs -/

namespace Kernel

/-- The PCB that is changed. -/
@[simp] theorem setPcb_same (k : Kernel) (h : PcbRef) (change : Pcb → Pcb) :
    (k.setPcb h change).pcb h = change (k.pcb h) := by simp [setPcb]

/-- Every other PCB. -/
@[simp] theorem setPcb_other (k : Kernel) {h h' : PcbRef} (change : Pcb → Pcb) (differ : h' ≠ h) :
    (k.setPcb h change).pcb h' = k.pcb h' := by simp [setPcb, differ]

/-- A field that the change keeps. -/
theorem setPcb_field {A : Type} (field : Pcb → A) (k : Kernel) (h : PcbRef) (change : Pcb → Pcb)
    (keep : field (change (k.pcb h)) = field (k.pcb h)) (h' : PcbRef) :
    field ((k.setPcb h change).pcb h') = field (k.pcb h') := by
  by_cases same : h' = h
  · subst same
    rw [setPcb_same, keep]
  · rw [setPcb_other k change same]

end Kernel

namespace SchedOk

variable {acting : Nat} {k : Kernel}

/-- A change of a PCB that keeps its identity, its state and its queue. -/
theorem setPcb (ok : SchedOk acting k) {h : PcbRef} {change : Pcb → Pcb}
    (pid : (change (k.pcb h)).pid = (k.pcb h).pid) (tid : (change (k.pcb h)).tid = (k.pcb h).tid)
    (status : (change (k.pcb h)).status = (k.pcb h).status)
    (phead : (change (k.pcb h)).phead = (k.pcb h).phead)
    (mask : h < ncpu → (change (k.pcb h)).cpuMask = (k.pcb h).cpuMask)
    (resume : (∀ cpu < ncpu, cpu ≠ acting → k.current cpu ≠ h) ∨
      (change (k.pcb h)).resume = .toUser ∨ (change (k.pcb h)).resume = (k.pcb h).resume) :
    SchedOk acting (k.setPcb h change) := by
  have samePid := Kernel.setPcb_field Pcb.pid k h change pid
  have sameTid := Kernel.setPcb_field Pcb.tid k h change tid
  have sameStatus := Kernel.setPcb_field Pcb.status k h change status
  have samePhead := Kernel.setPcb_field Pcb.phead k h change phead
  -- The lists and the current processes are those of before.
  refine { ok with
    queueLive := ?_
    queueHas := ?_
    asleep := ?_
    unique := ?_
    onCpu := ?_
    settled := ?_
    notReady := ?_
    quiet := ?_
    idlePid := ?_
    idleMask := ?_
    idleStatus := ?_
    userPid := ?_
    exitedAlone := ?_ }
  · intro q h' queued
    rw [samePhead]
    exact ok.queueLive q h' queued
  · intro h' live
    rw [samePhead]
    exact ok.queueHas h' live
  · intro h' live
    rw [sameStatus, samePhead]
    exact ok.asleep h' live
  · intro h₁ live₁ h₂ live₂
    rw [samePid, samePid, sameTid, sameTid]
    exact ok.unique h₁ live₁ h₂ live₂
  · intro h' live
    rw [sameStatus]
    exact ok.onCpu h' live
  · intro cpu small other
    show ((k.setPcb h change).pcb (k.current cpu)).status = _ ∨
      ((k.setPcb h change).pcb (k.current cpu)).status = _
    rw [sameStatus]
    exact ok.settled cpu small other
  · intro cpu small
    show ((k.setPcb h change).pcb (k.current cpu)).status ≠ _
    rw [sameStatus]
    exact ok.notReady cpu small
  · intro cpu small other
    have before := ok.quiet cpu small other
    unfold Kernel.inCall Kernel.cur at before ⊢
    show ¬ ((k.setPcb h change).pcb (k.current cpu)).resume ≠ .toUser
    by_cases same : k.current cpu = h
    · rw [same] at before ⊢
      rw [Kernel.setPcb_same]
      rcases resume with away | quiet | kept
      · exact absurd same (away cpu small other)
      · simp [quiet]
      · rw [kept]
        exact before
    · rw [Kernel.setPcb_other k change same]
      exact before
  · intro cpu small
    rw [samePid]
    exact ok.idlePid cpu small
  · intro cpu small
    by_cases same : cpu = h
    · subst same
      rw [Kernel.setPcb_same, mask small]
      exact ok.idleMask cpu small
    · rw [Kernel.setPcb_other k change same]
      exact ok.idleMask cpu small
  · intro cpu small
    rw [sameStatus]
    exact ok.idleStatus cpu small
  · intro h' live
    rw [samePid]
    exact ok.userPid h' live
  · intro h₁ live₁ exited h₂ live₂
    rw [sameStatus] at exited ⊢
    rw [samePid, samePid]
    exact ok.exitedAlone h₁ live₁ exited h₂ live₂

end SchedOk

end GlucOS.Sched
