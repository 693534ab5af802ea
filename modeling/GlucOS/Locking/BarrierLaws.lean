import GlucOS.Locking.ObjectLaws

/-! Barriers count those that wait, as long as none of them is killed. -/

namespace GlucOS.Sched

/-- The counters agree with the queues, and only whole groups have passed. -/
structure BarriersCount (k : Kernel) : Prop where
  /-- A barrier counts the live processes in its queue. -/
  come : ∀ i, (k.barriers i).opid ≠ none →
    (k.barriers i).come = (k.queue (.barrier i)).length ∧
      ∀ h ∈ k.queue (.barrier i), h ∈ k.pcbTable ∧ (k.pcb h).status = .sleeping
  /-- A group that is complete does not wait. -/
  few : ∀ i, (k.barriers i).opid ≠ none → 1 ≤ (k.barriers i).goal →
    (k.barriers i).come < (k.barriers i).goal
  /-- The processes that passed together were as many as the goal. -/
  groups : ∀ i group goal, .passed i group goal ∈ k.history → 1 ≤ goal →
    group.Nodup ∧ (group.length : Int) = goal

/-- An event kills a process that waits at a barrier. -/
def KillsBarrierWaiter (k : Kernel) (event : Event) : Prop :=
  ∃ i, (k.barriers i).opid ≠ none ∧
    ∃ h ∈ k.queue (.barrier i), victim k event = some (k.pcb h).pid

/-- An event that kills nobody kills nobody at a barrier. -/
theorem not_killsBarrierWaiter {k : Kernel} {event : Event} (calm : victim k event = none) :
    ¬ KillsBarrierWaiter k event := by
  rintro ⟨i, -, h, -, killed⟩
  simp [calm] at killed

/-- During an event, a barrier counts those that the event does not kill. -/
structure BarrierCounted (i : Nat) (victim : Option Nat) (k : Kernel) : Prop where
  /-- It counts those that go on waiting. -/
  come : (k.barriers i).opid ≠ none →
    (k.barriers i).come = (k.waiting victim (.barrier i)).length
  /-- A group that is complete does not wait. -/
  few : (k.barriers i).opid ≠ none → 1 ≤ (k.barriers i).goal →
    (k.barriers i).come < (k.barriers i).goal
  /-- The processes that passed together were as many as the goal. -/
  groups : ∀ group goal, .passed i group goal ∈ k.history → 1 ≤ goal →
    group.Nodup ∧ (group.length : Int) = goal

section

variable {cpu i : Nat} {victim : Option Nat} {own : QueueRef → Prop} {k k' : Kernel}

/-- A change that spares a barrier keeps its count. -/
theorem BarrierCounted.frame (counted : BarrierCounted i victim k) (frame : Frame own victim k k')
    (foreign : ¬ own (.barrier i)) : BarrierCounted i victim k' := by
  have same := frame.barriers i foreign
  refine ⟨fun valid => ?_, fun valid => ?_, fun group goal inside => ?_⟩
  · rw [same] at valid ⊢
    rw [frame.waiting _ (by simp) rfl foreign]
    exact counted.come valid
  · rw [same] at valid ⊢
    exact counted.few valid
  · obtain ⟨later, history, about⟩ := frame.history
    rw [history] at inside
    rcases List.mem_append.mp inside with new | old
    · exact absurd (about _ new _ rfl) foreign
    · exact counted.groups group goal old

/-- Every change around a barrier keeps its count. -/
theorem BarrierCounted.change (ok : KernelOk cpu k) (small : cpu < ncpu)
    (counted : BarrierCounted i victim k) (change : BarrierChange cpu victim i k k') :
    BarrierCounted i victim k' := by
  have outside := ok.toSchedOk.current_outside small (q := .barrier i) (by simp)
  cases change with
  | init goal closed =>
    rw [Kernel.clearQueue_empty (ok.barrierClosed i closed)]
    have empty : k.waiting victim (.barrier i) = [] := by
      simp [Kernel.waiting, ok.barrierClosed i closed]
    refine ⟨fun _ => ?_, fun _ positive => ?_, counted.groups⟩
    · show (Function.update k.barriers i _ i).come = (k.waiting victim (.barrier i)).length
      rw [Function.update_self, empty]
      rfl
    · simp only [Kernel.setBarrier, Function.update_self] at positive ⊢
      omega
  | pass valid all calm wakes empty =>
    have barriers := wakes.barriers
    have history := wakes.history
    have same := congrFun barriers i
    simp only [Kernel.setBarrier, Function.update_self] at same
    subst calm
    refine ⟨fun _ => ?_, fun _ positive => ?_, fun group goal inside positive => ?_⟩
    · simp only [Kernel.note, same]
      rw [Kernel.waiting_none]
      simp [empty]
    · simp only [Kernel.note, same] at positive ⊢
      omega
    · simp only [Kernel.note, history] at inside
      rcases List.mem_cons.mp inside with new | old
      · -- The group is the queue with the last process, which completes it.
        obtain ⟨-, rfl, rfl⟩ := Note.passed.inj new
        have come := counted.come valid
        rw [Kernel.waiting_none] at come
        have few := counted.few valid positive
        refine ⟨?_, ?_⟩
        · exact List.nodup_append.mpr ⟨ok.queueNodup _, List.nodup_singleton _, by
            rintro h inside _ new rfl
            exact outside (List.mem_singleton.mp new ▸ inside)⟩
        · rw [List.length_append, List.length_singleton]
          push_cast
          omega
      · exact counted.groups group goal old positive
  | @block p valid few can calm locking =>
    subst calm
    refine ⟨fun _ => ?_, fun _ _ => ?_, counted.groups⟩
    · rw [Kernel.waiting_none, Kernel.blockOn_queue, List.length_append, List.length_singleton]
      have come := counted.come valid
      rw [Kernel.waiting_none] at come
      simp only [Kernel.blockOn, Kernel.setStatus, Kernel.setPcb, Kernel.setBarrier,
        Function.update_self]
      push_cast
      omega
    · simpa [Kernel.blockOn, Kernel.setStatus, Kernel.setPcb, Kernel.setBarrier] using few
  | close wakes empty =>
    have barriers := wakes.barriers
    have history := wakes.history
    have invalid : (k'.barriers i).opid = none := by
      rw [barriers]
      simp [Kernel.setBarrier]
    refine ⟨fun valid => absurd invalid valid, fun valid => absurd invalid valid, ?_⟩
    rw [history]
    exact counted.groups

/-- An event that kills nobody at a barrier keeps all counts. -/
theorem BarriersCount.step {event : Event} {out : Out} (resting : Resting k)
    (count : BarriersCount k) (spares : ¬ KillsBarrierWaiter k event)
    (ran : step event k = .ok (out, k')) : BarriersCount k' := by
  have before : ∀ i, BarrierCounted i (Sched.victim k event) k := by
    intro i
    refine ⟨fun valid => ?_, count.few i, count.groups i⟩
    rw [Kernel.waiting_all fun h inside killed => spares ⟨i, valid, h, inside, killed⟩]
    exact (count.come i valid).1
  have after : ∀ i, BarrierCounted i (Sched.victim k event) k' := by
    intro i
    refine ran_invariant resting ran (fun k₁ k₂ ok change counted => ?_)
      (fun _ _ _ _ _ counted => ⟨counted.come, counted.few, counted.groups⟩) (before i)
    have small := (enabled_of_ran ran).1
    rcases change.barrier_or_frame ok small i with about | frame
    · exact counted.change ok small about
    · exact counted.frame frame (by simp)
  have steps := steps_of_ran resting ran
  have sched := steps.rests.ok.toSchedOk
  refine ⟨fun i valid => ⟨?_, fun h inside => ?_⟩, fun i => (after i).few, fun i => (after i).groups⟩
  · rw [← steps.awake.waiting sched (q := .barrier i) (by simp)]
    exact (after i).come valid
  · exact ⟨(sched.queueLive _ h inside).1, sched.sleeping_of_queued inside (by simp)⟩

end

/-- As long as no process is killed at a barrier, all barriers count right and let groups pass. -/
theorem barrier_counts (timeMaxSec : Nat) (k : Kernel)
    (reached : Reaches step (fun k event => ¬ KillsBarrierWaiter k event) (initial timeMaxSec) k) :
    BarriersCount k := by
  induction reached with
  | start =>
    constructor
    · simp [initial, initPcb, Kernel.addPcb]
    · simp [initial, initPcb, Kernel.addPcb]
    · simp [initial, initPcb, Kernel.addPcb]
  | step before spares ran ih => exact ih.step (reaches_resting before) spares ran

/-- One of two processes waits at a barrier for two. -/
def waitRun : List Event :=
  [⟨quietEnv 0, .timer⟩, ⟨quietEnv 0, .syscall (.exec 1 true)⟩,
    ⟨quietEnv 0, .syscall (.barrierInit 0 2)⟩, ⟨quietEnv 1, .timer⟩,
    ⟨quietEnv 1, .syscall (.barrierWait 0)⟩]

/-- The second process comes, so that both pass. -/
theorem barrier_counts_waitRun :
    ∃ k, runWhere step (fun k event => victim k event = none) (initial 100)
        (waitRun ++ [⟨quietEnv 0, .syscall (.barrierWait 0)⟩]) = some k ∧ BarriersCount k := by
  have possible : (runWhere step (fun k event => victim k event = none) (initial 100)
      (waitRun ++ [⟨quietEnv 0, .syscall (.barrierWait 0)⟩])).isSome := by decide +kernel
  obtain ⟨k, ran⟩ := Option.isSome_iff_exists.mp possible
  refine ⟨k, ran, barrier_counts 100 k (.of_events_where (fun k event calm => ?_) ran)⟩
  exact not_killsBarrierWaiter (of_decide_eq_true calm)

/-- A process that is killed at a barrier is still counted. -/
theorem barrier_miscounts : ¬ ∀ (timeMaxSec : Nat) (k : Kernel),
    Reaches step (fun _ _ => True) (initial timeMaxSec) k → BarriersCount k := by
  intro counts
  have left : (runEvents step (initial 100)
      (waitRun ++ [⟨quietEnv 0, .syscall (.kill 3)⟩])).map (fun k =>
        ((k.barriers 0).opid, (k.barriers 0).come, k.queue (.barrier 0))) =
      some (some 2, 1, []) := by decide +kernel
  obtain ⟨k, ran, found⟩ := Option.map_eq_some_iff.mp left
  obtain ⟨opid, come, queue⟩ : (k.barriers 0).opid = some 2 ∧ (k.barriers 0).come = 1 ∧
      k.queue (.barrier 0) = [] := by simpa using found
  have count := ((counts 100 k (.of_events ran)).come 0 (by simp [opid])).1
  simp [come, queue] at count

end GlucOS.Sched
