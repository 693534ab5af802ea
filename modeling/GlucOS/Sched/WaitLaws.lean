import GlucOS.Lib.Acyclic
import GlucOS.Lib.Reach
import GlucOS.Sched.Course
import GlucOS.Sched.Safety

/-! Who waits for whose end, and when nobody waits for ever because of others that wait. -/

namespace GlucOS.Sched

open Routine

/-- A thread is blocked until another one ends. -/
def Kernel.Waits (k : Kernel) (w x : PcbRef) : Prop := w ∈ k.queue (.wait x)

/-- Nobody waits for an end that was not waited for before. -/
def Fewer (k k' : Kernel) : Prop := ∀ w x, k'.Waits w x → k.Waits w x

section Fewer

variable {env : Env} {k k₁ k' : Kernel}

/-- Nothing happens. -/
theorem Fewer.refl (k : Kernel) : Fewer k k := fun _ _ waits => waits

/-- One thing after the other. -/
theorem Fewer.trans (first : Fewer k k₁) (second : Fewer k₁ k') : Fewer k k' :=
  fun w x waits => first w x (second w x waits)

/-- When nobody has ended, nobody waits for another end. -/
theorem Still.fewer (still : Still k k') : Fewer k k' := by
  intro w x waits
  unfold Kernel.Waits at waits ⊢
  cases still.waits x with
  | inl same => rwa [same] at waits
  | inr new => rw [new.2] at waits; cases waits

/-- When the queues are kept, so are the waits. -/
theorem Fewer.of_queue (queue : k'.queue = k.queue) : Fewer k k' := by
  intro w x waits
  unfold Kernel.Waits at waits ⊢
  rwa [queue] at waits

/-- What the rest of a routine does adds no wait either. -/
theorem Fewer.after {A : Type} {rest : KernelRoutine A} (first : Fewer k k₁)
    (more : Meets anyStop rest k₁ fun _ => Fewer k₁) : Meets anyStop rest k₁ fun _ => Fewer k :=
  more.mono fun _ _ later => first.trans later

/-- One routine and then another. -/
theorem Fewer.bind {A B : Type} {routine : KernelRoutine A} {rest : A → KernelRoutine B}
    (first : Meets anyStop routine k fun _ => Fewer k)
    (more : ∀ value k₁, Meets anyStop (rest value) k₁ fun _ => Fewer k₁) :
    Meets anyStop (routine >>= rest) k fun _ => Fewer k :=
  Meets.bind first fun value k₁ before => before.after (more value k₁)

/-- A routine in which nobody ends. -/
theorem Fewer.of_still {A : Type} {routine : KernelRoutine A}
    (meets : Meets anyStop routine k fun _ => Still k) :
    Meets anyStop routine k fun _ => Fewer k :=
  meets.mono fun _ _ => Still.fewer

/-! ## Threads that end -/

/-- Waking a process ends its wait at most. -/
theorem Kernel.wake_fewer (k : Kernel) (cpu : Nat) (q : QueueRef) (h : PcbRef) :
    Fewer k (k.wake cpu q h) := by
  intro w x waits
  have inside : w ∈ Function.update (Function.update k.queue q ((k.queue q).erase h)) .ready
    (insertAfter (k.queue .ready) (k.current cpu) h) (.wait x) := waits
  rw [Function.update_of_ne (by simp)] at inside
  by_cases same : QueueRef.wait x = q
  · subst same
    rw [Function.update_self] at inside
    exact List.mem_of_mem_erase inside
  · rwa [Function.update_of_ne same] at inside

/-- Freeing a thread ends its wait at most. -/
theorem Kernel.drop_fewer (k : Kernel) (h : PcbRef) : Fewer k (k.drop h) := by
  intro w x waits
  have inside : w ∈ Function.update k.queue (k.pcb h).phead
    ((k.queue (k.pcb h).phead).erase h) (.wait x) := waits
  by_cases same : QueueRef.wait x = (k.pcb h).phead
  · rw [← same, Function.update_self] at inside
    exact List.mem_of_mem_erase inside
  · rwa [Function.update_of_ne same] at inside

/-- The loop that wakes a whole queue. -/
theorem unblockUpTo_fewer (q : QueueRef) (cond : Kernel → PcbRef → Bool) (n : Nat) :
    ∀ k, Meets anyStop (unblockUpTo env q cond n) k fun _ => Fewer k := by
  induction n with
  | zero => exact fun k => .refl k
  | succ n ih =>
    intro k
    unfold unblockUpTo
    rw [meets_get_bind]
    split
    · exact .refl k
    · refine meets_ite (fun _ => Fewer.bind ?_ fun _ => ih) (fun _ => .refl k)
      unfold doUnblock
      rw [meets_get_bind]
      split
      · trivial
      · refine meets_ite (fun _ => trivial) (fun _ => ?_)
        exact meets_ite (fun _ => trivial) fun _ => k.wake_fewer env.cpu q _

/-- `thread_kill`. -/
theorem threadKill_fewer (p : PcbRef) (k : Kernel) :
    Meets anyStop (threadKill env p) k fun _ => Fewer k := by
  unfold threadKill
  rw [meets_get_bind]
  refine meets_ite (fun _ => trivial) (fun _ => ?_)
  refine meets_ite (fun _ => trivial) (fun _ => ?_)
  refine Fewer.bind (unblockUpTo_fewer _ _ _ k) fun _ k => ?_
  rw [meets_get_bind]
  refine meets_ite (fun _ => trivial) (fun _ => ?_)
  exact meets_ite (fun _ => trivial) fun _ => k.drop_fewer p

/-- The loop of `do_kill`. -/
theorem killThreads_fewer (hs : List PcbRef) :
    ∀ k, Meets anyStop (killThreads env hs) k fun _ => Fewer k := by
  induction hs with
  | nil => exact fun k => .refl k
  | cons h rest ih =>
    intro k
    refine Fewer.bind ?_ fun _ => ih
    unfold killThread
    rw [meets_get_bind]
    exact meets_ite (fun _ => threadKill_fewer h k) fun _ => .of_queue rfl

/-- The end of `do_kill`. -/
theorem finishKill_still (pid : Nat) (k : Kernel) :
    Meets anyStop (finishKill env pid) k fun _ => Still k := by
  unfold finishKill
  rw [meets_get_bind]
  refine meets_ite (fun _ => ?_) (fun _ => .refl k)
  refine Still.bind (Still.note k _) fun _ k => ?_
  refine Still.bind (ressReleaseKilled_still k pid) fun _ k => ?_
  rw [meets_get_bind]
  exact meets_ite (fun _ => startGlush_still k) fun _ => .refl k

/-- `do_kill` of another process. -/
theorem killOther_fewer (pid : Nat) (k : Kernel) :
    Meets anyStop (killOther env pid) k fun _ => Fewer k := by
  unfold killOther
  rw [meets_get_bind]
  refine meets_ite (fun _ => .refl k) (fun _ => ?_)
  refine Fewer.bind (killThreads_fewer _ k) fun _ k => ?_
  exact Fewer.bind (Fewer.of_still (finishKill_still pid k)) fun _ k => .refl k

/-- The loop of `do_scheduler`. -/
theorem scanReady_fewer (ccpu : PcbRef) (fuel : Nat) :
    ∀ p k, Meets anyStop (scanReady env ccpu fuel p) k fun _ => Fewer k := by
  induction fuel with
  | zero => exact fun _ _ => trivial
  | succ fuel ih =>
    intro p k
    unfold scanReady
    refine meets_ite (fun _ => .refl k) (fun _ => ?_)
    rw [meets_get_bind]
    refine meets_ite (fun _ => trivial) (fun _ => ?_)
    refine meets_ite (fun _ => (Still.switchTo k _ _).fewer) (fun _ => ?_)
    refine meets_ite (fun _ => ?_) (fun _ => ?_)
    · -- An exited process is killed for good, and the walk goes on.
      refine meets_ite (fun _ => trivial) (fun _ => ?_)
      refine Fewer.bind (killOther_fewer _ k) fun killed k => ?_
      exact meets_ite (fun _ => ih _ k) fun _ => trivial
    · refine meets_ite (fun _ => ?_) (fun _ => ih _ k)
      exact Fewer.bind (threadKill_fewer p k) fun _ => ih _

/-- `do_scheduler`. -/
theorem doScheduler_fewer (k : Kernel) : Meets anyStop (doScheduler env) k fun _ => Fewer k := by
  unfold doScheduler
  refine Fewer.bind (Fewer.of_still (checkSleeping_still k)) fun _ k => ?_
  refine Fewer.bind (Fewer.of_still (checkSleepingOnNic_still k)) fun _ k => ?_
  rw [meets_get_bind]
  refine Fewer.bind (scanReady_fewer _ _ _ k) fun switched k => ?_
  refine meets_ite (fun _ => .refl k) (fun _ => ?_)
  rw [meets_get_bind]
  exact meets_stopIf_bind (fun _ => trivial) fun _ => .refl k

/-- The end of a process or a thread that is current. -/
theorem leave_fewer (status : TaskStatus) (k : Kernel) :
    Meets anyStop (leave env status) k fun _ => Fewer k := by
  unfold leave
  rw [meets_modify_bind]
  have marked : Fewer k (k.setStatus (k.current env.cpu) status) := .of_queue rfl
  refine Meets.bind (marked.after (doScheduler_fewer _)) fun switched k₁ before => ?_
  exact meets_ite (fun _ => before) fun _ => trivial

/-- `do_kill`. -/
theorem doKill_fewer (pid : Int) (k : Kernel) :
    Meets anyStop (doKill env pid) k fun _ => Fewer k := by
  unfold doKill
  rw [meets_get_bind]
  refine meets_ite (fun _ => .refl k) (fun _ => ?_)
  refine meets_ite (fun _ => ?_) (fun _ => ?_)
  · exact Fewer.bind (killThreads_fewer _ k) fun _ k => leave_fewer .exited k
  · refine Fewer.bind (killThreads_fewer _ k) fun _ k => ?_
    exact Fewer.bind (Fewer.of_still (finishKill_still _ k)) fun _ k => .refl k

end Fewer

/-! ## Cycles -/

section Cycles

variable {k k' : Kernel} {event : Event}

/-- Blocking in the `wait_queue` of a thread is one more wait. -/
theorem Kernel.blockOn_waits (k : Kernel) (cpu : Nat) (x p w y : PcbRef) :
    (k.blockOn cpu (.wait x) .toUser p).Waits w y ↔
      k.Waits w y ∨ w = k.current cpu ∧ y = x := by
  show w ∈ Function.update (Function.update k.queue .ready _) (.wait x)
    (k.queue (.wait x) ++ [k.current cpu]) (.wait y) ↔ _
  by_cases same : y = x
  · subst same
    rw [Function.update_self]
    simp [Kernel.Waits]
  · rw [Function.update_of_ne (by simpa using same), Function.update_of_ne (by simp)]
    simp [Kernel.Waits, same]

/-- An event adds no wait, or its call blocks the caller, who waits for the end of a thread. -/
theorem step_waits {out : Out} (resting : Resting k) (ran : step event k = .ok (out, k')) :
    Fewer k k' ∨ ∃ x p, target k event = some x ∧
      k' = k.blockOn event.env.cpu (.wait x) .toUser p := by
  cases step_course resting ran with
  | quits quits =>
    refine .inl ?_
    cases quits with
    | still same => exact same.fewer
    | kills calm killer named ran same =>
      exact (calm.still.fewer.trans ((doKill_fewer _ _).of_ok ran)).trans same.fewer
  | hangs aims => exact .inr ⟨_, _, aims, rfl⟩
  | leaves caller ran => exact .inl ((leave_fewer _ _).of_ok ran)
  | schedules ok small runs ran => exact .inl ((doScheduler_fewer _).of_ok ran)

/-- A call waits for the end of a thread that waits for the caller, if only through others. -/
def Closes (k : Kernel) (event : Event) : Prop :=
  ∃ x, target k event = some x ∧ Relation.ReflTransGen k.Waits x (k.current event.env.cpu)

/-- Without such a call there is no cycle. -/
theorem step_acyclic {out : Out} (resting : Resting k) (acyclic : Acyclic k.Waits)
    (open' : ¬ Closes k event) (ran : step event k = .ok (out, k')) : Acyclic k'.Waits := by
  cases step_waits resting ran with
  | inl fewer => exact acyclic.mono fewer
  | inr more =>
    obtain ⟨x, p, aims, rfl⟩ := more
    refine acyclic.extra (fun w y => (k.blockOn_waits _ x p w y).mp) fun chain => ?_
    exact open' ⟨x, aims, chain⟩

/-- A call that waits for an end, once its checks have passed, blocks the caller. -/
theorem handleSyscall_hangs {env : Env} {call : Call} {x : PcbRef} (ok : SchedOk env.cpu k)
    (small : env.cpu < ncpu) (user : ncpu ≤ k.current env.cpu)
    (stays : (k.cur env.cpu).status ≠ .exiting) (aims : call.target env k = some x) :
    Meets (fun _ => False) (handleSyscall env call) k fun _ k' =>
      ∃ p, k' = k.blockOn env.cpu (.wait x) .toUser p := by
  have hangs : Meets (fun _ => False) (do
      doBlock env (.wait x) none .toUser
      return Out.blocked) k fun _ k' => ∃ p, k' = k.blockOn env.cpu (.wait x) .toUser p := by
    refine Meets.bind (meets_doBlock ok small user stays _ _) fun _ k' blocked => ?_
    obtain ⟨p, -, same⟩ := blocked
    exact ⟨p, same⟩
  cases call with
  | waitpid pid =>
    obtain ⟨passed, found⟩ := Option.ite_none_left_eq_some.mp aims
    rw [not_or, not_or] at passed
    obtain ⟨sound, other, apart⟩ := passed
    show Meets _ (doWaitpid env pid) k _
    unfold doWaitpid
    rw [meets_get_bind, if_neg sound, found]
    simp only [if_neg other, if_neg apart]
    exact hangs
  | threadWait tid =>
    obtain ⟨passed, found⟩ := Option.ite_none_left_eq_some.mp aims
    show Meets _ (doThreadWait env tid) k _
    unfold doThreadWait
    rw [meets_get_bind, if_neg passed, found]
    exact hangs
  | _ => cases aims

/-- The same as an event. -/
theorem step_hangs {x : PcbRef} (resting : Resting k) (enabled : Enabled k event)
    (aims : target k event = some x) :
    ∃ out k', step event k = .ok (out, k') ∧ ∀ w y, k'.Waits w y ↔
      k.Waits w y ∨ w = k.current event.env.cpu ∧ y = x := by
  obtain ⟨ok, -, -⟩ := enabled.acts resting
  have ⟨small, entered⟩ := enabled
  have meets : Meets (fun _ => False) (step event) k fun _ k' =>
      ∃ p, k' = k.blockOn event.env.cpu (.wait x) .toUser p := by
    unfold step
    rw [meets_get_bind, if_pos enabled]
    unfold target at aims
    cases place : event.entry with
    | syscall call =>
      rw [place] at aims entered
      have user := ok.toSchedOk.user_ge (entered.2 rfl)
      by_cases exiting : (k.cur event.env.cpu).status = .exiting
      · simp [exiting] at aims
      · simp only [if_neg exiting] at aims
        show Meets _ (interruptHelper _ _) k _
        unfold interruptHelper
        rw [meets_get_bind, if_neg exiting]
        exact handleSyscall_hangs ok.toSchedOk small user exiting aims
    | _ => simp [place] at aims
  -- Nothing can go wrong on the way, so that the event happens.
  cases ran : step event k with
  | ok answer =>
    obtain ⟨p, same⟩ := meets.of_ok ran
    refine ⟨answer.1, answer.2, rfl, fun w y => ?_⟩
    rw [same]
    exact k.blockOn_waits _ _ _ _ _
  | error reason => exact (meets.of_error ran).elim

/--
Nobody waits for ever merely because others wait, as long as no call closes a cycle.

The calls refuse only some of those that would, and every other one does close a cycle.
-/
theorem waits_acyclic (timeMaxSec : Nat) (k : Kernel)
    (reached : Reaches step (fun k event => ¬ Closes k event) (initial timeMaxSec) k) :
    Acyclic k.Waits ∧ ∀ event, Enabled k event →
      ((∀ out k', step event k = .ok (out, k') → Acyclic k'.Waits) ↔ ¬ Closes k event) := by
  have acyclic : Acyclic k.Waits := by
    induction reached with
    | start =>
      -- At first nobody waits for anybody.
      intro h cycle
      obtain ⟨x, waits, -⟩ := Relation.TransGen.head'_iff.mp cycle
      simp [Kernel.Waits, initial, initPcb, Kernel.addPcb, Function.update] at waits
    | step before open' ran ih => exact step_acyclic (reaches_resting before) ih open' ran
  have resting := reaches_resting reached
  refine ⟨acyclic, fun event enabled => ⟨fun stays closes => ?_, fun open' out k' ran => ?_⟩⟩
  · obtain ⟨x, aims, chain⟩ := closes
    obtain ⟨out, k', ran, waits⟩ := step_hangs resting enabled aims
    refine not_acyclic_of_extra (fun a b old => (waits a b).mpr (.inl old)) ?_ chain
      (stays out k' ran)
    exact (waits _ _).mpr (.inr ⟨rfl, rfl⟩)
  · exact step_acyclic resting acyclic open' ran

/-- A process creates two threads, and the first of them runs. -/
def threadRun : List Event :=
  [⟨quietEnv 0, .timer⟩, ⟨quietEnv 0, .syscall (.threadCreate true)⟩,
    ⟨quietEnv 0, .syscall (.threadCreate true)⟩, ⟨quietEnv 0, .timer⟩]

/-- The first thread waits for the end of the second, and the call closes no cycle. -/
theorem waits_acyclic_threadRun :
    ∃ k out k', runWhere step (fun k event => (target k event).isNone) (initial 100) threadRun =
      some k ∧ step ⟨quietEnv 0, .syscall (.threadWait 2)⟩ k = .ok (out, k') ∧
        k'.Waits 3 4 ∧ Acyclic k'.Waits := by
  have possible : (runWhere step (fun k event => (target k event).isNone) (initial 100)
      threadRun).any (fun k => k.current 0 == 3 &&
        decide (Enabled k ⟨quietEnv 0, .syscall (.threadWait 2)⟩) &&
        target k ⟨quietEnv 0, .syscall (.threadWait 2)⟩ == some 4 &&
        k.pcbTable.all fun y => (k.queue (.wait y)).isEmpty) = true := by decide +kernel
  obtain ⟨k, ran, facts⟩ := (Option.any_eq_true _ _).mp possible
  simp only [Bool.and_eq_true, beq_iff_eq, decide_eq_true_eq, List.all_eq_true,
    List.isEmpty_iff] at facts
  obtain ⟨⟨⟨here, enabled⟩, aims⟩, empty⟩ := facts
  have reached : Reaches step (fun k event => ¬ Closes k event) (initial 100) k := by
    refine .of_events_where (fun k event none closes => ?_) ran
    obtain ⟨x, aims, -⟩ := closes
    simp [aims] at none
  -- Nobody waits yet, so that no chain leads anywhere.
  have open' : ¬ Closes k ⟨quietEnv 0, .syscall (.threadWait 2)⟩ := by
    rintro ⟨x, aims', chain⟩
    obtain rfl := Option.some.inj (aims.symm.trans aims')
    cases Relation.ReflTransGen.cases_head chain with
    | inl same => rw [show (quietEnv 0).cpu = 0 from rfl, here] at same; cases same
    | inr more =>
      obtain ⟨y, waits, -⟩ := more
      obtain ⟨_, ok, -⟩ := reaches_resting reached
      by_cases live : y ∈ k.pcbTable
      · simp [Kernel.Waits, empty y live] at waits
      · simp [Kernel.Waits, ok.waitLive y live] at waits
  obtain ⟨out, k', stepped, waits⟩ := step_hangs (reaches_resting reached) enabled aims
  exact ⟨k, out, k', ran, stepped, (waits 3 4).mpr (.inr ⟨here.symm, rfl⟩),
    (waits_acyclic 100 k' (.step reached open' stepped)).1⟩

/-- Two threads of a process wait for each other, which no call refuses. -/
theorem waits_not_acyclic : ¬ ∀ (timeMaxSec : Nat) (k : Kernel),
    Reaches step (fun _ _ => True) (initial timeMaxSec) k → Acyclic k.Waits := by
  intro acyclic
  have both : (runEvents step (initial 100) (threadRun ++ [⟨quietEnv 0, .syscall (.threadWait 2)⟩,
      ⟨quietEnv 0, .syscall (.threadWait 1)⟩])).any (fun k =>
        (k.queue (.wait 4)).contains 3 && (k.queue (.wait 3)).contains 4) = true := by
    decide +kernel
  obtain ⟨k, ran, waits⟩ := (Option.any_eq_true _ _).mp both
  simp only [Bool.and_eq_true, List.contains_iff_mem] at waits
  exact acyclic 100 k (.of_events ran) 3 (.tail (.single waits.1) waits.2)

end Cycles

end GlucOS.Sched
