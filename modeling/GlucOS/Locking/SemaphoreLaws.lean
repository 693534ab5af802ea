import GlucOS.Lib.Balance
import GlucOS.Locking.ObjectLaws

/-! Semaphores conserve tokens, as long as nobody who waits is killed and the counter fits. -/

namespace GlucOS.Sched

/-- What has happened to a semaphore since it was initialised. -/
structure SemLife where
  /-- The initial value. -/
  start : Int
  /-- How many `do_semaphore_up` have completed. -/
  ups : Nat
  /-- How many `do_semaphore_down` were granted. -/
  granted : Nat

/-- The tokens that are left. -/
def SemLife.tokens (life : SemLife) : Int := life.start + life.ups - life.granted

/-- What was noted about a semaphore since it was initialised last. -/
def semLife (i : Nat) : List Note → Option SemLife
  | [] => none
  | .semInit j value :: earlier => if j = i then some ⟨value, 0, 0⟩ else semLife i earlier
  | .semUp j :: earlier =>
    if j = i then (semLife i earlier).map fun life => { life with ups := life.ups + 1 }
    else semLife i earlier
  | .semGranted j :: earlier =>
    if j = i then (semLife i earlier).map fun life => { life with granted := life.granted + 1 }
    else semLife i earlier
  | _ :: earlier => semLife i earlier

/-- Since a semaphore was initialised, it was given more tokens than its counter can tell. -/
def Overrun (i : Nat) : List Note → Prop
  | [] => False
  | .semInit j _ :: earlier => j ≠ i ∧ Overrun i earlier
  | .semUp j :: earlier =>
    Overrun i earlier ∨ j = i ∧ ∃ life ∈ semLife i earlier, 2 ^ 31 - 1 ≤ life.tokens
  | _ :: earlier => Overrun i earlier

/-- A valid semaphore that started with tokens, or with none, neither loses nor adds any. -/
structure Conserves (i : Nat) (k : Kernel) (life : SemLife) : Prop where
  /-- No more are granted than there were. -/
  granted : (life.granted : Int) ≤ life.start + life.ups
  /-- Nobody waits while there are some left. -/
  served : life.granted < life.start + life.ups → k.queue (.semaphore i) = []

/-- All tokens of a semaphore are conserved, unless it was overrun or started with a debt. -/
def SemaphoreConserves (i : Nat) (k : Kernel) : Prop :=
  (k.semaphores i).opid ≠ none → ∀ life ∈ semLife i k.history, 0 ≤ life.start →
    Conserves i k life

/-- An event kills a process that waits for a semaphore. -/
def KillsSemaphoreWaiter (k : Kernel) (event : Event) : Prop :=
  ∃ i, (k.semaphores i).opid ≠ none ∧
    ∃ h ∈ k.queue (.semaphore i), victim k event = some (k.pcb h).pid

/-- An event that kills nobody kills nobody at a semaphore. -/
theorem not_killsSemaphoreWaiter {k : Kernel} {event : Event} (calm : victim k event = none) :
    ¬ KillsSemaphoreWaiter k event := by
  rintro ⟨i, -, h, -, killed⟩
  simp [calm] at killed

/-- During an event, the counter balances tokens and those that the event does not kill. -/
def SemBalanced (i : Nat) (victim : Option Nat) (k : Kernel) : Prop :=
  (k.semaphores i).opid ≠ none → ¬ Overrun i k.history → ∀ life ∈ semLife i k.history,
    0 ≤ life.start → life.tokens < 2 ^ 31 ∧
      Balance (k.semaphores i).value life.tokens (k.waiting victim (.semaphore i)).length

section

variable {cpu i : Nat} {victim : Option Nat} {own : QueueRef → Prop} {k k' : Kernel}

/-- Notes that are not about a semaphore do not matter for it. -/
theorem semLife_append_foreign {later : List Note} (earlier : List Note)
    (foreign : ∀ entry ∈ later, entry.about ≠ some (.semaphore i)) :
    semLife i (later ++ earlier) = semLife i earlier ∧
      (Overrun i (later ++ earlier) ↔ Overrun i earlier) := by
  induction later with
  | nil => exact ⟨rfl, Iff.rfl⟩
  | cons entry later ih =>
    obtain ⟨same, overrun⟩ := ih fun other inside => foreign other (by simp [inside])
    have new := foreign entry (by simp)
    cases entry with
    | semInit j value =>
      have differ : j ≠ i := by simpa [Note.about] using new
      exact ⟨by simpa [semLife, differ] using same, by simpa [Overrun, differ] using overrun⟩
    | semUp j =>
      have differ : j ≠ i := by simpa [Note.about] using new
      exact ⟨by simpa [semLife, differ] using same, by simpa [Overrun, differ] using overrun⟩
    | semGranted j =>
      have differ : j ≠ i := by simpa [Note.about] using new
      exact ⟨by simpa [semLife, differ] using same, overrun⟩
    | acquired j h pid => exact ⟨same, overrun⟩
    | released j h pid => exact ⟨same, overrun⟩
    | terminated pid => exact ⟨same, overrun⟩
    | passed j group goal => exact ⟨same, overrun⟩
    | opened j => exact ⟨same, overrun⟩
    | sent j bytes => exact ⟨same, overrun⟩
    | received j bytes => exact ⟨same, overrun⟩

/-- A change that spares a semaphore keeps its balance. -/
theorem SemBalanced.frame (balanced : SemBalanced i victim k) (frame : Frame own victim k k')
    (foreign : ¬ own (.semaphore i)) : SemBalanced i victim k' := by
  obtain ⟨later, history, about⟩ := frame.history
  have outside : ∀ entry ∈ later, entry.about ≠ some (.semaphore i) := fun entry inside same =>
    foreign (about entry inside _ same)
  obtain ⟨same, overrun⟩ := semLife_append_foreign k.history outside
  unfold SemBalanced
  rw [history, same, overrun, frame.semaphores i foreign, frame.waiting _ (by simp) rfl foreign]
  exact balanced

/-- A queue is never longer than the table of processes. -/
theorem SchedOk.queue_length_le (ok : SchedOk cpu k) (q : QueueRef) :
    (k.queue q).length ≤ uprocMax + ncpu := by
  have short := (List.subperm_of_subset (ok.queueNodup q) fun h inside =>
    (ok.queueLive q h inside).1).length_le
  exact short.trans ok.tableRoom

/-- A counter that balances is far from wrapping below. -/
theorem SchedOk.balance_low (ok : SchedOk cpu k) {q : QueueRef} {count tokens : Int}
    (balance : Balance count tokens (k.waiting victim q).length) : -2 ^ 31 + 1 ≤ count := by
  have short : (k.waiting victim q).length ≤ uprocMax + ncpu :=
    (List.length_filter_le _ _).trans (ok.queue_length_le q)
  have low := balance.low
  have few : ((uprocMax + ncpu : Nat) : Int) ≤ 2 ^ 31 - 1 := by decide
  omega

/-- What happened to a semaphore, after one more note about it. -/
theorem semLife_up {earlier : List Note} {life : SemLife}
    (inside : life ∈ semLife i (.semUp i :: earlier)) : ∃ before ∈ semLife i earlier,
      life = { before with ups := before.ups + 1 } ∧ life.tokens = before.tokens + 1 := by
  simp only [semLife, if_true, Option.mem_map] at inside
  obtain ⟨before, there, rfl⟩ := inside
  refine ⟨before, there, rfl, ?_⟩
  simp only [SemLife.tokens]
  push_cast
  omega

/-- What happened to a semaphore, after one more token was granted. -/
theorem semLife_granted {earlier : List Note} {life : SemLife}
    (inside : life ∈ semLife i (.semGranted i :: earlier)) : ∃ before ∈ semLife i earlier,
      life = { before with granted := before.granted + 1 } ∧
        life.tokens = before.tokens - 1 := by
  simp only [semLife, if_true, Option.mem_map] at inside
  obtain ⟨before, there, rfl⟩ := inside
  refine ⟨before, there, rfl, ?_⟩
  simp only [SemLife.tokens]
  push_cast
  omega

/-- Every change around a semaphore keeps its balance. -/
theorem SemBalanced.change (ok : KernelOk cpu k) (balanced : SemBalanced i victim k)
    (change : SemaphoreChange cpu victim i k k') : SemBalanced i victim k' := by
  have sched := ok.toSchedOk
  cases change with
  | init value fits closed =>
    rw [Kernel.clearQueue_empty (ok.semaphoreClosed i closed)]
    intro _ _ life inside nonneg
    have new : life = ⟨value, 0, 0⟩ := by
      simpa [Kernel.note, Kernel.setSemaphore, semLife] using inside.symm
    subst new
    have none : k.waiting victim (.semaphore i) = [] :=
      Kernel.waiting_nil (ok.semaphoreClosed i closed)
    have tokens : (⟨value, 0, 0⟩ : SemLife).tokens = value := by simp [SemLife.tokens]
    refine ⟨by rw [tokens]; exact fits, ?_⟩
    show Balance (Function.update k.semaphores i _ i).value _ (k.waiting victim _).length
    rw [Function.update_self, none, tokens]
    exact .start nonneg
  | upFree valid nonneg =>
    intro _ fits life inside positive
    obtain ⟨before, there, rfl, tokens⟩ := semLife_up inside
    obtain ⟨fits, few⟩ := not_or.mp fits
    obtain ⟨bounded, balance⟩ := balanced valid fits before there positive
    have room : before.tokens < 2 ^ 31 - 1 := by
      by_contra many
      exact few ⟨rfl, before, there, Int.not_lt.mp many⟩
    have high := balance.high
    refine ⟨by omega, ?_⟩
    show Balance (Function.update k.semaphores i _ i).value _ (k.waiting victim _).length
    rw [Function.update_self, tokens]
    simp only
    rw [wrapInt32_of_fits (by omega) (by omega)]
    exact balance.put nonneg
  | upReset valid neg empty =>
    -- A negative value tells that somebody waits.
    intro _ fits life inside positive
    obtain ⟨before, there, rfl, -⟩ := semLife_up inside
    obtain ⟨-, balance⟩ := balanced valid (not_or.mp fits).1 before there positive
    have somebody := balance.somebody neg
    rw [Kernel.waiting_nil empty] at somebody
    simp at somebody
  | @upWake h rest valid neg queued calm =>
    subst calm
    intro _ fits life inside positive
    obtain ⟨middle, between, rfl, tokens⟩ := semLife_granted inside
    obtain ⟨before, there, rfl, tokens'⟩ := semLife_up between
    obtain ⟨bounded, balance⟩ := balanced valid (not_or.mp fits).1 before there positive
    have low := sched.balance_low balance
    rw [Kernel.waiting_none, queued, List.length_cons] at balance
    refine ⟨by omega, ?_⟩
    rw [Kernel.waiting_none, tokens, tokens', Int.add_sub_cancel]
    show Balance (Function.update k.semaphores i _ i).value _
      (((k.wake cpu (.semaphore i) h).queue (.semaphore i)).length)
    rw [Function.update_self, Kernel.wake_source k cpu h (by simp), queued, List.erase_cons_head]
    simp only
    rw [wrapInt32_of_fits (by omega) (by omega)]
    exact balance.handOn
  | pass valid nonneg =>
    intro _ fits life inside positive
    obtain ⟨before, there, rfl, tokens⟩ := semLife_granted inside
    obtain ⟨bounded, balance⟩ := balanced valid fits before there positive
    have low := sched.balance_low balance
    have high := balance.high
    have wrapped : wrapInt32 ((k.semaphores i).value - 1) = (k.semaphores i).value - 1 :=
      wrapInt32_of_fits (by omega) (by omega)
    rw [wrapped] at nonneg
    refine ⟨by omega, ?_⟩
    show Balance (Function.update k.semaphores i _ i).value _ (k.waiting victim _).length
    rw [Function.update_self, tokens]
    simp only
    rw [wrapped]
    exact balance.take nonneg
  | @block p valid neg can calm locking =>
    subst calm
    intro _ fits life inside positive
    obtain ⟨bounded, balance⟩ := balanced valid fits life inside positive
    have low := sched.balance_low balance
    have high := balance.high
    have wrapped : wrapInt32 ((k.semaphores i).value - 1) = (k.semaphores i).value - 1 :=
      wrapInt32_of_fits (by omega) (by omega)
    rw [wrapped] at neg
    refine ⟨bounded, ?_⟩
    rw [Kernel.waiting_none] at balance ⊢
    rw [Kernel.blockOn_queue, List.length_append, List.length_singleton]
    show Balance (Function.update k.semaphores i _ i).value _ ((k.queue _).length + 1)
    rw [Function.update_self]
    simp only
    rw [wrapped]
    exact balance.join neg
  | close wakes empty =>
    intro valid
    have invalid : (k'.semaphores i).opid = none := by
      rw [wakes.semaphores]
      simp [Kernel.setSemaphore]
    exact absurd invalid valid

/-- An event that kills nobody at a semaphore keeps its balance. -/
theorem semBalanced_step {event : Event} {out : Out} (resting : Resting k)
    (balanced : SemBalanced i none k) (spares : ¬ KillsSemaphoreWaiter k event)
    (ran : step event k = .ok (out, k')) : SemBalanced i none k' := by
  have before : SemBalanced i (Sched.victim k event) k := by
    intro valid
    rw [Kernel.waiting_all fun h inside killed => spares ⟨i, valid, h, inside, killed⟩,
      ← Kernel.waiting_none]
    exact balanced valid
  have after : SemBalanced i (Sched.victim k event) k' := by
    refine ran_invariant resting ran (fun k₁ k₂ ok change balanced => ?_)
      (fun _ _ _ _ _ balanced => balanced) before
    rcases change.semaphore_or_frame ok (enabled_of_ran ran).1 i with about | frame
    · exact balanced.change ok about
    · exact balanced.frame frame (by simp)
  have steps := steps_of_ran resting ran
  unfold SemBalanced at after ⊢
  rw [steps.awake.waiting steps.rests.ok.toSchedOk (by simp)] at after
  rwa [Kernel.waiting_none]

end

/--
As long as no process is killed at a semaphore, its tokens are conserved.

This holds until the semaphore is overrun: then its counter cannot tell how many tokens there are.
-/
theorem semaphore_conserves (timeMaxSec : Nat) (k : Kernel)
    (reached : Reaches step (fun k event => ¬ KillsSemaphoreWaiter k event)
      (initial timeMaxSec) k) (i : Nat) (fits : ¬ Overrun i k.history) :
    SemaphoreConserves i k := by
  have balanced : SemBalanced i none k := by
    clear fits
    induction reached with
    | start => simp [SemBalanced, initial, initPcb, Kernel.addPcb]
    | step before spares ran ih => exact semBalanced_step (reaches_resting before) ih spares ran
  intro valid life inside nonneg
  obtain ⟨-, balance⟩ := balanced valid fits life inside nonneg
  rw [Kernel.waiting_none] at balance
  have enough := balance.nonneg
  unfold SemLife.tokens at enough
  refine ⟨by omega, fun some => ?_⟩
  refine List.eq_nil_of_length_eq_zero (balance.idle ?_)
  unfold SemLife.tokens
  omega

/-- One of two processes waits for a semaphore that has no token. -/
def downRun : List Event :=
  [⟨quietEnv 0, .timer⟩, ⟨quietEnv 0, .syscall (.exec 1 true)⟩,
    ⟨quietEnv 0, .syscall (.semaphoreInit 0 0)⟩, ⟨quietEnv 1, .timer⟩,
    ⟨quietEnv 1, .syscall (.semaphoreDown 0)⟩]

/-- The other process gives it a token. -/
theorem semaphore_conserves_downRun :
    ∃ k, runWhere step (fun k event => victim k event = none) (initial 100)
        (downRun ++ [⟨quietEnv 0, .syscall (.semaphoreUp 0)⟩]) = some k ∧
      SemaphoreConserves 0 k := by
  have left : (runWhere step (fun k event => victim k event = none) (initial 100)
      (downRun ++ [⟨quietEnv 0, .syscall (.semaphoreUp 0)⟩])).map Kernel.history =
        some [.semGranted 0, .semUp 0, .semInit 0 0] := by decide +kernel
  obtain ⟨k, ran, history⟩ := Option.map_eq_some_iff.mp left
  refine ⟨k, ran, semaphore_conserves 100 k (.of_events_where (fun k event calm => ?_) ran) 0 ?_⟩
  · exact not_killsSemaphoreWaiter (of_decide_eq_true calm)
  · rw [history]
    simp [Overrun, semLife, SemLife.tokens]

/-- The other process kills it, gives a token that is lost, and waits for it in vain. -/
def debtRun : List Event :=
  downRun ++ [⟨quietEnv 0, .syscall (.kill 3)⟩, ⟨quietEnv 0, .syscall (.semaphoreUp 0)⟩,
    ⟨quietEnv 0, .syscall (.semaphoreDown 0)⟩]

/-- A process that is killed at a semaphore leaves a debt that swallows a token. -/
theorem semaphore_swallows : ¬ ∀ (timeMaxSec : Nat) (k : Kernel),
    Reaches step (fun _ _ => True) (initial timeMaxSec) k → ∀ i, SemaphoreConserves i k := by
  intro conserves
  have left : (runEvents step (initial 100) debtRun).map (fun k =>
      ((k.semaphores 0).opid, k.history, k.queue (.semaphore 0))) =
        some (some 2, [.semUp 0, .terminated 3, .semInit 0 0], [2]) := by decide +kernel
  obtain ⟨k, ran, found⟩ := Option.map_eq_some_iff.mp left
  obtain ⟨opid, history, queue⟩ : (k.semaphores 0).opid = some 2 ∧
      k.history = [.semUp 0, .terminated 3, .semInit 0 0] ∧ k.queue (.semaphore 0) = [2] := by
    simpa using found
  have kept := conserves 100 k (.of_events ran) 0 (by simp [opid]) ⟨0, 1, 0⟩
    (by simp [history, semLife]) (by simp)
  have none := kept.served (by simp)
  simp [queue] at none

end GlucOS.Sched
