import GlucOS.Lib.Reach
import GlucOS.Sched.StepLaws

/-! The scheduler never loses a process, and always finds one to run. -/

namespace GlucOS.Sched

open Routine

/-- Only the idle processes exist after `init_pcb`. -/
theorem initPcb_ok (acting timeMaxSec : Nat) : KernelOk acting (initPcb timeMaxSec) where
  tableNodup := List.nodup_range
  tableRoom := by simp [initPcb]
  tableOld := by simp [initPcb]
  queueLive := by
    intro q h inside
    have home : q = .ready := by
      by_contra other
      simp [initPcb, other] at inside
    subst home
    exact ⟨by simpa [initPcb] using inside, rfl⟩
  queueHas := by
    intro h live
    simpa [initPcb, idlePcb] using live
  queueNodup := by
    intro q
    by_cases home : q = .ready
    · simp [initPcb, home, List.nodup_range]
    · simp [initPcb, home]
  waitLive := by simp [initPcb]
  waitOther := by simp [initPcb]
  asleep := by simp [initPcb, idlePcb]
  unique := by
    intro h _ h' _ same _
    exact same
  currentReady := by
    intro cpu small
    simpa [initPcb] using small
  currentApart := fun _ _ _ _ same => same
  onCpu := by
    intro h live _
    exact ⟨h, by simpa [initPcb] using live, rfl⟩
  settled := fun _ _ _ => .inl rfl
  notReady := by simp [initPcb, idlePcb, Kernel.cur]
  quiet := by simp [initPcb, idlePcb, Kernel.cur, Kernel.inCall]
  idleLive := by
    intro cpu small
    simpa [initPcb] using small
  idlePid := fun _ _ => rfl
  idleMask := fun _ _ => rfl
  idleStatus := fun _ _ => .inl rfl
  idleOwn := fun _ _ _ _ same => same
  userPid := by simp [initPcb, idlePcb]
  exitedAlone := by simp [initPcb, idlePcb]
  semaphoreClosed := by simp [initPcb]
  barrierClosed := by simp [initPcb]
  sendClosed := by simp [initPcb]
  recvClosed := by simp [initPcb]
  bufHead := by simp [initPcb]
  bufTail := by simp [initPcb]

/-- The machine starts at rest. -/
theorem initial_rests (timeMaxSec : Nat) : RestsAt 0 (initial timeMaxSec) := by
  have small : 0 < ncpu := by decide
  have created : SchedChange 0 none (initPcb timeMaxSec)
      ((initPcb timeMaxSec).addPcb ncpu 0 allCpus) := by
    refine .create allCpus ?_ le_rfl ?_ ?_
    · simp [initPcb, uprocMax]
    · intro h live same
      have low : h < ncpu := by simpa [initPcb] using live
      exact absurd low (Nat.not_lt.mpr (Nat.le_of_eq same.symm))
    · simp [initPcb, idlePcb]
  have ok₁ := created.ok (initPcb_ok 0 timeMaxSec) small
  have glush : Change 0 none ((initPcb timeMaxSec).addPcb ncpu 0 allCpus) (initial timeMaxSec) :=
    .sched (.glush (some ncpu))
  have older : ∀ c < ncpu, (initial timeMaxSec).pcb c = idlePcb c := fun c low =>
    (initPcb timeMaxSec).addPcb_other ncpu 0 allCpus (Nat.ne_of_lt low)
  refine ⟨glush.ok ok₁ small, small, .inl ?_, ?_⟩
  · exact congrArg Pcb.status (older 0 small)
  · intro c low
    rw [older c low]
    rfl

/-- Every state that is reached is at rest. -/
theorem reaches_resting {timeMaxSec : Nat} {allowed : Kernel → Event → Prop} {k : Kernel}
    (reached : Reaches step allowed (initial timeMaxSec) k) : Resting k := by
  induction reached with
  | start => exact ⟨0, initial_rests timeMaxSec⟩
  | step _ _ ran resting => exact ⟨_, (steps_of_ran resting ran).rests⟩

/-- Outside a routine, every current process runs, or was killed while it ran. -/
theorem Resting.caught {k : Kernel} (resting : Resting k) {cpu : Nat} (small : cpu < ncpu) :
    (k.cur cpu).Caught := by
  obtain ⟨acting, ok, -, settled, -⟩ := resting
  by_cases same : cpu = acting
  · exact same ▸ settled.imp_right And.left
  · exact ok.settled cpu small same

/-- Nobody runs twice, nobody is lost, and there is always an idle process to run. -/
structure SchedSafe (k : Kernel) : Prop where
  /-- Every PCB is the current process of at most one processor. -/
  apart : ∀ cpu < ncpu, ∀ cpu' < ncpu, k.current cpu = k.current cpu' → cpu = cpu'
  /-- What runs is the current process of exactly one. -/
  once : ∀ h ∈ k.pcbTable, (k.pcb h).status = .running ∨ (k.pcb h).status = .exiting →
    ∃! cpu, cpu < ncpu ∧ k.current cpu = h
  /-- What is ready is the current process of none. -/
  waits : ∀ h ∈ k.pcbTable, (k.pcb h).status = .ready → ∀ cpu < ncpu, k.current cpu ≠ h
  /-- The idle process of a processor is alive, and runs there or waits in the ready queue. -/
  idle : ∀ cpu < ncpu, cpu ∈ k.pcbTable ∧ (k.pcb cpu).pid = cpu ∧
    ((k.current cpu = cpu ∧ (k.pcb cpu).status = .running) ∨
      ((k.pcb cpu).status = .ready ∧ cpu ∈ k.queue .ready))
  /-- `do_scheduler` always finds a process. -/
  schedules : ∀ event, step event k ≠ .error (.panic .noReadyProcess)
  /-- So does `do_block`. -/
  blocks : ∀ event, step event k ≠ .error (.panic .noReadyForBlock)
  /-- `thread_kill` never meets a running thread. -/
  kills : ∀ event, step event k ≠ .error (.panic .threadRunning)

/-- Of all the panics, only one about semaphores may happen. -/
theorem step_panics {k : Kernel} (resting : Resting k) {event : Event} {check : Panic}
    (stopped : step event k = .error (.panic check)) : check = .semaphoreQueue := by
  by_cases enabled : Enabled k event
  · rcases (step_steps resting enabled).of_error stopped with accepted | ⟨overrun, -⟩
    · exact absurd accepted id
    · exact KernelStop.panic.inj overrun
  · rw [step_disabled enabled] at stopped
    simp at stopped

/-- Queues, states and current processes agree in every reachable state. -/
theorem scheduler_safe (timeMaxSec : Nat) (k : Kernel)
    (reached : Reaches step (fun _ _ => True) (initial timeMaxSec) k) : SchedSafe k := by
  have resting := reaches_resting reached
  have ⟨acting, ok, _, _, _⟩ := resting
  have sched := ok.toSchedOk
  refine
    { apart := ok.currentApart
      once := ?_
      waits := fun h _ ready => sched.ready_not_current ready
      idle := ?_
      schedules := fun event stopped => by cases step_panics resting stopped
      blocks := fun event stopped => by cases step_panics resting stopped
      kills := fun event stopped => by cases step_panics resting stopped }
  · intro h live runs
    obtain ⟨cpu, small, here⟩ := ok.onCpu h live runs
    refine ⟨cpu, ⟨small, here⟩, ?_⟩
    rintro cpu' ⟨small', here'⟩
    exact ok.currentApart cpu' small' cpu small (here'.trans here.symm)
  · intro cpu small
    refine ⟨ok.idleLive cpu small, ok.idlePid cpu small, ?_⟩
    rcases ok.idleStatus cpu small with runs | ready
    · -- A running process is current somewhere, and an idle one only on its own processor.
      obtain ⟨cpu', small', here⟩ := ok.onCpu cpu (ok.idleLive cpu small) (.inl runs)
      obtain rfl := ok.idleOwn cpu small cpu' small' here
      exact .inl ⟨here, runs⟩
    · exact .inr ⟨ready, sched.idle_queued small⟩

/-- What a processor finds when every access of its process is legal. -/
def quietEnv (cpu : Nat) : Env :=
  { cpu, now := 0, heap := true, nic := 1, readByte := fun _ => some 7, canWrite := fun _ => true }

/-- A run in which a process is created, killed while it runs on the other processor, and reaped. -/
def killRun : List Event :=
  [⟨quietEnv 0, .timer⟩, ⟨quietEnv 0, .syscall (.exec 1 true)⟩, ⟨quietEnv 1, .timer⟩,
    ⟨quietEnv 0, .syscall (.kill 3)⟩, ⟨quietEnv 1, .timer⟩, ⟨quietEnv 0, .timer⟩]

/-- The run is possible, and it ends safely. -/
theorem scheduler_safe_killRun :
    ∃ k, runEvents step (initial 100) killRun = some k ∧ SchedSafe k := by
  have possible : (runEvents step (initial 100) killRun).isSome := by decide +kernel
  obtain ⟨k, ran⟩ := Option.isSome_iff_exists.mp possible
  exact ⟨k, ran, scheduler_safe 100 k (.of_events ran)⟩

end GlucOS.Sched
