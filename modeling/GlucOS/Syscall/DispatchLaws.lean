import GlucOS.Sched.Safety
import GlucOS.Syscall.Dispatch

/-! Which numbers of system calls the dispatcher takes to the handler they name. -/

namespace GlucOS.Dispatch

open Routine Sched

/-! ## The end of the calling process -/

section Exit

variable {env : Env} {k k₁ : Kernel}

/-- All threads of the current process have ended, and it is the scheduler's turn. -/
structure Marked (cpu : Nat) (k k₁ : Kernel) : Prop where
  /-- The current thread has left. -/
  exited : (k₁.cur cpu).status = .exited
  /-- The others will when they enter the kernel. -/
  threads : ∀ h ∈ k₁.pcbTable, (k₁.pcb h).pid = (k.cur cpu).pid →
    (k₁.pcb h).status = .exited ∨ (k₁.pcb h).status = .exiting

/-- What `do_exit` does once the threads have ended. -/
def handOver (env : Env) : KernelRoutine Out := do
  let switched ← doScheduler env
  if switched then return .exited else stop (.panic .stillRunning)

/-- `do_exit` ends all threads of the process before it calls the scheduler. -/
theorem doExit_marks (ok : KernelOk env.cpu k) (small : env.cpu < ncpu)
    (user : ncpu ≤ k.current env.cpu) (caught : (k.cur env.cpu).Caught) :
    ∃ k₁, Marked env.cpu k k₁ ∧ doExit env k = handOver env k₁ := by
  -- The current thread runs, so that it is only marked.
  have sched := ok.toSchedOk
  have live := sched.currentLive small
  have high : ncpu ≤ (k.cur env.cpu).pid := sched.userPid _ live user
  have found : k.pcbSearchAll (k.cur env.cpu).pid ≠ [] :=
    List.ne_nil_of_mem (List.mem_filter.mpr ⟨live, by simp [Kernel.cur]⟩)
  have asked : doExit env k =
      (killThreads env (k.pcbSearchAll (k.cur env.cpu).pid) >>= fun _ => leave env .exited) k := by
    have there : ¬ (((k.cur env.cpu).pid : Int) < (ncpu : Int) ∨
        k.pcbSearchAll ((k.cur env.cpu).pid : Int).toNat = []) := by
      intro absent
      cases absent with
      | inl low => omega
      | inr none => exact found none
    change (Sched.doKill env (k.cur env.cpu).pid) k = _
    change (if _ then _ else _ : KernelRoutine Out) k = _
    rw [if_neg there]
    change (if _ then _ else _ : KernelRoutine Out) k = _
    rw [if_pos (by simp)]
    rfl
  have kills : Meets (fun _ => False) _ _ _ := killThreads_all ok small high caught
  cases ran : killThreads env (k.pcbSearchAll (k.cur env.cpu).pid) k with
  | error reason => exact (kills.of_error ran).elim
  | ok answer =>
    obtain ⟨⟨⟩, k₂⟩ := answer
    obtain ⟨kept, marked⟩ := kills.of_ok ran
    refine ⟨k₂.setStatus (k₂.current env.cpu) .exited, ⟨?_, ?_⟩, ?_⟩
    · exact congrArg Pcb.status (Kernel.setPcb_same k₂ _ _)
    · intro h alive same
      by_cases here : h = k₂.current env.cpu
      · rw [here]
        exact .inl (congrArg Pcb.status (Kernel.setPcb_same k₂ _ _))
      · have other : (k₂.setStatus (k₂.current env.cpu) .exited).pcb h = k₂.pcb h :=
          Kernel.setPcb_other k₂ _ here
        rw [other] at same ⊢
        exact .inr (marked h alive same)
    · rw [asked]
      change ((killThreads env _ k).bind fun answer => leave env .exited answer.2) = _
      rw [ran]
      rfl

/-- How the processor goes on without the calling process. -/
def GoesOn (env : Env) (k k₁ : Kernel) : NoReturn → Prop
  | .ended k' => doScheduler env k₁ = .ok (true, k') ∧ (k'.cur env.cpu).status = .running
  | .stopped reason => doScheduler env k₁ = .error reason ∧
      ∃ lock, reason = .spins lock ∧ k.slock lock = true

/--
`do_exit` never comes back to the process that called it.

The scheduler switches to another process, unless it waits for a spin lock that was held before.
-/
theorem exitCaller_gone {trap : Trap} (ok : KernelOk env.cpu trap.kernel) (small : env.cpu < ncpu)
    (user : ncpu ≤ trap.kernel.current env.cpu)
    (runs : (trap.kernel.cur env.cpu).status = .running)
    (locking : ∀ i, (trap.kernel.cur env.cpu).resume ≠ .mutexAcquire i) :
    ∃ k₁ reason, Marked env.cpu trap.kernel k₁ ∧ GoesOn env trap.kernel k₁ reason ∧
      exitCaller env trap = .error reason := by
  -- Only the answer of the scheduler is left to be looked at.
  have ends := doExit_ends ok small user (.inl runs) locking
  obtain ⟨k₁, marked, same⟩ := doExit_marks ok small user (.inl runs)
  have unfolded : handOver env k₁ = (doScheduler env k₁).bind fun answer =>
      (if answer.1 then return .exited else stop (.panic .stillRunning) : KernelRoutine Out)
        answer.2 := rfl
  cases ran : doScheduler env k₁ with
  | error reason =>
    have result : doExit env trap.kernel = .error reason := by
      rw [same, unfolded, ran]
      rfl
    have spins := ends.of_error result
    refine ⟨k₁, .stopped reason, marked, ⟨ran, ?_⟩, ?_⟩
    · cases reason with
      | spins lock => exact ⟨lock, rfl, spins⟩
      | _ => exact spins.elim
    · unfold exitCaller
      rw [result]
  | ok answer =>
    obtain ⟨switched, k'⟩ := answer
    cases switched with
    | false =>
      have result : doExit env trap.kernel = .error (.panic .stillRunning) := by
        rw [same, unfolded, ran]
        rfl
      exact (ends.of_error result).elim
    | true =>
      have result : doExit env trap.kernel = .ok (.exited, k') := by
        rw [same, unfolded, ran]
        rfl
      have process := (ends.of_ok result).process
      refine ⟨k₁, .ended k', marked, ⟨ran, ?_⟩, ?_⟩
      · cases process with
        | inl stays => rw [stays.2.1]; exact runs
        | inr away => exact away.2
      · unfold exitCaller
        rw [result]

end Exit

/-! ## The table -/

/-- Every assignment is found in the table, and no other place leads to a handler. -/
theorem initSyscall_at (options : Options) :
    (∀ entry ∈ assigned options, (initSyscall options)[entry.1]? = some entry.2 ∧
        entry.1 < numSyscalls ∧ entry.2 ≠ .invalidSyscall) ∧
      (initSyscall options).length = numSyscalls ∧
      ∀ n < numSyscalls, (∀ entry ∈ assigned options, entry.1 ≠ n) →
        (initSyscall options)[n]? = some .invalidSyscall := by
  -- There are four ways to build the kernel.
  obtain ⟨multithreading, nic⟩ := options
  cases multithreading <;> cases nic <;> decide +kernel

section Calls

variable {options : Options} {handlers : Handlers} {env : Env} {trap : Trap}

/-- A number inside the table is looked up there. -/
theorem syscallAt_ofNat (trap : Trap) {n : Nat} {func : Handler}
    (found : (initSyscall options)[n]? = some func) :
    syscallAt options n trap = .ok (func, trap) := by
  change syscallAt options (Int.ofNat n) trap = _
  unfold syscallAt
  dsimp only
  rw [found]
  rfl

/-- A number that reads as a positive one is that number. -/
theorem toInt_small (word : BitVec 64) (small : word.toNat < 2 ^ 63) :
    word.toInt = (word.toNat : Int) := by
  rw [BitVec.toInt_eq_toNat_cond]
  exact if_pos (by omega)

/-- A registered number leads to its handler, whose result becomes `a0`. -/
theorem handleSyscall_registered {func : Handler}
    (registered : ((trap.regs 17).toNat, func) ∈ assigned options) :
    handleSyscall options handlers env trap =
      match handlers func trap.args trap with
      | .ok (rt, after) => .ok ((), { after with regs := Function.update after.regs 10 rt })
      | .error reason => .error (.called reason) := by
  -- The table is read twice with the same result.
  obtain ⟨found, small, valid⟩ := (initSyscall_at options).1 _ registered
  have read := syscallAt_ofNat trap found
  have number := toInt_small (trap.regs 17) (by unfold numSyscalls at small; omega)
  have low : ¬ (numSyscalls : Int) ≤ ((trap.regs 17).toNat : Int) := by omega
  have checked : isInvalid options ((trap.regs 17).toNat : Int) trap = .ok (false, trap) := by
    unfold isInvalid
    rw [if_neg low]
    change (syscallAt options _ trap).bind _ = _
    rw [read]
    simp [Except.bind, valid, pure, StateT.pure, Except.pure]
  have called : callHandler options handlers ((trap.regs 17).toNat : Int) trap =
      match handlers func trap.args trap with
      | .ok (rt, after) => .ok ((), { after with regs := Function.update after.regs 10 rt })
      | .error reason => .error (.called reason) := by
    change (syscallAt options _ trap).bind _ = _
    rw [read]
    change ((handlers func trap.args trap).mapError DispatchStop.called).bind _ = _
    cases handlers func trap.args trap with
    | ok answer => rfl
    | error reason => rfl
  change (isInvalid options (trap.regs 17).toInt trap).bind _ = _
  rw [number, checked]
  exact called

/-- Every other number that is not negative is reported before anything is called. -/
theorem handleSyscall_other (handlers : Handlers) {reason : NoReturn}
    (other : ∀ func, ((trap.regs 17).toNat, func) ∉ assigned options)
    (small : (trap.regs 17).toNat < 2 ^ 63)
    (user : ncpu ≤ (trap.kernel.cur env.cpu).pid) (gone : exitCaller env trap = .error reason) :
    handleSyscall options handlers env trap = .error (.called reason) := by
  -- Beyond the table the check does not read it, and inside it finds no handler.
  have number := toInt_small _ small
  have checked : isInvalid options ((trap.regs 17).toNat : Int) trap = .ok (true, trap) := by
    unfold isInvalid
    by_cases high : (numSyscalls : Int) ≤ ((trap.regs 17).toNat : Int)
    · rw [if_pos high]
      rfl
    · rw [if_neg high]
      have low : (trap.regs 17).toNat < numSyscalls := by omega
      have free : ∀ entry ∈ assigned options, entry.1 ≠ (trap.regs 17).toNat :=
        fun entry inside same => other entry.2 (by rw [← same]; exact inside)
      have read := syscallAt_ofNat trap ((initSyscall_at options).2.2 _ low free)
      change (syscallAt options _ trap).bind _ = _
      rw [read]
      rfl
  have reported : invalidSyscall env ((trap.regs 17).toNat : Int) trap.args trap =
      .error (.called reason) := by
    change (if _ then _ else _ : Routine Trap DispatchStop Unit) trap = _
    rw [if_pos user]
    change (exitCaller env trap).mapError DispatchStop.called = _
    rw [gone]
    rfl
  change (isInvalid options (trap.regs 17).toInt trap).bind _ = _
  rw [number, checked]
  change (invalidSyscall env _ trap.args trap).bind _ = _
  rw [reported]
  rfl

/-- A negative number passes the comparison, and `syscall` is read before its start. -/
theorem handleSyscall_negative (trap : Trap) (large : 2 ^ 63 ≤ (trap.regs 17).toNat) :
    handleSyscall options handlers env trap = .error (.outside (trap.regs 17).toInt) := by
  have negative : (trap.regs 17).toInt < 0 := by
    rw [BitVec.toInt_neg_iff]
    omega
  obtain ⟨n, number⟩ := Int.eq_negSucc_of_lt_zero negative
  have low : ¬ (numSyscalls : Int) ≤ Int.negSucc n := by omega
  change (isInvalid options (trap.regs 17).toInt trap).bind _ = _
  rw [number]
  unfold isInvalid
  rw [if_neg low]
  rfl

end Calls

/-- What a system call should do with the number in `a7`. -/
structure Dispatches (options : Options) (env : Env) (trap : Trap) : Prop where
  /-- The table is never read outside. -/
  inside : ∀ handlers sysno,
    handleSyscall options handlers env trap ≠ .error (.outside sysno)
  /-- A registered handler is called with the arguments, and only `a0` is written afterwards. -/
  registered : ∀ func, ((trap.regs 17).toNat, func) ∈ assigned options → ∀ handlers : Handlers,
    handleSyscall options handlers env trap =
      match handlers func trap.args trap with
      | .ok (rt, after) => .ok ((), { after with regs := Function.update after.regs 10 rt })
      | .error reason => .error (.called reason)
  /-- Any other number ends the process, whatever the handlers would do. -/
  other : (∀ func, ((trap.regs 17).toNat, func) ∉ assigned options) →
    ∃ k₁ reason, Marked env.cpu trap.kernel k₁ ∧ GoesOn env trap.kernel k₁ reason ∧
      ∀ handlers, handleSyscall options handlers env trap = .error (.called reason)

/-- The dispatcher does its work for exactly the numbers that are not negative. -/
theorem dispatches_iff (options : Options) (timeMaxSec : Nat) (env : Env) (trap : Trap)
    (reached : Reaches step (fun _ _ => True) (initial timeMaxSec) trap.kernel)
    (enabled : Enabled trap.kernel ⟨env, .fault⟩)
    (runs : (trap.kernel.cur env.cpu).status = .running) :
    Dispatches options env trap ↔ (trap.regs 17).toNat < 2 ^ 63 := by
  constructor
  · -- A negative number is read from memory before the table.
    intro dispatches
    by_contra large
    exact dispatches.inside (fun _ _ _ => .error (.stopped .notEnabled)) _
      (handleSyscall_negative trap (Nat.not_lt.mp large))
  · intro small
    obtain ⟨acting, ok, there, settled, -⟩ := reaches_resting reached
    obtain ⟨inRange, quiet, user⟩ := enabled
    have caught : (trap.kernel.cur acting).Caught := settled.imp_right And.left
    have ok := ok.rebase caught (quiet acting there) env.cpu
    have high : ncpu ≤ (trap.kernel.cur env.cpu).pid := user rfl
    have locking : ∀ i, (trap.kernel.cur env.cpu).resume ≠ .mutexAcquire i := by
      intro i wanted
      exact quiet env.cpu inRange (by simp [Kernel.inCall, wanted])
    obtain ⟨k₁, reason, marked, goesOn, gone⟩ :=
      exitCaller_gone ok inRange (ok.toSchedOk.user_ge high) runs locking
    have others := fun (other : ∀ func, ((trap.regs 17).toNat, func) ∉ assigned options) handlers =>
      handleSyscall_other handlers other small high gone
    refine ⟨?_, fun func registered handlers => handleSyscall_registered registered,
      fun other => ⟨k₁, reason, marked, goesOn, others other⟩⟩
    intro handlers sysno outside
    by_cases other : ∀ func, ((trap.regs 17).toNat, func) ∉ assigned options
    · rw [others other handlers] at outside
      cases outside
    · obtain ⟨func, registered⟩ := not_forall_not.mp other
      rw [handleSyscall_registered registered] at outside
      cases answer : handlers func trap.args trap with
      | ok after => rw [answer] at outside; cases outside
      | error reason => rw [answer] at outside; cases outside

/-- The state in which the shell has just started on the first processor, with a call to make. -/
def shellTrap (number : BitVec 64) (kernel : Kernel) : Trap :=
  { kernel, regs := fun i => if i.val = 17 then number else 0#64 }

/-- The shell runs after the first interrupt. -/
theorem shell_runs : ∃ k, runEvents step (initial 100) [⟨quietEnv 0, .timer⟩] = some k ∧
    Enabled k ⟨quietEnv 0, .fault⟩ ∧ (k.cur 0).status = .running := by
  -- The run is followed once, and the three facts are read off where it ends.
  have possible : (match runEvents step (initial 100) [⟨quietEnv 0, .timer⟩] with
      | some k => decide (Enabled k ⟨quietEnv 0, .fault⟩ ∧ (k.cur 0).status = .running)
      | none => false) = true := by decide +kernel
  cases ran : runEvents step (initial 100) [⟨quietEnv 0, .timer⟩] with
  | none => rw [ran] at possible; cases possible
  | some k =>
    rw [ran] at possible
    exact ⟨k, rfl, of_decide_eq_true possible⟩

/-- `sys_getpid` of the shell is dispatched. -/
theorem dispatches_getpid : ∃ k,
    runEvents step (initial 100) [⟨quietEnv 0, .timer⟩] = some k ∧
      Dispatches ⟨true, true⟩ (quietEnv 0) (shellTrap 6 k) := by
  obtain ⟨k, ran, enabled, runs⟩ := shell_runs
  exact ⟨k, ran, (dispatches_iff ⟨true, true⟩ 100 (quietEnv 0) (shellTrap 6 k) (.of_events ran)
    enabled runs).mpr (by change (6 : BitVec 64).toNat < 2 ^ 63; decide)⟩

/-- Number -1 makes the dispatcher read the pointer before the table. -/
theorem dispatch_before_table : ∃ k,
    runEvents step (initial 100) [⟨quietEnv 0, .timer⟩] = some k ∧
      Enabled k ⟨quietEnv 0, .fault⟩ ∧ (k.cur 0).status = .running ∧
      (∀ handlers, handleSyscall ⟨true, true⟩ handlers (quietEnv 0) (shellTrap (-1) k) =
        .error (.outside (-1))) ∧
      ¬ Dispatches ⟨true, true⟩ (quietEnv 0) (shellTrap (-1) k) := by
  obtain ⟨k, ran, enabled, runs⟩ := shell_runs
  have outside : ∀ handlers, handleSyscall ⟨true, true⟩ handlers (quietEnv 0) (shellTrap (-1) k) =
      .error (.outside (-1)) := fun handlers =>
    handleSyscall_negative (shellTrap (-1) k) (by change 2 ^ 63 ≤ (-1 : BitVec 64).toNat; decide)
  exact ⟨k, ran, enabled, runs, outside, fun dispatches =>
    dispatches.inside (fun _ _ _ => .error (.stopped .notEnabled)) _ (outside _)⟩

end GlucOS.Dispatch
