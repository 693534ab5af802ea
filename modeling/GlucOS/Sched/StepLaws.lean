import GlucOS.Sched.CallLaws

/-! One event under the kernel lock, from one state at rest to the next. -/

namespace GlucOS.Sched

open Routine

/-! ## Whom an event kills -/

/-- The mailbox whose spin lock a call keeps, because a message lies at an illegal address. -/
def Call.breaks (env : Env) (k : Kernel) : Call → Option Nat
  | .mboxSend midx msg msgLength =>
    if midx < 0 ∨ (mboxNum : Int) ≤ midx ∨ msgLength = 0 ∨ maxMboxLength < msgLength then none
    else breakAt midx.toNat (sendBreaks env k midx.toNat msg msgLength)
  | .mboxRecv midx msg msgLength =>
    if midx < 0 ∨ (mboxNum : Int) ≤ midx ∨ msgLength = 0 ∨ maxMboxLength < msgLength then none
    else if kvaMin ≤ msg then none
    else breakAt midx.toNat (recvBreaks env k midx.toNat msg msgLength)
  | _ => none

/-- The same for a call that goes on. -/
def Resume.breaks (env : Env) (k : Kernel) : Resume → Option Nat
  | .mboxSend i msg msgLength _ => breakAt i (sendBreaks env k i msg msgLength)
  | .mboxRecv i msg msgLength _ => breakAt i (recvBreaks env k i msg msgLength)
  | _ => none

/-- The same for an event. -/
def breaks (k : Kernel) (event : Event) : Option Nat :=
  match event.entry with
  | .syscall call =>
    if (k.cur event.env.cpu).status = .exiting then none else call.breaks event.env k
  | .resume => (k.cur event.env.cpu).resume.breaks event.env k
  | _ => none

/-- The process that a call kills. -/
def Call.victim (env : Env) (k : Kernel) : Call → Option Nat
  | .exit => some (k.cur env.cpu).pid
  | .kill pid => some pid.toNat
  | .threadExit => if (k.cur env.cpu).tid = 0 then some (k.cur env.cpu).pid else none
  | .exec argc argvLegal =>
    if argc ≤ argcMax ∧ argvLegal = false ∧ canCreate env k = true then some (k.cur env.cpu).pid
    else none
  | .mboxOpen name =>
    if (nameSum env name nameMax).isNone then some (k.cur env.cpu).pid else none
  | call => if (call.breaks env k).isSome then some (k.cur env.cpu).pid else none

/-- The process that an event kills: nothing else frees a thread that has not left by itself. -/
def victim (k : Kernel) (event : Event) : Option Nat :=
  match event.entry with
  | .resume =>
    if ((k.cur event.env.cpu).resume.breaks event.env k).isSome then
      some (k.cur event.env.cpu).pid
    else none
  | entry =>
    if (k.cur event.env.cpu).status = .exiting then some (k.cur event.env.cpu).pid
    else
      match entry with
      | .syscall call => call.victim event.env k
      | .fault => some (k.cur event.env.cpu).pid
      | _ => none

/-- Why an event may stop: a spin lock is held, or a semaphore was overrun. -/
def Entry.Stops (entry : Entry) (slock : SpinLock → Bool) (reason : KernelStop) : Prop :=
  Sched.Stops slock reason ∨
    reason = .panic .semaphoreQueue ∧ ∃ sidx, entry = .syscall (.semaphoreUp sidx)

section

variable {env : Env} {cpu : Nat} {v : Option Nat} {k k' : Kernel}

/-- A routine that stops at spin locks only, as part of an event. -/
theorem Entry.accepts {A : Type} (entry : Entry) {slock : SpinLock → Bool}
    {routine : KernelRoutine A} {post : A → Kernel → Prop}
    (meets : Meets (Sched.Stops slock) routine k post) :
    Meets (entry.Stops slock) routine k post :=
  Meets.accept meets fun _ stops => .inl stops

/-- The victim of a call on a mailbox. -/
theorem breakVictim_breakAt (env : Env) (k : Kernel) (i : Nat) (breaks : Bool) :
    (if (breakAt i breaks).isSome then some (k.cur env.cpu).pid else none) =
      breakVictim env k breaks := by
  cases breaks <;> rfl

/-- Who is killed by a call that copies. -/
theorem doMbox_ends {call : Call} {routine : KernelRoutine Out} {i : Nat} {b : Bool}
    (breaks : call.breaks env k = breakAt i b)
    (victim : call.victim env k =
      if (call.breaks env k).isSome then some (k.cur env.cpu).pid else none)
    (ends : Meets (Stops (slockAfter k (breakAt i b))) routine k
      (Ends env.cpu (breakVictim env k b) (breakAt i b) k)) :
    Meets (Stops (slockAfter k (call.breaks env k))) routine k
      (Ends env.cpu (call.victim env k) (call.breaks env k) k) := by
  rw [victim, breaks, breakVictim_breakAt]
  exact ends

/-- `do_mbox_send`. -/
theorem doMboxSend_ends (caller : Caller env.cpu k) (midx : Int) (msg msgLength : Nat) :
    Meets (Stops (slockAfter k ((Call.mboxSend midx msg msgLength).breaks env k)))
      (doMboxSend env midx msg msgLength) k
      (Ends env.cpu ((Call.mboxSend midx msg msgLength).victim env k)
        ((Call.mboxSend midx msg msgLength).breaks env k) k) := by
  unfold doMboxSend
  refine meets_ite (fun wrong => ?_) (fun right => ?_)
  · exact doMbox_ends (i := 0) (b := false) (if_pos wrong) rfl (caller.nothing _)
  · exact doMbox_ends (if_neg right) rfl (mboxSendAgain_ends caller midx.toNat msg msgLength 0)

/-- `do_mbox_recv`. -/
theorem doMboxRecv_ends (caller : Caller env.cpu k) (midx : Int) (msg msgLength : Nat) :
    Meets (Stops (slockAfter k ((Call.mboxRecv midx msg msgLength).breaks env k)))
      (doMboxRecv env midx msg msgLength) k
      (Ends env.cpu ((Call.mboxRecv midx msg msgLength).victim env k)
        ((Call.mboxRecv midx msg msgLength).breaks env k) k) := by
  unfold doMboxRecv
  refine meets_ite (fun wrong => ?_) (fun right => ?_)
  · exact doMbox_ends (i := 0) (b := false) (if_pos wrong) rfl (caller.nothing _)
  refine meets_ite (fun high => ?_) (fun low => ?_)
  · exact doMbox_ends (i := 0) (b := false) ((if_neg right).trans (if_pos high)) rfl
      (caller.nothing _)
  · exact doMbox_ends ((if_neg right).trans (if_neg low)) rfl
      (mboxRecvAgain_ends caller midx.toNat msg msgLength 0)

/-- `do_mbox_open` ends the caller when the name lies at an illegal address. -/
theorem doMboxOpen_ends (caller : Caller env.cpu k) (name : Nat) :
    Meets (Stops k.slock) (doMboxOpen env name) k
      (Ends env.cpu ((Call.mboxOpen name).victim env k) none k) := by
  have victim : (Call.mboxOpen name).victim env k =
      if (nameSum env name nameMax).isNone then some (k.cur env.cpu).pid else none := rfl
  rw [victim]
  unfold doMboxOpen
  cases nameSum env name nameMax with
  | none => exact doExit_ends caller.ok caller.small caller.user (.inl caller.runs) caller.locking
  | some s => exact mboxOpen_ends caller s

/-- Whether the scheduler switched is not told to the caller. -/
theorem doYield_eq (env : Env) :
    doYield env = doScheduler env >>= fun _ => pure .scheduled := by
  unfold doYield
  funext k
  cases ran : doScheduler env k <;>
    simp [discard, Functor.discard, Functor.mapConst, Bind.bind, StateT.bind, StateT.map, ran,
      Except.bind, pure, StateT.pure, Except.pure, Function.comp]

/-- Going around the ready queue as a call. -/
theorem doYield_ends (ok : KernelOk env.cpu k) (small : env.cpu < ncpu)
    (stays : (k.cur env.cpu).status ≠ .exiting) :
    Meets (Stops k.slock) (doYield env) k (Ends env.cpu none none k) := by
  rw [doYield_eq]
  refine Meets.bind (doScheduler_scans none ok small stays) ?_
  intro switched k' scans
  refine ⟨scans.changes, scans.slock, ?_, .none k'⟩
  cases switched with
  | true => exact .inr ⟨by simp, scans.runs rfl⟩
  | false =>
    obtain ⟨current, cur, -⟩ := scans.stays rfl
    exact .inl ⟨current, by rw [cur], by rw [cur]⟩

/-- The interrupts of the network card wake those that wait for it. -/
theorem handleIrqExt_ends (ok : KernelOk env.cpu k) (small : env.cpu < ncpu) (txqe rxdmt0 : Bool) :
    Meets (Stops k.slock) (handleIrqExt env txqe rxdmt0) k (Ends env.cpu none none k) := by
  have wakes : ∀ (wanted : Bool) (q : QueueRef), q.plain = true → ∀ k₁, Keeps env.cpu none k k₁ →
      Meets (Stops k.slock) (if wanted then unblockAll env q else pure ()) k₁ fun _ =>
        Keeps env.cpu none k := by
    intro wanted q plain k₁ keeps
    have ok₁ := (keeps.ok ok small).toSchedOk
    refine meets_ite (fun _ => ?_) (fun _ => keeps)
    exact (unblockAll_keeps none ok₁ small plain).mono fun _ _ more => keeps.trans more
  have unfolded : handleIrqExt env txqe rxdmt0 =
      (if txqe then unblockAll env .nicSend else pure ()) >>= fun _ =>
        (if rxdmt0 then unblockAll env .nicRecv else pure ()) >>= fun _ => pure .scheduled := by
    cases txqe <;> cases rxdmt0 <;> rfl
  rw [unfolded]
  refine Meets.bind (wakes txqe .nicSend rfl k (.refl _ _ k)) fun _ k₁ keeps₁ => ?_
  refine Meets.bind (wakes rxdmt0 .nicRecv rfl k₁ keeps₁) fun _ k₂ keeps₂ => ?_
  exact keeps₂.ends ok.toSchedOk small _

/-- Every system call. -/
theorem handleSyscall_ends (caller : Caller env.cpu k) (call : Call) :
    Meets ((Entry.syscall call).Stops (slockAfter k (call.breaks env k))) (handleSyscall env call) k
      (Ends env.cpu (call.victim env k) (call.breaks env k) k) := by
  have ⟨ok, small, runs, user, locking⟩ := caller
  by_cases up : ∃ sidx, call = .semaphoreUp sidx
  · obtain ⟨sidx, rfl⟩ := up
    refine Meets.accept (doSemaphoreUp_ends caller sidx) fun reason stops => ?_
    exact stops.imp_right fun overrun => ⟨overrun, sidx, rfl⟩
  suffices spins : Meets (Stops (slockAfter k (call.breaks env k))) (handleSyscall env call) k
      (Ends env.cpu (call.victim env k) (call.breaks env k) k) by
    exact Entry.accepts _ spins
  cases call with
  | yield => exact doYield_ends ok small (by simp [runs])
  | sleep sleepTime => exact doSleep_ends caller sleepTime
  | exit => exact doExit_ends ok small user (.inl runs) locking
  | kill pid => exact doKill_ends ok small user (.inl runs) locking pid
  | waitpid pid => exact doWaitpid_ends caller pid
  | threadCreate valid => exact doThreadCreate_ends caller valid
  | threadWait tid => exact doThreadWait_ends caller tid
  | threadExit => exact doThreadExit_ends caller
  | exec argc argvLegal => exact doExec_ends caller argc argvLegal
  | fork => exact doFork_ends caller
  | taskset pid cpuMask => exact doTaskset_ends caller pid cpuMask
  | mutexInit key => exact caller.nothing _
  | mutexAcquire mlockIdx => exact doMutexLockAcquire_ends caller mlockIdx
  | mutexRelease mlockIdx => exact doMutexLockRelease_ends caller mlockIdx
  | semaphoreInit key value => exact doSemaphoreInit_ends caller key value
  | semaphoreUp sidx => exact absurd ⟨sidx, rfl⟩ up
  | semaphoreDown sidx => exact doSemaphoreDown_ends caller sidx
  | semaphoreDestroy sidx => exact doSemaphoreDestroy_ends caller sidx
  | barrierInit key goal => exact doBarrierInit_ends caller key goal
  | barrierWait bidx => exact doBarrierWait_ends caller bidx
  | barrierDestroy bidx => exact doBarrierDestroy_ends caller bidx
  | mboxOpen name => exact doMboxOpen_ends caller name
  | mboxClose midx => exact doMboxClose_ends caller midx
  | mboxSend midx msg msgLength => exact doMboxSend_ends caller midx msg msgLength
  | mboxRecv midx msg msgLength => exact doMboxRecv_ends caller midx msg msgLength
  | netSend => exact doNetSend_ends caller
  | netRecv pktNum => exact doNetRecv_ends caller pktNum

/-! ## Idle processes make no calls -/

/-- Idle processes are never in the middle of a call. -/
def IdleCalm (k : Kernel) : Prop := ∀ c < ncpu, (k.pcb c).resume = .toUser

/-- Idle processes stay calm when nobody's place changes. -/
theorem IdleCalm.of_same (calm : IdleCalm k)
    (same : ∀ c < ncpu, (k'.pcb c).resume = (k.pcb c).resume) : IdleCalm k' :=
  fun c small => (same c small).trans (calm c small)

/-- Waking keeps where everybody goes on. -/
theorem Kernel.wake_resume (k : Kernel) (cpu : Nat) (q : QueueRef) (h x : PcbRef) :
    ((k.wake cpu q h).pcb x).resume = (k.pcb x).resume := by
  by_cases same : x = h
  · rw [same, Kernel.wake_pcb_same]
  · rw [Kernel.wake_pcb_other cpu q same]

/-- Idle processes stay calm when others are woken. -/
theorem IdleCalm.wakes {q : QueueRef} (calm : IdleCalm k) (wakes : Wakes cpu q k k') :
    IdleCalm k' := by
  induction wakes with
  | refl k => exact calm
  | @head k k' h rest queued more ih =>
    exact ih (calm.of_same fun c _ => k.wake_resume cpu q h c)

/-- Idle processes stay calm when a user process blocks. -/
theorem IdleCalm.blockOn {q : QueueRef} {resume : Resume} {p : PcbRef} (calm : IdleCalm k)
    (user : ncpu ≤ k.current cpu) : IdleCalm (k.blockOn cpu q resume p) := by
  refine calm.of_same fun c small => ?_
  have differ : c ≠ k.current cpu := fun same => by
    rw [← same] at user
    exact absurd small (Nat.not_lt.mpr user)
  have others : (k.blockOn cpu q resume p).pcb c = (k.setStatus p .running).pcb c :=
    Function.update_of_ne differ _ _
  rw [others]
  exact Kernel.setStatus_field Pcb.resume (fun _ _ => rfl) k p .running c

/-- Idle processes stay calm by scheduling. -/
theorem SchedChange.idleCalm (ok : SchedOk cpu k) (calm : IdleCalm k)
    (change : SchedChange cpu v k k') : IdleCalm k' := by
  cases change with
  | wake queued plain => exact calm.of_same fun c _ => k.wake_resume cpu _ _ c
  | drop live alone away user why => exact calm
  | exiting live runs user why =>
    exact calm.of_same fun c _ => Kernel.setStatus_field Pcb.resume (fun _ _ => rfl) k _ _ c
  | leave user goal locking =>
    exact calm.of_same fun c _ => Kernel.setStatus_field Pcb.resume (fun _ _ => rfl) k _ _ c
  | @switch p queued runnable stays =>
    refine calm.of_same fun c _ => ?_
    unfold Kernel.switchTo
    split
    · exact (Kernel.setStatus_field Pcb.resume (fun _ _ => rfl) _ p _ c).trans
        (Kernel.setStatus_field Pcb.resume (fun _ _ => rfl) k _ _ c)
    · exact Kernel.setStatus_field Pcb.resume (fun _ _ => rfl) k p _ c
  | block resume plain can waited calm' locking => exact calm.blockOn can.user
  | @create pid tid cpuMask room user fresh stays =>
    refine calm.of_same fun c low => ?_
    have old := ok.tableOld c (ok.idleLive c low)
    rw [k.addPcb_other pid tid cpuMask (Nat.ne_of_lt old)]
  | mask cpuMask user =>
    exact calm.of_same fun c _ => k.setMask_field _ _ Pcb.resume (fun _ _ => rfl) c
  | request wakeupTime reqLen =>
    exact calm.of_same fun c _ => Kernel.setPcb_field Pcb.resume k _ _ rfl c
  | finish done =>
    intro c low
    by_cases same : c = k.current cpu
    · rw [same, Kernel.setResume, Kernel.setPcb_same]
    · rw [Kernel.setResume, Kernel.setPcb_other k _ same]
      exact calm c low
  | glush pid => exact calm
  | terminated gone => exact calm

/-- Idle processes stay calm by any change. -/
theorem Change.idleCalm (ok : KernelOk cpu k) (calm : IdleCalm k) (change : Change cpu v k k') :
    IdleCalm k' := by
  -- Where a process goes on does not depend on the queue it is woken from.
  have woken := fun h : PcbRef => calm.of_same fun c _ => k.wake_resume cpu .ready h c
  have stored := fun msgLength : Nat => calm.of_same fun c _ =>
    Kernel.setPcb_field Pcb.resume k (k.current cpu) (fun pcb => { pcb with reqLen := msgLength })
      rfl c
  cases change with
  | spin slock => exact calm
  | sched change => exact change.idleCalm ok.toSchedOk calm
  | mutex change =>
    cases change with
    | acquire free => exact calm
    | block held foreign can calm' locking => exact calm.blockOn can.user
    | releaseFree held own empty => exact calm
    | @releaseWake h rest held own queued calm' => exact woken h
    | killedFree silent held own empty => exact calm
    | @handOver kpid h rest silent held own queued => exact woken h
  | semaphore change =>
    cases change with
    | init value fits closed => exact calm
    | upFree valid nonneg => exact calm
    | upReset valid neg empty => exact calm
    | @upWake h rest valid neg queued calm' => exact woken h
    | pass valid nonneg => exact calm
    | block valid neg can calm' locking =>
      refine IdleCalm.blockOn ?_ can.user
      exact calm
    | close wakes empty =>
      refine IdleCalm.wakes ?_ wakes
      exact calm
  | barrier change =>
    cases change with
    | init goal closed => exact calm
    | pass valid all calm' wakes empty =>
      have woken := IdleCalm.wakes (k := k.setBarrier _ _) calm wakes
      exact woken
    | block valid few can calm' locking =>
      refine IdleCalm.blockOn ?_ can.user
      exact calm
    | close wakes empty =>
      refine IdleCalm.wakes ?_ wakes
      exact calm
  | mailbox change =>
    cases change with
    | opens closed => exact calm
    | close receivers senders noReceivers noSenders =>
      refine (IdleCalm.wakes ?_ receivers).wakes senders
      exact calm
    | blockSend resume valid full can calm' locking => exact (stored _).blockOn can.user
    | blockRecv resume valid empty can calm' locking => exact (stored _).blockOn can.user
    | sent valid entered calm' wakes stopped =>
      have waken := IdleCalm.wakes (k := k.setMailbox _ _) calm wakes
      exact waken
    | received valid departed calm' wakes empty =>
      have waken := IdleCalm.wakes (k := k.setMailbox _ _) calm wakes
      exact waken

/-- Idle processes stay calm by all changes of an event. -/
theorem Deeds.idleCalm {b : Option Nat} (ok : KernelOk cpu k) (small : cpu < ncpu)
    (calm : IdleCalm k) (deeds : Deeds cpu v b k k') : IdleCalm k' := by
  have kept := Deeds.invariant small (fun _ _ ok change calm => change.idleCalm ok calm)
    (fun _ _ _ _ _ calm => calm) ok calm deeds
  exact kept.2

/-! ## Events -/

/-- A state between two events, where one processor was the last to act. -/
structure RestsAt (acting : Nat) (k : Kernel) : Prop where
  /-- The invariant holds. -/
  ok : KernelOk acting k
  /-- There is such a processor. -/
  small : acting < ncpu
  /-- Its current process runs, or was killed in user mode. -/
  settled : (k.cur acting).status = .running ∨
    ((k.cur acting).status = .exiting ∧ ¬ k.inCall acting)
  /-- Idle processes make no calls. -/
  calm : IdleCalm k

/-- A state between two events. -/
def Resting (k : Kernel) : Prop := ∃ acting, RestsAt acting k

/-- When nobody is in the middle of a call, any processor may act next. -/
theorem KernelOk.rebase {acting : Nat} (ok : KernelOk acting k) (settled : (k.cur acting).Caught)
    (quiet : ¬ k.inCall acting) (other : Nat) : KernelOk other k :=
  { ok with
    settled := by
      intro c small _
      by_cases same : c = acting
      · exact same ▸ settled
      · exact ok.settled c small same
    quiet := by
      intro c small _
      by_cases same : c = acting
      · exact same ▸ quiet
      · exact ok.quiet c small same }

/-- A call that goes on ends as any other, and has taken the mutex lock it asked for. -/
theorem resumeCall_ends (ok : KernelOk env.cpu k) (small : env.cpu < ncpu)
    (runs : (k.cur env.cpu).status = .running) (user : ncpu ≤ k.current env.cpu)
    (inside : k.inCall env.cpu) :
    Meets (Stops (slockAfter k ((k.cur env.cpu).resume.breaks env k)))
      (resumeCall env (k.cur env.cpu).resume) k fun out k' =>
        Ends env.cpu (if ((k.cur env.cpu).resume.breaks env k).isSome then
          some (k.cur env.cpu).pid else none) ((k.cur env.cpu).resume.breaks env k) k out k' ∧
        ((∃ value, out = .returned value) → ∀ i, (k.cur env.cpu).resume = .mutexAcquire i →
          (k'.mlocks i).locked = true) := by
  unfold Kernel.inCall at inside
  have caller : (∀ i, (k.cur env.cpu).resume ≠ .mutexAcquire i) → Caller env.cpu k :=
    fun locking => ⟨ok, small, runs, user, locking⟩
  have goes := fun {k' : Kernel} (keeps : Keeps env.cpu none k k') => keeps.ends ok.toSchedOk small
  generalize place : (k.cur env.cpu).resume = resume at inside caller ⊢
  cases resume with
  | toUser => exact absurd rfl inside
  | mutexAcquire i =>
    refine (mutexAcquire_ends ok small runs user i fun j wanted => ?_).mono ?_
    · rw [place] at wanted
      exact (Resume.mutexAcquire.inj wanted).symm
    · rintro out k' ⟨ends, taken⟩
      refine ⟨ends, fun returned j same => ?_⟩
      obtain rfl := Resume.mutexAcquire.inj same
      exact taken returned
  | semaphoreDown i =>
    refine meets_region fun free => ?_
    unfold semaphoreDownEnd
    rw [meets_get_bind]
    refine meets_spinLockRelease_bind (Kernel.hold_held k _) ?_
    exact ⟨goes (.nothing free) _, by simp⟩
  | barrierWait i goal =>
    refine meets_region fun free => ?_
    refine meets_spinLockRelease_bind (Kernel.hold_held k _) ?_
    exact ⟨goes (.nothing free) _, by simp⟩
  | mboxSend i msg msgLength blockYmr =>
    unfold Resume.breaks
    rw [breakVictim_breakAt]
    exact (mboxSendAgain_ends (caller (by simp)) i msg msgLength blockYmr).mono
      fun _ _ ends => ⟨ends, by simp⟩
  | mboxRecv i msg msgLength blockYmr =>
    unfold Resume.breaks
    rw [breakVictim_breakAt]
    exact (mboxRecvAgain_ends (caller (by simp)) i msg msgLength blockYmr).mono
      fun _ _ ends => ⟨ends, by simp⟩
  | netSend =>
    exact (doNetSend_ends (caller (by simp))).mono fun _ _ ends => ⟨ends, by simp⟩
  | netRecv left =>
    exact (doNetRecv_ends (caller (by simp)) left).mono fun _ _ ends => ⟨ends, by simp⟩

/-- What one event does, from a state at rest. -/
structure Steps (k : Kernel) (event : Event) (k' : Kernel) : Prop where
  /-- It is made of changes. -/
  changes : Deeds event.env.cpu (victim k event) (breaks k event) k k'
  /-- It releases the spin locks it acquires, but for one when it breaks. -/
  slock : k'.slock = slockAfter k (breaks k event)
  /-- The process that it kills is not blocked. -/
  awake : Awake (victim k event) k'
  /-- It ends in a state at rest. -/
  rests : RestsAt event.env.cpu k'

/-- Before an event its processor may act. -/
theorem Enabled.acts {event : Event} (resting : Resting k) (enabled : Enabled k event) :
    KernelOk event.env.cpu k ∧ (k.cur event.env.cpu).Caught ∧ IdleCalm k := by
  obtain ⟨acting, ok, small, settled, calm⟩ := resting
  have caught : (k.cur acting).Caught := settled.imp_right And.left
  obtain ⟨small', entered⟩ := enabled
  have when : event.env.cpu = acting ∨ ¬ k.inCall acting := by
    cases place : event.entry with
    | resume =>
      rw [place] at entered
      by_contra other
      rw [not_or] at other
      exact ok.quiet _ small' other.1 entered
    | _ =>
      rw [place] at entered
      exact .inr (entered.1 acting small)
  rcases when with rfl | quiet
  · exact ⟨ok, caught, calm⟩
  · refine ⟨ok.rebase caught quiet _, ?_, calm⟩
    by_cases same : event.env.cpu = acting
    · exact same ▸ caught
    · exact ok.settled _ small' same

/-- A processor in the middle of a call runs a user process. -/
theorem inCall_runs {event : Event} (resting : Resting k) (small : event.env.cpu < ncpu)
    (inside : k.inCall event.env.cpu) :
    (k.cur event.env.cpu).status = .running ∧ ncpu ≤ k.current event.env.cpu := by
  obtain ⟨acting, ok, -, settled, calm⟩ := resting
  have here : event.env.cpu = acting := by
    by_contra other
    exact ok.quiet _ small other inside
  refine ⟨?_, ?_⟩
  · rcases settled with runs | ⟨-, quiet⟩
    · rw [here]
      exact runs
    · rw [← here] at quiet
      exact absurd inside quiet
  · by_contra low
    exact inside (calm _ (Nat.not_le.mp low))

/-- A process that was killed while it ran is no idle one. -/
theorem exiting_user (ok : SchedOk cpu k) (exiting : (k.cur cpu).status = .exiting) :
    ncpu ≤ k.current cpu := by
  by_contra low
  unfold Kernel.cur at exiting
  rcases ok.idleStatus _ (Nat.not_le.mp low) with runs | ready
  · simp [runs] at exiting
  · simp [ready] at exiting

/-- How a call ends decides where the event ends. -/
theorem Ends.steps {event : Event} {out : Out} (ok : KernelOk event.env.cpu k)
    (small : event.env.cpu < ncpu) (calm : IdleCalm k)
    (settled : (k.cur event.env.cpu).status = .running ∨
      ((k.cur event.env.cpu).status = .exiting ∧ ¬ k.inCall event.env.cpu))
    (ends : Ends event.env.cpu (victim k event) (breaks k event) k out k') :
    Steps k event k' := by
  refine ⟨ends.changes, ends.slock, ends.awake, ends.changes.ok ok small, small, ?_,
    ends.changes.idleCalm ok small calm⟩
  rcases ends.process with ⟨-, status, resume⟩ | ⟨-, runs⟩
  · unfold Kernel.inCall
    rw [status, resume]
    exact settled
  · exact .inl runs

/-- The handlers of `interrupt_helper` for a process that was not killed. -/
theorem handleEntry_ends {event : Event} (ok : KernelOk event.env.cpu k)
    (small : event.env.cpu < ncpu) (runs : (k.cur event.env.cpu).status = .running)
    (quiet : ¬ k.inCall event.env.cpu)
    (user : event.entry.byUser = true → ncpu ≤ (k.cur event.env.cpu).pid)
    (entered : event.entry ≠ .resume) :
    Meets (event.entry.Stops (slockAfter k (breaks k event))) (handleEntry event.env event.entry) k
      (Ends event.env.cpu (victim k event) (breaks k event) k) := by
  have alive : (k.cur event.env.cpu).status ≠ .exiting := by simp [runs]
  have sched := ok.toSchedOk
  have caller : ncpu ≤ (k.cur event.env.cpu).pid → Caller event.env.cpu k := by
    intro high
    refine ⟨ok, small, runs, sched.user_ge high, fun i wanted => ?_⟩
    exact quiet (by simp [Kernel.inCall, wanted])
  unfold breaks victim
  cases place : event.entry with
  | timer =>
    simp only [if_neg alive]
    exact Entry.accepts _ (doYield_ends ok small alive)
  | nic txqe rxdmt0 =>
    simp only [if_neg alive]
    exact Entry.accepts _ (handleIrqExt_ends ok small txqe rxdmt0)
  | syscall call =>
    simp only [if_neg alive]
    exact handleSyscall_ends (caller (user (by rw [place]; rfl))) call
  | fault =>
    simp only [if_neg alive]
    have ⟨_, _, _, high, locking⟩ := caller (user (by rw [place]; rfl))
    exact Entry.accepts _ (doExit_ends ok small high (.inl runs) locking)
  | resume => exact absurd place entered

/-- An event other than going on in the middle of a call. -/
theorem interruptHelper_steps {event : Event} (ok : KernelOk event.env.cpu k)
    (small : event.env.cpu < ncpu) (caught : (k.cur event.env.cpu).Caught) (calm : IdleCalm k)
    (quiet : ¬ k.inCall event.env.cpu)
    (user : event.entry.byUser = true → ncpu ≤ (k.cur event.env.cpu).pid)
    (entered : event.entry ≠ .resume) :
    Meets (event.entry.Stops (slockAfter k (breaks k event))) (interruptHelper event.env event.entry) k
      fun _ k' => Steps k event k' := by
  unfold interruptHelper
  rw [meets_get_bind]
  refine meets_ite (fun exiting => ?_) (fun alive => ?_)
  · have high := exiting_user ok.toSchedOk exiting
    have none : breaks k event = none := by
      unfold breaks
      cases place : event.entry with
      | syscall call => exact if_pos exiting
      | resume => exact absurd place entered
      | _ => rfl
    have own : victim k event = some (k.cur event.env.cpu).pid := by
      unfold victim
      cases place : event.entry with
      | resume => exact absurd place entered
      | _ => exact if_pos exiting
    have ends := doExit_ends ok small high caught fun i wanted =>
      quiet (by simp [Kernel.inCall, wanted])
    rw [← own] at ends
    have ends' : Meets (event.entry.Stops (slockAfter k (breaks k event))) (doExit event.env) k
        (Ends event.env.cpu (victim k event) (breaks k event) k) := by
      rw [none]
      exact Entry.accepts _ ends
    exact ends'.mono fun _ _ done => Ends.steps ok small calm (.inr ⟨exiting, quiet⟩) done
  · have runs : (k.cur event.env.cpu).status = .running := by
      rcases caught with runs | exiting
      · exact runs
      · exact absurd exiting alive
    exact (handleEntry_ends ok small runs quiet user entered).mono fun _ _ ends =>
      Ends.steps ok small calm (.inl runs) ends

/-- Going on in the middle of a call. -/
theorem resume_steps {event : Event} (ok : KernelOk event.env.cpu k)
    (small : event.env.cpu < ncpu) (runs : (k.cur event.env.cpu).status = .running)
    (high : ncpu ≤ k.current event.env.cpu) (calm : IdleCalm k) (inside : k.inCall event.env.cpu)
    (entered : event.entry = .resume) :
    Meets (event.entry.Stops (slockAfter k (breaks k event))) (handleEntry event.env .resume) k
      fun _ k' => Steps k event k' := by
  have which : breaks k event = (k.cur event.env.cpu).resume.breaks event.env k := by
    unfold breaks
    rw [entered]
  have who : victim k event =
      if ((k.cur event.env.cpu).resume.breaks event.env k).isSome then
        some (k.cur event.env.cpu).pid else none := by
    unfold victim
    rw [entered]
  unfold handleEntry
  rw [meets_get_bind]
  have goes := resumeCall_ends ok small runs high inside
  rw [← who, ← which] at goes
  refine Meets.bind (Entry.accepts _ goes) ?_
  rintro out k' ⟨ends, taken⟩
  have steps := Ends.steps ok small calm (.inl runs) ends
  cases out with
  | returned value =>
    rw [meets_modify_bind]
    obtain ⟨-, status, resume⟩ : k'.current = k.current ∧
        (k'.cur event.env.cpu).status = (k.cur event.env.cpu).status ∧
        (k'.cur event.env.cpu).resume = (k.cur event.env.cpu).resume := by
      rcases ends.process with same | ⟨away, -⟩
      · exact same
      · exact absurd rfl (away value)
    -- The call is over, so that its process enters user mode.
    have finish : Change event.env.cpu (victim k event) k'
        (k'.setResume (k'.current event.env.cpu) .toUser) := by
      refine .sched (.finish fun i wanted => ?_)
      rw [resume] at wanted
      exact taken ⟨value, rfl⟩ i wanted
    have changes := ends.changes.tail finish
    refine ⟨changes, ends.slock, Changes.awake steps.rests.ok small ends.awake (.single finish),
      changes.ok ok small, small, .inl ?_, changes.idleCalm ok small calm⟩
    exact (Kernel.setPcb_field Pcb.status k' _ _ rfl _).trans (status.trans runs)
  | blocked => exact steps
  | exited => exact steps
  | scheduled => exact steps

/--
Every event that may happen in a state at rest leads to a state at rest.

It stops only at a spin lock that an earlier event has kept, or at a semaphore that was overrun.
-/
theorem step_steps {event : Event} (resting : Resting k) (enabled : Enabled k event) :
    Meets (event.entry.Stops (slockAfter k (breaks k event))) (step event) k
      fun _ k' => Steps k event k' := by
  obtain ⟨ok, caught, calm⟩ := enabled.acts resting
  have ⟨small, entered⟩ := enabled
  have others : event.entry ≠ .resume → Meets (event.entry.Stops (slockAfter k (breaks k event)))
      (interruptHelper event.env event.entry) k fun _ k' => Steps k event k' := by
    intro different
    cases place : event.entry with
    | resume => exact absurd place different
    | _ =>
      rw [place] at entered
      rw [← place]
      exact interruptHelper_steps ok small caught calm (entered.1 _ small)
        (by rw [place]; exact entered.2) different
  unfold step
  rw [meets_get_bind, if_pos enabled]
  cases place : event.entry with
  | resume =>
    rw [place] at entered
    obtain ⟨runs, high⟩ := inCall_runs resting small entered
    have goes := resume_steps ok small runs high calm entered place
    rw [place] at goes
    exact goes
  | _ =>
    have goes := others (by rw [place]; simp)
    rw [place] at goes
    exact goes

/-- An event that may not happen does not. -/
theorem step_disabled {event : Event} (disabled : ¬ Enabled k event) :
    step event k = .error .notEnabled := by
  unfold step
  simp only [Bind.bind, StateT.bind, get, getThe, MonadStateOf.get, StateT.get, Except.bind,
    pure, Except.pure, if_neg disabled]
  rfl

/-- What an event that has happened has done. -/
theorem steps_of_ran {event : Event} {out : Out} (resting : Resting k)
    (ran : step event k = .ok (out, k')) : Steps k event k' := by
  by_cases enabled : Enabled k event
  · exact (step_steps resting enabled).of_ok ran
  · rw [step_disabled enabled] at ran
    simp at ran

end

end GlucOS.Sched
