import GlucOS.Sched.Still
import GlucOS.Sched.StepLaws

/-! What one event may do to the threads that end, and to those that wait for an end. -/

namespace GlucOS.Sched

open Routine

/-! ## For whose end a call waits -/

/-- The thread for whose end a call waits, when the call is accepted. -/
def Call.target (env : Env) (k : Kernel) : Call → Option PcbRef
  | .waitpid pid =>
    if pid < 0 ∨ pid.toNat = (k.cur env.cpu).pid ∨
        ∃ h ∈ k.queue (.wait (k.current env.cpu)), (k.pcb h).pid = pid.toNat then none
    else k.pcbSearch pid.toNat
  | .threadWait tid =>
    if tid = 0 ∨ tid = (k.cur env.cpu).tid then none
    else k.pcbSearchTcb (k.cur env.cpu).pid tid
  | _ => none

/-- The same for an event: a process that was killed makes no call. -/
def target (k : Kernel) (event : Event) : Option PcbRef :=
  match event.entry with
  | .syscall call =>
    if (k.cur event.env.cpu).status = .exiting then none else call.target event.env k
  | _ => none

/-- Before a process is killed, only objects may have changed, and a process been added. -/
structure Calm (k k' : Kernel) : Prop where
  /-- Nobody ended. -/
  still : Still k k'
  /-- No PCB changed. -/
  pcb : ∀ h < k.newPcb, k'.pcb h = k.pcb h
  /-- No processor switched. -/
  current : k'.current = k.current
  /-- A new process has an identifier of its own. -/
  apart : ∀ h ∈ k'.pcbTable, k.newPcb ≤ h → ∀ x ∈ k.pcbTable, (k'.pcb h).pid ≠ (k.pcb x).pid

/-- A process that may kill another one, or itself. -/
structure Killer (cpu : Nat) (k : Kernel) : Prop where
  /-- The invariant holds. -/
  ok : KernelOk cpu k
  /-- There is such a processor. -/
  small : cpu < ncpu
  /-- It runs, and may have been killed itself. -/
  caught : (k.cur cpu).Caught
  /-- It is no idle process. -/
  user : ncpu ≤ k.current cpu
  /-- It waits for no mutex lock. -/
  locking : ∀ i, (k.cur cpu).resume ≠ .mutexAcquire i

/-- What may have become of the threads when a call is over that does not go around the queue. -/
inductive Quits (env : Env) (victim : Option Nat) (k : Kernel) : Kernel → Prop
  /-- Nobody has ended, and nobody waits for another end than before. -/
  | still {k' : Kernel} (still : Still k k') : Quits env victim k k'
  /-- A process is killed. -/
  | kills {k₁ k₂ k' : Kernel} {pid : Int} {out : Out} (calm : Calm k k₁)
      (killer : Killer env.cpu k₁) (named : victim = some pid.toNat)
      (ran : doKill env pid k₁ = .ok (out, k₂)) (still : Still k₂ k') : Quits env victim k k'

/-- What may have become of the threads when an event is over. -/
inductive Course (env : Env) (victim : Option Nat) (target : Option PcbRef) (k : Kernel) :
    Kernel → Prop
  /-- Nobody has ended, or a process is killed. -/
  | quits {k' : Kernel} (quits : Quits env victim k k') : Course env victim target k k'
  /-- The current process waits for the end of a thread. -/
  | hangs {x p : PcbRef} (aims : target = some x) :
      Course env victim target k (k.blockOn env.cpu (.wait x) .toUser p)
  /-- A child thread leaves. -/
  | leaves {k' : Kernel} {out : Out} (caller : Caller env.cpu k)
      (ran : leave env .zombie k = .ok (out, k')) : Course env victim target k k'
  /-- The scheduler runs. -/
  | schedules {k' : Kernel} {switched : Bool} (ok : KernelOk env.cpu k) (small : env.cpu < ncpu)
      (runs : (k.cur env.cpu).status = .running) (ran : doScheduler env k = .ok (switched, k')) :
      Course env victim target k k'

/-- A process that makes a call may kill. -/
theorem Caller.killer {cpu : Nat} {k : Kernel} (caller : Caller cpu k) : Killer cpu k :=
  ⟨caller.ok, caller.small, .inl caller.runs, caller.user, caller.locking⟩

/-- The current process has an old address. -/
theorem Killer.old {cpu : Nat} {k : Kernel} (killer : Killer cpu k) : k.current cpu < k.newPcb :=
  killer.ok.tableOld _ (killer.ok.toSchedOk.currentLive killer.small)

/-- What a routine has left is what it leaves. -/
theorem meets_ran {A : Type} (routine : KernelRoutine A) (k : Kernel) :
    Meets anyStop routine k fun value k' => routine k = .ok (value, k') := by
  unfold Meets
  cases ran : routine k with
  | ok answer => rfl
  | error reason => trivial

namespace Calm

variable {k k₁ k' : Kernel}

/-- Only spin locks and synchronization objects change. -/
theorem objects (k : Kernel) (slock : SpinLock → Bool) (mlocks : Nat → MutexLock)
    (semaphores : Nat → Semaphore) (barriers : Nat → Barrier) (mailboxes : Nat → Mailbox)
    (old : ∀ h ∈ k.pcbTable, h < k.newPcb) :
    Calm k { k with slock, mlocks, semaphores, barriers, mailboxes } where
  still := .objects k _ _ _ _ _
  pcb := fun _ _ => rfl
  current := rfl
  apart := fun h live new => absurd (old h live) (Nat.not_lt.mpr new)

/-- Nothing changes. -/
theorem refl (old : ∀ h ∈ k.pcbTable, h < k.newPcb) : Calm k k := objects k _ _ _ _ _ old

/-- A process is created. -/
theorem created {pid cpuMask : Nat} (old : ∀ h ∈ k.pcbTable, h < k.newPcb)
    (created : Created k pid cpuMask k') : Calm k k' := by
  obtain ⟨-, -, unused, rfl⟩ := created
  have others : ∀ h < k.newPcb, (k.addPcb pid 0 cpuMask).pcb h = k.pcb h := fun h older =>
    k.addPcb_other pid 0 cpuMask (Nat.ne_of_lt older)
  refine ⟨.addPcb k _ _ _, others, rfl, ?_⟩
  intro h live new x inside
  have same : h = k.newPcb := by
    cases List.mem_append.mp live with
    | inl older => exact absurd (old h older) (Nat.not_lt.mpr new)
    | inr here => exact List.mem_singleton.mp here
  rw [same]
  show (Function.update k.pcb k.newPcb _ k.newPcb).pid ≠ _
  rw [Function.update_self]
  exact (unused x inside).symm

end Calm

section

variable {env : Env} {k k₁ : Kernel} {victim : Option Nat} {target : Option PcbRef}

/-- A routine in which nobody ends. -/
theorem Quits.of_still {A : Type} {routine : KernelRoutine A}
    (meets : Meets anyStop routine k₁ fun _ => Still k) :
    Meets anyStop routine k₁ fun _ => Quits env victim k :=
  meets.mono fun _ _ => .still

/-- A routine in which nobody ends, as an event. -/
theorem of_still {A : Type} {routine : KernelRoutine A}
    (meets : Meets anyStop routine k₁ fun _ => Still k) :
    Meets anyStop routine k₁ fun _ => Course env victim target k :=
  meets.mono fun _ _ same => .quits (.still same)

/-- More may happen after the end of a process, as long as nobody else ends. -/
theorem Quits.later {k' : Kernel} (quits : Quits env victim k k₁) (more : Still k₁ k') :
    Quits env victim k k' := by
  cases quits with
  | still same => exact .still (same.trans more)
  | kills calm killer named ran same => exact .kills calm killer named ran (same.trans more)

/-- After a calm part of its call a process may still kill. -/
theorem Killer.calm (killer : Killer env.cpu k) (calm : Calm k k₁) (ok : KernelOk env.cpu k₁) :
    k₁.cur env.cpu = k.cur env.cpu ∧ Killer env.cpu k₁ := by
  have cur : k₁.cur env.cpu = k.cur env.cpu := by
    unfold Kernel.cur
    rw [calm.current]
    exact calm.pcb _ killer.old
  refine ⟨cur, ok, killer.small, ?_, ?_, ?_⟩
  · rw [cur]; exact killer.caught
  · rw [calm.current]; exact killer.user
  · rw [cur]; exact killer.locking

/-- `do_exit`, after a part of the call. -/
theorem doExit_quits (killer : Killer env.cpu k) (calm : Calm k k₁) (ok : KernelOk env.cpu k₁) :
    Meets anyStop (doExit env) k₁ fun _ =>
      Quits env (some (k.cur env.cpu).pid) k := by
  obtain ⟨cur, killer₁⟩ := killer.calm calm ok
  unfold doExit
  rw [meets_get_bind]
  refine (meets_ran _ k₁).mono fun _ k₂ ran => ?_
  exact .kills calm killer₁ (by simp [cur]) ran (.refl k₂)

/-- `do_thread_exit`. -/
theorem doThreadExit_course (caller : Caller env.cpu k) :
    Meets anyStop (doThreadExit env) k fun _ =>
      Course env (if (k.cur env.cpu).tid = 0 then some (k.cur env.cpu).pid else none) target k := by
  unfold doThreadExit
  rw [meets_get_bind]
  refine meets_ite (fun main => ?_) (fun child => ?_)
  · rw [if_pos main]
    exact (doExit_quits caller.killer (.refl caller.ok.tableOld) caller.ok).mono fun _ _ => .quits
  · exact (meets_ran _ k).mono fun _ k' ran => .leaves caller ran

/-- `do_scheduler` as a call. -/
theorem doYield_course (ok : KernelOk env.cpu k) (small : env.cpu < ncpu)
    (runs : (k.cur env.cpu).status = .running) :
    Meets anyStop (doYield env) k fun _ => Course env victim target k := by
  rw [doYield_eq]
  refine Meets.bind (meets_ran _ k) fun switched k' ran => ?_
  exact Course.schedules ok small runs ran

/-- `do_exec`, which ends its caller when its arguments lie at illegal addresses. -/
theorem doExec_quits (killer : Killer env.cpu k) (argc : Int) (argvLegal : Bool) :
    Meets anyStop (doExec env argc argvLegal) k fun _ => Quits env
      (if argc ≤ argcMax ∧ argvLegal = false ∧ canCreate env k = true then
        some (k.cur env.cpu).pid else none) k := by
  unfold doExec
  rw [meets_get_bind]
  refine meets_ite (fun _ => .still (.refl k)) (fun few => ?_)
  refine Meets.bind (meets_createProc _) fun made k₁ outcome => ?_
  cases outcome with
  | inl fails =>
    obtain ⟨rfl, rfl, -⟩ := fails
    exact .still (.refl k₁)
  | inr works =>
    obtain ⟨pid, rfl, created, can⟩ := works
    have calm := Calm.created killer.ok.tableOld created
    have change : Change env.cpu none k k₁ := created.change
    cases argvLegal with
    | true => exact .still calm.still
    | false =>
      rw [if_pos ⟨Int.not_lt.mp few, rfl, can⟩]
      exact doExit_quits killer calm (change.ok killer.ok killer.small)

/-- Waiting for the end of a thread that was found. -/
theorem hang_course {x : PcbRef} (aims : target = some x) :
    Meets anyStop (do
      doBlock env (.wait x) none .toUser
      return Out.blocked) k fun _ => Course env victim target k := by
  have blocks : Meets anyStop (doBlock env (.wait x) none .toUser) k fun _ =>
      Course env victim target k := by
    unfold doBlock
    rw [meets_get_bind]
    split
    · trivial
    · refine meets_ite (fun _ => trivial) (fun _ => ?_)
      rw [meets_set_bind]
      exact .hangs aims
  exact Meets.bind blocks fun _ _ course => course

/-- `do_waitpid`. -/
theorem doWaitpid_course (pid : Int) :
    Meets anyStop (doWaitpid env pid) k fun _ =>
      Course env victim ((Call.waitpid pid).target env k) k := by
  unfold doWaitpid
  rw [meets_get_bind]
  refine meets_ite (fun _ => .quits (.still (.refl k))) (fun sound => ?_)
  cases found : k.pcbSearch pid.toNat with
  | none => exact Course.quits (.still (.refl k))
  | some p =>
    refine meets_ite (fun _ => .quits (.still (.refl k))) (fun other => ?_)
    refine meets_ite (fun _ => .quits (.still (.refl k))) (fun apart => ?_)
    -- All three checks have passed.
    have aims : (Call.waitpid pid).target env k = some p := by
      refine Eq.trans (if_neg ?_) found
      rw [not_or, not_or]
      exact ⟨sound, other, apart⟩
    exact hang_course aims

/-- `do_thread_wait`. -/
theorem doThreadWait_course (tid : Nat) :
    Meets anyStop (doThreadWait env tid) k fun _ =>
      Course env victim ((Call.threadWait tid).target env k) k := by
  unfold doThreadWait
  rw [meets_get_bind]
  refine meets_ite (fun _ => .quits (.still (.refl k))) (fun other => ?_)
  cases found : k.pcbSearchTcb (k.cur env.cpu).pid tid with
  | none => exact Course.quits (.still (.refl k))
  | some p =>
    have aims : (Call.threadWait tid).target env k = some p := (if_neg other).trans found
    exact hang_course aims

/-! ## Calls on mailboxes -/

/-- A call on a mailbox after its checks, which may break. -/
theorem mboxAgain_quits (i : Nat) {again : KernelRoutine Out}
    {breaks : Bool}
    (goes : (k.mailboxes i).opid ≠ none → Meets anyStop again (k.hold (.mailbox i)) fun _ =>
      Quits env (breakVictim env k breaks) k) :
    Meets anyStop (mboxAgain i again) k fun _ =>
      Quits env (breakVictim env k breaks) k := by
  have held : Still k (k.hold (.mailbox i)) := .objects k _ _ _ _ _
  unfold mboxAgain
  refine meets_spinLockAcquire (fun _ => trivial) fun free => ?_
  rw [meets_get_bind]
  refine meets_ite (fun _ => ?_) (fun valid => goes valid)
  exact Quits.of_still (held.after (release_still _ _ _))

/-- A copy loop that stops in the middle of a message leaves the invariant alone. -/
theorem KernelOk.copied (ok : KernelOk env.cpu k) (small : env.cpu < ncpu) {i : Nat}
    {mbox : Mailbox} (ring : mbox.RingOk) (opid : mbox.opid = (k.mailboxes i).opid) :
    KernelOk env.cpu ((k.hold (.mailbox i)).setMailbox i mbox) := by
  have held : Change env.cpu none k (k.hold (.mailbox i)) := .spin _
  have left : Deeds env.cpu none (some i) k ((k.hold (.mailbox i)).setMailbox i mbox) :=
    ⟨_, mbox, .single held, ring.1, ring.2, opid, .refl⟩
  exact left.ok ok small

/-- The loop of `do_mbox_send`, entered with the spin lock held and the mailbox open. -/
theorem mboxSendLoop_quits (killer : Killer env.cpu k) {i : Nat}
    (valid : (k.mailboxes i).opid ≠ none) (msg msgLength blockYmr : Nat) :
    Meets anyStop (mboxSendLoop env i msg msgLength blockYmr) (k.hold (.mailbox i)) fun _ =>
      Quits env (breakVictim env k (sendBreaks env k i msg msgLength)) k := by
  have ok := killer.ok
  have held : Still k (k.hold (.mailbox i)) := .objects k _ _ _ _ _
  have ring : (k.mailboxes i).RingOk := ⟨ok.bufHead i, ok.bufTail i⟩
  have opened : (k.mailboxes i).opid.isSome = true := Option.isSome_iff_ne_none.mpr valid
  unfold mboxSendLoop
  rw [meets_get_bind]
  refine meets_ite (fun _ => ?_) (fun fits => ?_)
  · rw [meets_set_bind]
    have asked := held.trans (Still.setPcb (k.hold (.mailbox i)) (k.current env.cpu)
      (fun pcb => { pcb with reqLen := msgLength }) rfl fun _ => rfl)
    exact Quits.of_still (asked.after (blocked_still (q := .mboxSend i) _ _ _ _ (by simp)))
  · have fits : msgLength ≤ maxMboxLength - (k.mailboxes i).lenOfQueue := Nat.not_lt.mp fits
    have bounded := Mailbox.lenOfQueue_le ring
    refine Meets.bind (meets_copyIn i _ (k.hold (.mailbox i)) ring ?_) fun legal k₁ copied => ?_
    · rw [addresses_length]
      show (k.mailboxes i).lenOfQueue + msgLength ≤ _
      omega
    obtain ⟨mbox, rfl, ring', opid, any, -⟩ := copied
    have breaks : sendBreaks env k i msg msgLength = !legal := by
      simp [sendBreaks, opened, fits, any]
    have calm : Calm k ((k.hold (.mailbox i)).setMailbox i mbox) := .objects k _ _ _ _ _ ok.tableOld
    rw [breaks]
    cases legal with
    | false =>
      -- The copy loop has met an illegal address.
      exact doExit_quits killer calm (ok.copied killer.small ring' opid)
    | true =>
      refine Quits.of_still (calm.still.after ?_)
      refine Still.bind (unblockWhile_still _ _ (by simp)) fun _ k => ?_
      exact releaseNote_still k _ _ _

/-- The loop of `do_mbox_recv`, entered with the spin lock held and the mailbox open. -/
theorem mboxRecvLoop_quits (killer : Killer env.cpu k) {i : Nat}
    (valid : (k.mailboxes i).opid ≠ none) (msg msgLength blockYmr : Nat) :
    Meets anyStop (mboxRecvLoop env i msg msgLength blockYmr) (k.hold (.mailbox i)) fun _ =>
      Quits env (breakVictim env k (recvBreaks env k i msg msgLength)) k := by
  have ok := killer.ok
  have held : Still k (k.hold (.mailbox i)) := .objects k _ _ _ _ _
  have ring : (k.mailboxes i).RingOk := ⟨ok.bufHead i, ok.bufTail i⟩
  have opened : (k.mailboxes i).opid.isSome = true := Option.isSome_iff_ne_none.mpr valid
  unfold mboxRecvLoop
  rw [meets_get_bind]
  refine meets_ite (fun _ => ?_) (fun fits => ?_)
  · rw [meets_set_bind]
    have asked := held.trans (Still.setPcb (k.hold (.mailbox i)) (k.current env.cpu)
      (fun pcb => { pcb with reqLen := msgLength }) rfl fun _ => rfl)
    exact Quits.of_still (asked.after (blocked_still (q := .mboxRecv i) _ _ _ _ (by simp)))
  · have fits : msgLength ≤ (k.mailboxes i).lenOfQueue := Nat.not_lt.mp fits
    refine Meets.bind (meets_copyOut i _ (k.hold (.mailbox i)) ring ?_) fun legal k₁ copied => ?_
    · rw [addresses_length]
      exact fits
    obtain ⟨mbox, rfl, ring', opid, any, -⟩ := copied
    have breaks : recvBreaks env k i msg msgLength = !legal := by
      simp [recvBreaks, opened, fits, any]
    have calm : Calm k ((k.hold (.mailbox i)).setMailbox i mbox) := .objects k _ _ _ _ _ ok.tableOld
    rw [breaks]
    cases legal with
    | false => exact doExit_quits killer calm (ok.copied killer.small ring' opid)
    | true =>
      refine Quits.of_still (calm.still.after ?_)
      refine Still.bind (unblockWhile_still _ _ (by simp)) fun _ k => ?_
      exact releaseNote_still k _ _ _

/-- `do_mbox_send`. -/
theorem doMboxSend_quits (killer : Killer env.cpu k) (midx : Int) (msg msgLength : Nat) :
    Meets anyStop (doMboxSend env midx msg msgLength) k fun _ =>
      Quits env ((Call.mboxSend midx msg msgLength).victim env k) k := by
  have victim : (Call.mboxSend midx msg msgLength).victim env k =
      if ((Call.mboxSend midx msg msgLength).breaks env k).isSome then some (k.cur env.cpu).pid
      else none := rfl
  unfold doMboxSend
  refine meets_ite (fun _ => .still (.refl k)) (fun right => ?_)
  have breaks : (Call.mboxSend midx msg msgLength).breaks env k =
      breakAt midx.toNat (sendBreaks env k midx.toNat msg msgLength) := if_neg right
  rw [victim, breaks, breakVictim_breakAt]
  exact mboxAgain_quits midx.toNat fun valid =>
    mboxSendLoop_quits killer valid msg msgLength 0

/-- `do_mbox_recv`. -/
theorem doMboxRecv_quits (killer : Killer env.cpu k) (midx : Int) (msg msgLength : Nat) :
    Meets anyStop (doMboxRecv env midx msg msgLength) k fun _ =>
      Quits env ((Call.mboxRecv midx msg msgLength).victim env k) k := by
  have victim : (Call.mboxRecv midx msg msgLength).victim env k =
      if ((Call.mboxRecv midx msg msgLength).breaks env k).isSome then some (k.cur env.cpu).pid
      else none := rfl
  unfold doMboxRecv
  refine meets_ite (fun _ => .still (.refl k)) (fun right => ?_)
  refine meets_ite (fun _ => .still (.refl k)) (fun low => ?_)
  have breaks : (Call.mboxRecv midx msg msgLength).breaks env k =
      breakAt midx.toNat (recvBreaks env k midx.toNat msg msgLength) :=
    (if_neg right).trans (if_neg low)
  rw [victim, breaks, breakVictim_breakAt]
  exact mboxAgain_quits midx.toNat fun valid =>
    mboxRecvLoop_quits killer valid msg msgLength 0

/-- `do_mbox_open`, which ends its caller when the name lies at an illegal address. -/
theorem doMboxOpen_quits (killer : Killer env.cpu k) (name : Nat) :
    Meets anyStop (doMboxOpen env name) k fun _ =>
      Quits env ((Call.mboxOpen name).victim env k) k := by
  have victim : (Call.mboxOpen name).victim env k =
      if (nameSum env name nameMax).isNone then some (k.cur env.cpu).pid else none := rfl
  rw [victim]
  unfold doMboxOpen
  cases nameSum env name nameMax with
  | none =>
    exact doExit_quits killer (.refl killer.ok.tableOld) killer.ok
  | some s => exact Quits.of_still (mboxOpen_still k s)

/-! ## Events -/

/-- Every system call. -/
theorem handleSyscall_course (caller : Caller env.cpu k) (call : Call) :
    Meets anyStop (handleSyscall env call) k fun _ =>
      Course env (call.victim env k) (call.target env k) k := by
  have killer := caller.killer
  have calm : Calm k k := .refl caller.ok.tableOld
  cases call with
  | yield => exact doYield_course caller.ok caller.small caller.runs
  | sleep sleepTime =>
    exact of_still (Still.bind (doSleep_still k sleepTime) fun _ k => .refl k)
  | exit => exact (doExit_quits killer calm caller.ok).mono fun _ _ => .quits
  | kill pid =>
    refine (meets_ran _ k).mono fun _ k' ran => ?_
    exact .quits (.kills calm killer rfl ran (.refl k'))
  | waitpid pid => exact doWaitpid_course pid
  | threadCreate valid => exact of_still (doThreadCreate_still k valid)
  | threadWait tid => exact doThreadWait_course tid
  | threadExit => exact doThreadExit_course caller
  | exec argc argvLegal => exact (doExec_quits killer argc argvLegal).mono fun _ _ => .quits
  | fork => exact of_still (doFork_still k)
  | taskset pid cpuMask => exact of_still (doTaskset_still k pid cpuMask)
  | mutexInit key => exact Course.quits (.still (.refl k))
  | mutexAcquire mlockIdx => exact of_still (doMutexLockAcquire_still k mlockIdx)
  | mutexRelease mlockIdx => exact of_still (doMutexLockRelease_still k mlockIdx)
  | semaphoreInit key value => exact of_still (doSemaphoreInit_still k key value)
  | semaphoreUp sidx => exact of_still (doSemaphoreUp_still k sidx)
  | semaphoreDown sidx => exact of_still (doSemaphoreDown_still k sidx)
  | semaphoreDestroy sidx => exact of_still (doSemaphoreDestroy_still k sidx)
  | barrierInit key goal => exact of_still (doBarrierInit_still k key goal)
  | barrierWait bidx => exact of_still (doBarrierWait_still k bidx)
  | barrierDestroy bidx => exact of_still (doBarrierDestroy_still k bidx)
  | mboxOpen name => exact (doMboxOpen_quits killer name).mono fun _ _ => .quits
  | mboxClose midx => exact of_still (doMboxClose_still k midx)
  | mboxSend midx msg msgLength =>
    exact (doMboxSend_quits killer midx msg msgLength).mono fun _ _ => .quits
  | mboxRecv midx msg msgLength =>
    exact (doMboxRecv_quits killer midx msg msgLength).mono fun _ _ => .quits
  | netSend => exact of_still (doNetSend_still k)
  | netRecv pktNum => exact of_still (doNetRecv_still k pktNum)

/-- A call that goes on. -/
theorem resumeCall_quits (resume : Resume)
    (killer : (∀ i, resume ≠ .mutexAcquire i) → Killer env.cpu k) :
    Meets anyStop (resumeCall env resume) k fun _ =>
      Quits env (if (resume.breaks env k).isSome then some (k.cur env.cpu).pid else none) k := by
  cases resume with
  | toUser => trivial
  | mutexAcquire i =>
    refine Quits.of_still (Still.bind (spinLockAcquire_still k _) fun _ k => ?_)
    exact mutexAcquireLoop_still k i
  | semaphoreDown i =>
    refine Quits.of_still (Still.bind (spinLockAcquire_still k _) fun _ k => ?_)
    exact semaphoreDownEnd_still k i
  | barrierWait i goal =>
    refine Quits.of_still (Still.bind (spinLockAcquire_still k _) fun _ k => ?_)
    exact release_still k _ _
  | mboxSend i msg msgLength blockYmr =>
    unfold Resume.breaks
    rw [breakVictim_breakAt]
    exact mboxAgain_quits i fun valid =>
      mboxSendLoop_quits (killer (by simp)) valid msg msgLength blockYmr
  | mboxRecv i msg msgLength blockYmr =>
    unfold Resume.breaks
    rw [breakVictim_breakAt]
    exact mboxAgain_quits i fun valid =>
      mboxRecvLoop_quits (killer (by simp)) valid msg msgLength blockYmr
  | netSend => exact Quits.of_still (doNetSend_still k)
  | netRecv left => exact Quits.of_still (doNetRecv_still k left)

/-- An event other than going on in the middle of a call. -/
theorem interruptHelper_course {event : Event} (ok : KernelOk event.env.cpu k)
    (small : event.env.cpu < ncpu) (caught : (k.cur event.env.cpu).Caught)
    (quiet : ¬ k.inCall event.env.cpu)
    (user : event.entry.byUser = true → ncpu ≤ (k.cur event.env.cpu).pid)
    (entered : event.entry ≠ .resume) :
    Meets anyStop (interruptHelper event.env event.entry) k fun _ =>
      Course event.env (Sched.victim k event) (Sched.target k event) k := by
  have locking : ∀ i, (k.cur event.env.cpu).resume ≠ .mutexAcquire i := by
    intro i wanted
    exact quiet (by simp [Kernel.inCall, wanted])
  have exits {t : Option PcbRef} (high : ncpu ≤ k.current event.env.cpu) :
      Meets anyStop (doExit event.env) k fun _ =>
        Course event.env (some (k.cur event.env.cpu).pid) t k := by
    have killer : Killer event.env.cpu k := ⟨ok, small, caught, high, locking⟩
    exact (doExit_quits killer (.refl ok.tableOld) ok).mono fun _ _ => .quits
  unfold interruptHelper
  rw [meets_get_bind]
  refine meets_ite (fun exiting => ?_) (fun alive => ?_)
  · -- A process that was killed while it ran ends, whatever it asked for.
    have own : Sched.victim k event = some (k.cur event.env.cpu).pid := by
      unfold Sched.victim
      cases place : event.entry with
      | resume => exact absurd place entered
      | _ => exact if_pos exiting
    rw [own]
    exact exits (exiting_user ok.toSchedOk exiting)
  · have runs : (k.cur event.env.cpu).status = .running := caught.resolve_right alive
    unfold Sched.victim Sched.target
    cases place : event.entry with
    | timer => exact doYield_course ok small runs
    | nic txqe rxdmt0 => exact of_still (handleIrqExt_still k txqe rxdmt0)
    | syscall call =>
      simp only [if_neg alive]
      have high := ok.toSchedOk.user_ge (user (by rw [place]; rfl))
      exact handleSyscall_course ⟨ok, small, runs, high, locking⟩ call
    | fault =>
      simp only [if_neg alive]
      exact exits (ok.toSchedOk.user_ge (user (by rw [place]; rfl)))
    | resume => exact absurd place entered

/-- Every event takes one of these courses. -/
theorem step_course {event : Event} {out : Out} {k' : Kernel} (resting : Resting k)
    (ran : step event k = .ok (out, k')) :
    Course event.env (Sched.victim k event) (Sched.target k event) k k' := by
  by_cases enabled : Enabled k event
  swap
  · rw [step_disabled enabled] at ran
    cases ran
  obtain ⟨ok, caught, -⟩ := enabled.acts resting
  have ⟨small, entered⟩ := enabled
  suffices meets : Meets anyStop (step event) k fun _ =>
      Course event.env (Sched.victim k event) (Sched.target k event) k by
    exact meets.of_ok ran
  unfold step
  rw [meets_get_bind, if_pos enabled]
  cases place : event.entry with
  | resume =>
    rw [place] at entered
    obtain ⟨runs, high⟩ := inCall_runs resting small entered
    unfold Sched.victim handleEntry
    rw [place, meets_get_bind]
    refine Meets.bind (resumeCall_quits _ fun locking => ?_) fun out k₁ quits => ?_
    · exact ⟨ok, small, .inl runs, high, locking⟩
    cases out with
    | returned value =>
      rw [meets_modify_bind]
      exact .quits (quits.later (.setPcb k₁ _ _ rfl fun _ => rfl))
    | _ => exact Course.quits quits
  | _ =>
    rw [place] at entered
    have helped := interruptHelper_course ok small caught (entered.1 _ small)
      (by rw [place]; exact entered.2) (by rw [place]; simp)
    rw [place] at helped
    exact helped

end

end GlucOS.Sched
