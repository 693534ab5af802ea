import GlucOS.Locking.MboxCallLaws

/-! How the calls on processes, threads and the network card end. -/

namespace GlucOS.Sched

open Routine

section

variable {env : Env} {cpu : Nat} {victim : Option Nat} {k k' : Kernel}

/-- A call that does nothing but return. -/
theorem Caller.nothing (caller : Caller cpu k) (out : Out) : Ends cpu none none k out k :=
  (Keeps.refl cpu none k).ends caller.ok.toSchedOk caller.small out

/-- Blocking on no synchronization object. -/
theorem plainBlock_ends (caller : Caller env.cpu k) {q : QueueRef} (plain : q.plain = true)
    (resume : Resume) (waited : ∀ x, q = .wait x → x ∈ k.pcbTable ∧ x ≠ k.current env.cpu) :
    Meets (Stops k.slock) (doBlock env q none resume >>= fun _ => pure Out.blocked) k
      (Ends env.cpu none none k) := by
  obtain ⟨ok, small, runs, user, locking⟩ := caller
  refine Meets.bind (meets_doBlock ok.toSchedOk small user (by simp [runs]) q resume) ?_
  rintro _ _ ⟨p, can, rfl⟩
  exact ⟨.single (.sched (.block resume plain can waited rfl locking)), rfl,
    .inr ⟨by simp, can.runs ok.toSchedOk small q resume⟩, .none _⟩

/-- The current process gets ready to sleep or to ask for bytes. -/
theorem Caller.request (caller : Caller cpu k) (wakeupTime reqLen : Nat) :
    Caller cpu (k.setPcb (k.current cpu) fun pcb => { pcb with wakeupTime, reqLen }) := by
  obtain ⟨ok, small, runs, user, locking⟩ := caller
  have change : Change cpu none k
      (k.setPcb (k.current cpu) fun pcb => { pcb with wakeupTime, reqLen }) :=
    .sched (.request wakeupTime reqLen)
  have status := Kernel.setPcb_field Pcb.status k (k.current cpu)
    (fun pcb => { pcb with wakeupTime, reqLen }) rfl (k.current cpu)
  have resume := Kernel.setPcb_field Pcb.resume k (k.current cpu)
    (fun pcb => { pcb with wakeupTime, reqLen }) rfl (k.current cpu)
  exact ⟨change.ok ok small, small, status.trans runs, user, fun i => resume.trans_ne (locking i)⟩

/-- After its request is stored, the current process blocks. -/
theorem requestBlock_ends (caller : Caller env.cpu k) {q : QueueRef} (plain : q.plain = true)
    (resume : Resume) (free : ∀ x, q ≠ .wait x) (wakeupTime reqLen : Nat) :
    Meets (Stops k.slock) (doBlock env q none resume >>= fun _ => pure Out.blocked)
      (k.setPcb (k.current env.cpu) fun pcb => { pcb with wakeupTime, reqLen })
      (Ends env.cpu none none k) := by
  refine (plainBlock_ends (caller.request wakeupTime reqLen) plain resume
    fun x same => absurd same (free x)).mono ?_
  rintro out k' ends
  have change : Change env.cpu none k
      (k.setPcb (k.current env.cpu) fun pcb => { pcb with wakeupTime, reqLen }) :=
    .sched (.request wakeupTime reqLen)
  have status := Kernel.setPcb_field Pcb.status k (k.current env.cpu)
    (fun pcb => { pcb with wakeupTime, reqLen }) rfl (k.current env.cpu)
  have place := Kernel.setPcb_field Pcb.resume k (k.current env.cpu)
    (fun pcb => { pcb with wakeupTime, reqLen }) rfl (k.current env.cpu)
  refine ⟨.head change ends.changes, ends.slock, ends.process.imp_left ?_, ends.awake⟩
  rintro ⟨current, status', place'⟩
  exact ⟨current, status'.trans status, place'.trans place⟩

/-- Only the processes that go on matter for whom the current one blocks in favour of. -/
theorem doBlock_congr {k k₂ : Kernel} {q : QueueRef} {resume : Resume}
    (queue : k₂.queue = k.queue) (current : k₂.current = k.current)
    (runnable : ∀ x ∈ ringAfter (k.queue .ready) (k.current env.cpu),
      k₂.runnable env.cpu x = k.runnable env.cpu x)
    (blocks : ∀ p ∈ ringAfter (k.queue .ready) (k.current env.cpu),
      k₂.blockOn env.cpu q resume p = k.blockOn env.cpu q resume p) :
    doBlock env q none resume k₂ = doBlock env q none resume k := by
  have search : (ringAfter (k.queue .ready) (k.current env.cpu)).find? (k₂.runnable env.cpu) =
      (ringAfter (k.queue .ready) (k.current env.cpu)).find? (k.runnable env.cpu) :=
    List.find?_congr runnable
  unfold doBlock
  simp only [Bind.bind, StateT.bind, get, getThe, MonadStateOf.get, StateT.get, Except.bind, pure,
    Except.pure, queue, current, search]
  cases found : (ringAfter (k.queue .ready) (k.current env.cpu)).find? (k.runnable env.cpu) with
  | none => rfl
  | some p =>
    simp only
    split
    · rfl
    · rw [blocks p (List.mem_of_find?_eq_some found)]
      rfl

/-- `do_sleep` writes the status before it blocks, and blocking writes it again. -/
theorem doSleep_ends (caller : Caller env.cpu k) (sleepTime : Nat) :
    Meets (Stops k.slock) (doSleep env sleepTime >>= fun _ => pure Out.blocked) k
      (Ends env.cpu none none k) := by
  have ok := caller.ok.toSchedOk
  have awaited := requestBlock_ends caller (q := .sleep) rfl .toUser (by simp)
    (min (env.now + sleepTime) k.timeMaxSec) (k.cur env.cpu).reqLen
  unfold doSleep
  rw [meets_assoc, meets_get_bind, meets_assoc, meets_set_bind]
  -- The process that goes to sleep is not on the way around the ready queue.
  have around : ∀ x ∈ ringAfter (k.queue .ready) (k.current env.cpu), x ≠ k.current env.cpu :=
    fun x inside => ((mem_ringAfter (ok.queueNodup .ready)
      (ok.currentReady env.cpu caller.small)).mp inside).2
  have same : ∀ k₂ : Kernel, doBlock env .sleep none .toUser k₂ = doBlock env .sleep none .toUser
      (k.setPcb (k.current env.cpu) fun pcb =>
        { pcb with
          wakeupTime := min (env.now + sleepTime) k.timeMaxSec
          reqLen := (k.cur env.cpu).reqLen }) →
      Meets (Stops k.slock) (doBlock env .sleep none .toUser >>= fun _ => pure Out.blocked) k₂
        (Ends env.cpu none none k) := by
    intro k₂ same
    unfold Meets at awaited ⊢
    have unfolded : ∀ k₃ : Kernel, (doBlock env .sleep none .toUser >>= fun _ => pure Out.blocked) k₃ =
        (doBlock env .sleep none .toUser k₃).bind fun answer => .ok (Out.blocked, answer.2) :=
      fun _ => rfl
    rw [unfolded] at awaited ⊢
    rw [same]
    exact awaited
  refine same _ (doBlock_congr rfl rfl ?_ ?_)
  · intro x inside
    unfold Kernel.runnable
    rw [Kernel.setPcb_other k _ (around x inside), Kernel.setPcb_other k _ (around x inside)]
  · intro p inside
    have differ : p ≠ k.current env.cpu := around p inside
    unfold Kernel.blockOn Kernel.setStatus Kernel.setPcb
    simp [differ, differ.symm, Function.update_comm differ, Kernel.cur]

/-- `do_net_send`. -/
theorem doNetSend_ends (caller : Caller env.cpu k) :
    Meets (Stops k.slock) (doNetSend env) k (Ends env.cpu none none k) := by
  unfold doNetSend
  refine meets_ite (fun _ => ?_) (fun _ => caller.nothing _)
  exact plainBlock_ends caller rfl _ (by simp)

/-- `do_net_recv`. -/
theorem doNetRecv_ends (caller : Caller env.cpu k) (left : Nat) :
    Meets (Stops k.slock) (doNetRecv env left) k (Ends env.cpu none none k) := by
  unfold doNetRecv
  refine meets_ite (fun _ => ?_) (fun _ => caller.nothing _)
  rw [meets_modify_bind]
  exact requestBlock_ends caller (q := .nicRecv) rfl _ (by simp) (k.cur env.cpu).wakeupTime
    (left - env.nic)

/-- `do_waitpid`. -/
theorem doWaitpid_ends (caller : Caller env.cpu k) (pid : Int) :
    Meets (Stops k.slock) (doWaitpid env pid) k (Ends env.cpu none none k) := by
  unfold doWaitpid
  rw [meets_get_bind]
  refine meets_ite (fun _ => caller.nothing _) (fun _ => ?_)
  cases found : k.pcbSearch pid.toNat with
  | none => exact caller.nothing _
  | some p =>
    have samePid := List.find?_some found
    refine meets_ite (fun _ => caller.nothing _) (fun other => ?_)
    refine meets_ite (fun _ => caller.nothing _) (fun _ => ?_)
    refine plainBlock_ends caller rfl _ ?_
    rintro x same
    obtain rfl : p = x := by simpa using same
    refine ⟨List.mem_of_find?_eq_some found, ?_⟩
    rintro rfl
    exact other (of_decide_eq_true samePid).symm

/-- `do_thread_wait`. -/
theorem doThreadWait_ends (caller : Caller env.cpu k) (tid : Nat) :
    Meets (Stops k.slock) (doThreadWait env tid) k (Ends env.cpu none none k) := by
  unfold doThreadWait
  rw [meets_get_bind]
  refine meets_ite (fun _ => caller.nothing _) (fun other => ?_)
  cases found : k.pcbSearchTcb (k.cur env.cpu).pid tid with
  | none => exact caller.nothing _
  | some p =>
    have same := List.find?_some found
    simp only [decide_eq_true_eq] at same
    refine plainBlock_ends caller rfl _ ?_
    rintro x same'
    obtain rfl : p = x := by simpa using same'
    refine ⟨List.mem_of_find?_eq_some found, ?_⟩
    rintro rfl
    exact other (.inr same.2.symm)

/-- A new thread or process, while the current one goes on. -/
theorem addPcb_ends (caller : Caller env.cpu k) {pid tid : Nat} (cpuMask : Nat)
    (room : k.pcbTable.length < uprocMax + ncpu) (user : ncpu ≤ pid)
    (fresh : ∀ h ∈ k.pcbTable, (k.pcb h).pid = pid → (k.pcb h).tid ≠ tid)
    (stays : ∀ h ∈ k.pcbTable, (k.pcb h).pid = pid → (k.pcb h).status ≠ .exited) (out : Out) :
    Ends env.cpu none none k out (k.addPcb pid tid cpuMask) := by
  have old := caller.ok.tableOld _ (caller.ok.toSchedOk.currentLive caller.small)
  have same := k.addPcb_other pid tid cpuMask (Nat.ne_of_lt old)
  exact ⟨.single (.sched (.create cpuMask room user fresh stays)), rfl,
    .inl ⟨rfl, congrArg Pcb.status same, congrArg Pcb.resume same⟩, .none _⟩

/-- `do_thread_create`. -/
theorem doThreadCreate_ends (caller : Caller env.cpu k) (valid : Bool) :
    Meets (Stops k.slock) (doThreadCreate env valid) k (Ends env.cpu none none k) := by
  have ok := caller.ok
  unfold doThreadCreate
  rw [meets_get_bind]
  cases found : k.allocTid (k.cur env.cpu).pid with
  | none => exact caller.nothing _
  | some tid =>
    refine meets_ite (fun _ => caller.nothing _) (fun made => ?_)
    rw [not_or] at made
    have unused := List.find?_some found
    have live := ok.toSchedOk.currentLive caller.small
    refine addPcb_ends caller allCpus (Nat.not_le.mp made.1) ?_ ?_ ?_ _
    · exact ok.userPid _ live caller.user
    · intro h inside same tid'
      have absent : k.pcbSearchTcb (k.cur env.cpu).pid tid = none := by simpa using unused
      have := List.find?_eq_none.mp absent h inside
      simp [same, tid'] at this
    · intro h inside same exited
      -- Otherwise the caller itself would have been killed already.
      have differ : k.current env.cpu ≠ h := by
        intro mine
        have running := caller.runs
        unfold Kernel.cur at running
        rw [mine, exited] at running
        simp at running
      have killed := ok.exitedAlone h inside exited _ live same.symm differ
      have running := caller.runs
      unfold Kernel.cur at running
      rw [killed] at running
      simp at running

/-- `do_fork`. -/
theorem doFork_ends (caller : Caller env.cpu k) :
    Meets (Stops k.slock) (doFork env) k (Ends env.cpu none none k) := by
  unfold doFork
  rw [meets_get_bind]
  refine meets_ite (fun _ => caller.nothing _) (fun _ => ?_)
  refine meets_ite (fun _ => caller.nothing _) (fun full => ?_)
  cases found : k.allocPid with
  | none => exact caller.nothing _
  | some pid =>
    obtain ⟨user, unused⟩ := allocPid_unused found
    refine meets_ite (fun _ => ?_) (fun _ => caller.nothing _)
    exact addPcb_ends caller _ (Nat.not_le.mp full) user
      (fun h inside same => absurd same (unused h inside))
      (fun h inside same => absurd same (unused h inside)) _

/-- `do_taskset`. -/
theorem doTaskset_ends (caller : Caller env.cpu k) (pid : Int) (cpuMask : Nat) :
    Meets (Stops k.slock) (doTaskset pid cpuMask) k (Ends env.cpu none none k) := by
  unfold doTaskset
  rw [meets_get_bind]
  refine meets_ite (fun _ => caller.nothing _) (fun there => ?_)
  rw [not_or] at there
  have user : ncpu ≤ pid.toNat := by omega
  refine ⟨.single (.sched (.mask cpuMask user)), rfl, .inl ⟨rfl, ?_, ?_⟩, .none _⟩
  · exact k.setMask_field _ _ Pcb.status (fun _ _ => rfl) _
  · exact k.setMask_field _ _ Pcb.resume (fun _ _ => rfl) _

/-- `do_exec` ends the caller when its arguments lie at illegal addresses. -/
theorem doExec_ends (caller : Caller env.cpu k) (argc : Int) (argvLegal : Bool) :
    Meets (Stops k.slock) (doExec env argc argvLegal) k (Ends env.cpu
      (if argc ≤ argcMax ∧ argvLegal = false ∧ canCreate env k = true then
        some (k.cur env.cpu).pid else none) none k) := by
  obtain ⟨ok, small, runs, user, locking⟩ := caller
  unfold doExec
  rw [meets_get_bind]
  refine meets_ite (fun many => ?_) (fun few => ?_)
  · rw [if_neg (by omega)]
    exact (Keeps.refl env.cpu none k).ends ok.toSchedOk small _
  refine Meets.bind (meets_createProc _) ?_
  rintro _ k₁ (⟨rfl, rfl, fails⟩ | ⟨pid, rfl, created, can⟩)
  · rw [if_neg (by simp [fails])]
    exact (Keeps.refl env.cpu none k₁).ends ok.toSchedOk small _
  have old := ok.tableOld _ (ok.toSchedOk.currentLive small)
  have current : k₁.current = k.current := by rw [created.added]; rfl
  have slock : k₁.slock = k.slock := by rw [created.added]; rfl
  have cur : k₁.cur env.cpu = k.cur env.cpu := by
    unfold Kernel.cur
    rw [current, created.added]
    exact k.addPcb_other pid 0 _ (Nat.ne_of_lt old)
  cases argvLegal with
  | true =>
    rw [if_neg (by simp)]
    exact ⟨.single created.change, slock, .inl ⟨current, by rw [cur], by rw [cur]⟩, .none _⟩
  | false =>
    rw [if_pos ⟨by omega, rfl, can⟩]
    have change : Change env.cpu (some (k.cur env.cpu).pid) k k₁ := created.change
    rw [← slock, ← cur]
    refine (doExit_ends (change.ok ok small) small (by rw [current]; exact user)
      (.inl (by rw [cur]; exact runs)) (by rw [cur]; exact locking)).mono ?_
    intro out k' ends
    refine ⟨.head (by rw [cur]; exact change) ends.changes, ends.slock.trans slock, ?_, ends.awake⟩
    rw [← current, ← cur]
    exact ends.process

end

end GlucOS.Sched
