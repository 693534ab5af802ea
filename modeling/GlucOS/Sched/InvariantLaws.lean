import GlucOS.Sched.Invariant

/-! Moving PCBs between queues, switching, creating and freeing them keep the scheduler's invariant. -/

namespace GlucOS.Sched

namespace Kernel

/-- A PCB goes from one queue to another, where the new members are given as a list. -/
def move (k : Kernel) (h : PcbRef) (q q' : QueueRef) (list : List PcbRef) (change : Pcb → Pcb) :
    Kernel :=
  { k.setPcb h change with
    queue := Function.update (Function.update k.queue q ((k.queue q).erase h)) q' list }

/-- A move leaves the other PCBs alone. -/
theorem move_pcb_other (k : Kernel) {h x : PcbRef} (q q' : QueueRef) (list : List PcbRef)
    (change : Pcb → Pcb) (differ : x ≠ h) : (k.move h q q' list change).pcb x = k.pcb x := by
  simp [move, differ]

/-- A new status leaves the other fields alone. -/
theorem setStatus_field {A : Type} (field : Pcb → A)
    (keep : ∀ pcb status, field { pcb with status } = field pcb) (k : Kernel) (h : PcbRef)
    (status : TaskStatus) (h' : PcbRef) :
    field ((k.setStatus h status).pcb h') = field (k.pcb h') :=
  setPcb_field field k h (fun pcb => { pcb with status }) (keep _ _) h'

/-- A new mask leaves the other fields alone. -/
theorem setMask_field {A : Type} (k : Kernel) (pid cpuMask : Nat) (field : Pcb → A)
    (keep : ∀ pcb cpuMask, field { pcb with cpuMask } = field pcb) (h : PcbRef) :
    field ((k.setMask pid cpuMask).pcb h) = field (k.pcb h) := by
  show field (if h ∈ k.pcbSearchAll pid then { k.pcb h with cpuMask } else k.pcb h) = _
  split
  · exact keep _ _
  · rfl

/-- Waking moves a PCB to the ready queue. -/
theorem wake_eq (k : Kernel) (cpu : Nat) (q : QueueRef) (h : PcbRef) :
    k.wake cpu q h = k.move h q .ready (insertAfter (k.queue .ready) (k.current cpu) h)
      fun pcb => { pcb with status := .ready, phead := .ready } := rfl

/-- Waking leaves the other PCBs alone. -/
theorem wake_pcb_other {k : Kernel} (cpu : Nat) (q : QueueRef) {h x : PcbRef} (differ : x ≠ h) :
    (k.wake cpu q h).pcb x = k.pcb x := by simp [wake, differ]

/-- The process that is woken. -/
theorem wake_pcb_same (k : Kernel) (cpu : Nat) (q : QueueRef) (h : PcbRef) :
    (k.wake cpu q h).pcb h = { k.pcb h with status := .ready, phead := .ready } := by simp [wake]

/-- The ready queue after waking. -/
theorem wake_ready (k : Kernel) (cpu : Nat) (q : QueueRef) (h : PcbRef) :
    (k.wake cpu q h).queue .ready = insertAfter (k.queue .ready) (k.current cpu) h := by
  simp [wake]

/-- The queue that is woken from. -/
theorem wake_source (k : Kernel) (cpu : Nat) {q : QueueRef} (h : PcbRef) (blocked : q ≠ .ready) :
    (k.wake cpu q h).queue q = (k.queue q).erase h := by
  show Function.update (Function.update k.queue q _) .ready _ q = _
  rw [Function.update_of_ne blocked, Function.update_self]

/-- Every other queue. -/
theorem wake_other (k : Kernel) (cpu : Nat) {q any : QueueRef} (h : PcbRef)
    (blocked : any ≠ .ready) (differ : any ≠ q) :
    (k.wake cpu q h).queue any = k.queue any := by
  show Function.update (Function.update k.queue q _) .ready _ any = _
  rw [Function.update_of_ne blocked, Function.update_of_ne differ]

/-- Blocking switches first, and then moves the process that was current. -/
theorem blockOn_eq (k : Kernel) {cpu : Nat} {q : QueueRef} (resume : Resume) {p : PcbRef}
    (differ : p ≠ k.current cpu) :
    k.blockOn cpu q resume p =
      (k.switchTo cpu p).move (k.current cpu) .ready q (k.queue q ++ [k.current cpu])
        fun pcb => { pcb with status := .sleeping, phead := q, resume } := by
  -- Only the PCB of the process that leaves is written by both parts.
  have pcbs : ((k.setStatus p .running).setPcb (k.current cpu) fun pcb =>
        { pcb with status := .sleeping, phead := q, resume }).pcb =
      ((k.switchTo cpu p).setPcb (k.current cpu) fun pcb =>
        { pcb with status := .sleeping, phead := q, resume }).pcb := by
    funext h
    by_cases left : h = k.current cpu
    · subst left
      unfold switchTo setStatus
      split <;> simp [setPcb, differ.symm]
    · rw [setPcb_other _ _ left, setPcb_other _ _ left]
      unfold switchTo setStatus
      by_cases entered : h = p
      · subst entered
        split <;> simp [setPcb, left]
      · split <;> simp [setPcb, left, entered]
  unfold move blockOn
  simp only [pcbs]
  unfold switchTo setStatus
  split <;> rfl

end Kernel

namespace SchedOk

variable {acting : Nat} {k : Kernel}

section Move

variable {h : PcbRef} {q q' : QueueRef} {list : List PcbRef} {change : Pcb → Pcb}

/-- The members of the queues after a move. -/
theorem mem_move (ok : SchedOk acting k) (change : Pcb → Pcb) (queued : h ∈ k.queue q)
    (apart : q' ≠ q)
    (listed : ∀ x, x ∈ list ↔ x = h ∨ x ∈ k.queue q') (x : PcbRef) (any : QueueRef) :
    x ∈ (k.move h q q' list change).queue any ↔
      (x = h ∧ any = q') ∨ (x ≠ h ∧ x ∈ k.queue any) := by
  have home : ∀ any, h ∈ k.queue any → any = q := fun any inside =>
    (ok.queueLive any h inside).2.symm.trans (ok.queueLive q h queued).2
  show x ∈ Function.update (Function.update k.queue q ((k.queue q).erase h)) q' list any ↔ _
  by_cases target : any = q'
  · subst target
    rw [Function.update_self, listed]
    have notHere : h ∉ k.queue any := fun inside => apart (home any inside)
    by_cases same : x = h
    · simp [same]
    · simp [same]
  · rw [Function.update_of_ne target]
    by_cases source : any = q
    · subst source
      rw [Function.update_self, (ok.queueNodup any).mem_erase_iff]
      simp [target]
    · rw [Function.update_of_ne source]
      have notHere : h ∉ k.queue any := fun inside => source (home any inside)
      constructor
      · intro inside
        exact .inr ⟨fun same => notHere (same ▸ inside), inside⟩
      · rintro (⟨-, wrong⟩ | ⟨-, inside⟩)
        · exact absurd wrong target
        · exact inside

/-- A process that is current nowhere goes to sleep, or becomes ready. -/
theorem move (ok : SchedOk acting k) (queued : h ∈ k.queue q) (apart : q' ≠ q)
    (listed : ∀ x, x ∈ list ↔ x = h ∨ x ∈ k.queue q') (nodup : list.Nodup)
    (away : ∀ cpu < ncpu, k.current cpu ≠ h)
    (pid : (change (k.pcb h)).pid = (k.pcb h).pid) (tid : (change (k.pcb h)).tid = (k.pcb h).tid)
    (mask : (change (k.pcb h)).cpuMask = (k.pcb h).cpuMask)
    (phead : (change (k.pcb h)).phead = q')
    (status : (change (k.pcb h)).status = if q' = .ready then .ready else .sleeping)
    (user : q' ≠ .ready → ncpu ≤ h)
    (waited : ∀ x, q' = .wait x → x ∈ k.pcbTable ∧ x ≠ h) :
    SchedOk acting (k.move h q q' list change) := by
  have live := (ok.queueLive q h queued).1
  have members := ok.mem_move change queued apart listed
  have samePid : ∀ x, ((k.move h q q' list change).pcb x).pid = (k.pcb x).pid :=
    Kernel.setPcb_field Pcb.pid k h change pid
  have sameTid : ∀ x, ((k.move h q q' list change).pcb x).tid = (k.pcb x).tid :=
    Kernel.setPcb_field Pcb.tid k h change tid
  have sameMask : ∀ x, ((k.move h q q' list change).pcb x).cpuMask = (k.pcb x).cpuMask :=
    Kernel.setPcb_field Pcb.cpuMask k h change mask
  have moved : (k.move h q q' list change).pcb h = change (k.pcb h) := Kernel.setPcb_same k h change
  have others : ∀ x, x ≠ h → (k.move h q q' list change).pcb x = k.pcb x :=
    fun x differ => Kernel.setPcb_other k change differ
  have currents : ∀ cpu < ncpu, (k.move h q q' list change).cur cpu = k.cur cpu :=
    fun cpu small => others _ (away cpu small)
  have idleOther : ∀ cpu < ncpu, q' ≠ .ready → cpu ≠ h := by
    rintro cpu small blocked rfl
    exact absurd (user blocked) (Nat.not_le.mpr small)
  refine { ok with
    queueLive := ?_
    queueHas := ?_
    queueNodup := ?_
    waitLive := ?_
    waitOther := ?_
    asleep := ?_
    unique := ?_
    currentReady := ?_
    onCpu := ?_
    settled := ?_
    notReady := ?_
    quiet := ?_
    idlePid := ?_
    idleMask := ?_
    idleStatus := ?_
    userPid := ?_
    exitedAlone := ?_ }
  · intro any x inside
    rcases (members x any).mp inside with ⟨rfl, rfl⟩ | ⟨differ, inside⟩
    · exact ⟨live, by rw [moved, phead]⟩
    · rw [others x differ]
      exact ok.queueLive any x inside
  · intro x alive
    rw [members]
    by_cases same : x = h
    · subst same
      exact .inl ⟨rfl, by rw [moved, phead]⟩
    · rw [others x same]
      exact .inr ⟨same, ok.queueHas x alive⟩
  · intro any
    show (Function.update (Function.update k.queue q ((k.queue q).erase h)) q' list any).Nodup
    by_cases target : any = q'
    · subst target
      rw [Function.update_self]
      exact nodup
    · rw [Function.update_of_ne target]
      by_cases source : any = q
      · subst source
        rw [Function.update_self]
        exact (ok.queueNodup any).erase h
      · rw [Function.update_of_ne source]
        exact ok.queueNodup any
  · intro x dead
    rw [List.eq_nil_iff_forall_not_mem]
    intro y inside
    rcases (members y _).mp inside with ⟨-, same⟩ | ⟨-, inside⟩
    · exact dead (waited x same.symm).1
    · rw [ok.waitLive x dead] at inside
      exact absurd inside (by simp)
  · intro x inside
    rcases (members x _).mp inside with ⟨rfl, same⟩ | ⟨-, inside⟩
    · exact (waited x same.symm).2 rfl
    · exact ok.waitOther x inside
  · intro x alive
    by_cases same : x = h
    · subst same
      rw [moved, status, phead]
      by_cases ready : q' = .ready <;> simp [ready]
    · rw [others x same]
      exact ok.asleep x alive
  · intro h₁ live₁ h₂ live₂
    rw [samePid, samePid, sameTid, sameTid]
    exact ok.unique h₁ live₁ h₂ live₂
  · intro cpu small
    exact (members _ _).mpr (.inr ⟨away cpu small, ok.currentReady cpu small⟩)
  · intro x alive runs
    by_cases same : x = h
    · subst same
      rw [moved, status] at runs
      split at runs <;> simp at runs
    · rw [others x same] at runs
      exact ok.onCpu x alive runs
  · intro cpu small other
    rw [currents cpu small]
    exact ok.settled cpu small other
  · intro cpu small
    rw [currents cpu small]
    exact ok.notReady cpu small
  · intro cpu small other
    unfold Kernel.inCall
    rw [currents cpu small]
    exact ok.quiet cpu small other
  · intro cpu small
    rw [samePid]
    exact ok.idlePid cpu small
  · intro cpu small
    rw [sameMask]
    exact ok.idleMask cpu small
  · intro cpu small
    by_cases same : cpu = h
    · subst same
      -- An idle process only ever becomes ready.
      rw [moved, status]
      by_cases ready : q' = .ready
      · simp [ready]
      · exact absurd rfl (idleOther cpu small ready)
    · rw [others cpu same]
      exact ok.idleStatus cpu small
  · intro x alive
    rw [samePid]
    exact ok.userPid x alive
  · intro h₁ live₁ exited h₂ live₂
    rw [samePid, samePid]
    intro samePid' differ
    by_cases first : h₁ = h
    · subst first
      rw [moved, status] at exited
      split at exited <;> simp at exited
    · rw [others h₁ first] at exited
      have exits := ok.exitedAlone h₁ live₁ exited h₂ live₂ samePid' differ
      by_cases second : h₂ = h
      · subst second
        obtain ⟨cpu, small, here⟩ := ok.onCpu h₂ live₂ (.inr exits)
        exact absurd here (away cpu small)
      · rw [others h₂ second]
        exact exits

end Move

/-- Waking a process that sleeps in some queue. -/
theorem wake (ok : SchedOk acting k) {cpu : Nat} (small : cpu < ncpu) {h : PcbRef} {q : QueueRef}
    (queued : h ∈ k.queue q) (blocked : q ≠ .ready) : SchedOk acting (k.wake cpu q h) := by
  have sleeps := ok.sleeping_of_queued queued blocked
  have here := ok.currentReady cpu small
  have fresh : h ∉ k.queue .ready := fun inside => ok.awake_of_ready inside sleeps
  rw [Kernel.wake_eq]
  refine ok.move queued blocked.symm (fun x => mem_insertAfter here)
    (nodup_insertAfter (ok.queueNodup _) fresh) (ok.sleeping_not_current sleeps)
    rfl rfl rfl rfl (by simp) (fun wrong => absurd rfl wrong) ?_
  intro x wrong
  cases wrong

/-- A current process that runs or leaves is replaced by a ready one. -/
theorem switchTo (ok : SchedOk acting k) (small : acting < ncpu) {p : PcbRef}
    (queued : p ∈ k.queue .ready) (runnable : k.runnable acting p = true)
    (stays : (k.cur acting).status ≠ .exiting) : SchedOk acting (k.switchTo acting p) := by
  have ready : (k.pcb p).status = .ready := by
    unfold Kernel.runnable at runnable
    simp only [Bool.and_eq_true, decide_eq_true_eq] at runnable
    exact runnable.1
  have away := ok.ready_not_current ready
  have differ : p ≠ k.current acting := fun same => away acting small same.symm
  have alive := (ok.queueLive _ _ queued).1
  set k' := k.switchTo acting p with k'Is
  have sameOf : ∀ {A : Type} (field : Pcb → A),
      (∀ pcb status, field { pcb with status } = field pcb) →
      ∀ x, field (k'.pcb x) = field (k.pcb x) := by
    intro A field keep x
    rw [k'Is]
    unfold Kernel.switchTo
    split
    · exact (Kernel.setStatus_field field keep _ p _ x).trans
        (Kernel.setStatus_field field keep k _ _ x)
    · exact Kernel.setStatus_field field keep k p _ x
  have samePid := sameOf Pcb.pid fun _ _ => rfl
  have sameTid := sameOf Pcb.tid fun _ _ => rfl
  have samePhead := sameOf Pcb.phead fun _ _ => rfl
  have sameMask := sameOf Pcb.cpuMask fun _ _ => rfl
  have sameResume := sameOf Pcb.resume fun _ _ => rfl
  have others : ∀ x, x ≠ p → x ≠ k.current acting → k'.pcb x = k.pcb x := by
    intro x notIn notOut
    rw [k'Is]
    unfold Kernel.switchTo Kernel.setStatus
    split <;> simp [notIn, notOut]
  have entered : (k'.pcb p).status = .running := by
    rw [k'Is]
    unfold Kernel.switchTo Kernel.setStatus
    split <;> simp
  -- The process that leaves becomes ready if it ran, and keeps its state otherwise.
  have left : (k'.pcb (k.current acting)).status = .ready ∧ (k.cur acting).status = .running ∨
      (k'.pcb (k.current acting)).status = (k.cur acting).status ∧
        (k.cur acting).status ≠ .running := by
    rw [k'Is]
    unfold Kernel.switchTo Kernel.setStatus
    split
    · rename_i runs
      exact .inl ⟨by simp [differ.symm], runs⟩
    · rename_i runs
      exact .inr ⟨by simp [differ.symm, Kernel.cur], runs⟩
  have current : k'.current acting = p := by
    rw [k'Is]
    simp [Kernel.switchTo]
  have currents : ∀ cpu, cpu ≠ acting → k'.current cpu = k.current cpu := by
    intro cpu other
    rw [k'Is]
    simp [Kernel.switchTo, other]
  have apart : ∀ cpu < ncpu, cpu ≠ acting → k.current cpu ≠ p ∧ k.current cpu ≠ k.current acting :=
    fun cpu less other => ⟨away cpu less, fun same => other (ok.currentApart cpu less acting small same)⟩
  have queues : k'.queue = k.queue := by
    rw [k'Is]
    unfold Kernel.switchTo Kernel.setStatus
    split <;> rfl
  have table : k'.pcbTable = k.pcbTable := by
    rw [k'Is]
    unfold Kernel.switchTo Kernel.setStatus
    split <;> rfl
  have newPcb : k'.newPcb = k.newPcb := by
    rw [k'Is]
    unfold Kernel.switchTo Kernel.setStatus
    split <;> rfl
  constructor
  · rw [table]; exact ok.tableNodup
  · rw [table]; exact ok.tableRoom
  · rw [table, newPcb]; exact ok.tableOld
  · intro q x
    rw [queues, table, samePhead]
    exact ok.queueLive q x
  · intro x
    rw [queues, table, samePhead]
    exact ok.queueHas x
  · rw [queues]; exact ok.queueNodup
  · rw [queues, table]; exact ok.waitLive
  · rw [queues]; exact ok.waitOther
  · intro x live
    rw [table] at live
    rw [samePhead, ← ok.asleep x live]
    by_cases isIn : x = p
    · subst isIn
      rw [entered, ready]
      simp
    · by_cases isOut : x = k.current acting
      · subst isOut
        have awake := ok.current_not_sleeping small
        rcases left with ⟨now, was⟩ | ⟨now, -⟩
        · rw [now]
          simpa [Kernel.cur] using awake
        · rw [now]
          rfl
      · rw [others x isIn isOut]
  · intro h₁ live₁ h₂ live₂
    rw [table] at live₁ live₂
    rw [samePid, samePid, sameTid, sameTid]
    exact ok.unique h₁ live₁ h₂ live₂
  · intro cpu less
    rw [queues]
    by_cases own : cpu = acting
    · subst own
      rw [current]
      exact queued
    · rw [currents cpu own]
      exact ok.currentReady cpu less
  · intro c₁ less₁ c₂ less₂
    by_cases own₁ : c₁ = acting
    · by_cases own₂ : c₂ = acting
      · exact fun _ => own₁.trans own₂.symm
      · rw [own₁, current, currents c₂ own₂]
        exact fun same => absurd same.symm (apart c₂ less₂ own₂).1
    · by_cases own₂ : c₂ = acting
      · rw [own₂, current, currents c₁ own₁]
        exact fun same => absurd same (apart c₁ less₁ own₁).1
      · rw [currents c₁ own₁, currents c₂ own₂]
        exact ok.currentApart c₁ less₁ c₂ less₂
  · intro x live runs
    rw [table] at live
    by_cases isIn : x = p
    · exact ⟨acting, small, current.trans isIn.symm⟩
    · by_cases isOut : x = k.current acting
      · subst isOut
        rcases left with ⟨now, -⟩ | ⟨now, was⟩
        · rw [now] at runs
          simp at runs
        · rw [now] at runs
          exact (runs.elim was stays).elim
      · rw [others x isIn isOut] at runs
        obtain ⟨cpu, less, same⟩ := ok.onCpu x live runs
        refine ⟨cpu, less, ?_⟩
        rw [currents cpu fun own => isOut (own ▸ same.symm)]
        exact same
  · intro cpu less other
    have place := apart cpu less other
    show (k'.pcb (k'.current cpu)).status = _ ∨ (k'.pcb (k'.current cpu)).status = _
    rw [currents cpu other, others _ place.1 place.2]
    exact ok.settled cpu less other
  · intro cpu less
    show (k'.pcb (k'.current cpu)).status ≠ _
    by_cases own : cpu = acting
    · rw [own, current, entered]
      simp
    · have place := apart cpu less own
      rw [currents cpu own, others _ place.1 place.2]
      exact ok.notReady cpu less
  · intro cpu less other
    have before := ok.quiet cpu less other
    unfold Kernel.inCall Kernel.cur at before ⊢
    rw [currents cpu other, sameResume]
    exact before
  · intro cpu less
    rw [table]
    exact ok.idleLive cpu less
  · intro cpu less
    rw [samePid]
    exact ok.idlePid cpu less
  · intro cpu less
    rw [sameMask]
    exact ok.idleMask cpu less
  · intro cpu less
    by_cases isIn : cpu = p
    · rw [isIn]
      exact .inl entered
    · by_cases isOut : cpu = k.current acting
      · have before := ok.idleStatus cpu less
        rw [isOut] at before ⊢
        rcases left with ⟨now, -⟩ | ⟨now, was⟩
        · exact .inr now
        · rw [now]
          exact before
      · rw [others cpu isIn isOut]
        exact ok.idleStatus cpu less
  · intro cpu less cpu' less' same
    by_cases own : cpu' = acting
    · subst own
      rw [current] at same
      subst same
      exact ok.runnable_idle less runnable
    · rw [currents cpu' own] at same
      exact ok.idleOwn cpu less cpu' less' same
  · intro x live
    rw [table] at live
    rw [samePid]
    exact ok.userPid x live
  · intro h₁ live₁ exited h₂ live₂ same differ'
    rw [table] at live₁ live₂
    rw [samePid, samePid] at same
    have wasExited : (k.pcb h₁).status = .exited := by
      by_cases isIn : h₁ = p
      · rw [isIn, entered] at exited
        simp at exited
      · by_cases isOut : h₁ = k.current acting
        · subst isOut
          rcases left with ⟨now, -⟩ | ⟨now, -⟩
          · rw [now] at exited
            simp at exited
          · rw [now] at exited
            exact exited
        · rw [others h₁ isIn isOut] at exited
          exact exited
    have exits := ok.exitedAlone h₁ live₁ wasExited h₂ live₂ same differ'
    have notIn : h₂ ≠ p := by
      rintro rfl
      rw [ready] at exits
      simp at exits
    have notOut : h₂ ≠ k.current acting := by
      rintro rfl
      exact stays exits
    rw [others h₂ notIn notOut]
    exact exits

/-- Blocking the current process, which is not an idle one, in favour of a ready one. -/
theorem blockOn (ok : SchedOk acting k) (small : acting < ncpu) {p : PcbRef}
    (queued : p ∈ k.queue .ready) (runnable : k.runnable acting p = true)
    (stays : (k.cur acting).status ≠ .exiting) (user : ncpu ≤ k.current acting) {q : QueueRef}
    (resume : Resume) (blocked : q ≠ .ready)
    (waited : ∀ x, q = .wait x → x ∈ k.pcbTable ∧ x ≠ k.current acting) :
    SchedOk acting (k.blockOn acting q resume p) := by
  have ready : (k.pcb p).status = .ready := by
    unfold Kernel.runnable at runnable
    simp only [Bool.and_eq_true, decide_eq_true_eq] at runnable
    exact runnable.1
  have differ : p ≠ k.current acting :=
    fun same => ok.ready_not_current ready acting small same.symm
  have here := ok.currentReady acting small
  have notThere : k.current acting ∉ k.queue q := fun inside =>
    blocked ((ok.queueLive _ _ inside).2.symm.trans (ok.queueLive _ _ here).2)
  have switched := ok.switchTo small queued runnable stays
  have queues : (k.switchTo acting p).queue = k.queue := by
    unfold Kernel.switchTo
    split <;> rfl
  have table : (k.switchTo acting p).pcbTable = k.pcbTable := by
    unfold Kernel.switchTo
    split <;> rfl
  have current : (k.switchTo acting p).current acting = p := by simp [Kernel.switchTo]
  have currents : ∀ cpu, cpu ≠ acting → (k.switchTo acting p).current cpu = k.current cpu := by
    intro cpu other
    simp [Kernel.switchTo, other]
  rw [Kernel.blockOn_eq k resume differ]
  refine switched.move (by rw [queues]; exact here) blocked ?_ ?_ ?_ rfl rfl rfl rfl
    (by simp [blocked]) (fun _ => user) ?_
  · intro x
    rw [queues, List.mem_append, List.mem_singleton]
    exact or_comm
  · rw [List.nodup_append]
    refine ⟨ok.queueNodup q, by simp, ?_⟩
    intro x inside y same
    rw [List.mem_singleton.mp same]
    exact fun wrong => notThere (wrong ▸ inside)
  · -- The process that leaves is current on no other processor either.
    intro cpu less same
    by_cases own : cpu = acting
    · rw [own, current] at same
      exact differ same
    · rw [currents cpu own] at same
      exact own (ok.currentApart cpu less acting small same)
  · rw [table]
    exact waited

/-- A new state for a process that does not sleep. -/
theorem setStatus (ok : SchedOk acting k) {h : PcbRef} {status : TaskStatus}
    (live : h ∈ k.pcbTable) (was : (k.pcb h).status ≠ .sleeping) (awake : status ≠ .sleeping)
    (onCpu : status = .running ∨ status = .exiting → ∃ cpu < ncpu, k.current cpu = h)
    (current : ∀ cpu < ncpu, k.current cpu = h →
      status ≠ .ready ∧ (cpu ≠ acting → status = .running ∨ status = .exiting))
    (idle : h < ncpu → status = .running ∨ status = .ready)
    (alone : status = .exited → ∀ h' ∈ k.pcbTable, (k.pcb h').pid = (k.pcb h).pid → h' ≠ h →
      (k.pcb h').status = .exiting)
    (joins : ∀ h' ∈ k.pcbTable, (k.pcb h').status = .exited → (k.pcb h).pid = (k.pcb h').pid →
      h ≠ h' → status = .exiting) : SchedOk acting (k.setStatus h status) := by
  have sameOf : ∀ {A : Type} (field : Pcb → A),
      (∀ pcb status, field { pcb with status } = field pcb) →
      ∀ x, field ((k.setStatus h status).pcb x) = field (k.pcb x) :=
    fun field keep x => Kernel.setStatus_field field keep k h status x
  have samePid := sameOf Pcb.pid fun _ _ => rfl
  have sameTid := sameOf Pcb.tid fun _ _ => rfl
  have samePhead := sameOf Pcb.phead fun _ _ => rfl
  have sameMask := sameOf Pcb.cpuMask fun _ _ => rfl
  have sameResume := sameOf Pcb.resume fun _ _ => rfl
  have changed : ((k.setStatus h status).pcb h).status = status := by simp [Kernel.setStatus]
  have others : ∀ x, x ≠ h → (k.setStatus h status).pcb x = k.pcb x :=
    fun x differ => Kernel.setPcb_other k _ differ
  refine { ok with
    queueLive := ?_
    queueHas := ?_
    asleep := ?_
    unique := ?_
    onCpu := ?_
    settled := ?_
    notReady := ?_
    quiet := ?_
    idlePid := ?_
    idleMask := ?_
    idleStatus := ?_
    userPid := ?_
    exitedAlone := ?_ }
  · intro q x inside
    rw [samePhead]
    exact ok.queueLive q x inside
  · intro x alive
    rw [samePhead]
    exact ok.queueHas x alive
  · intro x alive
    rw [samePhead, ← ok.asleep x alive]
    by_cases same : x = h
    · subst same
      rw [changed]
      simp [was, awake]
    · rw [others x same]
  · intro h₁ live₁ h₂ live₂
    rw [samePid, samePid, sameTid, sameTid]
    exact ok.unique h₁ live₁ h₂ live₂
  · intro x alive runs
    by_cases same : x = h
    · subst same
      rw [changed] at runs
      exact onCpu runs
    · rw [others x same] at runs
      exact ok.onCpu x alive runs
  · intro cpu small other
    show ((k.setStatus h status).pcb (k.current cpu)).status = _ ∨
      ((k.setStatus h status).pcb (k.current cpu)).status = _
    by_cases same : k.current cpu = h
    · rw [same, changed]
      exact (current cpu small same).2 other
    · rw [others _ same]
      exact ok.settled cpu small other
  · intro cpu small
    show ((k.setStatus h status).pcb (k.current cpu)).status ≠ _
    by_cases same : k.current cpu = h
    · rw [same, changed]
      exact (current cpu small same).1
    · rw [others _ same]
      exact ok.notReady cpu small
  · intro cpu small other
    have before := ok.quiet cpu small other
    unfold Kernel.inCall Kernel.cur at before ⊢
    show ¬ ((k.setStatus h status).pcb (k.current cpu)).resume ≠ .toUser
    rw [sameResume]
    exact before
  · intro cpu small
    rw [samePid]
    exact ok.idlePid cpu small
  · intro cpu small
    rw [sameMask]
    exact ok.idleMask cpu small
  · intro cpu small
    by_cases same : cpu = h
    · subst same
      rw [changed]
      exact idle small
    · rw [others cpu same]
      exact ok.idleStatus cpu small
  · intro x alive
    rw [samePid]
    exact ok.userPid x alive
  · intro h₁ live₁ exited h₂ live₂
    rw [samePid, samePid]
    intro samePid' differ
    by_cases first : h₁ = h
    · subst first
      rw [changed] at exited
      rw [others h₂ differ]
      exact alone exited h₂ live₂ samePid' differ
    · rw [others h₁ first] at exited
      by_cases second : h₂ = h
      · subst second
        rw [changed]
        exact joins h₁ live₁ exited samePid' differ
      · rw [others h₂ second]
        exact ok.exitedAlone h₁ live₁ exited h₂ live₂ samePid' differ

/-- A running user thread is marked to end. -/
theorem setExiting (ok : SchedOk acting k) {h : PcbRef} (live : h ∈ k.pcbTable)
    (runs : (k.pcb h).status = .running ∨ (k.pcb h).status = .exiting) (user : ncpu ≤ h) :
    SchedOk acting (k.setStatus h .exiting) := by
  refine ok.setStatus live ?_ (by simp) (fun _ => ok.onCpu h live runs) ?_ ?_ (by simp)
    (fun _ _ _ _ _ => rfl)
  · rcases runs with runs | exits
    · simp [runs]
    · simp [exits]
  · intro _ _ _
    simp
  · intro low
    exact absurd user (Nat.not_le.mpr low)

/-- The current user thread of the acting processor stops running. -/
theorem leave (ok : SchedOk acting k) (small : acting < ncpu) {status : TaskStatus}
    (user : ncpu ≤ k.current acting)
    (goal : status = .exited ∧ (∀ h' ∈ k.pcbTable, (k.pcb h').pid = (k.cur acting).pid →
        h' ≠ k.current acting → (k.pcb h').status = .exiting) ∨
      status = .zombie ∧ (k.cur acting).status = .running) :
    SchedOk acting (k.setStatus (k.current acting) status) := by
  have kind : status = .exited ∨ status = .zombie := goal.imp And.left And.left
  refine ok.setStatus (ok.currentLive small) (ok.current_not_sleeping small) ?_ ?_ ?_ ?_ ?_ ?_
  · rcases kind with rfl | rfl <;> simp
  · rcases kind with rfl | rfl <;> simp
  · intro cpu less same
    refine ⟨by rcases kind with rfl | rfl <;> simp, fun other => ?_⟩
    exact absurd (ok.currentApart cpu less acting small same) other
  · intro low
    exact absurd user (Nat.not_le.mpr low)
  · intro exited
    rcases goal with ⟨-, alone⟩ | ⟨zombie, -⟩
    · exact alone
    · rw [zombie] at exited
      simp at exited
  · intro h' live exited samePid differ
    -- Nobody of the same process has left before.
    rcases goal with ⟨-, alone⟩ | ⟨-, runs⟩
    · have exits := alone h' live samePid.symm differ.symm
      rw [exited] at exits
      simp at exits
    · have exits := ok.exitedAlone h' live exited _ (ok.currentLive small) samePid differ
      have runs : (k.pcb (k.current acting)).status = .running := runs
      rw [runs] at exits
      simp at exits

/-- Freeing a PCB that is current nowhere and that nobody waits for. -/
theorem drop (ok : SchedOk acting k) {h : PcbRef} (live : h ∈ k.pcbTable)
    (alone : k.queue (.wait h) = []) (away : ∀ cpu < ncpu, k.current cpu ≠ h)
    (user : ncpu ≤ h) : SchedOk acting (k.drop h) := by
  have members : ∀ x q, x ∈ (k.drop h).queue q ↔ x ≠ h ∧ x ∈ k.queue q := by
    intro x q
    show x ∈ Function.update k.queue _ _ q ↔ _
    by_cases home : q = (k.pcb h).phead
    · subst home
      rw [Function.update_self, (ok.queueNodup _).mem_erase_iff]
    · rw [Function.update_of_ne home]
      constructor
      · intro inside
        refine ⟨?_, inside⟩
        rintro rfl
        exact home (ok.queueLive q x inside).2.symm
      · exact And.right
  have table : ∀ x, x ∈ (k.drop h).pcbTable ↔ x ≠ h ∧ x ∈ k.pcbTable :=
    fun x => ok.tableNodup.mem_erase_iff
  have survives : ∀ x, x ∈ (k.drop h).pcbTable → x ∈ k.pcbTable := fun x inside =>
    ((table x).mp inside).2
  refine { ok with
    tableNodup := ok.tableNodup.erase h
    tableRoom := (List.length_erase_le).trans ok.tableRoom
    tableOld := fun x inside => ok.tableOld x (survives x inside)
    queueLive := ?_
    queueHas := ?_
    queueNodup := ?_
    waitLive := ?_
    waitOther := fun x inside => ok.waitOther x ((members x _).mp inside).2
    asleep := fun x inside => ok.asleep x (survives x inside)
    unique := fun h₁ live₁ h₂ live₂ => ok.unique h₁ (survives h₁ live₁) h₂ (survives h₂ live₂)
    currentReady := fun cpu less => (members _ _).mpr ⟨away cpu less, ok.currentReady cpu less⟩
    onCpu := fun x inside => ok.onCpu x (survives x inside)
    idleLive := ?_
    userPid := fun x inside => ok.userPid x (survives x inside)
    exitedAlone := fun h₁ live₁ exited h₂ live₂ =>
      ok.exitedAlone h₁ (survives h₁ live₁) exited h₂ (survives h₂ live₂) }
  · intro q x inside
    obtain ⟨differ, inside⟩ := (members x q).mp inside
    obtain ⟨alive, here⟩ := ok.queueLive q x inside
    exact ⟨(table x).mpr ⟨differ, alive⟩, here⟩
  · intro x inside
    obtain ⟨differ, alive⟩ := (table x).mp inside
    exact (members x _).mpr ⟨differ, ok.queueHas x alive⟩
  · intro q
    show (Function.update k.queue _ _ q).Nodup
    by_cases home : q = (k.pcb h).phead
    · subst home
      rw [Function.update_self]
      exact (ok.queueNodup _).erase h
    · rw [Function.update_of_ne home]
      exact ok.queueNodup q
  · intro x dead
    rw [List.eq_nil_iff_forall_not_mem]
    intro y inside
    have earlier := ((members y _).mp inside).2
    by_cases same : x = h
    · rw [same, alone] at earlier
      simp at earlier
    · have gone : x ∉ k.pcbTable := fun alive => dead ((table x).mpr ⟨same, alive⟩)
      rw [ok.waitLive x gone] at earlier
      simp at earlier
  · intro cpu less
    refine (table cpu).mpr ⟨?_, ok.idleLive cpu less⟩
    rintro rfl
    exact absurd user (Nat.not_le.mpr less)

/-- A new thread, of a new process or of a running one. -/
theorem addPcb (ok : SchedOk acting k) {pid tid cpuMask : Nat}
    (room : k.pcbTable.length < uprocMax + ncpu) (user : ncpu ≤ pid)
    (fresh : ∀ h ∈ k.pcbTable, (k.pcb h).pid = pid → (k.pcb h).tid ≠ tid)
    (stays : ∀ h ∈ k.pcbTable, (k.pcb h).pid = pid → (k.pcb h).status ≠ .exited) :
    SchedOk acting (k.addPcb pid tid cpuMask) := by
  have dead : k.newPcb ∉ k.pcbTable := fun live => absurd (ok.tableOld _ live) (Nat.lt_irrefl _)
  have members : ∀ x q, x ∈ (k.addPcb pid tid cpuMask).queue q ↔
      (x = k.newPcb ∧ q = .ready) ∨ x ∈ k.queue q := by
    intro x q
    show x ∈ Function.update (Function.update k.queue _ _) _ _ q ↔ _
    by_cases ready : q = .ready
    · subst ready
      rw [Function.update_self, List.mem_append, List.mem_singleton]
      simp [or_comm]
    · rw [Function.update_of_ne ready]
      by_cases own : q = .wait k.newPcb
      · subst own
        rw [Function.update_self, ok.waitLive _ dead]
        simp
      · rw [Function.update_of_ne own]
        simp [ready]
  have table : ∀ x, x ∈ (k.addPcb pid tid cpuMask).pcbTable ↔ x ∈ k.pcbTable ∨ x = k.newPcb := by
    intro x
    show x ∈ k.pcbTable ++ [k.newPcb] ↔ _
    rw [List.mem_append, List.mem_singleton]
  have older : ∀ x ∈ k.pcbTable, x ≠ k.newPcb := fun x live same => dead (same ▸ live)
  have others : ∀ x, x ≠ k.newPcb → (k.addPcb pid tid cpuMask).pcb x = k.pcb x :=
    fun x differ => Function.update_of_ne differ _ _
  have created : (k.addPcb pid tid cpuMask).pcb k.newPcb = _ := Function.update_self ..
  have currents : ∀ cpu < ncpu, (k.addPcb pid tid cpuMask).cur cpu = k.cur cpu :=
    fun cpu less => others _ (older _ (ok.currentLive less))
  have idles : ∀ cpu < ncpu, (k.addPcb pid tid cpuMask).pcb cpu = k.pcb cpu :=
    fun cpu less => others _ (older _ (ok.idleLive cpu less))
  refine { ok with
    tableNodup := ?_
    tableRoom := ?_
    tableOld := ?_
    queueLive := ?_
    queueHas := ?_
    queueNodup := ?_
    waitLive := ?_
    waitOther := ?_
    asleep := ?_
    unique := ?_
    currentReady := ?_
    onCpu := ?_
    settled := ?_
    notReady := ?_
    quiet := ?_
    idleLive := ?_
    idlePid := ?_
    idleMask := ?_
    idleStatus := ?_
    userPid := ?_
    exitedAlone := ?_ }
  · show (k.pcbTable ++ [k.newPcb]).Nodup
    rw [List.nodup_append]
    refine ⟨ok.tableNodup, by simp, ?_⟩
    intro x inside y same
    rw [List.mem_singleton.mp same]
    exact older x inside
  · show (k.pcbTable ++ [k.newPcb]).length ≤ _
    rw [List.length_append, List.length_singleton]
    omega
  · intro x inside
    show x < k.newPcb + 1
    rcases (table x).mp inside with live | rfl
    · exact Nat.lt_succ_of_lt (ok.tableOld x live)
    · exact Nat.lt_succ_self _
  · intro q x inside
    rcases (members x q).mp inside with ⟨rfl, rfl⟩ | inside
    · exact ⟨(table _).mpr (.inr rfl), by rw [created]⟩
    · obtain ⟨live, here⟩ := ok.queueLive q x inside
      exact ⟨(table x).mpr (.inl live), by rw [others x (older x live)]; exact here⟩
  · intro x inside
    rw [members]
    rcases (table x).mp inside with live | rfl
    · rw [others x (older x live)]
      exact .inr (ok.queueHas x live)
    · exact .inl ⟨rfl, by rw [created]⟩
  · intro q
    show (Function.update (Function.update k.queue _ _) _ _ q).Nodup
    by_cases ready : q = .ready
    · subst ready
      rw [Function.update_self, List.nodup_append]
      refine ⟨ok.queueNodup _, by simp, ?_⟩
      intro x inside y same
      rw [List.mem_singleton.mp same]
      exact older x (ok.queueLive _ x inside).1
    · rw [Function.update_of_ne ready]
      by_cases own : q = .wait k.newPcb
      · subst own
        rw [Function.update_self]
        exact List.nodup_nil
      · rw [Function.update_of_ne own]
        exact ok.queueNodup q
  · intro x gone
    have before : x ∉ k.pcbTable := fun live => gone ((table x).mpr (.inl live))
    rw [List.eq_nil_iff_forall_not_mem]
    intro y inside
    rcases (members y _).mp inside with ⟨-, wrong⟩ | inside
    · cases wrong
    · rw [ok.waitLive x before] at inside
      simp at inside
  · intro x inside
    rcases (members x _).mp inside with ⟨-, wrong⟩ | inside
    · cases wrong
    · exact ok.waitOther x inside
  · intro x inside
    rcases (table x).mp inside with live | rfl
    · rw [others x (older x live)]
      exact ok.asleep x live
    · rw [created]
      simp
  · intro h₁ inside₁ h₂ inside₂
    rcases (table h₁).mp inside₁ with live₁ | rfl <;> rcases (table h₂).mp inside₂ with live₂ | rfl
    · rw [others h₁ (older h₁ live₁), others h₂ (older h₂ live₂)]
      exact ok.unique h₁ live₁ h₂ live₂
    · rw [others h₁ (older h₁ live₁), created]
      exact fun samePid sameTid => absurd sameTid (fresh h₁ live₁ samePid)
    · rw [others h₂ (older h₂ live₂), created]
      exact fun samePid sameTid => absurd sameTid.symm (fresh h₂ live₂ samePid.symm)
    · exact fun _ _ => rfl
  · intro cpu less
    exact (members _ _).mpr (.inr (ok.currentReady cpu less))
  · intro x inside runs
    rcases (table x).mp inside with live | rfl
    · rw [others x (older x live)] at runs
      exact ok.onCpu x live runs
    · rw [created] at runs
      simp at runs
  · intro cpu less other
    rw [currents cpu less]
    exact ok.settled cpu less other
  · intro cpu less
    rw [currents cpu less]
    exact ok.notReady cpu less
  · intro cpu less other
    unfold Kernel.inCall
    rw [currents cpu less]
    exact ok.quiet cpu less other
  · intro cpu less
    exact (table cpu).mpr (.inl (ok.idleLive cpu less))
  · intro cpu less
    rw [idles cpu less]
    exact ok.idlePid cpu less
  · intro cpu less
    rw [idles cpu less]
    exact ok.idleMask cpu less
  · intro cpu less
    rw [idles cpu less]
    exact ok.idleStatus cpu less
  · intro x inside high
    rcases (table x).mp inside with live | rfl
    · rw [others x (older x live)]
      exact ok.userPid x live high
    · rw [created]
      exact user
  · intro h₁ inside₁ exited h₂ inside₂ same differ
    rcases (table h₁).mp inside₁ with live₁ | rfl
    · rw [others h₁ (older h₁ live₁)] at exited same
      rcases (table h₂).mp inside₂ with live₂ | rfl
      · rw [others h₂ (older h₂ live₂)] at same ⊢
        exact ok.exitedAlone h₁ live₁ exited h₂ live₂ same differ
      · rw [created] at same
        exact absurd exited (stays h₁ live₁ same.symm)
    · rw [created] at exited
      simp at exited

/-- A new `cpu_mask` for the threads of a user process. -/
theorem mask (ok : SchedOk acting k) {pid : Nat} (cpuMask : Nat) (user : ncpu ≤ pid) :
    SchedOk acting (k.setMask pid cpuMask) := by
  have samePid := k.setMask_field pid cpuMask Pcb.pid fun _ _ => rfl
  have sameTid := k.setMask_field pid cpuMask Pcb.tid fun _ _ => rfl
  have sameStatus := k.setMask_field pid cpuMask Pcb.status fun _ _ => rfl
  have samePhead := k.setMask_field pid cpuMask Pcb.phead fun _ _ => rfl
  have sameResume := k.setMask_field pid cpuMask Pcb.resume fun _ _ => rfl
  refine { ok with
    queueLive := ?_
    queueHas := ?_
    asleep := ?_
    unique := ?_
    onCpu := ?_
    settled := ?_
    notReady := ?_
    quiet := ?_
    idlePid := ?_
    idleMask := ?_
    idleStatus := ?_
    userPid := ?_
    exitedAlone := ?_ }
  · intro q h inside
    rw [samePhead]
    exact ok.queueLive q h inside
  · intro h live
    rw [samePhead]
    exact ok.queueHas h live
  · intro h live
    rw [samePhead, sameStatus]
    exact ok.asleep h live
  · intro h₁ live₁ h₂ live₂
    rw [samePid, samePid, sameTid, sameTid]
    exact ok.unique h₁ live₁ h₂ live₂
  · intro h live
    rw [sameStatus]
    exact ok.onCpu h live
  · intro cpu small other
    unfold Kernel.cur
    rw [sameStatus]
    exact ok.settled cpu small other
  · intro cpu small
    unfold Kernel.cur
    rw [sameStatus]
    exact ok.notReady cpu small
  · intro cpu small other
    unfold Kernel.inCall Kernel.cur
    rw [sameResume]
    exact ok.quiet cpu small other
  · intro cpu small
    rw [samePid]
    exact ok.idlePid cpu small
  · intro cpu small
    have notUser : cpu ∉ k.pcbSearchAll pid := by
      intro found
      have same := (List.mem_filter.mp found).2
      rw [ok.idlePid cpu small, decide_eq_true_eq] at same
      omega
    show (if cpu ∈ k.pcbSearchAll pid then { k.pcb cpu with cpuMask } else k.pcb cpu).cpuMask = _
    rw [if_neg notUser]
    exact ok.idleMask cpu small
  · intro cpu small
    rw [sameStatus]
    exact ok.idleStatus cpu small
  · intro h live
    rw [samePid]
    exact ok.userPid h live
  · intro h₁ live₁ exited h₂ live₂
    rw [sameStatus] at exited ⊢
    rw [samePid, samePid]
    exact ok.exitedAlone h₁ live₁ exited h₂ live₂

/-- Changes outside the tables, queues and processors do not matter. -/
theorem congr (ok : SchedOk acting k) {k' : Kernel} (pcb : k'.pcb = k.pcb)
    (table : k'.pcbTable = k.pcbTable) (queue : k'.queue = k.queue)
    (current : k'.current = k.current) (newPcb : k'.newPcb = k.newPcb) : SchedOk acting k' := by
  obtain ⟨pcb', table', queue', current', _, newPcb', _, _, _, _, _, _, _⟩ := k'
  simp only at pcb table queue current newPcb
  subst pcb table queue current newPcb
  exact { ok with }

end SchedOk

end GlucOS.Sched
