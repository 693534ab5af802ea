import GlucOS.Sched.ChangeLaws

/-! What the elementary routines do: which changes they make, and why they may stop. -/

namespace GlucOS.Sched

open Routine

/-- Why a routine may stop: a spin lock is held. -/
def Stops (slock : SpinLock → Bool) : KernelStop → Prop
  | .spins lock => slock lock = true
  | _ => False

section Locks

variable {A : Type} {accepted : KernelStop → Prop} {k : Kernel} {lock : SpinLock}

/-- The state with a spin lock held. -/
def Kernel.hold (k : Kernel) (lock : SpinLock) : Kernel :=
  { k with slock := Function.update k.slock lock true }

/-- The state with a spin lock released. -/
def Kernel.letGo (k : Kernel) (lock : SpinLock) : Kernel :=
  { k with slock := Function.update k.slock lock false }

/-- A spin lock that was acquired is held. -/
@[simp] theorem Kernel.hold_held (k : Kernel) (lock : SpinLock) : (k.hold lock).slock lock = true :=
  Function.update_self ..

/-- Acquiring a spin lock, before the rest. -/
theorem meets_spinLockAcquire {rest : Unit → KernelRoutine A} {after : A → Kernel → Prop}
    (spins : k.slock lock = true → accepted (.spins lock))
    (goes : k.slock lock = false → Meets accepted (rest ()) (k.hold lock) after) :
    Meets accepted (spinLockAcquire lock >>= rest) k after := by
  unfold spinLockAcquire
  rw [meets_assoc, meets_get_bind]
  by_cases held : k.slock lock = true
  · simpa only [if_pos held, meets_stop_bind] using spins held
  · simp only [if_neg held]
    exact goes (by simpa using held)

/-- Releasing a spin lock that is held, at the end of a routine. -/
theorem meets_spinLockRelease {post : Unit → Kernel → Prop} (held : k.slock lock = true)
    (left : post () (k.letGo lock)) : Meets accepted (spinLockRelease lock) k post := by
  unfold spinLockRelease
  rw [meets_get_bind, if_pos held]
  exact left

/-- Releasing a spin lock that is held, before the rest. -/
theorem meets_spinLockRelease_bind {rest : Unit → KernelRoutine A} {after : A → Kernel → Prop}
    (held : k.slock lock = true) (goes : Meets accepted (rest ()) (k.letGo lock) after) :
    Meets accepted (spinLockRelease lock >>= rest) k after := by
  have released : Meets accepted (spinLockRelease lock) k fun _ next => next = k.letGo lock :=
    meets_spinLockRelease held rfl
  exact released.bind fun _ _ same => same ▸ goes

/-- Noting what a call has done, before the rest. -/
theorem meets_noteDone {entry : Note} {rest : Unit → KernelRoutine A}
    {after : A → Kernel → Prop} : Meets accepted (noteDone entry >>= rest) k after ↔
      Meets accepted (rest ()) (k.note entry) after := Iff.rfl

end Locks

/-! ## What stays with the current process -/

/-- A processor will meet these PCBs, when it goes around the ready queue from its own process. -/
def Ahead (k : Kernel) (ccpu : PcbRef) (rem : List PcbRef) : Prop :=
  ∃ walked, ringAfter (k.queue .ready) ccpu = walked ++ rem

/-- A PCB is as it was, or it was woken. -/
def Pcb.Roused (before after : Pcb) : Prop :=
  after = before ∨
    before.status = .sleeping ∧ after = { before with status := .ready, phead := .ready }

/-- Nothing happens to a PCB that does not sleep. -/
theorem Pcb.Roused.eq {before after : Pcb} (roused : before.Roused after)
    (awake : before.status ≠ .sleeping) : after = before := by
  rcases roused with same | ⟨sleeps, -⟩
  · exact same
  · exact absurd sleeps awake

/-- Waking keeps who a process is. -/
theorem Pcb.Roused.pid {before after : Pcb} (roused : before.Roused after) :
    after.pid = before.pid := by
  rcases roused with same | ⟨-, same⟩ <;> rw [same]

/-- Nobody is woken twice. -/
theorem Pcb.Roused.trans {before middle after : Pcb} (first : before.Roused middle)
    (second : middle.Roused after) : before.Roused after := by
  rcases first with same | ⟨sleeps, same⟩
  · exact same ▸ second
  · have awake : middle.status ≠ .sleeping := by simp [same]
    exact .inr ⟨sleeps, (second.eq awake).trans same⟩

/-- No processor switches, and nobody ends or is created; others may be woken. -/
structure Stirs (cpu : Nat) (k k' : Kernel) : Prop where
  /-- Spin locks that were acquired are released. -/
  slock : k'.slock = k.slock
  /-- No processor switches. -/
  current : k'.current = k.current
  /-- Nobody ends. -/
  pcbTable : k'.pcbTable = k.pcbTable
  /-- Nobody is created. -/
  newPcb : k'.newPcb = k.newPcb
  /-- What happens to the PCBs. -/
  pcb : ∀ h, (k.pcb h).Roused (k'.pcb h)
  /-- Those that will be met still will. -/
  ahead : ∀ rem, Ahead k (k.current cpu) rem → Ahead k' (k.current cpu) rem

namespace Stirs

variable {acting cpu : Nat} {k k₁ k' : Kernel} {q : QueueRef} {h : PcbRef}

/-- Nothing happens. -/
theorem refl (cpu : Nat) (k : Kernel) : Stirs cpu k k :=
  ⟨rfl, rfl, rfl, rfl, fun _ => .inl rfl, fun _ here => here⟩

/-- One after the other. -/
theorem trans (first : Stirs cpu k k₁) (second : Stirs cpu k₁ k') : Stirs cpu k k' where
  slock := second.slock.trans first.slock
  current := second.current.trans first.current
  pcbTable := second.pcbTable.trans first.pcbTable
  newPcb := second.newPcb.trans first.newPcb
  pcb := fun h => (first.pcb h).trans (second.pcb h)
  ahead := by
    intro rem here
    have next := first.ahead rem here
    rw [← first.current] at next ⊢
    exact second.ahead rem next

/-- A change of objects alone. -/
theorem objects (pcb : k'.pcb = k.pcb) (queue : k'.queue .ready = k.queue .ready)
    (slock : k'.slock = k.slock) (current : k'.current = k.current)
    (pcbTable : k'.pcbTable = k.pcbTable) (newPcb : k'.newPcb = k.newPcb) : Stirs cpu k k' where
  slock := slock
  current := current
  pcbTable := pcbTable
  newPcb := newPcb
  pcb := fun h => .inl (congrFun pcb h)
  ahead := by
    rintro rem ⟨walked, around⟩
    exact ⟨walked, by rw [queue]; exact around⟩

/-- One process is woken. -/
theorem wake (ok : SchedOk acting k) (small : cpu < ncpu) (queued : h ∈ k.queue q)
    (blocked : q ≠ .ready) : Stirs cpu k (k.wake cpu q h) := by
  refine ⟨rfl, rfl, rfl, rfl, fun x => ?_, ?_⟩
  · by_cases same : x = h
    · subst same
      exact .inr ⟨ok.sleeping_of_queued queued blocked, Kernel.wake_pcb_same k cpu q x⟩
    · exact .inl (Kernel.wake_pcb_other cpu q same)
  · rintro rem ⟨walked, around⟩
    refine ⟨h :: walked, ?_⟩
    rw [Kernel.wake_ready, ringAfter_insertAfter (ok.queueNodup _) (ok.currentReady cpu small),
      around]
    rfl

/-- The heads of a queue are woken. -/
theorem wakes (small : cpu < ncpu) (blocked : q ≠ .ready) (wakes : Wakes cpu q k k') :
    SchedOk acting k → Stirs cpu k k' := by
  induction wakes with
  | refl k => exact fun _ => refl cpu k
  | head queued more ih =>
    intro ok
    have inside := mem_of_head queued
    exact (wake ok small inside blocked).trans (ih (ok.wake small inside blocked))

/-- The current process is as it was. -/
theorem cur (stirs : Stirs cpu k k') (ok : SchedOk acting k) (small : cpu < ncpu) :
    k'.cur cpu = k.cur cpu := by
  unfold Kernel.cur
  rw [stirs.current]
  exact (stirs.pcb _).eq (ok.current_not_sleeping small)

/-- The threads of a process stay the same. -/
theorem pcbSearchAll (stirs : Stirs cpu k k') (pid : Nat) :
    k'.pcbSearchAll pid = k.pcbSearchAll pid := by
  unfold Kernel.pcbSearchAll
  simp only [stirs.pcbTable, (stirs.pcb _).pid]

end Stirs

/-- The current process goes on: others may be woken, and objects may change. -/
structure Keeps (cpu : Nat) (victim : Option Nat) (k k' : Kernel) : Prop extends Stirs cpu k k' where
  /-- The changes made. -/
  changes : Changes cpu victim k k'

namespace Keeps

variable {cpu : Nat} {victim : Option Nat} {k k₁ k' : Kernel}

/-- Nothing happens. -/
theorem refl (cpu : Nat) (victim : Option Nat) (k : Kernel) : Keeps cpu victim k k :=
  ⟨Stirs.refl cpu k, .refl⟩

/-- One after the other. -/
theorem trans (first : Keeps cpu victim k k₁) (second : Keeps cpu victim k₁ k') :
    Keeps cpu victim k k' :=
  ⟨first.toStirs.trans second.toStirs, first.changes.trans second.changes⟩

/-- The invariant is kept. -/
theorem ok (keeps : Keeps cpu victim k k') (ok : KernelOk cpu k) (small : cpu < ncpu) :
    KernelOk cpu k' := Changes.ok ok small keeps.changes

/-- One change. -/
theorem of_change (change : Change cpu victim k k') (stirs : Stirs cpu k k') :
    Keeps cpu victim k k' := ⟨stirs, .single change⟩

/-- What is done while a spin lock is held. -/
theorem locked {lock : SpinLock} (free : k.slock lock = false)
    (keeps : Keeps cpu victim (k.hold lock) k') : Keeps cpu victim k (k'.letGo lock) where
  changes := (Relation.ReflTransGen.head (.spin _) keeps.changes).tail (.spin _)
  slock := by
    show Function.update k'.slock lock false = k.slock
    rw [keeps.slock]
    unfold Kernel.hold
    rw [Function.update_idem, ← free, Function.update_eq_self]
  current := keeps.current
  pcbTable := keeps.pcbTable
  newPcb := keeps.newPcb
  pcb := keeps.pcb
  ahead := keeps.ahead

/-- What is done while a spin lock is held, and noted afterwards. -/
theorem locked_note {lock : SpinLock} {entry : Note} (free : k.slock lock = false)
    (keeps : Keeps cpu victim (k.hold lock) (k'.note entry)) :
    Keeps cpu victim k ((k'.letGo lock).note entry) := keeps.locked free

end Keeps

section Wake

variable {acting cpu : Nat} {victim : Option Nat} {k k' : Kernel} {q : QueueRef}

/-- Waking processes that wait for no synchronization object. -/
theorem Wakes.changes (wakes : Wakes cpu q k k') (plain : q.plain = true) :
    Changes cpu victim k k' := by
  induction wakes with
  | refl k => exact .refl
  | head queued more ih => exact .head (.sched (.wake (mem_of_head queued) plain)) ih

/-- Waking processes that wait for no synchronization object lets the current process go on. -/
theorem Wakes.keeps (wakes : Wakes cpu q k k') (ok : SchedOk acting k) (small : cpu < ncpu)
    (plain : q.plain = true) : Keeps cpu victim k k' :=
  ⟨Stirs.wakes small (QueueRef.ne_ready_of_plain plain) wakes ok, wakes.changes plain⟩

end Wake

/-! ## Elementary routines -/

section Routines

variable {env : Env} {acting : Nat} {victim : Option Nat} {k : Kernel}
  {accepted : KernelStop → Prop}

/-- The head of a queue that is not empty is woken. -/
theorem meets_doUnblock (ok : SchedOk acting k) (small : env.cpu < ncpu) {q : QueueRef}
    {h : PcbRef} {rest : List PcbRef} (queued : k.queue q = h :: rest) (blocked : q ≠ .ready) :
    Meets accepted (doUnblock env q) k fun _ next => next = k.wake env.cpu q h := by
  unfold doUnblock
  rw [meets_get_bind]
  have sleeps := ok.sleeping_of_queued (mem_of_head queued) blocked
  have here := ok.currentReady env.cpu small
  simp only [queued]
  rw [if_neg (by simp [sleeps]), if_neg (by simpa using here), meets_set]

/-- Heads of a queue are woken as long as the condition holds. -/
theorem meets_unblockUpTo (small : env.cpu < ncpu) {q : QueueRef} (blocked : q ≠ .ready)
    (cond : Kernel → PcbRef → Bool) : ∀ (n : Nat) (k : Kernel), SchedOk acting k →
      (k.queue q).length ≤ n → Meets accepted (unblockUpTo env q cond n) k fun _ k' =>
        Wakes env.cpu q k k' ∧ ∀ h ∈ (k'.queue q).head?, cond k' h = false := by
  -- The induction is on the bound, which the queue never exceeds.
  intro n
  induction n with
  | zero =>
    intro k _ short
    have empty : k.queue q = [] := List.eq_nil_of_length_eq_zero (Nat.le_zero.mp short)
    exact ⟨.refl k, by simp [empty]⟩
  | succ n ih =>
    intro k ok short
    unfold unblockUpTo
    rw [meets_get_bind]
    cases queued : k.queue q with
    | nil => exact ⟨.refl k, by simp [queued]⟩
    | cons h rest =>
      refine meets_ite (fun holds => ?_) (fun fails => ?_)
      · refine Meets.bind (meets_doUnblock ok small queued blocked) ?_
        rintro _ _ rfl
        have shorter : ((k.wake env.cpu q h).queue q).length ≤ n := by
          rw [Kernel.wake_source k env.cpu h blocked, queued, List.erase_cons_head]
          rw [queued, List.length_cons] at short
          omega
        refine (ih _ (ok.wake small (mem_of_head queued) blocked) shorter).mono ?_
        rintro _ k' ⟨wakes, stopped⟩
        exact ⟨.head queued wakes, stopped⟩
      · exact ⟨.refl k, by simpa [queued] using fails⟩

/-- The loop that wakes heads of a queue stops where its condition fails. -/
theorem meets_unblockWhile (ok : SchedOk acting k) (small : env.cpu < ncpu) {q : QueueRef}
    (blocked : q ≠ .ready) (cond : Kernel → PcbRef → Bool) :
    Meets accepted (unblockWhile env q cond) k fun _ k' =>
      Wakes env.cpu q k k' ∧ ∀ h ∈ (k'.queue q).head?, cond k' h = false :=
  meets_unblockUpTo small blocked cond _ k ok le_rfl

/-- The loop that wakes a whole queue leaves it empty. -/
theorem meets_unblockAll (ok : SchedOk acting k) (small : env.cpu < ncpu) {q : QueueRef}
    (blocked : q ≠ .ready) : Meets accepted (unblockAll env q) k fun _ k' =>
      Wakes env.cpu q k k' ∧ k'.queue q = [] := by
  refine (meets_unblockWhile ok small blocked _).mono ?_
  rintro _ k' ⟨wakes, stopped⟩
  refine ⟨wakes, ?_⟩
  cases left : k'.queue q with
  | nil => rfl
  | cons h rest => simp [left] at stopped

/-- Waking a plain queue lets the current process go on. -/
theorem unblockAll_keeps (victim : Option Nat) (ok : SchedOk acting k) (small : env.cpu < ncpu)
    {q : QueueRef} (plain : q.plain = true) :
    Meets accepted (unblockAll env q) k fun _ => Keeps env.cpu victim k :=
  (meets_unblockAll ok small (QueueRef.ne_ready_of_plain plain)).mono fun _ _ done =>
    done.1.keeps ok small plain

/-- `check_sleeping` wakes processes that sleep. -/
theorem checkSleepers_keeps (victim : Option Nat) (small : env.cpu < ncpu) :
    ∀ (list : List PcbRef) (k : Kernel), KernelOk env.cpu k → list.Nodup →
      (∀ h ∈ list, h ∈ k.queue .sleep) → Meets accepted (checkSleepers env list) k fun _ => Keeps env.cpu victim k := by
  -- Those that are still to be looked at stay in the queue.
  intro list
  induction list with
  | nil => exact fun k _ _ _ => Keeps.refl env.cpu victim k
  | cons pw rest ih =>
    intro k ok nodup queued
    obtain ⟨fresh, nodup'⟩ := List.nodup_cons.mp nodup
    have here := queued pw (by simp)
    have sleeps := ok.sleeping_of_queued here (by simp)
    have ready := ok.currentReady env.cpu small
    have round : Meets accepted (checkSleeper env pw) k fun _ k' => Keeps env.cpu victim k k' ∧
        ∀ h ∈ rest, h ∈ k'.queue .sleep := by
      unfold checkSleeper
      rw [meets_get_bind, if_neg (by simp [sleeps])]
      refine meets_ite (fun _ => ?_) (fun _ => ?_)
      · unfold wakeUp
        rw [meets_get_bind, if_neg (by simp [sleeps]), if_neg (by simpa using here),
          if_neg (by simpa using ready), meets_set]
        refine ⟨.of_change (.sched (.wake here rfl))
          (Stirs.wake ok.toSchedOk small here (by simp)), ?_⟩
        intro h inRest
        rw [Kernel.wake_source k env.cpu pw (by simp)]
        have differ : h ≠ pw := fun same => fresh (same ▸ inRest)
        exact (List.mem_erase_of_ne differ).mpr (queued h (by simp [inRest]))
      · exact ⟨Keeps.refl env.cpu victim k, fun h inRest => queued h (by simp [inRest])⟩
    unfold checkSleepers
    refine Meets.bind round ?_
    rintro _ k' ⟨keeps, queued'⟩
    refine (ih k' (keeps.ok ok small) nodup' queued').mono ?_
    exact fun _ _ more => keeps.trans more

/-- `check_sleeping` lets the current process go on. -/
theorem checkSleeping_keeps (victim : Option Nat) (ok : KernelOk env.cpu k)
    (small : env.cpu < ncpu) : Meets accepted (checkSleeping env) k fun _ => Keeps env.cpu victim k := by
  unfold checkSleeping
  rw [meets_get_bind]
  exact checkSleepers_keeps victim small _ k ok (ok.queueNodup _) fun _ inside => inside

/-- `check_sleeping_on_nic` lets the current process go on. -/
theorem checkSleepingOnNic_keeps (victim : Option Nat) (ok : KernelOk env.cpu k)
    (small : env.cpu < ncpu) : Meets accepted (checkSleepingOnNic env) k fun _ => Keeps env.cpu victim k :=
  (meets_unblockWhile ok.toSchedOk small (by simp) _).mono fun _ _ done =>
    done.1.keeps ok.toSchedOk small rfl

/-- Blocking finds a process to switch to: at least the idle one is ready. -/
theorem meets_doBlock (ok : SchedOk env.cpu k) (small : env.cpu < ncpu)
    (user : ncpu ≤ k.current env.cpu) (stays : (k.cur env.cpu).status ≠ .exiting) (q : QueueRef)
    (resume : Resume) : Meets accepted (doBlock env q none resume) k fun _ next =>
      ∃ p, CanBlock env.cpu k p ∧ next = k.blockOn env.cpu q resume p := by
  unfold doBlock
  rw [meets_get_bind]
  have here := ok.currentReady env.cpu small
  have around := fun {x : PcbRef} => mem_ringAfter (x := x) (ok.queueNodup .ready) here
  cases found : (ringAfter (k.queue .ready) (k.current env.cpu)).find? (k.runnable env.cpu) with
  | none =>
    -- The idle process of this processor is on the way around, and may run.
    have differ : env.cpu ≠ k.current env.cpu := fun same => by
      rw [← same] at user
      exact absurd small (Nat.not_lt.mpr user)
    have idle := List.find?_eq_none.mp found _ (around.mpr ⟨ok.idle_queued small, differ⟩)
    exact absurd (ok.idle_runnable small user) idle
  | some p =>
    have runnable := List.find?_some found
    obtain ⟨queued, -⟩ := around.mp (List.mem_of_find?_eq_some found)
    simp only
    rw [if_neg (by simpa using here)]
    exact ⟨p, ⟨queued, runnable, stays, user⟩, rfl⟩

/-- Blocking with a spin lock that is held releases it. -/
theorem meets_doBlock_locked (ok : SchedOk env.cpu k) (small : env.cpu < ncpu)
    (user : ncpu ≤ k.current env.cpu) (stays : (k.cur env.cpu).status ≠ .exiting) (q : QueueRef)
    (resume : Resume) {lock : SpinLock} (held : k.slock lock = true) :
    Meets accepted (doBlock env q (some lock) resume) k fun _ next =>
      ∃ p, CanBlock env.cpu k p ∧ next = (k.blockOn env.cpu q resume p).letGo lock := by
  have split : doBlock env q (some lock) resume =
      doBlock env q none resume >>= fun _ => spinLockRelease lock := by
    unfold doBlock
    funext k
    cases found : (ringAfter (k.queue .ready) (k.current env.cpu)).find? (k.runnable env.cpu) with
    | none => simp [found, Bind.bind, StateT.bind, get, getThe, MonadStateOf.get, StateT.get,
        Except.bind, pure, Except.pure, stop]
    | some p =>
      by_cases here : k.current env.cpu ∈ k.queue .ready
      · simp [found, here, Bind.bind, StateT.bind, get, getThe, MonadStateOf.get, StateT.get,
          Except.bind, pure, Except.pure, set, StateT.set, StateT.pure]
      · simp [found, here, Bind.bind, StateT.bind, get, getThe, MonadStateOf.get, StateT.get,
          Except.bind, pure, Except.pure, stop]
  rw [split]
  refine Meets.bind (meets_doBlock ok small user stays q resume) ?_
  rintro _ _ ⟨p, can, rfl⟩
  exact meets_spinLockRelease held ⟨p, can, rfl⟩

end Routines

end GlucOS.Sched
