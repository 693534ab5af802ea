import GlucOS.Locking.ReleaseLaws

/-! What it means for the shared state that threads and processes are killed. -/

namespace GlucOS.Sched

open Routine

/-- A new thread leaves the other PCBs alone. -/
theorem Kernel.addPcb_other (k : Kernel) (pid tid cpuMask : Nat) {h : PcbRef}
    (older : h ≠ k.newPcb) : (k.addPcb pid tid cpuMask).pcb h = k.pcb h :=
  Function.update_of_ne older _ _

/-! ## Nobody falls asleep while a process is killed -/

/-- No thread of the process that an event kills is blocked. -/
def Awake (victim : Option Nat) (k : Kernel) : Prop :=
  ∀ h ∈ k.pcbTable, victim = some (k.pcb h).pid → (k.pcb h).status ≠ .sleeping

/-- Who sleeps afterwards has slept before. -/
def Wakeful (k k' : Kernel) : Prop :=
  ∀ h ∈ k'.pcbTable, (k'.pcb h).status = .sleeping →
    h ∈ k.pcbTable ∧ (k'.pcb h).pid = (k.pcb h).pid ∧ (k.pcb h).status = .sleeping

section Wakeful

variable {cpu : Nat} {victim : Option Nat} {k k₁ k' : Kernel}

/-- When nobody falls asleep, the process that is killed stays awake. -/
theorem Wakeful.awake (wakeful : Wakeful k k') (awake : Awake victim k) : Awake victim k' := by
  intro h live killed sleeps
  obtain ⟨before, pid, slept⟩ := wakeful h live sleeps
  exact awake h before (by rw [← pid]; exact killed) slept

/-- Nobody falls asleep when others are woken. -/
theorem Stirs.wakeful (stirs : Stirs cpu k k') : Wakeful k k' := by
  intro h live sleeps
  rw [stirs.pcbTable] at live
  refine ⟨live, (stirs.pcb h).pid, ?_⟩
  rcases stirs.pcb h with same | ⟨slept, -⟩
  · rw [← same]
    exact sleeps
  · exact slept

/-- Nobody falls asleep by a new status that is not sleeping. -/
theorem Wakeful.setStatus {h : PcbRef} {status : TaskStatus} (goal : status ≠ .sleeping) :
    Wakeful k (k.setStatus h status) := by
  intro x live sleeps
  have pid := Kernel.setStatus_field Pcb.pid (fun _ _ => rfl) k h status x
  by_cases same : x = h
  · subst same
    rw [Kernel.setStatus, Kernel.setPcb_same] at sleeps
    exact absurd sleeps goal
  · rw [Kernel.setStatus, Kernel.setPcb_other k _ same] at sleeps
    exact ⟨live, pid, sleeps⟩

/-- Nobody falls asleep by one change after another. -/
theorem Wakeful.trans (first : Wakeful k k₁) (second : Wakeful k₁ k') : Wakeful k k' := by
  intro h live sleeps
  obtain ⟨live₁, pid₁, sleeps₁⟩ := second h live sleeps
  obtain ⟨before, pid, slept⟩ := first h live₁ sleeps₁
  exact ⟨before, pid₁.trans pid, slept⟩

/-- Nobody falls asleep when PCBs keep their status. -/
theorem Wakeful.of_same (pcbTable : ∀ h ∈ k'.pcbTable, h ∈ k.pcbTable)
    (pid : ∀ h, (k'.pcb h).pid = (k.pcb h).pid)
    (status : ∀ h, (k'.pcb h).status = (k.pcb h).status) : Wakeful k k' :=
  fun h live sleeps => ⟨pcbTable h live, pid h, by rw [← status h]; exact sleeps⟩

/-- Objects alone put nobody to sleep. -/
theorem Wakeful.of_pcb (pcb : k'.pcb = k.pcb) (pcbTable : k'.pcbTable = k.pcbTable) :
    Wakeful k k' :=
  .of_same (fun _ inside => pcbTable ▸ inside) (fun _ => by rw [pcb]) fun _ => by rw [pcb]

/-- Nobody falls asleep by scheduling in an event that kills. -/
theorem SchedChange.wakeful {v : Nat} (ok : SchedOk cpu k) (small : cpu < ncpu)
    (change : SchedChange cpu (some v) k k') : Wakeful k k' := by
  cases change with
  | wake queued plain =>
    exact (Stirs.wake ok small queued (QueueRef.ne_ready_of_plain plain)).wakeful
  | drop live alone away user why =>
    exact .of_same (fun _ inside => List.mem_of_mem_erase inside) (fun _ => rfl) fun _ => rfl
  | exiting live runs user why => exact .setStatus (by simp)
  | leave user goal locking =>
    refine .setStatus ?_
    rcases goal with ⟨rfl, -⟩ | ⟨rfl, -⟩ <;> simp
  | @switch p queued runnable stays =>
    unfold Kernel.switchTo
    have enters : ∀ (left : Kernel) p, Wakeful left (left.setStatus p .running) :=
      fun _ _ => .setStatus (by simp)
    split
    · have leaves : Wakeful k (k.setStatus (k.current cpu) .ready) := .setStatus (by simp)
      exact (leaves.trans (enters _ p)).trans (.of_pcb rfl rfl)
    · exact (enters k p).trans (.of_pcb rfl rfl)
  | block resume plain can waited calm locking => simp at calm
  | @create pid tid cpuMask room user fresh stays =>
    intro h live sleeps
    by_cases new : h = k.newPcb
    · subst new
      simp [Kernel.addPcb] at sleeps
    · have older : h ∈ k.pcbTable := by simpa [Kernel.addPcb, new] using live
      rw [k.addPcb_other pid tid cpuMask new] at sleeps ⊢
      exact ⟨older, rfl, sleeps⟩
  | mask cpuMask user =>
    exact .of_same (fun _ inside => inside) (k.setMask_field _ _ Pcb.pid fun _ _ => rfl)
      (k.setMask_field _ _ Pcb.status fun _ _ => rfl)
  | request wakeupTime reqLen =>
    exact .of_same (fun _ inside => inside) (Kernel.setPcb_field Pcb.pid k _ _ rfl)
      (Kernel.setPcb_field Pcb.status k _ _ rfl)
  | finish done =>
    exact .of_same (fun _ inside => inside) (Kernel.setPcb_field Pcb.pid k _ _ rfl)
      (Kernel.setPcb_field Pcb.status k _ _ rfl)
  | glush pid => exact .of_same (fun _ inside => inside) (fun _ => rfl) fun _ => rfl
  | terminated gone => exact .of_same (fun _ inside => inside) (fun _ => rfl) fun _ => rfl

/-- Waking a process puts nobody to sleep, whatever happens to the objects. -/
theorem Wakeful.wake {q : QueueRef} {h : PcbRef} (ok : SchedOk cpu k) (small : cpu < ncpu)
    (queued : h ∈ k.queue q) (blocked : q ≠ .ready) (pcb : k'.pcb = (k.wake cpu q h).pcb)
    (pcbTable : k'.pcbTable = k.pcbTable) : Wakeful k k' :=
  (Stirs.wake ok small queued blocked).wakeful.trans (.of_pcb pcb pcbTable)

/-- Nobody falls asleep by any change of an event that kills. -/
theorem Change.wakeful {v : Nat} (ok : KernelOk cpu k) (small : cpu < ncpu)
    (change : Change cpu (some v) k k') : Wakeful k k' := by
  have sched := ok.toSchedOk
  cases change with
  | spin slock => exact .of_pcb rfl rfl
  | sched change => exact change.wakeful sched small
  | mutex change =>
    cases change with
    | acquire free => exact .of_pcb rfl rfl
    | block held foreign can calm locking => simp at calm
    | releaseFree held own empty => exact .of_pcb rfl rfl
    | releaseWake held own queued calm => simp at calm
    | killedFree silent held own empty => exact .of_pcb rfl rfl
    | handOver silent held own queued =>
      exact .wake sched small (mem_of_head queued) (by simp) rfl rfl
  | semaphore change =>
    cases change with
    | init value fits closed => exact .of_pcb rfl rfl
    | upFree valid nonneg => exact .of_pcb rfl rfl
    | upReset valid neg empty => exact .of_pcb rfl rfl
    | upWake valid neg queued calm => simp at calm
    | pass valid nonneg => exact .of_pcb rfl rfl
    | block valid neg can calm locking => simp at calm
    | close wakes empty =>
      exact (Stirs.wakes small (by simp) wakes (sched.setSemaphore _ _)).wakeful
  | barrier change =>
    cases change with
    | init goal closed => exact .of_pcb rfl rfl
    | pass valid all calm wakes empty => simp at calm
    | block valid few can calm locking => simp at calm
    | close wakes empty =>
      exact (Stirs.wakes small (by simp) wakes (sched.setBarrier _ _)).wakeful
  | @mailbox _ i change =>
    cases change with
    | opens closed => exact .of_pcb rfl rfl
    | close receivers senders noReceivers noSenders =>
      have closed := sched.setMailbox i { k.mailboxes i with opid := none }
      obtain ⟨ok₁, -⟩ := Frame.wakes (ofMailbox i) (some v) small (by simp) (.inl (.inr rfl))
        receivers closed
      exact (Stirs.wakes small (by simp) receivers closed).wakeful.trans
        (Stirs.wakes small (by simp) senders ok₁).wakeful
    | blockSend resume valid full can calm locking => simp at calm
    | blockRecv resume valid empty can calm locking => simp at calm
    | sent valid entered calm wakes stopped => simp at calm
    | received valid departed calm wakes empty => simp at calm

/-- The process that an event kills stays awake through all later changes. -/
theorem Changes.awake (ok : KernelOk cpu k) (small : cpu < ncpu) (awake : Awake victim k)
    (changes : Changes cpu victim k k') : Awake victim k' := by
  cases victim with
  | none =>
    intro h _ killed
    simp at killed
  | some v =>
    have both : KernelOk cpu k' ∧ Awake (some v) k' := by
      induction changes with
      | refl => exact ⟨ok, awake⟩
      | tail _ last ih => exact ⟨last.ok ih.1 small, (last.wakeful ih.1 small).awake ih.2⟩
    exact both.2

end Wakeful

/-! ## Threads that are killed -/

/-- A thread that is running, also when it was killed already. -/
def Pcb.Caught (pcb : Pcb) : Prop := pcb.status = .running ∨ pcb.status = .exiting

instance (pcb : Pcb) : Decidable pcb.Caught := inferInstanceAs (Decidable (_ ∨ _))

/-- Waking concerns nobody who is running. -/
theorem Pcb.Roused.caught {before after : Pcb} (roused : before.Roused after) :
    after.Caught ↔ before.Caught := by
  rcases roused with same | ⟨sleeps, same⟩
  · rw [same]
  · simp [Pcb.Caught, same, sleeps]

/-- Why a thread may be killed. -/
def Pcb.Doomed (victim : Option Nat) (pcb : Pcb) : Prop :=
  victim = some pcb.pid ∨ pcb.status = .exited ∨ pcb.status = .zombie ∨ pcb.status = .exiting

/-- Who is doomed stays so when others are woken. -/
theorem Pcb.Roused.doomed {victim : Option Nat} {before after : Pcb}
    (roused : before.Roused after) (doomed : before.Doomed victim) : after.Doomed victim := by
  rcases roused with same | ⟨sleeps, same⟩
  · exact same ▸ doomed
  · rcases doomed with killed | rest
    · exact .inl (by rw [same]; exact killed)
    · simp [sleeps] at rest

/-- One thread is freed. -/
structure Removes (cpu : Nat) (victim : Option Nat) (p : PcbRef) (k k' : Kernel) : Prop where
  /-- The changes made. -/
  changes : Changes cpu victim k k'
  /-- Spin locks that were acquired are released. -/
  slock : k'.slock = k.slock
  /-- No processor switches. -/
  current : k'.current = k.current
  /-- The thread leaves the table. -/
  pcbTable : k'.pcbTable = k.pcbTable.erase p
  /-- Nobody is created. -/
  newPcb : k'.newPcb = k.newPcb
  /-- What happens to the PCBs. -/
  pcb : ∀ h, (k.pcb h).Roused (k'.pcb h)
  /-- Those that will be met still will. -/
  ahead : ∀ rem, p ∉ rem → Ahead k (k.current cpu) rem → Ahead k' (k.current cpu) rem

section Kill

variable {env : Env} {cpu acting : Nat} {victim : Option Nat} {k k₁ k' : Kernel}
  {accepted : KernelStop → Prop}

/-- Those outside a queue are not touched when it is woken. -/
theorem Wakes.pcb_other {q : QueueRef} {h : PcbRef} (wakes : Wakes cpu q k k')
    (blocked : q ≠ .ready) : h ∉ k.queue q → k'.pcb h = k.pcb h := by
  induction wakes with
  | refl k => exact fun _ => rfl
  | @head k k' x rest queued more ih =>
    intro outside
    have differ : h ≠ x := by
      rintro rfl
      exact outside (mem_of_head queued)
    refine (ih fun inside => outside ?_).trans (Kernel.wake_pcb_other cpu q differ)
    rw [Kernel.wake_source k cpu x blocked] at inside
    exact List.mem_of_mem_erase inside

/-- Whoever is not removed from the ready queue is met as before. -/
theorem Ahead.drop (ok : SchedOk acting k) (small : cpu < ncpu) {p : PcbRef} {rem : List PcbRef}
    (away : k.current cpu ≠ p) (later : p ∉ rem) (here : Ahead k (k.current cpu) rem) :
    Ahead (k.drop p) (k.current cpu) rem := by
  obtain ⟨walked, around⟩ := here
  by_cases home : (k.pcb p).phead = .ready
  · have erased : (k.drop p).queue .ready = (k.queue .ready).erase p := by
      show Function.update k.queue _ _ .ready = _
      rw [home, Function.update_self]
    refine ⟨walked.erase p, ?_⟩
    rw [erased, ringAfter_erase (ok.queueNodup _) (ok.currentReady cpu small) away.symm, around]
    by_cases met : p ∈ walked
    · exact List.erase_append_left _ met
    · rw [List.erase_append_right _ met, List.erase_of_not_mem later, List.erase_of_not_mem met]
  · refine ⟨walked, ?_⟩
    have same : (k.drop p).queue .ready = k.queue .ready := Function.update_of_ne (Ne.symm home) _ _
    rw [same]
    exact around

/-- `thread_kill` frees a thread that does not run, and wakes those that wait for it. -/
theorem threadKill_removes (victim : Option Nat) (ok : KernelOk env.cpu k) (small : env.cpu < ncpu) {p : PcbRef}
    (live : p ∈ k.pcbTable) (user : ncpu ≤ p) (idle : (k.pcb p).status ≠ .running)
    (away : ∀ c < ncpu, k.current c ≠ p)
    (why : victim = some (k.pcb p).pid ∨ (k.pcb p).status = .exited ∨ (k.pcb p).status = .zombie) :
    Meets accepted (threadKill env p) k fun _ => Removes env.cpu victim p k := by
  have found : ((k.queue (k.pcb p).phead).find? fun h =>
      (k.pcb h).pid = (k.pcb p).pid ∧ (k.pcb h).tid = (k.pcb p).tid) = some p := by
    have here := ok.queueHas p live
    cases search : (k.queue (k.pcb p).phead).find? fun h =>
        (k.pcb h).pid = (k.pcb p).pid ∧ (k.pcb h).tid = (k.pcb p).tid with
    | none =>
      have := List.find?_eq_none.mp search p here
      simp at this
    | some h =>
      have same := List.find?_some search
      simp only [decide_eq_true_eq] at same
      have inside := (ok.queueLive _ h (List.mem_of_find?_eq_some search)).1
      rw [ok.unique h inside p live same.1 same.2]
  unfold threadKill
  rw [meets_get_bind, if_neg idle, if_neg (not_not_intro found)]
  refine Meets.bind (meets_unblockAll ok.toSchedOk small (by simp)) ?_
  rintro _ k₁ ⟨wakes, empty⟩
  have keeps : Keeps env.cpu victim k k₁ := wakes.keeps ok.toSchedOk small rfl
  have ok₁ := keeps.ok ok small
  have same : k₁.pcb p = k.pcb p := wakes.pcb_other (by simp) (ok.waitOther p)
  have live₁ : p ∈ k₁.pcbTable := by rw [keeps.pcbTable]; exact live
  have here₁ : p ∈ k₁.queue (k.pcb p).phead := by
    rw [← same]
    exact ok₁.queueHas p live₁
  have away₁ : ∀ c < ncpu, k₁.current c ≠ p := by rw [keeps.current]; exact away
  rw [meets_get_bind, if_neg (by simpa using here₁), if_neg (by simpa using live₁), meets_set]
  refine ⟨keeps.changes.tail (.sched (.drop live₁ empty away₁ user (by rw [same]; exact why))),
    keeps.slock, keeps.current, by rw [← keeps.pcbTable]; rfl, keeps.newPcb, keeps.pcb, ?_⟩
  intro rem later here
  have next := keeps.ahead rem here
  rw [← keeps.current] at next ⊢
  exact next.drop ok₁.toSchedOk small (away₁ env.cpu small) later

/-- Some threads are killed: freed, or marked where they run. -/
structure Kills (cpu : Nat) (victim : Option Nat) (hs : List PcbRef) (k k' : Kernel) : Prop where
  /-- The changes made. -/
  changes : Changes cpu victim k k'
  /-- Spin locks that were acquired are released. -/
  slock : k'.slock = k.slock
  /-- No processor switches. -/
  current : k'.current = k.current
  /-- Nobody is created. -/
  newPcb : k'.newPcb = k.newPcb
  /-- Identifiers are kept. -/
  pid : ∀ x, (k'.pcb x).pid = (k.pcb x).pid
  /-- So is where everybody goes on. -/
  resume : ∀ x, (k'.pcb x).resume = (k.pcb x).resume
  /-- What happens to the other PCBs. -/
  others : ∀ x, x ∉ hs → (k.pcb x).Roused (k'.pcb x)
  /-- Threads leave the table. -/
  sublist : k'.pcbTable.Sublist k.pcbTable
  /-- Those that run, and the others, are not freed. -/
  spared : ∀ x ∈ k.pcbTable, x ∉ hs ∨ (k.pcb x).Caught → x ∈ k'.pcbTable
  /-- Those that are not freed are marked. -/
  marked : ∀ x ∈ hs, x ∈ k'.pcbTable → (k'.pcb x).status = .exiting
  /-- Those that will be met still will. -/
  ahead : ∀ rem, (∀ x ∈ hs, x ∈ rem → (k.pcb x).Caught) → Ahead k (k.current cpu) rem →
    Ahead k' (k.current cpu) rem

namespace Kills

variable {h : PcbRef} {hs rest : List PcbRef}

/-- No thread is killed. -/
theorem nil (cpu : Nat) (victim : Option Nat) (k : Kernel) : Kills cpu victim [] k k where
  changes := .refl
  slock := rfl
  current := rfl
  newPcb := rfl
  pid := fun _ => rfl
  resume := fun _ => rfl
  others := fun _ _ => .inl rfl
  sublist := .refl _
  spared := fun _ live _ => live
  marked := by simp
  ahead := fun _ _ here => here

/-- A thread that does not run is freed. -/
theorem of_removes (ok : SchedOk acting k) (removes : Removes cpu victim h k k')
    (idle : ¬ (k.pcb h).Caught) : Kills cpu victim [h] k k' where
  changes := removes.changes
  slock := removes.slock
  current := removes.current
  newPcb := removes.newPcb
  pid := fun x => (removes.pcb x).pid
  resume := fun x => by rcases removes.pcb x with same | ⟨-, same⟩ <;> rw [same]
  others := fun x _ => removes.pcb x
  sublist := removes.pcbTable ▸ List.erase_sublist
  spared := by
    intro x live spared
    have differ : x ≠ h := by
      rintro rfl
      rcases spared with outside | caught
      · simp at outside
      · exact idle caught
    rw [removes.pcbTable]
    exact (List.mem_erase_of_ne differ).mpr live
  marked := by
    intro x inside live
    obtain rfl : x = h := by simpa using inside
    rw [removes.pcbTable] at live
    exact absurd live (ok.tableNodup.not_mem_erase)
  ahead := fun rem outside here => removes.ahead rem (fun inside => idle (outside h (by simp) inside))
    here

/-- A thread that runs is marked. -/
theorem of_mark (live : h ∈ k.pcbTable) (caught : (k.pcb h).Caught) (user : ncpu ≤ h)
    (why : victim = some (k.pcb h).pid ∨ (k.pcb h).status = .exiting) :
    Kills cpu victim [h] k (k.setStatus h .exiting) where
  changes := .single (.sched (.exiting live caught user why))
  slock := rfl
  current := rfl
  newPcb := rfl
  pid := Kernel.setStatus_field Pcb.pid (fun _ _ => rfl) k h _
  resume := Kernel.setStatus_field Pcb.resume (fun _ _ => rfl) k h _
  others := by
    intro x outside
    exact .inl (Kernel.setPcb_other k _ (by simpa using outside))
  sublist := .refl _
  spared := fun _ live _ => live
  marked := by
    intro x inside _
    obtain rfl : x = h := by simpa using inside
    rw [Kernel.setStatus, Kernel.setPcb_same]
  ahead := fun _ _ here => here

/-- One thread, and then others. -/
theorem cons (first : Kills cpu victim [h] k k₁) (second : Kills cpu victim rest k₁ k')
    (fresh : h ∉ rest) : Kills cpu victim (h :: rest) k k' := by
  have roused : ∀ x, x ≠ h → (k.pcb x).Roused (k₁.pcb x) :=
    fun x differ => first.others x (by simpa using differ)
  have apart : ∀ x ∈ rest, x ≠ h := by
    rintro x inside rfl
    exact fresh inside
  refine
    { changes := first.changes.trans second.changes
      slock := second.slock.trans first.slock
      current := second.current.trans first.current
      newPcb := second.newPcb.trans first.newPcb
      pid := fun x => (second.pid x).trans (first.pid x)
      resume := fun x => (second.resume x).trans (first.resume x)
      others := ?_
      sublist := second.sublist.trans first.sublist
      spared := ?_
      marked := ?_
      ahead := ?_ }
  · intro x outside
    rw [List.mem_cons, not_or] at outside
    exact (roused x outside.1).trans (second.others x outside.2)
  · intro x live spared
    have live₁ : x ∈ k₁.pcbTable := by
      refine first.spared x live (spared.imp_left fun outside => ?_)
      rw [List.mem_cons, not_or] at outside
      simpa using outside.1
    by_cases inside : x ∈ rest
    · rcases spared with outside | caught
      · exact absurd (List.mem_cons_of_mem h inside) outside
      · exact second.spared x live₁ (.inr ((roused x (apart x inside)).caught.mpr caught))
    · exact second.spared x live₁ (.inl inside)
  · intro x inside live
    rcases List.mem_cons.mp inside with rfl | later
    · have before := second.sublist.subset live
      have marked := first.marked x (by simp) before
      rw [(second.others x fresh).eq (by simp [marked])]
      exact marked
    · exact second.marked x later live
  · intro rem caught here
    have next := first.ahead rem (fun x inside met => ?_) here
    · rw [← first.current] at next ⊢
      refine second.ahead rem (fun x inside met => ?_) next
      exact (roused x (apart x inside)).caught.mpr (caught x (by simp [inside]) met)
    · obtain rfl : x = h := by simpa using inside
      exact caught x (by simp) met

/-- The invariant is kept. -/
theorem ok (kills : Kills cpu victim hs k k') (ok : KernelOk cpu k) (small : cpu < ncpu) :
    KernelOk cpu k' := Changes.ok ok small kills.changes

end Kills

/-- One round of the loop of `do_kill`. -/
theorem killThread_kills (victim : Option Nat) (ok : KernelOk env.cpu k) (small : env.cpu < ncpu)
    {h : PcbRef} (alive : h ∈ k.pcbTable) (user : ncpu ≤ h) (why : (k.pcb h).Doomed victim)
    (mine : k.current env.cpu = h → (k.pcb h).Caught) :
    Meets accepted (killThread env h) k fun _ => Kills env.cpu victim [h] k := by
  unfold killThread
  rw [meets_get_bind]
  refine meets_ite (fun idle => ?_) (fun runs => ?_)
  · have notCaught : ¬ (k.pcb h).Caught := by
      rintro (runs | exits)
      · exact idle.1 runs
      · exact idle.2 exits
    have left : h ≠ k.current env.cpu := fun same => notCaught (mine same.symm)
    have away := ok.toSchedOk.not_current idle.1 idle.2 left
    have why' : victim = some (k.pcb h).pid ∨ (k.pcb h).status = .exited ∨
        (k.pcb h).status = .zombie := by
      rcases why with killed | exited | zombie | exits
      · exact .inl killed
      · exact .inr (.inl exited)
      · exact .inr (.inr zombie)
      · exact absurd exits idle.2
    exact (threadKill_removes victim ok small alive user idle.1 away why').mono
      fun _ _ removes => .of_removes ok.toSchedOk removes notCaught
  · have caught : (k.pcb h).Caught := by
      unfold Pcb.Caught
      tauto
    refine .of_mark alive caught user ?_
    rcases why with killed | exited | zombie | exits
    · exact .inl killed
    · simp [Pcb.Caught, exited] at caught
    · simp [Pcb.Caught, zombie] at caught
    · exact .inr exits

/-- `do_kill` goes through the threads it has found. -/
theorem killThreads_kills (victim : Option Nat) (small : env.cpu < ncpu) :
    ∀ (hs : List PcbRef) (k : Kernel), KernelOk env.cpu k → hs.Nodup →
      (∀ h ∈ hs, h ∈ k.pcbTable ∧ ncpu ≤ h) → (∀ h ∈ hs, (k.pcb h).Doomed victim) →
      (∀ h ∈ hs, k.current env.cpu = h → (k.pcb h).Caught) →
      Meets accepted (killThreads env hs) k fun _ => Kills env.cpu victim hs k := by
  -- Killing one thread leaves the others as they are, but for those it wakes.
  intro hs
  induction hs with
  | nil => exact fun k _ _ _ _ _ => Kills.nil env.cpu victim k
  | cons h rest ih =>
    intro k ok nodup live doomed mine
    obtain ⟨fresh, nodup'⟩ := List.nodup_cons.mp nodup
    obtain ⟨alive, user⟩ := live h (by simp)
    unfold killThreads
    refine Meets.bind (killThread_kills victim ok small alive user (doomed h (by simp))
      (mine h (by simp))) ?_
    rintro _ k₁ first
    have outside : ∀ x ∈ rest, x ∉ [h] := by
      intro x inside same
      obtain rfl : x = h := by simpa using same
      exact fresh inside
    have roused := fun x inside => first.others x (outside x inside)
    refine (ih k₁ (first.ok ok small) nodup' ?_ ?_ ?_).mono fun _ _ second =>
      first.cons second fresh
    · intro x inside
      obtain ⟨before, user'⟩ := live x (by simp [inside])
      exact ⟨first.spared x before (.inl (outside x inside)), user'⟩
    · exact fun x inside => (roused x inside).doomed (doomed x (by simp [inside]))
    · intro x inside here
      rw [first.current] at here
      exact (roused x inside).caught.mpr (mine x (by simp [inside]) here)

/-! ## Processes that are created -/

/-- There is always an unused identifier when there is room in the table. -/
theorem allocPid_isSome (room : k.pcbTable.length < uprocMax + ncpu) : k.allocPid.isSome := by
  by_contra none
  -- Otherwise all identifiers would be in use, and there are more of them than entries.
  have used : List.range' ncpu (2 * uprocMax + 1 - ncpu) ⊆ k.pcbTable.map fun h => (k.pcb h).pid := by
    intro pid inside
    have searched : k.allocPid = Option.none := by simpa using none
    have taken := List.find?_eq_none.mp searched pid inside
    cases found : k.pcbSearch pid with
    | none => simp [found] at taken
    | some h =>
      have same := List.find?_some found
      exact List.mem_map.mpr ⟨h, List.mem_of_find?_eq_some found, by simpa using same⟩
  have short := (List.subperm_of_subset List.nodup_range' used).length_le
  rw [List.length_range', List.length_map] at short
  have few := Nat.lt_of_le_of_lt short room
  exact absurd few (by decide)

/-- An unused identifier is no idle process's, and nobody has it. -/
theorem allocPid_unused {pid : Nat} (found : k.allocPid = some pid) :
    ncpu ≤ pid ∧ ∀ h ∈ k.pcbTable, (k.pcb h).pid ≠ pid := by
  have inside := List.mem_of_find?_eq_some found
  have unused := List.find?_some found
  refine ⟨by simp only [List.mem_range'_1] at inside; exact inside.1, ?_⟩
  intro h live same
  have absent : k.pcbSearch pid = none := by simpa using unused
  have := List.find?_eq_none.mp absent h live
  simp [same] at this

/-- `create_proc` has added a process under an unused identifier. -/
structure Created (k : Kernel) (pid cpuMask : Nat) (k' : Kernel) : Prop where
  /-- There was room for it. -/
  room : k.pcbTable.length < uprocMax + ncpu
  /-- It is no idle process. -/
  user : ncpu ≤ pid
  /-- Nobody had its identifier. -/
  unused : ∀ h ∈ k.pcbTable, (k.pcb h).pid ≠ pid
  /-- It is the only new one. -/
  added : k' = k.addPcb pid 0 cpuMask

/-- There is room and memory for another process. -/
def canCreate (env : Env) (k : Kernel) : Bool :=
  decide (k.pcbTable.length < uprocMax + ncpu) && env.heap

/-- `create_proc` adds a process, or does nothing. -/
theorem meets_createProc (cpuMask : Nat) :
    Meets accepted (createProc env cpuMask) k fun made k' =>
      (made = none ∧ k' = k ∧ canCreate env k = false) ∨
        ∃ pid, made = some pid ∧ Created k pid cpuMask k' ∧ canCreate env k = true := by
  unfold createProc
  rw [meets_get_bind]
  refine meets_ite (fun full => .inl ⟨rfl, rfl, ?_⟩) (fun full => ?_)
  · simp [canCreate, Nat.not_lt.mpr full]
  have room := Nat.not_le.mp full
  obtain ⟨pid, found⟩ := Option.isSome_iff_exists.mp (allocPid_isSome room)
  obtain ⟨user, unused⟩ := allocPid_unused found
  simp only [found]
  refine meets_ite (fun heap => ?_) (fun noHeap => .inl ⟨rfl, rfl, ?_⟩)
  · exact .inr ⟨pid, rfl, ⟨room, user, unused, rfl⟩, by simp [canCreate, room, heap]⟩
  · simpa [canCreate, room] using noHeap

/-- The creation of a process as a change. -/
theorem Created.change {pid cpuMask : Nat} (created : Created k pid cpuMask k') :
    Change cpu victim k k' := by
  obtain ⟨room, user, unused, rfl⟩ := created
  exact .sched (.create cpuMask room user (fun h live same => absurd same (unused h live))
    fun h live same => absurd same (unused h live))

/-- A list is as it was, or has one more member behind its head. -/
inductive Longer (extra : PcbRef → Prop) : List PcbRef → List PcbRef → Prop
  /-- It is as it was. -/
  | same (rem : List PcbRef) : Longer extra rem rem
  /-- There is one more member. -/
  | more {new : PcbRef} (x : PcbRef) (front back : List PcbRef) (allowed : extra new) :
      Longer extra (x :: (front ++ back)) (x :: (front ++ new :: back))

/-- A new process is met last but for those in front of the current one, if at all. -/
theorem Ahead.append (ok : SchedOk acting k) (small : cpu < ncpu) {new : PcbRef}
    {extra : PcbRef → Prop} (allowed : extra new)
    (ready : k'.queue .ready = k.queue .ready ++ [new]) {rem : List PcbRef}
    (here : Ahead k (k.current cpu) rem) :
    ∃ rem', Ahead k' (k.current cpu) rem' ∧ Longer extra rem rem' := by
  obtain ⟨walked, around⟩ := here
  obtain ⟨before, behind, was, is⟩ :=
    ringAfter_append (ok.queueNodup .ready) (ok.currentReady cpu small) new
  rw [around] at was
  unfold Ahead
  rw [ready, is]
  rcases List.append_eq_append_iff.mp was with ⟨gap, beforeIs, remIs⟩ | ⟨gap, walkedIs, behindIs⟩
  · cases gap with
    | nil => exact ⟨rem, ⟨before ++ [new], by simp at remIs; simp [remIs]⟩, .same rem⟩
    | cons x gap =>
      refine ⟨x :: (gap ++ new :: behind), ⟨walked, by simp [beforeIs]⟩, ?_⟩
      rw [remIs]
      exact .more x gap behind allowed
  · refine ⟨rem, ⟨before ++ new :: gap, by simp [behindIs]⟩, .same rem⟩

/-- The killer goes on; there may be one more process. -/
structure Grows (cpu : Nat) (victim : Option Nat) (k k' : Kernel) : Prop where
  /-- The changes made. -/
  changes : Changes cpu victim k k'
  /-- Spin locks that were acquired are released. -/
  slock : k'.slock = k.slock
  /-- No processor switches. -/
  current : k'.current = k.current
  /-- What happens to the PCBs there were. -/
  pcb : ∀ h < k.newPcb, (k.pcb h).Roused (k'.pcb h)
  /-- Nobody ends. -/
  kept : ∀ h ∈ k.pcbTable, h ∈ k'.pcbTable
  /-- Those that will be met still will, and perhaps the new one. -/
  ahead : ∀ rem, Ahead k (k.current cpu) rem → ∃ rem', Ahead k' (k.current cpu) rem' ∧
    Longer (fun new => (k'.pcb new).status = .ready) rem rem'

/-- When the killer goes on alone, nothing grows. -/
theorem Keeps.grows (keeps : Keeps cpu victim k k') : Grows cpu victim k k' :=
  ⟨keeps.changes, keeps.slock, keeps.current, fun h _ => keeps.pcb h,
    fun _ live => keeps.pcbTable ▸ live, fun rem here => ⟨rem, keeps.ahead rem here, .same rem⟩⟩

/-- The killer goes on, and then there may be one more process. -/
theorem Grows.after (keeps : Keeps cpu victim k k₁) (grows : Grows cpu victim k₁ k') :
    Grows cpu victim k k' where
  changes := keeps.changes.trans grows.changes
  slock := grows.slock.trans keeps.slock
  current := grows.current.trans keeps.current
  pcb := fun h old => (keeps.pcb h).trans (grows.pcb h (by rw [keeps.newPcb]; exact old))
  kept := fun h live => grows.kept h (by rw [keeps.pcbTable]; exact live)
  ahead := by
    intro rem here
    have next := keeps.ahead rem here
    rw [← keeps.current] at next ⊢
    exact grows.ahead rem next

/-- A process is created. -/
theorem Created.grows {pid cpuMask : Nat} (created : Created k pid cpuMask k')
    (ok : KernelOk cpu k) (small : cpu < ncpu) : Grows cpu victim k k' := by
  have change : Change cpu victim k k' := created.change
  obtain ⟨room, user, unused, rfl⟩ := created
  refine ⟨.single change, rfl, rfl, ?_, fun h live => List.mem_append_left _ live, ?_⟩
  · intro h old
    exact .inl (k.addPcb_other pid 0 cpuMask (Nat.ne_of_lt old))
  · intro rem here
    have ready : (k.addPcb pid 0 cpuMask).queue .ready = k.queue .ready ++ [k.newPcb] := by
      simp [Kernel.addPcb]
    exact here.append ok.toSchedOk small (by simp [Kernel.addPcb]) ready

/-- The mask of a process that was just created may be changed. -/
theorem Created.setMask {pid cpuMask : Nat} (created : Created k pid cpuMask k₁) (mask : Nat) :
    ∀ h < k.newPcb, (k₁.setMask pid mask).pcb h = k₁.pcb h := by
  obtain ⟨room, user, unused, rfl⟩ := created
  intro h old
  have differ : h ≠ k.newPcb := Nat.ne_of_lt old
  refine if_neg fun inside => ?_
  obtain ⟨live, same⟩ := List.mem_filter.mp inside
  have older : h ∈ k.pcbTable := by simpa [Kernel.addPcb, differ] using live
  rw [k.addPcb_other pid 0 cpuMask differ] at same
  exact unused h older (by simpa using same)

/-- `start_glush` creates one process, or none. -/
theorem startGlush_grows (victim : Option Nat) (ok : KernelOk env.cpu k) (small : env.cpu < ncpu) :
    Meets accepted (startGlush env) k fun _ => Grows env.cpu victim k := by
  unfold startGlush
  rw [meets_get_bind]
  refine Meets.bind (meets_createProc _) ?_
  rintro _ k₁ (⟨rfl, rfl, -⟩ | ⟨pid, rfl, created, -⟩)
  · exact Keeps.grows (.of_change (.sched (.glush none)) (.objects rfl rfl rfl rfl rfl rfl))
  · have grows : Grows env.cpu victim k k₁ := created.grows ok small
    have same := created.setMask allCpus
    have masked : Changes env.cpu victim k (k₁.setMask pid allCpus) :=
      grows.changes.tail (.sched (.mask allCpus created.user))
    refine ⟨masked.tail (.sched (.glush (some pid))), grows.slock, grows.current, ?_, grows.kept, ?_⟩
    · intro h old
      show (k.pcb h).Roused ((k₁.setMask pid allCpus).pcb h)
      rw [same h old]
      exact grows.pcb h old
    · intro rem here
      obtain ⟨rem', there, longer⟩ := grows.ahead rem here
      refine ⟨rem', there, ?_⟩
      have status := k₁.setMask_field pid allCpus Pcb.status fun _ _ => rfl
      cases longer with
      | same => exact .same rem
      | more x front back allowed => exact .more x front back ((status _).trans allowed)

/-- A process that has ended holds no lock any more. -/
theorem holder_terminated (i pid : Nat) (history : List Note) :
    holder i (.terminated pid :: history) ≠ some pid := by
  unfold holder
  by_cases held : holder i history = some pid
  · simp [held]
  · rw [if_neg held]
    exact held

/-- The end of `do_kill` gives back what a process has held, once its last thread is gone. -/
theorem finishKill_grows (victim : Option Nat) (ok : KernelOk env.cpu k)
    (small : env.cpu < ncpu) (pid : Nat) :
    Meets (Stops k.slock) (finishKill env pid) k fun _ => Grows env.cpu victim k := by
  unfold finishKill
  rw [meets_get_bind]
  refine meets_ite (fun gone => ?_) (fun _ => (Keeps.refl env.cpu victim k).grows)
  have noted : Keeps env.cpu victim k (k.note (.terminated pid)) :=
    .of_change (.sched (.terminated gone)) (.objects rfl rfl rfl rfl rfl rfl)
  have silent : ∀ i, holder i (k.note (.terminated pid)).history ≠ some pid :=
    fun i => holder_terminated i pid k.history
  rw [meets_noteDone]
  refine Meets.bind (ressReleaseKilled_keeps victim (noted.ok ok small) small silent) ?_
  intro _ k₁ released
  have keeps := noted.trans released
  rw [meets_get_bind]
  refine meets_ite (fun _ => ?_) (fun _ => keeps.grows)
  exact (startGlush_grows victim (keeps.ok ok small) small).mono fun _ _ grows => .after keeps grows

/-! ## The scheduler -/

/-- How long the scheduler may still go around. -/
def weight (k : Kernel) (rem : List PcbRef) : Nat :=
  rem.length + (rem.filter fun h => (k.pcb h).status = .exited).length

/-- The scheduler has gone around. -/
structure Scans (cpu : Nat) (victim : Option Nat) (switched : Bool) (k k' : Kernel) : Prop where
  /-- The changes made. -/
  changes : Changes cpu victim k k'
  /-- Spin locks that were acquired are released. -/
  slock : k'.slock = k.slock
  /-- The process that was switched to runs. -/
  runs : switched = true → (k'.cur cpu).status = .running
  /-- Otherwise the idle process goes on. -/
  stays : switched = false → k'.current = k.current ∧ k'.cur cpu = k.cur cpu ∧ k.current cpu = cpu

/-- Before it goes around, the scheduler may reap a process. -/
theorem Scans.after {switched : Bool} (changes : Changes cpu victim k k₁)
    (slock : k₁.slock = k.slock) (current : k₁.current = k.current) (cur : k₁.cur cpu = k.cur cpu)
    (scans : Scans cpu victim switched k₁ k') : Scans cpu victim switched k k' where
  changes := changes.trans scans.changes
  slock := scans.slock.trans slock
  runs := scans.runs
  stays := by
    intro back
    obtain ⟨current', cur', idle⟩ := scans.stays back
    exact ⟨current'.trans current, cur'.trans cur, by rw [← current]; exact idle⟩

/-- What the scheduler switches to runs. -/
theorem Kernel.switchTo_cur (k : Kernel) (cpu : Nat) (p : PcbRef) :
    ((k.switchTo cpu p).cur cpu).status = .running := by
  unfold Kernel.cur Kernel.switchTo Kernel.setStatus
  split <;> simp [Kernel.setPcb]

/-- The head of what is still to be met is in the ready queue, and its successor is known. -/
theorem Ahead.head (ok : SchedOk acting k) (small : cpu < ncpu) {p : PcbRef} {rest : List PcbRef}
    (here : Ahead k (k.current cpu) (p :: rest)) :
    p ∈ k.queue .ready ∧ p ≠ k.current cpu ∧ p ∉ rest ∧
      ringNext (k.queue .ready) p = rest.headD (k.current cpu) ∧
      Ahead k (k.current cpu) rest := by
  obtain ⟨walked, around⟩ := here
  have nodup := ok.queueNodup .ready
  have member := ok.currentReady cpu small
  have inside : p ∈ ringAfter (k.queue .ready) (k.current cpu) := by simp [around]
  obtain ⟨queued, differ⟩ := (mem_ringAfter nodup member).mp inside
  have once := nodup_ringAfter nodup member
  rw [around] at once
  refine ⟨queued, differ, ?_, ringNext_of_walk nodup member around, walked ++ [p], by simp [around]⟩
  exact (List.nodup_cons.mp (List.nodup_append.mp once).2.1).1

/-- What is still to be met is alive, and does not sleep. -/
theorem Ahead.mem (ok : SchedOk acting k) (small : cpu < ncpu) {rem : List PcbRef}
    (here : Ahead k (k.current cpu) rem) {x : PcbRef} (inside : x ∈ rem) :
    x ∈ k.pcbTable ∧ (k.pcb x).status ≠ .sleeping := by
  obtain ⟨walked, around⟩ := here
  have met : x ∈ ringAfter (k.queue .ready) (k.current cpu) := by simp [around, inside]
  have queued := ((mem_ringAfter (ok.queueNodup .ready) (ok.currentReady cpu small)).mp met).1
  exact ⟨(ok.queueLive _ x queued).1, ok.awake_of_ready queued⟩

/-- An exited process is killed for good, and what is still to be met hardly changes. -/
theorem killOther_reaps (victim : Option Nat) (ok : KernelOk env.cpu k) (small : env.cpu < ncpu)
    (stays : (k.cur env.cpu).status ≠ .exiting) {p : PcbRef} {rest : List PcbRef}
    (here : Ahead k (k.current env.cpu) (p :: rest)) (exited : (k.pcb p).status = .exited) :
    (k.pcb p).pid ≠ (k.cur env.cpu).pid ∧
    Meets (Stops k.slock) (killOther env (k.pcb p).pid) k fun killed k' => killed = true ∧
      Changes env.cpu victim k k' ∧ k'.slock = k.slock ∧ k'.current = k.current ∧
      k'.cur env.cpu = k.cur env.cpu ∧ ∃ rest', Ahead k' (k.current env.cpu) rest' ∧
        rest'.headD (k.current env.cpu) = rest.headD (k.current env.cpu) ∧
        (∀ x ∈ rest, x ∈ rest') ∧ weight k' rest' ≤ weight k rest + 1 := by
  have sched := ok.toSchedOk
  obtain ⟨queued, differ, later, -, here'⟩ := here.head sched small
  have live := (sched.queueLive _ p queued).1
  have mine := sched.currentLive small
  have alone := sched.exitedAlone p live exited
  have foreign : (k.pcb p).pid ≠ (k.cur env.cpu).pid := fun same =>
    stays (alone _ mine same.symm differ.symm)
  refine ⟨foreign, ?_⟩
  have user : ncpu ≤ p := by
    by_contra low
    rcases sched.idleStatus p (Nat.not_le.mp low) with runs | ready
    · simp [exited] at runs
    · simp [exited] at ready
  have found : p ∈ k.pcbSearchAll (k.pcb p).pid := List.mem_filter.mpr ⟨live, by simp⟩
  have threads : ∀ h ∈ k.pcbSearchAll (k.pcb p).pid, h ∈ k.pcbTable ∧ (k.pcb h).pid = (k.pcb p).pid :=
    fun h inside => ⟨(List.mem_filter.mp inside).1, by simpa using (List.mem_filter.mp inside).2⟩
  have high := sched.userPid p live user
  have marked : ∀ h ∈ k.pcbSearchAll (k.pcb p).pid, h ≠ p → (k.pcb h).status = .exiting :=
    fun h inside other => alone h (threads h inside).1 (threads h inside).2 other
  unfold killOther
  rw [meets_get_bind]
  rw [if_neg (by
    rintro (low | none)
    · exact absurd low (Nat.not_lt.mpr high)
    · rw [none] at found
      simp at found)]
  refine Meets.bind (killThreads_kills victim small _ k ok (sched.tableNodup.filter _)
    ?_ ?_ ?_) ?_
  · intro h inside
    obtain ⟨alive, pid⟩ := threads h inside
    exact ⟨alive, sched.user_ge (by rw [pid]; exact high)⟩
  · intro h inside
    by_cases same : h = p
    · exact .inr (.inl (by rw [same]; exact exited))
    · exact .inr (.inr (.inr (marked h inside same)))
  · intro h inside same
    exact absurd ((threads h inside).2.symm.trans (by rw [← same]; rfl)) foreign
  intro _ k₁ kills
  rw [← kills.slock]
  refine Meets.bind (finishKill_grows victim (kills.ok ok small) small _) ?_
  intro _ k' grows
  have outside : k.current env.cpu ∉ k.pcbSearchAll (k.pcb p).pid := fun inside =>
    foreign (threads _ inside).2.symm
  have awake := sched.current_not_sleeping small
  -- Whoever is met later is as it was, or was marked before already.
  have same : ∀ x ∈ rest, (k'.pcb x).status = (k.pcb x).status := by
    intro x inside
    obtain ⟨alive, notAsleep⟩ := here'.mem sched small inside
    have old : x < k₁.newPcb := by rw [kills.newPcb]; exact sched.tableOld x alive
    by_cases thread : x ∈ k.pcbSearchAll (k.pcb p).pid
    · have other : x ≠ p := fun same => later (same ▸ inside)
      have before := marked x thread other
      have stillThere := kills.spared x alive (.inr (.inr before))
      have after := kills.marked x thread stillThere
      rw [(grows.pcb x old).eq (by simp [after]), after, before]
    · have first := (kills.others x thread).eq notAsleep
      have second := (grows.pcb x old).eq (by rw [first]; exact notAsleep)
      rw [second, first]
  have cur₁ : k₁.cur env.cpu = k.cur env.cpu := by
    unfold Kernel.cur
    rw [kills.current]
    exact (kills.others _ outside).eq awake
  have cur : k'.cur env.cpu = k.cur env.cpu := by
    rw [← cur₁]
    unfold Kernel.cur
    rw [grows.current]
    refine (grows.pcb _ ?_).eq ?_
    · rw [kills.current, kills.newPcb]
      exact sched.tableOld _ mine
    · show (k₁.cur env.cpu).status ≠ _
      rw [cur₁]
      exact awake
  have ahead₁ := kills.ahead rest (fun x thread inside => .inr (marked x thread fun same =>
    later (same ▸ inside))) here'
  rw [← kills.current] at ahead₁
  obtain ⟨rest', ahead, longer⟩ := grows.ahead rest ahead₁
  refine ⟨rfl, kills.changes.trans grows.changes, grows.slock,
    grows.current.trans kills.current, cur, rest', by rw [← kills.current]; exact ahead, ?_⟩
  have exits : ∀ list : List PcbRef, (∀ x ∈ list, x ∈ rest) →
      list.filter (fun h => (k'.pcb h).status = .exited) =
        list.filter fun h => (k.pcb h).status = .exited := by
    intro list within
    refine List.filter_congr fun x inside => ?_
    rw [same x (within x inside)]
  cases longer with
  | same =>
    refine ⟨rfl, fun x inside => inside, ?_⟩
    unfold weight
    rw [exits rest fun _ inside => inside]
    exact Nat.le_succ _
  | @more new x front back allowed =>
    refine ⟨rfl, fun y inside => ?_, ?_⟩
    · simp only [List.mem_cons, List.mem_append] at inside ⊢
      tauto
    · have none : ((k'.pcb new).status = .exited) = False := by
        rw [eq_iff_iff, iff_false]
        simp [allowed]
      have split := exits (x :: (front ++ back)) fun _ inside => inside
      unfold weight
      rw [← split]
      simp only [List.filter_cons, List.filter_append, none, decide_false, List.length_cons,
        List.length_append]
      split <;> simp <;> omega

/-- The loop of `do_scheduler` ends, because it reaps more PCBs than it finds new ones. -/
theorem scanReady_scans (victim : Option Nat) (small : env.cpu < ncpu) : ∀ (fuel : Nat) (k : Kernel)
    (rem : List PcbRef), KernelOk env.cpu k → (k.cur env.cpu).status ≠ .exiting →
      Ahead k (k.current env.cpu) rem → weight k rem < fuel →
      (env.cpu ∈ rem ∨ k.current env.cpu = env.cpu) →
      Meets (Stops k.slock)
        (scanReady env (k.current env.cpu) fuel (rem.headD (k.current env.cpu))) k
        fun switched => Scans env.cpu victim switched k := by
  -- The induction is on the fuel; each round takes the head off what is still to be met.
  intro fuel
  induction fuel with
  | zero => exact fun k rem _ _ _ less _ => absurd less (Nat.not_lt_zero _)
  | succ fuel ih =>
    intro k rem ok stays here less idle
    have sched := ok.toSchedOk
    unfold scanReady
    cases rem with
    | nil =>
      rw [List.headD_nil, if_pos rfl, meets_pure]
      have own : k.current env.cpu = env.cpu := by simpa using idle
      exact ⟨.refl, rfl, by simp, fun _ => ⟨rfl, rfl, own⟩⟩
    | cons p rest =>
      obtain ⟨queued, differ, later, next, here'⟩ := here.head sched small
      rw [List.headD_cons, if_neg differ, meets_get_bind, next, if_neg (by simpa using queued)]
      have shorter : weight k rest ≤ weight k (p :: rest) - 1 := by
        unfold weight
        simp only [List.filter_cons, List.length_cons]
        split <;> simp
      refine meets_ite (fun runnable => ?_) (fun unfit => ?_)
      · rw [meets_set_bind]
        refine ⟨.single (.sched (.switch queued runnable stays)), ?_, fun _ =>
          k.switchTo_cur env.cpu p, by simp⟩
        unfold Kernel.switchTo
        split <;> rfl
      -- The idle process would have been runnable.
      have idle' : env.cpu ∈ rest ∨ k.current env.cpu = env.cpu := by
        rcases idle with inside | own
        · rcases List.mem_cons.mp inside with rfl | inside
          · refine absurd (sched.idle_runnable small ?_) unfit
            by_contra low
            have low := Nat.not_le.mp low
            exact differ (sched.idleOwn _ low env.cpu small rfl)
          · exact .inl inside
        · exact .inr own
      have positive : 0 < weight k (p :: rest) := by simp [weight]
      refine meets_ite (fun exited => ?_) (fun _ => ?_)
      · obtain ⟨foreign, reaps⟩ := killOther_reaps victim ok small stays here exited
        refine meets_ite (fun same => absurd same foreign) (fun _ => ?_)
        refine Meets.bind reaps ?_
        rintro _ k' ⟨rfl, changes, slock, current, cur, rest', ahead, head, kept, light⟩
        rw [if_pos rfl, ← head, ← current, ← slock]
        rw [← current] at ahead
        have heavier : weight k rest + 2 ≤ weight k (p :: rest) := by
          simp [weight, exited]
          omega
        refine (ih k' rest' (Changes.ok ok small changes) (by rw [cur]; exact stays) ahead
          (by omega) ?_).mono fun _ _ scans => scans.after changes slock current cur
        rw [current]
        exact idle'.imp_left (kept _)
      refine meets_ite (fun zombie => ?_) (fun _ => ?_)
      · obtain ⟨live, -⟩ := here.mem sched small (x := p) (by simp)
        have user : ncpu ≤ p := by
          by_contra low
          rcases sched.idleStatus p (Nat.not_le.mp low) with runs | ready
          · simp [zombie] at runs
          · simp [zombie] at ready
        have away := sched.not_current (h := p) (by simp [zombie]) (by simp [zombie]) differ
        refine Meets.bind (threadKill_removes victim ok small live user
          (by simp [zombie]) away (.inr (.inr zombie))) ?_
        intro _ k' removes
        have ok' := Changes.ok ok small removes.changes
        have cur : k'.cur env.cpu = k.cur env.cpu := by
          unfold Kernel.cur
          rw [removes.current]
          exact (removes.pcb _).eq (sched.current_not_sleeping small)
        have same : ∀ x ∈ rest, (k'.pcb x).status = (k.pcb x).status := fun x inside => by
          rw [(removes.pcb x).eq (here'.mem sched small inside).2]
        have light : weight k' rest = weight k rest := by
          unfold weight
          rw [List.filter_congr fun x inside => by rw [same x inside]]
        have ahead := removes.ahead rest later here'
        rw [← removes.current] at ahead
        rw [← removes.current, ← removes.slock]
        refine (ih k' rest ok' (by rw [cur]; exact stays) ahead (by omega) ?_).mono
          fun _ _ scans => scans.after removes.changes removes.slock removes.current cur
        rw [removes.current]
        exact idle'
      · exact ih k rest ok stays here' (by omega) idle'

/-- `do_scheduler` switches, or the idle process goes on. -/
theorem doScheduler_scans (victim : Option Nat) (ok : KernelOk env.cpu k) (small : env.cpu < ncpu)
    (stays : (k.cur env.cpu).status ≠ .exiting) :
    Meets (Stops k.slock) (doScheduler env) k fun switched => Scans env.cpu victim switched k := by
  unfold doScheduler
  refine Meets.bind (checkSleeping_keeps victim ok small) ?_
  intro _ k₁ keeps₁
  refine Meets.bind (checkSleepingOnNic_keeps victim (keeps₁.ok ok small) small) ?_
  intro _ k₂ keeps₂
  have keeps := keeps₁.trans keeps₂
  have ok₂ := keeps.ok ok small
  have sched := ok₂.toSchedOk
  have cur := keeps.cur ok.toSchedOk small
  rw [meets_get_bind, ← keeps.slock]
  have inside := sched.currentReady env.cpu small
  have length := length_ringAfter (sched.queueNodup .ready) inside
  have few : weight k₂ (ringAfter (k₂.queue .ready) (k₂.current env.cpu)) <
      2 * (k₂.queue .ready).length + 1 := by
    have exits := List.length_filter_le (fun h => decide ((k₂.pcb h).status = .exited))
      (ringAfter (k₂.queue .ready) (k₂.current env.cpu))
    unfold weight
    omega
  have idle : env.cpu ∈ ringAfter (k₂.queue .ready) (k₂.current env.cpu) ∨
      k₂.current env.cpu = env.cpu := by
    by_cases own : k₂.current env.cpu = env.cpu
    · exact .inr own
    · exact .inl ((mem_ringAfter (sched.queueNodup .ready) inside).mpr
        ⟨sched.idle_queued small, Ne.symm own⟩)
  refine Meets.bind (scanReady_scans victim small _ k₂ _ ok₂ (by rw [cur]; exact stays)
    ⟨[], rfl⟩ few idle) ?_
  intro switched k' scans
  have whole := scans.after keeps.changes keeps.slock keeps.current cur
  cases switched with
  | true => exact whole
  | false =>
    obtain ⟨current, same, own⟩ := whole.stays rfl
    simp only [Bool.false_eq_true, if_false, meets_get_bind]
    refine meets_stopIf_bind (fun high => ?_) fun _ => whole
    rw [same] at high
    unfold Kernel.cur at high
    rw [own, ok.idlePid env.cpu small] at high
    exact absurd small (Nat.not_lt.mpr high)

/-! ## The end of the current process -/

/-- The spin locks after a call, whose copy loop may have broken. -/
def slockAfter (k : Kernel) : Option Nat → SpinLock → Bool
  | none => k.slock
  | some i => Function.update k.slock (.mailbox i) true

/-- How a call of the current process ends: it goes on, or another process runs. -/
structure Ends (cpu : Nat) (victim broken : Option Nat) (k : Kernel) (out : Out) (k' : Kernel) :
    Prop where
  /-- The changes made. -/
  changes : Deeds cpu victim broken k k'
  /-- The spin locks afterwards. -/
  slock : k'.slock = slockAfter k broken
  /-- The process that runs afterwards. -/
  process : (k'.current = k.current ∧ (k'.cur cpu).status = (k.cur cpu).status ∧
      (k'.cur cpu).resume = (k.cur cpu).resume) ∨
    ((∀ value, out ≠ .returned value) ∧ (k'.cur cpu).status = .running)
  /-- The process that was killed is not blocked. -/
  awake : Awake victim k'

/-- A process that makes a call. -/
structure Caller (cpu : Nat) (k : Kernel) : Prop where
  /-- The invariant holds. -/
  ok : KernelOk cpu k
  /-- There is such a processor. -/
  small : cpu < ncpu
  /-- It runs. -/
  runs : (k.cur cpu).status = .running
  /-- It is no idle process. -/
  user : ncpu ≤ k.current cpu
  /-- It waits for no mutex lock. -/
  locking : ∀ i, (k.cur cpu).resume ≠ .mutexAcquire i

/-- When nobody is killed, nobody has to be awake. -/
theorem Awake.none (k : Kernel) : Awake none k := by
  intro h _ killed
  simp at killed

/-- The current process goes on. -/
theorem Keeps.ends (keeps : Keeps cpu none k k') (ok : SchedOk cpu k) (small : cpu < ncpu)
    (out : Out) : Ends cpu none none k out k' := by
  have same := keeps.cur ok small
  exact ⟨keeps.changes, keeps.slock, .inl ⟨keeps.current, by rw [same], by rw [same]⟩, .none k'⟩

/-- The current process has left its processor, and another one runs. -/
structure Leaves (cpu : Nat) (victim : Option Nat) (k : Kernel) (out : Out) (k' : Kernel) :
    Prop where
  /-- The changes made. -/
  changes : Changes cpu victim k k'
  /-- Spin locks that were acquired are released. -/
  slock : k'.slock = k.slock
  /-- The call does not return. -/
  out : out = .exited
  /-- Another process runs. -/
  runs : (k'.cur cpu).status = .running
  /-- The process that was killed is not blocked. -/
  awake : Awake victim k'

/-- Leaving is one way for a call to end. -/
theorem Leaves.ends {out : Out} (leaves : Leaves cpu victim k out k') :
    Ends cpu victim none k out k' :=
  ⟨leaves.changes, leaves.slock, .inr ⟨by simp [leaves.out], leaves.runs⟩, leaves.awake⟩

/-- A process that leaves its processor never comes back. -/
theorem leave_leaves (victim : Option Nat) (ok : KernelOk env.cpu k) (small : env.cpu < ncpu)
    (user : ncpu ≤ k.current env.cpu) {status : TaskStatus}
    (goal : status = .exited ∧ (∀ h' ∈ k.pcbTable, (k.pcb h').pid = (k.cur env.cpu).pid →
        h' ≠ k.current env.cpu → (k.pcb h').status = .exiting) ∨
      status = .zombie ∧ (k.cur env.cpu).status = .running)
    (locking : ∀ i, (k.cur env.cpu).resume ≠ .mutexAcquire i) (awake : Awake victim k) :
    Meets (Stops k.slock) (leave env status) k (Leaves env.cpu victim k) := by
  have change : Change env.cpu victim k (k.setStatus (k.current env.cpu) status) :=
    .sched (.leave user goal locking)
  have ok' := change.ok ok small
  have left : ((k.setStatus (k.current env.cpu) status).cur env.cpu).status = status := by
    unfold Kernel.cur Kernel.setStatus
    exact congrArg Pcb.status (Kernel.setPcb_same k _ _)
  have stays : ((k.setStatus (k.current env.cpu) status).cur env.cpu).status ≠ .exiting := by
    rw [left]
    rcases goal with ⟨rfl, -⟩ | ⟨rfl, -⟩ <;> simp
  unfold leave
  rw [meets_modify_bind]
  refine Meets.bind (doScheduler_scans victim ok' small stays) ?_
  intro switched k' scans
  cases switched with
  | true =>
    have changes := Relation.ReflTransGen.head change scans.changes
    exact ⟨changes, scans.slock, rfl, scans.runs rfl, Changes.awake ok small awake changes⟩
  | false =>
    -- Only the idle process stays current, and it never leaves.
    obtain ⟨-, -, own⟩ := scans.stays rfl
    have own : k.current env.cpu = env.cpu := own
    rw [own] at user
    exact absurd small (Nat.not_lt.mpr user)

/-- The threads of a process are killed. -/
theorem killThreads_all (ok : KernelOk env.cpu k) (small : env.cpu < ncpu) {pid : Nat}
    (user : ncpu ≤ pid) (caught : (k.cur env.cpu).Caught) :
    Meets accepted (killThreads env (k.pcbSearchAll pid)) k fun _ k' =>
      Kills env.cpu (some pid) (k.pcbSearchAll pid) k k' ∧
        ∀ h ∈ k'.pcbTable, (k'.pcb h).pid = pid → (k'.pcb h).status = .exiting := by
  have threads : ∀ h, h ∈ k.pcbSearchAll pid ↔ h ∈ k.pcbTable ∧ (k.pcb h).pid = pid := by
    intro h
    unfold Kernel.pcbSearchAll
    simp
  refine (killThreads_kills (some pid) small _ k ok (ok.tableNodup.filter _) ?_ ?_ ?_).mono ?_
  · intro h inside
    obtain ⟨live, same⟩ := (threads h).mp inside
    exact ⟨live, ok.toSchedOk.user_ge (by rw [same]; exact user)⟩
  · intro h inside
    exact .inl (by rw [((threads h).mp inside).2])
  · rintro h inside rfl
    exact caught
  · intro _ k' kills
    refine ⟨kills, fun h live same => ?_⟩
    rw [kills.pid] at same
    exact kills.marked h ((threads h).mpr ⟨kills.sublist.subset live, same⟩) live

/-- `do_kill` kills all threads of a process. -/
theorem doKill_ends (ok : KernelOk env.cpu k) (small : env.cpu < ncpu)
    (user : ncpu ≤ k.current env.cpu) (caught : (k.cur env.cpu).Caught)
    (locking : ∀ i, (k.cur env.cpu).resume ≠ .mutexAcquire i) (pid : Int) :
    Meets (Stops k.slock) (doKill env pid) k (Ends env.cpu (some pid.toNat) none k) := by
  unfold doKill
  rw [meets_get_bind]
  refine meets_ite (fun absent => ?_) (fun there => ?_)
  · refine ⟨.refl, rfl, .inl ⟨rfl, rfl, rfl⟩, ?_⟩
    -- Nobody has this identifier, unless it is an idle process, which does not sleep.
    intro h live same
    have same := Option.some.inj same
    rcases absent with low | none
    · have idle := ok.toSchedOk.eq_idle live (by omega)
      rcases ok.idleStatus h idle with runs | ready
      · simp [runs]
      · simp [ready]
    · have found : h ∈ k.pcbSearchAll pid.toNat := List.mem_filter.mpr ⟨live, by simp [same]⟩
      rw [none] at found
      simp at found
  rw [not_or] at there
  have high : ncpu ≤ pid.toNat := by omega
  have awake : ∀ k₁, (∀ h ∈ k₁.pcbTable, (k₁.pcb h).pid = pid.toNat →
      (k₁.pcb h).status = .exiting) → Awake (some pid.toNat) k₁ := by
    intro k₁ marked h live same
    rw [marked h live (Option.some.inj same).symm]
    simp
  refine meets_ite (fun mine => ?_) (fun foreign => ?_)
  · refine Meets.bind (killThreads_all ok small high caught) ?_
    rintro _ k₁ ⟨kills, marked⟩
    have samePid : (k₁.cur env.cpu).pid = pid.toNat := by
      unfold Kernel.cur
      rw [kills.pid, kills.current]
      exact mine
    have sameResume : (k₁.cur env.cpu).resume = (k.cur env.cpu).resume := by
      unfold Kernel.cur
      rw [kills.resume, kills.current]
    rw [← kills.slock]
    refine (leave_leaves (some pid.toNat) (kills.ok ok small) small (by rw [kills.current]; exact user)
      (.inl ⟨rfl, fun h live same _ => marked h live (same.trans samePid)⟩)
      (by rw [sameResume]; exact locking) (awake k₁ marked)).mono ?_
    intro out k' leaves
    exact ⟨kills.changes.trans leaves.changes, leaves.slock.trans kills.slock,
      .inr ⟨by simp [leaves.out], leaves.runs⟩, leaves.awake⟩
  · refine Meets.bind (killThreads_all ok small high caught) ?_
    rintro _ k₁ ⟨kills, marked⟩
    have ok₁ := kills.ok ok small
    rw [← kills.slock]
    refine Meets.bind (finishKill_grows (some pid.toNat) ok₁ small pid.toNat) ?_
    intro _ k' grows
    have outside : k.current env.cpu ∉ k.pcbSearchAll pid.toNat := by
      intro inside
      have same := (List.mem_filter.mp inside).2
      exact foreign (of_decide_eq_true same)
    have notAsleep := ok.toSchedOk.current_not_sleeping small
    have first := (kills.others _ outside).eq notAsleep
    have old : k.current env.cpu < k₁.newPcb := by
      rw [kills.newPcb]
      exact ok.tableOld _ (ok.toSchedOk.currentLive small)
    have second := (grows.pcb _ old).eq (by rw [first]; exact notAsleep)
    have cur : k'.cur env.cpu = k.cur env.cpu := by
      unfold Kernel.cur
      rw [grows.current, kills.current, second, first]
    exact ⟨kills.changes.trans grows.changes, grows.slock.trans kills.slock,
      .inl ⟨grows.current.trans kills.current, by rw [cur], by rw [cur]⟩,
      Changes.awake ok₁ small (awake k₁ marked) grows.changes⟩

/-- `do_exit` kills the current process. -/
theorem doExit_ends (ok : KernelOk env.cpu k) (small : env.cpu < ncpu)
    (user : ncpu ≤ k.current env.cpu) (caught : (k.cur env.cpu).Caught)
    (locking : ∀ i, (k.cur env.cpu).resume ≠ .mutexAcquire i) :
    Meets (Stops k.slock) (doExit env) k (Ends env.cpu (some (k.cur env.cpu).pid) none k) := by
  unfold doExit
  rw [meets_get_bind]
  exact doKill_ends ok small user caught locking _

/-- `do_thread_exit` ends the process with its main thread only. -/
theorem doThreadExit_ends (caller : Caller env.cpu k) :
    Meets (Stops k.slock) (doThreadExit env) k (Ends env.cpu
      (if (k.cur env.cpu).tid = 0 then some (k.cur env.cpu).pid else none) none k) := by
  obtain ⟨ok, small, runs, user, locking⟩ := caller
  unfold doThreadExit
  rw [meets_get_bind]
  refine meets_ite (fun main => ?_) (fun child => ?_)
  · rw [if_pos main]
    exact doExit_ends ok small user (.inl runs) locking
  · rw [if_neg child]
    exact (leave_leaves none ok small user (.inr ⟨rfl, runs⟩) locking (.none k)).mono
      fun _ _ leaves => leaves.ends

end Kill

end GlucOS.Sched
