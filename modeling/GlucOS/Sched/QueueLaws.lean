import GlucOS.Sched.PcbListLaws
import GlucOS.Sched.Safety

/-! Every PCB is linked in one circular list, and nothing follows the link of a freed one. -/

namespace GlucOS.Sched

open Routine

/-- The links and head pointers in memory are those of the queues. -/
structure Linking (m : Links) (k : Kernel) : Prop where
  /-- Every queue is a circular list, which its head pointer points into. -/
  lists : ∀ q, Linked m.next (m.head q) (k.queue q)
  /-- Every PCB knows its queue. -/
  phead : ∀ h ∈ k.pcbTable, m.phead h = (k.pcb h).phead

section

variable {acting cpu : Nat} {k k₁ k' : Kernel} {m m' : Links} {q : QueueRef} {h : PcbRef}
  {ring ring' : List PcbRef} {head' : Option PcbRef} {queue : QueueRef → List PcbRef}

/-- No loop over a queue takes longer than the loops over lists may. -/
theorem SchedOk.length_queue (ok : SchedOk acting k) (q : QueueRef) :
    (k.queue q).length ≤ maxNodes := by
  have inside : k.queue q ⊆ k.pcbTable := fun h queued => (ok.queueLive q h queued).1
  exact ((ok.queueNodup q).subperm inside).length_le.trans ok.tableRoom

/-- A PCB is in one queue only. -/
theorem SchedOk.queue_unique (ok : SchedOk acting k) {q' : QueueRef} (here : h ∈ k.queue q)
    (there : h ∈ k.queue q') : q = q' :=
  (ok.queueLive q h here).2.symm.trans (ok.queueLive q' h there).2

/-- An operation on one list leaves the other queues alone. -/
theorem lists_update (lists : ∀ q, Linked m.next (m.head q) (queue q))
    (spares : Links.Spares m m' ring) (apart : ∀ q' ≠ q, ∀ x ∈ queue q', x ∉ ring)
    (linked : Linked m'.next head' ring') (q' : QueueRef) :
    Linked (m'.setHead q head').next ((m'.setHead q head').head q')
      (Function.update queue q ring' q') := by
  show Linked m'.next (Function.update m'.head q head' q') _
  by_cases same : q' = q
  · subst same
    rw [Function.update_self, Function.update_self]
    exact linked
  · rw [Function.update_of_ne same, Function.update_of_ne same, spares.head]
    exact (lists q').congr fun x inside => spares.next x (apart q' same x inside)

/-- When queues and `phead` are kept, so is what the links say. -/
theorem Linking.same (linking : Linking m k) (queue : k'.queue = k.queue)
    (pcbTable : k'.pcbTable = k.pcbTable) (phead : ∀ h, (k'.pcb h).phead = (k.pcb h).phead) :
    Linking m k' where
  lists := by rw [queue]; exact linking.lists
  phead := by
    intro h live
    rw [phead]
    exact linking.phead h (pcbTable ▸ live)

/-- Once a PCB has left its queue, the other queues share no PCB with it and its goal. -/
theorem SchedOk.apart_moved (ok : SchedOk acting k) (queued : h ∈ k.queue q) (goal : QueueRef) :
    ∀ q' ≠ goal, ∀ x ∈ Function.update k.queue q ((k.queue q).erase h) q',
      x ∉ h :: k.queue goal := by
  intro q' other x inside there
  have old : x ∈ k.queue q' := by
    by_cases here : q' = q
    · rw [here, Function.update_self] at inside
      exact here ▸ List.mem_of_mem_erase inside
    · rwa [Function.update_of_ne here] at inside
  cases List.mem_cons.mp there with
  | inl same =>
    subst same
    have here : q' = q := ok.queue_unique old queued
    rw [here, Function.update_self] at inside
    exact (ok.queueNodup q).not_mem_erase inside
  | inr among => exact other (ok.queue_unique old among)

/-- Waking a process relinks it into the ready queue. -/
theorem Linking.wake (linking : Linking m k) (ok : SchedOk acting k) (small : cpu < ncpu)
    (queued : h ∈ k.queue q) (blocked : q ≠ .ready) :
    ∃ m', m.moveToReady q h (k.current cpu) = some m' ∧ Linking m' (k.wake cpu q h) := by
  obtain ⟨head, m₁, deleted, shorter, phead₁, spares₁⟩ :=
    Links.lpcbDelNode_spec (linking.lists q) (ok.length_queue q) queued
  have lists₁ := lists_update linking.lists spares₁
    (fun q' other x inside there => other (ok.queue_unique inside there)) shorter
  have ready : Function.update k.queue q ((k.queue q).erase h) .ready = k.queue .ready :=
    Function.update_of_ne (Ne.symm blocked) ..
  have fresh : h ∉ k.queue .ready := fun inside => blocked (ok.queue_unique queued inside)
  have linkedReady := lists₁ .ready
  rw [ready] at linkedReady
  obtain ⟨m₂, inserted, longer, phead₂, spares₂⟩ :=
    Links.lpcbInsertNode_after (q := .ready) linkedReady (ok.length_queue .ready) fresh
      (ok.currentReady cpu small)
  have present : (m₁.setHead q head).head .ready ≠ none := by
    rw [linkedReady.head]
    intro none
    have empty := List.head?_eq_none_iff.mp none
    have here := ok.currentReady cpu small
    rw [empty] at here
    cases here
  refine ⟨m₂.setHead .ready ((m₁.setHead q head).head .ready), ?_, ?_, ?_⟩
  · unfold Links.moveToReady
    simp only [deleted, Option.bind_eq_bind, Option.bind_some, ne_eq, not_true, if_false,
      inserted, if_neg present]
    rfl
  · exact lists_update lists₁ spares₂ (ok.apart_moved queued .ready) longer
  · intro x live
    show m₂.phead x = (Function.update k.pcb h _ x).phead
    rw [phead₂]
    by_cases same : x = h
    · subst same
      rw [Function.update_self, Function.update_self]
    · rw [Function.update_of_ne same, Function.update_of_ne same]
      show m₁.phead x = _
      rw [phead₁]
      exact linking.phead x live

/-- Blocking relinks the current process into a queue. -/
theorem Linking.blockOn (linking : Linking m k) (ok : SchedOk acting k) (small : cpu < ncpu)
    (blocked : q ≠ .ready) (resume : Resume) (p : PcbRef) :
    ∃ m', m.doBlock (k.current cpu) q = some m' ∧ Linking m' (k.blockOn cpu q resume p) := by
  have queued := ok.currentReady cpu small
  obtain ⟨head, m₁, deleted, shorter, phead₁, spares₁⟩ :=
    Links.lpcbDelNode_spec (linking.lists .ready) (ok.length_queue .ready) queued
  have lists₁ := lists_update linking.lists spares₁
    (fun q' other x inside there => other (ok.queue_unique inside there)) shorter
  have goal : Function.update k.queue .ready ((k.queue .ready).erase (k.current cpu)) q =
      k.queue q := Function.update_of_ne blocked ..
  have fresh : k.current cpu ∉ k.queue q := fun inside => blocked (ok.queue_unique inside queued)
  have linkedGoal := lists₁ q
  rw [goal] at linkedGoal
  obtain ⟨head', m₂, inserted, present, longer, phead₂, spares₂⟩ :=
    Links.lpcbInsertNode_tail (q := q) linkedGoal (ok.length_queue q) fresh
  refine ⟨m₂.setHead q head', ?_, ?_, ?_⟩
  · unfold Links.doBlock
    simp only [deleted, Option.bind_eq_bind, Option.bind_some, ne_eq, not_true, if_false,
      inserted, if_neg present]
    rfl
  · exact lists_update lists₁ spares₂ (ok.apart_moved queued q) longer
  · intro x live
    show m₂.phead x = (Function.update (k.setStatus p .running).pcb (k.current cpu) _ x).phead
    rw [phead₂]
    by_cases same : x = k.current cpu
    · rw [same, Function.update_self, Function.update_self]
    · rw [Function.update_of_ne same, Function.update_of_ne same,
        Kernel.setStatus_field Pcb.phead (fun _ _ => rfl)]
      show m₁.phead x = _
      rw [phead₁]
      exact linking.phead x live

/-- Whether a PCB has the identifiers of another one, which `thread_kill` looks for. -/
def Kernel.sameTcb (k : Kernel) (p h : PcbRef) : Bool :=
  (k.pcb h).pid = (k.pcb p).pid ∧ (k.pcb h).tid = (k.pcb p).tid

/-- A thread that is freed is unlinked. -/
theorem Linking.drop (linking : Linking m k) (ok : SchedOk acting k) (live : h ∈ k.pcbTable) :
    ∃ m', m.threadKill (k.sameTcb h) h = some m' ∧ Linking m' (k.drop h) := by
  have queued := ok.queueHas h live
  have linked := linking.lists (k.pcb h).phead
  have small := ok.length_queue (k.pcb h).phead
  -- Nobody else has its identifiers, so that the search finds it.
  have found : (k.queue (k.pcb h).phead).find? (k.sameTcb h) = some h := by
    cases search : (k.queue (k.pcb h).phead).find? (k.sameTcb h) with
    | none =>
      have wrong := List.find?_eq_none.mp search h queued
      simp [Kernel.sameTcb] at wrong
    | some x =>
      have same : (k.pcb x).pid = (k.pcb h).pid ∧ (k.pcb x).tid = (k.pcb h).tid := by
        simpa [Kernel.sameTcb] using List.find?_some search
      have alive := (ok.queueLive _ x (List.mem_of_find?_eq_some search)).1
      rw [ok.unique x alive h live same.1 same.2]
  obtain ⟨head, m₁, deleted, shorter, phead₁, spares₁⟩ :=
    Links.lpcbDelNode_spec linked small queued
  refine ⟨m₁.setHead (k.pcb h).phead head, ?_, ?_, ?_⟩
  · unfold Links.threadKill
    simp only [linking.phead h live, Links.lpcbSearchNode_eq linked small, found, deleted,
      Option.bind_eq_bind, Option.bind_some, ne_eq, not_true, if_false, reduceCtorEq]
    rfl
  · exact lists_update linking.lists spares₁
      (fun q' other x inside there => other (ok.queue_unique inside there)) shorter
  · intro x alive
    show m₁.phead x = _
    rw [phead₁]
    exact linking.phead x (List.mem_of_mem_erase alive)

/-- A new PCB is linked into the ready queue. -/
theorem Linking.addPcb (linking : Linking m k) (ok : SchedOk acting k) (pid tid cpuMask : Nat) :
    ∃ m', m.addPcb k.newPcb = some m' ∧ Linking m' (k.addPcb pid tid cpuMask) := by
  have unused : k.newPcb ∉ k.pcbTable := fun live => absurd (ok.tableOld _ live) (lt_irrefl _)
  have fresh : ∀ q, k.newPcb ∉ k.queue q := fun q inside => unused (ok.queueLive q _ inside).1
  obtain ⟨head, m₁, added, longer, phead₁, spares₁⟩ :=
    Links.lpcbAddNodeToTail_spec (q := .ready) (linking.lists .ready) (ok.length_queue .ready)
      (fresh .ready)
  have lists₁ := lists_update linking.lists spares₁ (fun q' other x inside there => by
    cases List.mem_cons.mp there with
    | inl same => exact fresh q' (same ▸ inside)
    | inr among => exact other (ok.queue_unique inside among)) longer
  refine ⟨(m₁.setHead .ready head).setHead (.wait k.newPcb) none, ?_, fun q => ?_, ?_⟩
  · unfold Links.addPcb
    simp only [added, Option.bind_eq_bind, Option.bind_some]
    rfl
  · -- Nobody waits for the end of the new thread.
    have empty : Linked (m₁.setHead .ready head).next none [] := ⟨rfl, List.nodup_nil, by simp⟩
    have nothing : Links.Spares (m₁.setHead .ready head) (m₁.setHead .ready head) [] :=
      ⟨fun _ _ => rfl, rfl⟩
    have cleared := lists_update (q := .wait k.newPcb) lists₁ nothing (by simp) empty q
    rw [Function.update_comm (by simp)] at cleared
    exact cleared
  · intro x live
    show m₁.phead x = (Function.update k.pcb k.newPcb _ x).phead
    rw [phead₁]
    by_cases same : x = k.newPcb
    · rw [same, Function.update_self, Function.update_self]
    · rw [Function.update_of_ne same, Function.update_of_ne same]
      refine linking.phead x ?_
      simpa [Kernel.addPcb, same] using live

/-- A PCB that is linked for a process that cannot be created leaves no trace in the queues. -/
theorem Linking.createFails (linking : Linking m k) (ok : SchedOk acting k)
    (room : k.pcbTable.length < uprocMax + ncpu) :
    ∃ m₁ m', m.addPcb k.newPcb = some m₁ ∧ m₁.delPcb k.newPcb = some m' ∧ Linking m' k := by
  have unused : k.newPcb ∉ k.pcbTable := fun live => absurd (ok.tableOld _ live) (lt_irrefl _)
  have fresh : ∀ q, k.newPcb ∉ k.queue q := fun q inside => unused (ok.queueLive q _ inside).1
  have queueIs : (k.addPcb 0 0 0).queue .ready = k.queue .ready ++ [k.newPcb] := by
    simp [Kernel.addPcb]
  have others : ∀ q ≠ .ready, (k.addPcb 0 0 0).queue q = k.queue q := by
    intro q other
    show Function.update (Function.update k.queue (.wait k.newPcb) []) .ready _ q = _
    rw [Function.update_of_ne other]
    by_cases wait : q = .wait k.newPcb
    · rw [wait, Function.update_self, ok.waitLive _ unused]
    · rw [Function.update_of_ne wait]
  obtain ⟨m₁, added, linking₁⟩ := linking.addPcb ok 0 0 0
  have ready := linking₁.lists .ready
  rw [queueIs] at ready
  have small : (k.queue .ready ++ [k.newPcb]).length ≤ maxNodes := by
    have inside : k.queue .ready ⊆ k.pcbTable := fun h queued => (ok.queueLive _ h queued).1
    have shorter := ((ok.queueNodup .ready).subperm inside).length_le
    rw [List.length_append]
    exact Nat.succ_le_of_lt (lt_of_le_of_lt shorter room)
  obtain ⟨head, m₂, deleted, linked, phead₂, spares⟩ :=
    Links.lpcbDelNode_spec ready small (t := k.newPcb) (by simp)
  have erased : (k.queue .ready ++ [k.newPcb]).erase k.newPcb = k.queue .ready := by
    rw [List.erase_append_right _ (fresh .ready), List.erase_cons_head, List.append_nil]
  rw [erased] at linked
  refine ⟨m₁, m₂.setHead .ready head, added, ?_, fun q => ?_, fun h live => ?_⟩
  · unfold Links.delPcb
    simp only [deleted, Option.bind_eq_bind, Option.bind_some, ne_eq, not_true, if_false]
    rfl
  · have apart : ∀ q ≠ .ready, ∀ x ∈ (k.addPcb 0 0 0).queue q,
        x ∉ k.queue .ready ++ [k.newPcb] := by
      intro q other x inside there
      rw [others q other] at inside
      cases List.mem_append.mp there with
      | inl among => exact other (ok.queue_unique inside among)
      | inr same => exact fresh q (List.mem_singleton.mp same ▸ inside)
    have lists := lists_update linking₁.lists spares apart linked q
    by_cases here : q = .ready
    · rw [here, Function.update_self] at lists
      exact here ▸ lists
    · rw [Function.update_of_ne here, others q here] at lists
      exact lists
  · have old : h ≠ k.newPcb := fun same => unused (same ▸ live)
    show m₂.phead h = _
    rw [phead₂, linking₁.phead h (List.mem_append_left _ live)]
    exact congrArg Pcb.phead (k.addPcb_other 0 0 0 old)

end

/-! ## Runs -/

/-- One change of the queues, and what it does with the links. -/
inductive Relinks (cpu : Nat) : Kernel × Links → Kernel × Links → Prop
  /-- `wake_up` or `do_unblock`. -/
  | wake {k : Kernel} {m m' : Links} {q : QueueRef} {h : PcbRef} (queued : h ∈ k.queue q)
      (ran : m.moveToReady q h (k.current cpu) = some m') :
      Relinks cpu (k, m) (k.wake cpu q h, m')
  /-- `do_block`. -/
  | block {k : Kernel} {m m' : Links} {q : QueueRef} {p : PcbRef} (resume : Resume)
      (ran : m.doBlock (k.current cpu) q = some m') :
      Relinks cpu (k, m) (k.blockOn cpu q resume p, m')
  /-- `thread_kill`. -/
  | drop {k : Kernel} {m m' : Links} {h : PcbRef} (live : h ∈ k.pcbTable)
      (ran : m.threadKill (k.sameTcb h) h = some m') : Relinks cpu (k, m) (k.drop h, m')
  /-- A process or a thread is created. -/
  | create {k : Kernel} {m m' : Links} (pid tid cpuMask : Nat)
      (ran : m.addPcb k.newPcb = some m') : Relinks cpu (k, m) (k.addPcb pid tid cpuMask, m')
  /-- No queue changes. -/
  | same {k k' : Kernel} {m : Links} (queue : k'.queue = k.queue)
      (pcbTable : k'.pcbTable = k.pcbTable) (phead : ∀ h, (k'.pcb h).phead = (k.pcb h).phead) :
      Relinks cpu (k, m) (k', m)

/-- The links follow a change of the queues, and no loop or check of an operation fails. -/
def Follows (cpu : Nat) (k k' : Kernel) : Prop := ∀ m, Linking m k →
  ∃ m', Relation.ReflTransGen (Relinks cpu) (k, m) (k', m') ∧ Linking m' k'

section

variable {acting cpu : Nat} {victim : Option Nat} {k k₁ k' : Kernel} {q : QueueRef} {h : PcbRef}

/-- Nothing happens. -/
theorem Follows.refl (cpu : Nat) (k : Kernel) : Follows cpu k k := fun m linking =>
  ⟨m, .refl, linking⟩

/-- One thing after the other. -/
theorem Follows.trans (first : Follows cpu k k₁) (second : Follows cpu k₁ k') :
    Follows cpu k k' := by
  intro m linking
  obtain ⟨m₁, moves, between⟩ := first m linking
  obtain ⟨m', moves', after⟩ := second m₁ between
  exact ⟨m', moves.trans moves', after⟩

/-- No queue changes. -/
theorem Follows.same (cpu : Nat) (queue : k'.queue = k.queue)
    (pcbTable : k'.pcbTable = k.pcbTable) (phead : ∀ h, (k'.pcb h).phead = (k.pcb h).phead) :
    Follows cpu k k' := fun m linking =>
  ⟨m, .single (.same queue pcbTable phead), linking.same queue pcbTable phead⟩

/-- One PCB changes, but for its queue. -/
theorem Follows.setPcb (cpu : Nat) (k : Kernel) (h : PcbRef) (change : Pcb → Pcb)
    (phead : (change (k.pcb h)).phead = (k.pcb h).phead) : Follows cpu k (k.setPcb h change) :=
  .same cpu rfl rfl (Kernel.setPcb_field Pcb.phead k h change phead)

/-- A process is woken. -/
theorem Follows.wake (ok : SchedOk acting k) (small : cpu < ncpu) (queued : h ∈ k.queue q)
    (blocked : q ≠ .ready) : Follows cpu k (k.wake cpu q h) := by
  intro m linking
  obtain ⟨m', ran, after⟩ := linking.wake ok small queued blocked
  exact ⟨m', .single (.wake queued ran), after⟩

/-- The current process blocks. -/
theorem Follows.blockOn (ok : SchedOk acting k) (small : cpu < ncpu) (blocked : q ≠ .ready)
    (resume : Resume) (p : PcbRef) : Follows cpu k (k.blockOn cpu q resume p) := by
  intro m linking
  obtain ⟨m', ran, after⟩ := linking.blockOn ok small blocked resume p
  exact ⟨m', .single (.block resume ran), after⟩

/-- The heads of a queue are woken. -/
theorem Follows.wakes (small : cpu < ncpu) (blocked : q ≠ .ready) (wakes : Wakes cpu q k k')
    (ok : SchedOk cpu k) : Follows cpu k k' := by
  induction wakes with
  | refl k => exact .refl cpu k
  | head queued more ih =>
    have here := mem_of_head queued
    exact (Follows.wake ok small here blocked).trans (ih (ok.wake small here blocked))

/-- The scheduler switches. -/
theorem Follows.switchTo (k : Kernel) (p : PcbRef) : Follows cpu k (k.switchTo cpu p) := by
  have enters : ∀ left : Kernel, Follows cpu left
      { left.setStatus p .running with current := Function.update k.current cpu p } :=
    fun left => .same cpu rfl rfl (Kernel.setStatus_field Pcb.phead (fun _ _ => rfl) left p _)
  unfold Kernel.switchTo
  split
  · have leaves : Follows cpu k (k.setStatus (k.current cpu) .ready) := .setPcb cpu k _ _ rfl
    exact leaves.trans (enters _)
  · exact enters k

/-- The links follow the changes by scheduling. -/
theorem SchedChange.follows (ok : SchedOk cpu k) (small : cpu < ncpu)
    (change : SchedChange cpu victim k k') : Follows cpu k k' := by
  cases change with
  | wake queued plain => exact .wake ok small queued (QueueRef.ne_ready_of_plain plain)
  | drop live alone away user why =>
    intro m linking
    obtain ⟨m', ran, after⟩ := linking.drop ok live
    exact ⟨m', .single (.drop live ran), after⟩
  | exiting live runs user why => exact .setPcb cpu k _ _ rfl
  | leave user goal locking => exact .setPcb cpu k _ _ rfl
  | switch queued runnable stays => exact .switchTo k _
  | block resume plain can waited calm locking =>
    exact .blockOn ok small (QueueRef.ne_ready_of_plain plain) resume _
  | @create pid tid cpuMask room user fresh stays =>
    intro m linking
    obtain ⟨m', ran, after⟩ := linking.addPcb ok pid tid cpuMask
    exact ⟨m', .single (.create pid tid cpuMask ran), after⟩
  | mask cpuMask user =>
    exact .same cpu rfl rfl (Kernel.setMask_field k _ cpuMask Pcb.phead fun _ _ => rfl)
  | request wakeupTime reqLen => exact .setPcb cpu k _ _ rfl
  | finish done => exact .setPcb cpu k _ _ rfl
  | glush pid => exact .same cpu rfl rfl fun _ => rfl
  | terminated gone => exact .same cpu rfl rfl fun _ => rfl

/-- The links follow the changes around one mutex lock. -/
theorem MutexChange.follows {i : Nat} (ok : SchedOk cpu k) (small : cpu < ncpu)
    (change : MutexChange cpu victim i k k') : Follows cpu k k' := by
  cases change with
  | acquire free => exact .same cpu rfl rfl fun _ => rfl
  | block held foreign can calm locking => exact .blockOn ok small (by simp) _ _
  | releaseFree held own empty => exact .same cpu rfl rfl fun _ => rfl
  | @releaseWake h rest held own queued calm =>
    have unlocked : Follows cpu k (k.setMlock i { k.mlocks i with locked := false }) :=
      .same cpu rfl rfl fun _ => rfl
    have woken : Follows cpu (k.setMlock i { k.mlocks i with locked := false }) _ :=
      .wake (ok.setMlock i _) small (mem_of_head queued) (by simp)
    exact (unlocked.trans woken).trans (.same cpu rfl rfl fun _ => rfl)
  | killedFree silent held own empty => exact .same cpu rfl rfl fun _ => rfl
  | handOver silent held own queued =>
    exact (Follows.wake ok small (mem_of_head queued) (by simp)).trans
      (.same cpu rfl rfl fun _ => rfl)

/-- The links follow the changes around one semaphore. -/
theorem SemaphoreChange.follows {i : Nat} (ok : KernelOk cpu k) (small : cpu < ncpu)
    (change : SemaphoreChange cpu victim i k k') : Follows cpu k k' := by
  have sched := ok.toSchedOk
  have sets : ∀ sema, Follows cpu k (k.setSemaphore i sema) := fun _ =>
    .same cpu rfl rfl fun _ => rfl
  cases change with
  | init value fits closed =>
    -- The head pointer that is set to null has been null before.
    rw [Kernel.clearQueue_empty (ok.semaphoreClosed i closed)]
    exact .same cpu rfl rfl fun _ => rfl
  | upFree valid nonneg => exact .same cpu rfl rfl fun _ => rfl
  | upReset valid neg empty => exact .same cpu rfl rfl fun _ => rfl
  | upWake valid neg queued calm =>
    have counted := (sched.setSemaphore i
      { k.semaphores i with value := wrapInt32 ((k.semaphores i).value + 1) }).note (.semUp i)
    have counts : Follows cpu k ((k.setSemaphore i
        { k.semaphores i with value := wrapInt32 ((k.semaphores i).value + 1) }).note (.semUp i)) :=
      .same cpu rfl rfl fun _ => rfl
    have woken := counts.trans (.wake counted small (mem_of_head queued) (by simp))
    exact woken.trans (.same cpu rfl rfl fun _ => rfl)
  | pass valid nonneg => exact .same cpu rfl rfl fun _ => rfl
  | block valid neg can calm locking =>
    exact (sets _).trans (.blockOn (sched.setSemaphore i _) small (by simp) _ _)
  | close wakes empty =>
    exact (sets _).trans (.wakes small (by simp) wakes (sched.setSemaphore i _))

/-- The links follow the changes around one barrier. -/
theorem BarrierChange.follows {i : Nat} (ok : KernelOk cpu k) (small : cpu < ncpu)
    (change : BarrierChange cpu victim i k k') : Follows cpu k k' := by
  have sched := ok.toSchedOk
  have sets : ∀ barrier, Follows cpu k (k.setBarrier i barrier) := fun _ =>
    .same cpu rfl rfl fun _ => rfl
  cases change with
  | init goal closed =>
    rw [Kernel.clearQueue_empty (ok.barrierClosed i closed)]
    exact sets _
  | pass valid all calm wakes empty =>
    exact ((sets _).trans (.wakes small (by simp) wakes (sched.setBarrier i _))).trans
      (.same cpu rfl rfl fun _ => rfl)
  | block valid few can calm locking =>
    exact (sets _).trans (.blockOn (sched.setBarrier i _) small (by simp) _ _)
  | close wakes empty =>
    exact (sets _).trans (.wakes small (by simp) wakes (sched.setBarrier i _))

/-- The links follow the changes around one mailbox. -/
theorem MailboxChange.follows {i : Nat} (ok : KernelOk cpu k) (small : cpu < ncpu)
    (change : MailboxChange cpu victim i k k') : Follows cpu k k' := by
  have sched := ok.toSchedOk
  have sets : ∀ mbox, Follows cpu k (k.setMailbox i mbox) := fun _ =>
    .same cpu rfl rfl fun _ => rfl
  have asks : ∀ msgLength, Follows cpu k
      (k.setPcb (k.current cpu) fun pcb => { pcb with reqLen := msgLength }) := fun _ =>
    .setPcb cpu k _ _ rfl
  cases change with
  | opens closed =>
    rw [Kernel.clearQueue_empty (ok.recvClosed i closed),
      Kernel.clearQueue_empty (ok.sendClosed i closed)]
    exact .same cpu rfl rfl fun _ => rfl
  | close receivers senders noReceivers noSenders =>
    have set := sched.setMailbox i { k.mailboxes i with opid := none }
    have between := (Frame.wakes (ofMailbox i) none small (by simp) (.inl (.inr rfl)) receivers
      set).1
    exact ((sets _).trans (.wakes small (by simp) receivers set)).trans
      (.wakes small (by simp) senders between)
  | @blockSend p msgLength resume valid full can calm locking =>
    exact (asks msgLength).trans
      (.blockOn (sched.setReqLen (k.current cpu) msgLength) small (by simp) _ _)
  | @blockRecv p msgLength resume valid empty can calm locking =>
    exact (asks msgLength).trans
      (.blockOn (sched.setReqLen (k.current cpu) msgLength) small (by simp) _ _)
  | sent valid entered calm wakes stopped =>
    exact ((sets _).trans (.wakes small (by simp) wakes (sched.setMailbox i _))).trans
      (.same cpu rfl rfl fun _ => rfl)
  | received valid departed calm wakes empty =>
    exact ((sets _).trans (.wakes small (by simp) wakes (sched.setMailbox i _))).trans
      (.same cpu rfl rfl fun _ => rfl)

/-- The links follow every change. -/
theorem Change.follows (ok : KernelOk cpu k) (small : cpu < ncpu)
    (change : Change cpu victim k k') : Follows cpu k k' := by
  cases change with
  | spin slock => exact .same cpu rfl rfl fun _ => rfl
  | sched change => exact change.follows ok.toSchedOk small
  | mutex change => exact change.follows ok.toSchedOk small
  | semaphore change => exact change.follows ok small
  | barrier change => exact change.follows ok small
  | mailbox change => exact change.follows ok small

/-- The links follow the changes of an event. -/
theorem Deeds.follows {broken : Option Nat} (ok : KernelOk cpu k) (small : cpu < ncpu)
    (deeds : Deeds cpu victim broken k k') : Follows cpu k k' := by
  have base : (fun k' => Follows cpu k k') k := .refl cpu k
  refine (Deeds.invariant small ?_ ?_ ok base deeds).2
  · exact fun k₁ k₂ ok change before => before.trans (change.follows ok small)
  · exact fun k₁ i mbox _ _ before => before.trans (.same cpu rfl rfl fun _ => rfl)

end

/-- A run of the machine with its links, which are set up and changed as the kernel does. -/
inductive LinkedRun (timeMaxSec : Nat) : Kernel → Links → Prop
  /-- Before the first event. -/
  | start {m : Links} (linked : Links.initial = some m) :
      LinkedRun timeMaxSec (initial timeMaxSec) m
  /-- One more event. -/
  | step {k k' : Kernel} {m m' : Links} {event : Event} {out : Out}
      (run : LinkedRun timeMaxSec k m) (ran : step event k = .ok (out, k'))
      (moves : Relation.ReflTransGen (Relinks event.env.cpu) (k, m) (k', m')) :
      LinkedRun timeMaxSec k' m'

/-- Every PCB is in one queue, the links are right, and no check of a queue fails. -/
structure QueueSafe (k : Kernel) (m : Links) : Prop where
  /-- Every queue is a circular list without duplicates, which its head pointer points into. -/
  lists : ∀ q, Linked m.next (m.head q) (k.queue q)
  /-- Every live PCB is in one of them, which its `phead` points to. -/
  member : ∀ h ∈ k.pcbTable, ∀ q, h ∈ k.queue q ↔ m.phead h = q
  /-- Only live PCBs are queued. -/
  live : ∀ q, ∀ h ∈ k.queue q, h ∈ k.pcbTable
  /-- The wait queues in use are those of live PCBs. -/
  waited : ∀ x, k.queue (.wait x) ≠ [] → x ∈ k.pcbTable
  /-- A live PCB has one entry of the table. -/
  table : k.pcbTable.Nodup
  /-- No event follows the link of a PCB that was freed. -/
  follows : ∀ event, step event k ≠ .error .dangling
  /-- No event fails a check of a queue or of the table. -/
  checks : ∀ event check, step event k = .error (.panic check) → check = .semaphoreQueue

/-- The idle processes are linked. -/
theorem initPcb_linking (timeMaxSec : Nat) :
    ∃ m, Links.initPcb = some m ∧ Linking m (initPcb timeMaxSec) := by
  refine ⟨_, rfl, fun q => ?_, fun h live => ?_⟩
  · by_cases here : q = .ready
    · -- The two of them are linked to each other.
      subst here
      refine ⟨rfl, (by decide : (List.range ncpu).Nodup), fun a first => ?_⟩
      obtain rfl : 0 = a := Option.some.inj first
      exact ⟨rfl, rfl, trivial⟩
    · have empty : (initPcb timeMaxSec).queue q = [] := if_neg here
      rw [empty]
      refine ⟨?_, List.nodup_nil, by simp⟩
      exact (Function.update_of_ne here ..).trans (Function.update_of_ne here ..)
  · have low : h ∈ [0, 1] := live
    rcases List.mem_pair.mp low with rfl | rfl <;> rfl

/-- The links that the machine starts with. -/
theorem initial_linking (timeMaxSec : Nat) :
    ∃ m, Links.initial = some m ∧ Linking m (initial timeMaxSec) := by
  obtain ⟨m, idle, linking⟩ := initPcb_linking timeMaxSec
  obtain ⟨m', added, linking'⟩ :=
    linking.addPcb (initPcb_ok 0 timeMaxSec).toSchedOk ncpu 0 allCpus
  refine ⟨m', ?_, linking'.same rfl rfl fun _ => rfl⟩
  unfold Links.initial
  rw [idle]
  exact added

/-- Whatever happens, the links follow. -/
theorem reaches_linked {timeMaxSec : Nat} {k : Kernel}
    (reached : Reaches step (fun _ _ => True) (initial timeMaxSec) k) :
    ∃ m, LinkedRun timeMaxSec k m ∧ Linking m k := by
  induction reached with
  | start =>
    obtain ⟨m, linked, linking⟩ := initial_linking timeMaxSec
    exact ⟨m, .start linked, linking⟩
  | @step state next event out before _ ran ih =>
    obtain ⟨m, run, linking⟩ := ih
    have resting := reaches_resting before
    have steps := steps_of_ran resting ran
    have enabled : Enabled state event := by
      by_contra disabled
      rw [step_disabled disabled] at ran
      cases ran
    have acts := enabled.acts resting
    obtain ⟨m', moves, after⟩ := steps.changes.follows acts.1 enabled.1 m linking
    exact ⟨m', .step run ran moves, after⟩

/-- In every reachable state each PCB is linked once, and only where its `phead` says. -/
theorem queues_safe (timeMaxSec : Nat) (k : Kernel)
    (reached : Reaches step (fun _ _ => True) (initial timeMaxSec) k) :
    ∃ m, LinkedRun timeMaxSec k m ∧ QueueSafe k m := by
  obtain ⟨m, run, linking⟩ := reaches_linked reached
  have resting := reaches_resting reached
  have ⟨_, rests⟩ := resting
  have ok := rests.ok.toSchedOk
  refine ⟨m, run, linking.lists, fun h live q => ?_, fun q h queued => (ok.queueLive q h queued).1,
    fun x used => ?_, ok.tableNodup, fun event stopped => ?_,
    fun event check stopped => step_panics resting stopped⟩
  · rw [linking.phead h live, ok.mem_queue]
    exact and_iff_right live
  · by_contra freed
    exact used (ok.waitLive x freed)
  · by_cases enabled : Enabled k event
    · cases (step_steps resting enabled).of_error stopped with
      | inl spins => exact spins
      | inr panics => cases panics.1
    · rw [step_disabled enabled] at stopped
      cases stopped

/-- A run in which a process is killed while it runs, and the links that follow it. -/
theorem queues_safe_killRun : ∃ k m, runEvents step (initial 100) killRun = some k ∧
    LinkedRun 100 k m ∧ QueueSafe k m := by
  have possible : (runEvents step (initial 100) killRun).isSome := by decide +kernel
  obtain ⟨k, ran⟩ := Option.isSome_iff_exists.mp possible
  obtain ⟨m, run, safe⟩ := queues_safe 100 k (.of_events ran)
  exact ⟨k, m, ran, run, safe⟩

end GlucOS.Sched
