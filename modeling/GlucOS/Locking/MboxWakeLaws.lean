import GlucOS.Locking.MboxLaws

/-! No request that a mailbox can meet is left asleep at the head of its queue. -/

namespace GlucOS.Sched

open Routine

namespace Mailbox

variable {mbox mbox' : Mailbox}

/-- A message that is entered makes the buffer longer. -/
theorem lenOfQueue_enterAll {bytes : List UInt8} (ring : mbox.RingOk)
    (entered : mbox.enterAll bytes = some mbox') :
    mbox'.lenOfQueue = mbox.lenOfQueue + bytes.length := by
  have longer := congrArg List.length (contents_enterAll ring entered)
  simpa using longer

/-- Bytes that are taken out make the buffer shorter. -/
theorem lenOfQueue_departAll {length : Nat} {bytes : List UInt8} (ring : mbox.RingOk)
    (departed : mbox.departAll length = some (bytes, mbox')) :
    mbox'.lenOfQueue ≤ mbox.lenOfQueue := by
  have shorter := congrArg List.length (contents_departAll ring departed)
  rw [List.length_append, length_contents, length_contents] at shorter
  omega

end Mailbox

/-- A process that was woken from a mailbox, and will test again whether it can go on. -/
def Kernel.Due (k : Kernel) (i : Nat) (w : PcbRef) : Prop :=
  w ∈ k.queue .ready ∧ ((k.pcb w).status = .ready ∨ (k.pcb w).status = .running) ∧
    ∃ msg msgLength blockYmr, (k.pcb w).resume = .mboxSend i msg msgLength blockYmr ∨
      (k.pcb w).resume = .mboxRecv i msg msgLength blockYmr

/-- The first process in a queue asks for no more than there is. -/
def Kernel.HeadFits (k : Kernel) (queue : List PcbRef) (there : Nat) : Prop :=
  ∃ h ∈ queue.head?, (k.pcb h).reqLen ≤ there

/-- No wake-up is lost: whoever heads a queue and can be served is awaited by somebody woken. -/
def MailboxPrompt (i : Nat) (k : Kernel) : Prop :=
  (k.mailboxes i).opid ≠ none →
    k.HeadFits (k.queue (.mboxRecv i)) (k.mailboxes i).lenOfQueue ∨
      k.HeadFits (k.queue (.mboxSend i)) (maxMboxLength - (k.mailboxes i).lenOfQueue) →
    ∃ w, k.Due i w

/-- During an event, of those that it does not kill, nobody heads a queue who could be served. -/
def MailboxSettled (i : Nat) (victim : Option Nat) (k : Kernel) : Prop :=
  (k.mailboxes i).opid ≠ none →
    ¬ k.HeadFits (k.waiting victim (.mboxRecv i)) (k.mailboxes i).lenOfQueue ∧
      ¬ k.HeadFits (k.waiting victim (.mboxSend i)) (maxMboxLength - (k.mailboxes i).lenOfQueue)

/-- A kill takes the head off a queue, and the next process could be served, but is not woken. -/
def ExposesIn (k : Kernel) (victim : Option Nat) (q : QueueRef) (there : Nat) : Prop :=
  (∃ h ∈ (k.queue q).head?, victim = some (k.pcb h).pid) ∧ k.HeadFits (k.waiting victim q) there

/-- An event does this in a queue of an open mailbox. -/
def Exposes (k : Kernel) (event : Event) : Prop :=
  ∃ i, (k.mailboxes i).opid ≠ none ∧
    (ExposesIn k (victim k event) (.mboxRecv i) (k.mailboxes i).lenOfQueue ∨
      ExposesIn k (victim k event) (.mboxSend i) (maxMboxLength - (k.mailboxes i).lenOfQueue))

section

variable {cpu i : Nat} {victim : Option Nat} {own : QueueRef → Prop} {k k' : Kernel}
  {q any : QueueRef} {queue queue' : List PcbRef} {there there' : Nat}

/-- Waking from one queue leaves the other queues alone. -/
theorem Wakes.queue_other (wakes : Wakes cpu q k k') (blocked : any ≠ .ready) (differ : any ≠ q) :
    k'.queue any = k.queue any := by
  induction wakes with
  | refl k => rfl
  | head queued more ih => exact ih.trans (Kernel.wake_other _ cpu _ blocked differ)

/-- Waking leaves what was asked for. -/
theorem Wakes.reqLen (wakes : Wakes cpu q k k') (h : PcbRef) :
    (k'.pcb h).reqLen = (k.pcb h).reqLen := by
  induction wakes with
  | refl k => rfl
  | @head k k' x rest queued more ih =>
    refine ih.trans ?_
    by_cases same : h = x
    · rw [same, Kernel.wake_pcb_same]
    · rw [Kernel.wake_pcb_other cpu q same]

/-- An empty queue has no head. -/
theorem Kernel.not_headFits_of_empty (empty : k.queue q = []) :
    ¬ k.HeadFits (k.waiting victim q) there := by
  intro head
  obtain ⟨h, first, -⟩ := head
  rw [Kernel.waiting_nil empty] at first
  cases first

/-- Whoever heads a queue still cannot be served when there is no more than before. -/
theorem Kernel.not_headFits (before : ¬ k.HeadFits queue there) (same : queue' = queue)
    (reqLen : ∀ h ∈ queue, (k'.pcb h).reqLen = (k.pcb h).reqLen) (fewer : there' ≤ there) :
    ¬ k'.HeadFits queue' there' := by
  rintro ⟨h, first, fits⟩
  rw [same] at first
  refine before ⟨h, first, ?_⟩
  rw [← reqLen h (List.mem_of_mem_head? first)]
  exact fits.trans fewer

/-- When no kill exposes the next process, nobody heads a queue who could be served. -/
theorem Kernel.not_headFits_waiting (before : ¬ k.HeadFits (k.queue q) there)
    (spares : ¬ ExposesIn k victim q there) : ¬ k.HeadFits (k.waiting victim q) there := by
  intro head
  by_cases killed : ∃ h ∈ (k.queue q).head?, victim = some (k.pcb h).pid
  · exact spares ⟨killed, head⟩
  · -- The head of the queue goes on waiting.
    obtain ⟨h, first, fits⟩ := head
    cases queued : k.queue q with
    | nil =>
      rw [Kernel.waiting_nil queued] at first
      cases first
    | cons x rest =>
      have stays : victim ≠ some (k.pcb x).pid := fun same => killed ⟨x, by simp [queued], same⟩
      have front : k.waiting victim q = x :: rest.filter fun h => victim ≠ some (k.pcb h).pid := by
        unfold Kernel.waiting
        rw [queued, List.filter_cons_of_pos (by simpa using stays)]
      rw [front] at first
      refine before ⟨x, by simp [queued], ?_⟩
      obtain rfl : x = h := by simpa using first
      exact fits

/-- A change that spares a mailbox spares those that wait for it. -/
theorem MailboxSettled.frame (settled : MailboxSettled i victim k)
    (frame : Frame own victim k k') (foreign : ¬ own (.mboxSend i) ∧ ¬ own (.mboxRecv i)) :
    MailboxSettled i victim k' := by
  have asks : ∀ q, q ≠ .ready → q.plain = false → ¬ own q → ∀ h ∈ k.waiting victim q,
      (k'.pcb h).reqLen = (k.pcb h).reqLen := by
    intro q blocked object outside h inside
    rw [← frame.waiting q blocked object outside] at inside
    exact (frame.request q blocked object outside h (List.mem_of_mem_filter inside)).2
  intro valid
  rw [frame.mailboxes i foreign.1] at valid ⊢
  obtain ⟨recv, send⟩ := settled valid
  exact ⟨Kernel.not_headFits recv (frame.waiting _ (by simp) rfl foreign.2)
      (asks _ (by simp) rfl foreign.2) le_rfl,
    Kernel.not_headFits send (frame.waiting _ (by simp) rfl foreign.1)
      (asks _ (by simp) rfl foreign.1) le_rfl⟩

/-- Whoever blocks leaves what the others have asked for. -/
theorem Kernel.blockOn_asks_other (k : Kernel) (cpu : Nat) (q : QueueRef) (resume : Resume)
    (p : PcbRef) (msgLength : Nat) {h : PcbRef} (differ : h ≠ k.current cpu) :
    (((k.setPcb (k.current cpu) fun pcb => { pcb with reqLen := msgLength }).blockOn cpu q
      resume p).pcb h).reqLen = (k.pcb h).reqLen := by
  set asks := k.setPcb (k.current cpu) fun pcb => { pcb with reqLen := msgLength } with asksIs
  have same : (asks.pcb h).reqLen = (k.pcb h).reqLen := by
    rw [asksIs, Kernel.setPcb_other k _ differ]
  exact ((asks.blockOn_other cpu q resume p differ).2).trans same

/-- Whoever blocks asks for more than there is, and so does whoever was in front. -/
theorem Kernel.not_headFits_blockOn {resume : Resume} {p : PcbRef} {msgLength : Nat}
    (outside : k.current cpu ∉ k.queue q) (before : ¬ k.HeadFits (k.queue q) there)
    (few : there < msgLength) :
    ¬ (((k.setPcb (k.current cpu) fun pcb => { pcb with reqLen := msgLength }).blockOn cpu q
      resume p).HeadFits (k.queue q ++ [k.current cpu]) there) := by
  set asks := k.setPcb (k.current cpu) fun pcb => { pcb with reqLen := msgLength }
  rintro ⟨h, first, fits⟩
  cases queued : k.queue q with
  | nil =>
    -- It is the first one itself.
    obtain rfl : h = k.current cpu := by
      rw [queued] at first
      simpa using first.symm
    have same := (asks.blockOn_self cpu q resume p).2
    have length : (asks.cur cpu).reqLen = msgLength := by
      simp [asks, Kernel.cur, Kernel.setPcb]
    have fits' : (asks.cur cpu).reqLen ≤ there := same ▸ fits
    rw [length] at fits'
    exact absurd fits' (Nat.not_le.mpr few)
  | cons x rest =>
    obtain rfl : h = x := by
      rw [queued] at first
      simpa using first.symm
    have inside : h ∈ k.queue q := by simp [queued]
    have differ : h ≠ k.current cpu := fun same => outside (same ▸ inside)
    have same := k.blockOn_asks_other cpu q resume p msgLength differ
    exact before ⟨h, by simp [queued], same ▸ fits⟩

/-- Every change around a mailbox leaves nobody asleep who could be served. -/
theorem MailboxSettled.change (ok : KernelOk cpu k) (small : cpu < ncpu)
    (settled : MailboxSettled i victim k) (change : MailboxChange cpu victim i k k') :
    MailboxSettled i victim k' := by
  have ring : (k.mailboxes i).RingOk := ⟨ok.bufHead i, ok.bufTail i⟩
  have outside : ∀ {q}, q ≠ .ready → k.current cpu ∉ k.queue q := fun blocked =>
    ok.toSchedOk.current_outside small blocked
  have apart : ∀ {q}, q ≠ .ready → ∀ h ∈ k.queue q, h ≠ k.current cpu :=
    fun blocked h inside same => outside blocked (same ▸ inside)
  cases change with
  | opens closed =>
    intro _
    have recv := ok.recvClosed i closed
    have send := ok.sendClosed i closed
    rw [Kernel.clearQueue_empty recv, Kernel.clearQueue_empty send]
    exact ⟨Kernel.not_headFits_of_empty recv, Kernel.not_headFits_of_empty send⟩
  | close receivers senders noReceivers noSenders =>
    intro valid
    rw [senders.mailboxes, receivers.mailboxes] at valid
    simp [Kernel.setMailbox] at valid
  | @blockSend p msgLength resume valid full can calm locking =>
    subst calm
    intro _
    obtain ⟨recv, send⟩ := settled valid
    rw [Kernel.waiting_none] at recv send ⊢
    rw [Kernel.waiting_none, Kernel.blockOn_queue]
    refine ⟨Kernel.not_headFits recv ?_ (fun h inside => ?_) le_rfl, ?_⟩
    · exact Kernel.blockOn_queue_other _ cpu resume p (by simp) (by simp)
    · exact k.blockOn_asks_other cpu _ resume p msgLength (apart (by simp) h inside)
    · exact Kernel.not_headFits_blockOn (outside (by simp)) send full
  | @blockRecv p msgLength resume valid empty can calm locking =>
    subst calm
    intro _
    obtain ⟨recv, send⟩ := settled valid
    rw [Kernel.waiting_none] at recv send ⊢
    rw [Kernel.waiting_none, Kernel.blockOn_queue]
    refine ⟨?_, Kernel.not_headFits send ?_ (fun h inside => ?_) le_rfl⟩
    · exact Kernel.not_headFits_blockOn (outside (by simp)) recv empty
    · exact Kernel.blockOn_queue_other _ cpu resume p (by simp) (by simp)
    · exact k.blockOn_asks_other cpu _ resume p msgLength (apart (by simp) h inside)
  | @sent bytes mbox k₁ valid entered calm wakes stopped =>
    -- Receivers are woken until one asks for too much; senders find less room than before.
    subst calm
    intro _
    obtain ⟨-, send⟩ := settled valid
    have longer := Mailbox.lenOfQueue_enterAll ring entered
    have now : (k₁.mailboxes i) = mbox := by
      rw [wakes.mailboxes]
      exact Function.update_self ..
    rw [Kernel.waiting_none] at send ⊢
    rw [Kernel.waiting_none]
    show ¬ k₁.HeadFits (k₁.queue (.mboxRecv i)) (k₁.mailboxes i).lenOfQueue ∧
      ¬ k₁.HeadFits (k₁.queue (.mboxSend i)) (maxMboxLength - (k₁.mailboxes i).lenOfQueue)
    rw [now]
    refine ⟨fun head => ?_, Kernel.not_headFits send (wakes.queue_other (by simp) (by simp)) ?_ ?_⟩
    · obtain ⟨h, first, fits⟩ := head
      exact absurd fits (Nat.not_le.mpr (stopped h first))
    · exact fun h _ => wakes.reqLen h
    · omega
  | @received bytes length mbox k₁ valid departed calm wakes empty =>
    -- All senders are woken; receivers find fewer bytes than before.
    subst calm
    intro _
    obtain ⟨recv, -⟩ := settled valid
    have shorter := Mailbox.lenOfQueue_departAll ring departed
    have now : (k₁.mailboxes i) = mbox := by
      rw [wakes.mailboxes]
      exact Function.update_self ..
    rw [Kernel.waiting_none] at recv
    refine ⟨?_, Kernel.not_headFits_of_empty empty⟩
    rw [Kernel.waiting_none]
    show ¬ k₁.HeadFits (k₁.queue (.mboxRecv i)) (k₁.mailboxes i).lenOfQueue
    rw [now]
    refine Kernel.not_headFits recv (wakes.queue_other (by simp) (by simp)) ?_ shorter
    exact fun h _ => wakes.reqLen h

/-- An event that exposes nobody, and breaks no copy loop, leaves nobody asleep. -/
theorem mailboxSettled_step {event : Event} {out : Out} (resting : Resting k)
    (settled : MailboxSettled i none k) (spares : ¬ Exposes k event)
    (whole : breaks k event = none) (ran : step event k = .ok (out, k')) :
    MailboxSettled i none k' := by
  have enabled := enabled_of_ran ran
  have steps := steps_of_ran resting ran
  have before : MailboxSettled i (Sched.victim k event) k := by
    intro valid
    obtain ⟨recv, send⟩ := settled valid
    rw [Kernel.waiting_none] at recv send
    exact ⟨Kernel.not_headFits_waiting recv fun exposed => spares ⟨i, valid, .inl exposed⟩,
      Kernel.not_headFits_waiting send fun exposed => spares ⟨i, valid, .inr exposed⟩⟩
  have changes : Changes event.env.cpu (Sched.victim k event) k k' := by
    have deeds := steps.changes
    rw [whole] at deeds
    exact deeds
  have kept : ∀ k₁ k₂, KernelOk event.env.cpu k₁ →
      Change event.env.cpu (Sched.victim k event) k₁ k₂ →
        MailboxSettled i (Sched.victim k event) k₁ →
          MailboxSettled i (Sched.victim k event) k₂ := by
    intro k₁ k₂ ok change settled
    cases change.mailbox_or_frame ok enabled.1 i with
    | inl about => exact settled.change ok enabled.1 about
    | inr frame => exact settled.frame frame (by simp [offMailbox])
  have after := (Changes.invariant enabled.1 kept (enabled.acts resting).1 before changes).2
  -- Nobody who was to be killed is still asleep.
  unfold MailboxSettled at after ⊢
  rw [steps.awake.waiting steps.rests.ok.toSchedOk (by simp),
    steps.awake.waiting steps.rests.ok.toSchedOk (by simp)] at after
  rwa [Kernel.waiting_none, Kernel.waiting_none]

end

/--
No wake-up is lost as long as no kill exposes a request that can be met, and no copy loop breaks.

Each call wakes enough on its own: nobody heads a queue at any time who could be served.
-/
theorem mailbox_prompt (timeMaxSec : Nat) (k : Kernel)
    (reached : Reaches step (fun k event => ¬ Exposes k event ∧ breaks k event = none)
      (initial timeMaxSec) k) (i : Nat) : MailboxPrompt i k := by
  have settled : MailboxSettled i none k := by
    induction reached with
    | start => simp [MailboxSettled, initial, initPcb, Kernel.addPcb]
    | step before allowed ran ih =>
      exact mailboxSettled_step (reaches_resting before) ih allowed.1 allowed.2 ran
  intro valid fits
  obtain ⟨recv, send⟩ := settled valid
  rw [Kernel.waiting_none] at recv send
  exact (fits.elim recv send).elim

/-- Two processes wait for bytes, the first of them for more than are sent. -/
def recvRun : List Event :=
  [⟨quietEnv 0, .timer⟩, ⟨quietEnv 0, .syscall (.exec 1 true)⟩,
    ⟨quietEnv 0, .syscall (.exec 1 true)⟩, ⟨quietEnv 0, .syscall (.mboxOpen 0)⟩,
    ⟨quietEnv 1, .timer⟩, ⟨quietEnv 1, .syscall (.mboxRecv 12 200 3)⟩,
    ⟨quietEnv 1, .syscall (.mboxRecv 12 200 1)⟩, ⟨quietEnv 0, .syscall (.mboxSend 12 100 2)⟩]

/-- The first of them cannot be served yet, and nobody has to be awaited. -/
theorem mailbox_prompt_recvRun :
    ∃ k, runWhere step (fun k event => victim k event = none ∧ breaks k event = none)
        (initial 100) recvRun = some k ∧ k.queue (.mboxRecv 12) = [3, 4] ∧ MailboxPrompt 12 k := by
  have left : (runWhere step (fun k event => victim k event = none ∧ breaks k event = none)
      (initial 100) recvRun).map (fun k => k.queue (.mboxRecv 12)) = some [3, 4] := by
    decide +kernel
  obtain ⟨k, ran, queue⟩ := Option.map_eq_some_iff.mp left
  refine ⟨k, ran, queue, mailbox_prompt 100 k (.of_events_where (fun k event calm => ?_) ran) 12⟩
  obtain ⟨nobody, whole⟩ := of_decide_eq_true calm
  refine ⟨fun exposes => ?_, whole⟩
  obtain ⟨i, -, ⟨⟨h, -, killed⟩, -⟩ | ⟨⟨h, -, killed⟩, -⟩⟩ := exposes
  · simp [nobody] at killed
  · simp [nobody] at killed

/-- The first of them is killed, and the other one sleeps on, though the byte it wants is there. -/
theorem mailbox_not_prompt : ¬ ∀ (timeMaxSec : Nat) (k : Kernel),
    Reaches step (fun _ _ => True) (initial timeMaxSec) k → ∀ i, MailboxPrompt i k := by
  intro prompt
  have left : (runEvents step (initial 100)
      (recvRun ++ [⟨quietEnv 0, .syscall (.kill 3)⟩])).any (fun k =>
        (k.mailboxes 12).opid == some 2 && (k.queue (.mboxRecv 12)).head? == some 4 &&
        decide ((k.pcb 4).reqLen ≤ (k.mailboxes 12).lenOfQueue) &&
        (k.queue .ready).all fun w => (k.pcb w).resume == .toUser) = true := by
    decide +kernel
  obtain ⟨k, ran, facts⟩ := (Option.any_eq_true _ _).mp left
  simp only [Bool.and_eq_true, beq_iff_eq, decide_eq_true_eq, List.all_eq_true] at facts
  obtain ⟨⟨⟨opid, head⟩, fits⟩, calm⟩ := facts
  obtain ⟨w, ready, -, msg, msgLength, blockYmr, again⟩ :=
    prompt 100 k (.of_events ran) 12 (by simp [opid]) (.inl ⟨4, by simp [head], fits⟩)
  rw [calm w ready] at again
  simp at again

end GlucOS.Sched
