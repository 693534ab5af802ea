import GlucOS.Lib.Window
import GlucOS.Locking.ObjectLaws

/-! Mailboxes deliver what was sent, byte for byte, as long as all messages can be copied. -/

namespace GlucOS.Sched

open Routine

/-! ## The bytes of the buffer -/

namespace Mailbox

/-- The bytes in the buffer, in the order in which they will be received. -/
def contents (mbox : Mailbox) : List UInt8 := mbox.firstBytes mbox.lenOfQueue

variable {mbox mbox' : Mailbox} {d : UInt8}

/-- The buffer has as many bytes as its indexes say. -/
@[simp] theorem length_contents (mbox : Mailbox) : mbox.contents.length = mbox.lenOfQueue := by
  simp [contents, firstBytes]

/-- The tail is where the next byte goes. -/
theorem bufTail_eq (ring : mbox.RingOk) :
    mbox.bufTail = (mbox.bufHead + mbox.lenOfQueue) % (maxMboxLength + 1) := by
  obtain ⟨head, tail⟩ := ring
  unfold lenOfQueue
  unfold maxMboxLength at *
  split <;> omega

/-- A byte that is entered is the last one to be received. -/
theorem contents_enter (ring : mbox.RingOk) (entered : mbox.queueEnter d = some mbox') :
    mbox'.contents = mbox.contents ++ [d] := by
  have room : mbox.lenOfQueue < maxMboxLength := by
    by_contra full
    simp [queueEnter, full] at entered
  obtain ⟨other, same, _, _, length⟩ := queueEnter_fits ring d room
  obtain rfl : other = mbox' := Option.some.inj (same.symm.trans entered)
  have apart (offset : Nat) (less : offset < mbox.lenOfQueue) :
      (mbox.bufHead + offset) % (maxMboxLength + 1) ≠ mbox.bufTail := by
    rw [bufTail_eq ring]
    exact mod_ne_of_lt (by omega) (by omega)
  have last := bufTail_eq ring
  unfold queueEnter at entered
  rw [if_pos room, Option.some.injEq] at entered
  unfold contents firstBytes
  rw [length, List.range_succ, List.map_append]
  subst entered
  congr 1
  · -- The bytes that were there before lie elsewhere.
    apply List.map_congr_left
    intro offset inside
    exact Function.update_of_ne (apart offset (List.mem_range.mp inside)) _ _
  · simp [← last]

/-- The byte that is taken out was the first one. -/
theorem contents_depart (ring : mbox.RingOk) (departed : mbox.queueDepart = some (d, mbox')) :
    mbox.contents = d :: mbox'.contents := by
  have there : 0 < mbox.lenOfQueue := by
    by_contra empty
    simp [queueDepart, empty] at departed
  obtain ⟨other, same, _, _, buf, head, length⟩ := queueDepart_fits ring there
  rw [departed, Option.some.injEq, Prod.mk.injEq] at same
  obtain ⟨first, rfl⟩ := same
  unfold contents
  rw [← length, firstBytes_succ ring buf head, first]

/-- A message that is entered is behind everything else. -/
theorem contents_enterAll {bytes : List UInt8} (ring : mbox.RingOk)
    (entered : mbox.enterAll bytes = some mbox') : mbox'.contents = mbox.contents ++ bytes := by
  induction bytes generalizing mbox with
  | nil =>
    cases entered
    simp
  | cons d rest ih =>
    obtain ⟨between, first, more⟩ := Option.bind_eq_some_iff.mp entered
    have ring' : between.RingOk := by
      have room : mbox.lenOfQueue < maxMboxLength := by
        by_contra full
        simp [queueEnter, full] at first
      obtain ⟨other, same, kept, _⟩ := queueEnter_fits ring d room
      obtain rfl : other = between := Option.some.inj (same.symm.trans first)
      exact kept
    rw [ih ring' more, contents_enter ring first, List.append_assoc]
    rfl

/-- The bytes that are taken out were in front of everything else. -/
theorem contents_departAll {length : Nat} {bytes : List UInt8} (ring : mbox.RingOk)
    (departed : mbox.departAll length = some (bytes, mbox')) :
    mbox.contents = bytes ++ mbox'.contents := by
  induction length generalizing mbox bytes with
  | zero =>
    cases departed
    rfl
  | succ length ih =>
    obtain ⟨⟨d, between⟩, first, more⟩ := Option.bind_eq_some_iff.mp departed
    obtain ⟨⟨rest, last⟩, later, same⟩ := Option.map_eq_some_iff.mp more
    cases same
    have ring' : between.RingOk := by
      have there : 0 < mbox.lenOfQueue := by
        by_contra empty
        simp [queueDepart, empty] at first
      obtain ⟨other, same, kept, _⟩ := queueDepart_fits ring there
      rw [first, Option.some.injEq, Prod.mk.injEq] at same
      obtain ⟨_, rfl⟩ := same
      exact kept
    rw [contents_depart ring first, ih ring' later]
    rfl

end Mailbox

/-! ## What was sent and received -/

/-- What has gone through a mailbox since it was opened, message by message. -/
structure MboxLife where
  /-- The messages sent, in the order in which the sends were completed. -/
  sent : List (List UInt8)
  /-- The pieces received, in the order in which the receives were completed. -/
  received : List (List UInt8)

/-- What was noted about a mailbox since it was opened last. -/
def mboxLife (i : Nat) : List Note → Option MboxLife
  | [] => none
  | .opened j :: earlier => if j = i then some ⟨[], []⟩ else mboxLife i earlier
  | .sent j bytes :: earlier =>
    if j = i then (mboxLife i earlier).map fun life => { life with sent := life.sent ++ [bytes] }
    else mboxLife i earlier
  | .received j bytes :: earlier =>
    if j = i then
      (mboxLife i earlier).map fun life => { life with received := life.received ++ [bytes] }
    else mboxLife i earlier
  | _ :: earlier => mboxLife i earlier

/-- Everything sent through an open mailbox was received, in order, or is in its buffer. -/
structure Streams (i : Nat) (k : Kernel) (life : MboxLife) : Prop where
  /-- No byte is lost, added or changed, and messages follow each other. -/
  stream : life.sent.flatten = life.received.flatten ++ (k.mailboxes i).contents
  /-- The buffer holds as many bytes as its indexes say, and not too many. -/
  count : (k.mailboxes i).lenOfQueue + life.received.flatten.length = life.sent.flatten.length ∧
    (k.mailboxes i).lenOfQueue ≤ maxMboxLength
  /-- The indexes are inside the buffer. -/
  inside : (k.mailboxes i).bufHead ≤ maxMboxLength ∧ (k.mailboxes i).bufTail ≤ maxMboxLength

/-- Every open mailbox delivers a stream. -/
def MailboxesStream (k : Kernel) : Prop :=
  ∀ i, (k.mailboxes i).opid ≠ none → ∃ life, mboxLife i k.history = some life ∧ Streams i k life

/-- The invariant of one mailbox, without what holds of every ring. -/
def Delivers (i : Nat) (k : Kernel) : Prop :=
  (k.mailboxes i).opid ≠ none → ∃ life, mboxLife i k.history = some life ∧
    life.sent.flatten = life.received.flatten ++ (k.mailboxes i).contents

section

variable {cpu i : Nat} {victim : Option Nat} {own : QueueRef → Prop} {k k' : Kernel}

/-- Notes that are not about a mailbox do not matter for it. -/
theorem mboxLife_append_foreign {later : List Note} (earlier : List Note)
    (foreign : ∀ entry ∈ later, entry.about ≠ some (.mboxSend i)) :
    mboxLife i (later ++ earlier) = mboxLife i earlier := by
  induction later with
  | nil => rfl
  | cons entry later ih =>
    have same := ih fun other inside => foreign other (by simp [inside])
    have new := foreign entry (by simp)
    cases entry with
    | opened j =>
      have differ : j ≠ i := by simpa [Note.about] using new
      simpa [mboxLife, differ] using same
    | sent j bytes =>
      have differ : j ≠ i := by simpa [Note.about] using new
      simpa [mboxLife, differ] using same
    | received j bytes =>
      have differ : j ≠ i := by simpa [Note.about] using new
      simpa [mboxLife, differ] using same
    | _ => exact same

/-- A change that spares a mailbox keeps what it delivers. -/
theorem Delivers.frame (delivers : Delivers i k) (frame : Frame own victim k k')
    (foreign : ¬ own (.mboxSend i)) : Delivers i k' := by
  obtain ⟨later, history, about⟩ := frame.history
  have outside : ∀ entry ∈ later, entry.about ≠ some (.mboxSend i) := fun entry inside same =>
    foreign (about entry inside _ same)
  unfold Delivers
  rw [history, mboxLife_append_foreign k.history outside, frame.mailboxes i foreign]
  exact delivers

/-- Every change around a mailbox keeps what it delivers. -/
theorem Delivers.change (ok : KernelOk cpu k) (delivers : Delivers i k)
    (change : MailboxChange cpu victim i k k') : Delivers i k' := by
  have ring : (k.mailboxes i).RingOk := ⟨ok.bufHead i, ok.bufTail i⟩
  intro valid
  cases change with
  | opens closed =>
    -- A mailbox that has just been opened is empty.
    refine ⟨⟨[], []⟩, by simp [mboxLife, Kernel.note], ?_⟩
    simp [Kernel.note, Kernel.setMailbox, Mailbox.contents, Mailbox.lenOfQueue,
      Mailbox.firstBytes]
  | close receivers senders noReceivers noSenders =>
    rw [senders.mailboxes, receivers.mailboxes, Kernel.setMailbox_same] at valid
    exact absurd rfl valid
  | blockSend resume valid full can calm locking => exact delivers valid
  | blockRecv resume valid empty can calm locking => exact delivers valid
  | @sent bytes mbox k₁ open_ entered calm wakes stopped =>
    obtain ⟨life, there, stream⟩ := delivers open_
    refine ⟨⟨life.sent ++ [bytes], life.received⟩, ?_, ?_⟩
    · simp only [Kernel.note, wakes.history, mboxLife, if_true, Kernel.setMailbox, there]
      rfl
    · -- The message comes behind the bytes that wait already.
      simp only [Kernel.note, wakes.mailboxes, Kernel.setMailbox_same]
      rw [Mailbox.contents_enterAll ring entered]
      simp [stream]
  | @received bytes length mbox k₁ open_ departed calm wakes empty =>
    obtain ⟨life, there, stream⟩ := delivers open_
    refine ⟨⟨life.sent, life.received ++ [bytes]⟩, ?_, ?_⟩
    · simp only [Kernel.note, wakes.history, mboxLife, if_true, Kernel.setMailbox, there]
      rfl
    · simp only [Kernel.note, wakes.mailboxes, Kernel.setMailbox_same]
      rw [Mailbox.contents_departAll ring departed] at stream
      simp [stream]

/-- An event that does not break a copy keeps what every mailbox delivers. -/
theorem delivers_step {event : Event} {out : Out} (resting : Resting k) (delivers : Delivers i k)
    (whole : breaks k event = none) (ran : step event k = .ok (out, k')) : Delivers i k' := by
  have enabled := enabled_of_ran ran
  have small := enabled.1
  have ok := (enabled.acts resting).1
  have changes := (steps_of_ran resting ran).changes
  rw [whole] at changes
  -- The changes of the event are made one after the other, with nothing in between.
  have run : ∀ k₁, Changes event.env.cpu (Sched.victim k event) k k₁ →
      KernelOk event.env.cpu k₁ ∧ Delivers i k₁ := by
    intro k₁ changes
    induction changes with
    | refl => exact ⟨ok, delivers⟩
    | tail _ last ih =>
      refine ⟨last.ok ih.1 small, ?_⟩
      rcases last.mailbox_or_frame ih.1 small i with about | frame
      · exact ih.2.change ih.1 about
      · exact ih.2.frame frame (by simp [offMailbox])
  exact (run k' changes).2

/-- In a state at rest, what a mailbox delivers is a stream. -/
theorem Resting.streams (resting : Resting k) (delivers : ∀ i, Delivers i k) :
    MailboxesStream k := by
  obtain ⟨acting, ok, _, _, _⟩ := resting
  intro i valid
  obtain ⟨life, there, stream⟩ := delivers i valid
  have ring : (k.mailboxes i).RingOk := ⟨ok.bufHead i, ok.bufTail i⟩
  refine ⟨life, there, stream, ⟨?_, Mailbox.lenOfQueue_le ring⟩, ring⟩
  rw [stream, List.length_append, Mailbox.length_contents, Nat.add_comm]

end

/-- Every reachable state of runs with legal messages delivers streams through its mailboxes. -/
theorem reaches_delivers {timeMaxSec : Nat} {k : Kernel}
    (reached : Reaches step (fun k event => breaks k event = none) (initial timeMaxSec) k)
    (i : Nat) : Delivers i k := by
  induction reached with
  | start => simp [Delivers, initial, initPcb, Kernel.addPcb]
  | step before whole ran ih => exact delivers_step (reaches_resting before) ih whole ran

/-- A process sends five bytes through a mailbox, and receives three of them. -/
def mailRun : List Event :=
  [⟨quietEnv 0, .timer⟩, ⟨quietEnv 0, .syscall (.mboxOpen 0)⟩,
    ⟨quietEnv 0, .syscall (.mboxSend 12 100 5)⟩, ⟨quietEnv 0, .syscall (.mboxRecv 12 200 3)⟩]

/-- Nobody holds a spin lock, and the mailboxes hold what was sent and not yet received. -/
structure Clean (k : Kernel) : Prop where
  /-- All spin locks are free. -/
  free : ∀ lock, k.slock lock = false
  /-- All mailboxes are whole. -/
  whole : MailboxesStream k

/-- An event ends, if it ends at all, with nothing left behind, and waits for no spin lock. -/
structure EndsClean (k : Kernel) (event : Event) : Prop where
  /-- Every spin lock that it asks for is free. -/
  acquires : ∀ lock, step event k ≠ .error (.spins lock)
  /-- It leaves a clean state. -/
  clean : ∀ out k', step event k = .ok (out, k') → Clean k'

section

variable {k k' : Kernel} {event : Event}

/-- An event that breaks no copy leaves everything clean. -/
theorem endsClean_of_whole (resting : Resting k) (enabled : Enabled k event)
    (free : ∀ lock, k.slock lock = false) (delivers : ∀ i, Delivers i k)
    (whole : breaks k event = none) : EndsClean k event where
  acquires := by
    intro lock stopped
    rcases (step_steps resting enabled).of_error stopped with held | ⟨other, _⟩
    · -- The event would have to wait for a lock that was held before.
      rw [whole] at held
      have busy : k.slock lock = true := held
      simp [free lock] at busy
    · cases other
  clean := by
    intro out k' ran
    have steps := steps_of_ran resting ran
    have slock := steps.slock
    rw [whole] at slock
    refine ⟨fun lock => ?_, Resting.streams ⟨_, steps.rests⟩ fun i => ?_⟩
    · rw [slock]
      exact free lock
    · exact delivers_step resting (delivers i) whole ran

/-- An event that breaks a copy keeps a spin lock, or hangs at the lock that it keeps itself. -/
theorem not_endsClean_of_breaks {i : Nat} (resting : Resting k) (enabled : Enabled k event)
    (broken : breaks k event = some i) : ¬ EndsClean k event := by
  intro ends
  cases ran : step event k with
  | ok result =>
    obtain ⟨out, k'⟩ := result
    have free := (ends.clean out k' ran).free (.mailbox i)
    have slock := (steps_of_ran resting ran).slock
    rw [slock, broken] at free
    simp [slockAfter] at free
  | error reason =>
    rcases (step_steps resting enabled).of_error ran with held | ⟨_, sidx, up⟩
    · cases reason with
      | spins lock => exact ends.acquires lock ran
      | _ => exact held
    · -- No semaphore operation copies anything.
      simp only [breaks, up, Call.breaks] at broken
      split at broken <;> cases broken

end

/--
A call leaves no lock and no torn message behind exactly when its copy meets no illegal address.

Before that, all spin locks are free, whoever was killed and whatever was called.
-/
theorem mailbox_calls_clean (timeMaxSec : Nat) (k : Kernel)
    (reached : Reaches step (fun k event => breaks k event = none) (initial timeMaxSec) k) :
    Clean k ∧ ∀ event, Enabled k event → (EndsClean k event ↔ breaks k event = none) := by
  have resting := reaches_resting reached
  have delivers := reaches_delivers reached
  have free : ∀ lock, k.slock lock = false := by
    clear resting delivers
    induction reached with
    | start => exact fun _ => rfl
    | step before whole ran ih =>
      have slock := (steps_of_ran (reaches_resting before) ran).slock
      rw [whole] at slock
      intro lock
      rw [slock]
      exact ih lock
  refine ⟨⟨free, resting.streams delivers⟩, fun event enabled => ⟨fun ends => ?_, fun whole => ?_⟩⟩
  · cases broken : breaks k event with
    | none => rfl
    | some i => exact absurd ends (not_endsClean_of_breaks resting enabled broken)
  · exact endsClean_of_whole resting enabled free delivers whole

/-- The run of the two messages, after which the process is killed. -/
theorem mailbox_calls_clean_exit :
    ∃ k, runWhere step (fun k event => breaks k event = none) (initial 100)
        (mailRun ++ [⟨quietEnv 0, .syscall .exit⟩, ⟨quietEnv 1, .timer⟩]) = some k ∧ Clean k := by
  have possible : (runWhere step (fun k event => breaks k event = none) (initial 100)
      (mailRun ++ [⟨quietEnv 0, .syscall .exit⟩, ⟨quietEnv 1, .timer⟩])).isSome := by
    decide +kernel
  obtain ⟨k, ran⟩ := Option.isSome_iff_exists.mp possible
  refine ⟨k, ran, (mailbox_calls_clean 100 k ?_).1⟩
  exact .of_events_where (fun k event whole => of_decide_eq_true whole) ran

/-- What a processor finds when the fourth byte of a message lies at an illegal address. -/
def faultyEnv (cpu : Nat) : Env :=
  { quietEnv cpu with readByte := fun addr => if addr = 103 then none else some 7 }

/-- The process ends in the middle of a message, and whoever reaps it waits for ever. -/
theorem mailbox_lock_kept : ¬ ∀ (timeMaxSec : Nat) (k : Kernel),
    Reaches step (fun _ _ => True) (initial timeMaxSec) k →
      Clean k ∧ ∀ event, Enabled k event → EndsClean k event := by
  intro clean
  have left : (runEvents step (initial 100)
      [⟨quietEnv 0, .timer⟩, ⟨quietEnv 0, .syscall (.mboxOpen 0)⟩,
        ⟨faultyEnv 0, .syscall (.mboxSend 12 100 5)⟩]).map (fun k =>
          k.slock (.mailbox 12)) = some true := by decide +kernel
  obtain ⟨k, ran, held⟩ := Option.map_eq_some_iff.mp left
  have free := (clean 100 k (.of_events ran)).1.free (.mailbox 12)
  simp [held] at free

end GlucOS.Sched
