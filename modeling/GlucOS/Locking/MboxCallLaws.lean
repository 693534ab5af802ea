import GlucOS.Locking.RingLaws

/-! How the calls on mailboxes end, also when a message lies at an illegal address. -/

namespace GlucOS.Sched

open Routine

/-- The copy loop of `do_mbox_send` is entered, and meets an illegal address. -/
def sendBreaks (env : Env) (k : Kernel) (i msg msgLength : Nat) : Bool :=
  (k.mailboxes i).opid.isSome && msgLength ≤ maxMboxLength - (k.mailboxes i).lenOfQueue &&
    (addresses msg msgLength).any fun addr => (env.readByte addr).isNone

/-- The copy loop of `do_mbox_recv` is entered, and meets an illegal address. -/
def recvBreaks (env : Env) (k : Kernel) (i msg msgLength : Nat) : Bool :=
  (k.mailboxes i).opid.isSome && msgLength ≤ (k.mailboxes i).lenOfQueue &&
    (addresses msg msgLength).any fun addr => !env.canWrite addr

/-- Who is killed by a call on a mailbox. -/
def breakVictim (env : Env) (k : Kernel) (breaks : Bool) : Option Nat :=
  if breaks then some (k.cur env.cpu).pid else none

/-- The mailbox whose copy loop breaks, if it does. -/
def breakAt (i : Nat) (breaks : Bool) : Option Nat := if breaks then some i else none

section

variable {env : Env} {k k' : Kernel}

/-- A spin lock that was held is still held after a call. -/
theorem slockAfter_held {broken : Option Nat} {lock : SpinLock} (held : k.slock lock = true) :
    slockAfter k broken lock = true := by
  cases broken with
  | none => exact held
  | some i =>
    show Function.update k.slock _ true lock = true
    by_cases same : lock = .mailbox i
    · rw [same, Function.update_self]
    · rw [Function.update_of_ne same]
      exact held

/-- The addresses of a message are as many as its bytes. -/
@[simp] theorem addresses_length (msg msgLength : Nat) :
    (addresses msg msgLength).length = msgLength := by simp [addresses]

/-- The copy loop has met an illegal address: the caller ends, and its spin lock stays held. -/
theorem breaks_ends (caller : Caller env.cpu k) (i : Nat) {mbox : Mailbox} (ring : mbox.RingOk)
    (opid : mbox.opid = (k.mailboxes i).opid) :
    Meets (Stops (slockAfter k (some i))) (doExit env) ((k.hold (.mailbox i)).setMailbox i mbox)
      (Ends env.cpu (breakVictim env k true) (some i) k) := by
  obtain ⟨ok, small, runs, user, locking⟩ := caller
  have held : Change env.cpu (some (k.cur env.cpu).pid) k (k.hold (.mailbox i)) := .spin _
  have left : Deeds env.cpu (some (k.cur env.cpu).pid) (some i) k
      ((k.hold (.mailbox i)).setMailbox i mbox) :=
    ⟨_, mbox, .single held, ring.1, ring.2, opid, .refl⟩
  refine (doExit_ends (left.ok ok small) small user (.inl runs) locking).mono ?_
  intro out k' ends
  exact ⟨⟨_, mbox, .single held, ring.1, ring.2, opid, ends.changes⟩, ends.slock, ends.process,
    ends.awake⟩

/-- Blocking for bytes or for space, once the request length is stored. -/
theorem mboxBlock_ends (caller : Caller env.cpu k) {i : Nat} (free : k.slock (.mailbox i) = false)
    (q : QueueRef) (resume : Resume) (msgLength : Nat)
    (change : ∀ p, CanBlock env.cpu (k.hold (.mailbox i)) p →
      Change env.cpu none (k.hold (.mailbox i)) (((k.hold (.mailbox i)).setPcb (k.current env.cpu)
        fun pcb => { pcb with reqLen := msgLength }).blockOn env.cpu q resume p)) :
    Meets (Stops k.slock) (do
      set ((k.hold (.mailbox i)).setPcb (k.current env.cpu)
        fun pcb => { pcb with reqLen := msgLength })
      doBlock env q (some (.mailbox i)) resume
      return .blocked) (k.hold (.mailbox i)) (Ends env.cpu none none k) := by
  obtain ⟨ok, small, runs, user, locking⟩ := caller
  have held := ok.hold small (.mailbox i)
  have stored := held.toSchedOk.setReqLen (k.current env.cpu) msgLength
  have status := Kernel.setPcb_field Pcb.status (k.hold (.mailbox i)) (k.current env.cpu)
    (fun pcb => { pcb with reqLen := msgLength }) rfl (k.current env.cpu)
  have stays : (((k.hold (.mailbox i)).setPcb (k.current env.cpu)
      fun pcb => { pcb with reqLen := msgLength }).cur env.cpu).status ≠ .exiting := by
    refine (Eq.trans status runs).trans_ne ?_
    simp
  rw [meets_set_bind]
  refine Meets.bind (meets_doBlock_locked stored small user stays q resume
    (Kernel.hold_held k _)) ?_
  rintro _ _ ⟨p, can, rfl⟩
  refine .block_locked free (.single (change p ?_)) rfl (can.runs stored small q resume)
  exact (canBlock_setReqLen msgLength).mp can

/-- The loop of `do_mbox_send`, entered with the spin lock held and the mailbox open. -/
theorem mboxSendLoop_ends (caller : Caller env.cpu k) {i : Nat}
    (free : k.slock (.mailbox i) = false) (valid : (k.mailboxes i).opid ≠ none)
    (msg msgLength blockYmr : Nat) :
    Meets (Stops (slockAfter k (breakAt i (sendBreaks env k i msg msgLength))))
      (mboxSendLoop env i msg msgLength blockYmr) (k.hold (.mailbox i))
      (Ends env.cpu (breakVictim env k (sendBreaks env k i msg msgLength))
        (breakAt i (sendBreaks env k i msg msgLength)) k) := by
  have ok := caller.ok
  have small := caller.small
  have held := ok.hold small (.mailbox i)
  have ring : (k.mailboxes i).RingOk := ⟨ok.bufHead i, ok.bufTail i⟩
  have opened : (k.mailboxes i).opid.isSome = true := Option.isSome_iff_ne_none.mpr valid
  unfold mboxSendLoop
  rw [meets_get_bind]
  refine meets_ite (fun full => ?_) (fun fits => ?_)
  · have full : maxMboxLength - (k.mailboxes i).lenOfQueue < msgLength := full
    have calm : sendBreaks env k i msg msgLength = false := by
      simp [sendBreaks, Nat.not_le.mpr full]
    rw [calm]
    exact mboxBlock_ends caller free _ _ msgLength fun p can =>
      .mailbox (.blockSend _ valid full can rfl caller.locking)
  · have fits : msgLength ≤ maxMboxLength - (k.mailboxes i).lenOfQueue := Nat.not_lt.mp fits
    have bounded := Mailbox.lenOfQueue_le ring
    refine Meets.bind (meets_copyIn i _ (k.hold (.mailbox i)) ring ?_) ?_
    · rw [addresses_length]
      show (k.mailboxes i).lenOfQueue + msgLength ≤ _
      omega
    rintro legal _ ⟨mbox, rfl, ring', opid, exact', whole⟩
    have breaks : sendBreaks env k i msg msgLength = !legal := by
      simp [sendBreaks, opened, fits, exact']
    rw [breaks]
    cases legal with
    | false => exact breaks_ends caller i ring' opid
    | true =>
      have entered := whole rfl
      have written := held.toSchedOk.setMailbox i mbox
      rw [if_pos rfl]
      refine Meets.bind (meets_unblockWhile written small (by simp) _) ?_
      rintro _ k' ⟨wakes, stopped⟩
      have stirs := Stirs.wakes small (by simp) wakes written
      have same : k'.mailboxes i = mbox := by
        rw [wakes.mailboxes, Kernel.setMailbox_same]
      simp only [decide_eq_false_iff_not, Nat.not_le, same] at stopped
      refine meets_spinLockRelease_bind (by rw [stirs.slock]; exact Kernel.hold_held k _) ?_
      rw [meets_noteDone]
      refine Keeps.ends (Keeps.locked_note free ?_) ok.toSchedOk small _
      refine .of_change (.mailbox (.sent valid entered rfl wakes stopped)) ?_
      refine Stirs.trans (Stirs.trans ?_ stirs) ?_
      · exact .objects rfl rfl rfl rfl rfl rfl
      · exact .objects rfl rfl rfl rfl rfl rfl

/-- The loop of `do_mbox_recv`, entered with the spin lock held and the mailbox open. -/
theorem mboxRecvLoop_ends (caller : Caller env.cpu k) {i : Nat}
    (free : k.slock (.mailbox i) = false) (valid : (k.mailboxes i).opid ≠ none)
    (msg msgLength blockYmr : Nat) :
    Meets (Stops (slockAfter k (breakAt i (recvBreaks env k i msg msgLength))))
      (mboxRecvLoop env i msg msgLength blockYmr) (k.hold (.mailbox i))
      (Ends env.cpu (breakVictim env k (recvBreaks env k i msg msgLength))
        (breakAt i (recvBreaks env k i msg msgLength)) k) := by
  have ok := caller.ok
  have small := caller.small
  have held := ok.hold small (.mailbox i)
  have ring : (k.mailboxes i).RingOk := ⟨ok.bufHead i, ok.bufTail i⟩
  have opened : (k.mailboxes i).opid.isSome = true := Option.isSome_iff_ne_none.mpr valid
  unfold mboxRecvLoop
  rw [meets_get_bind]
  refine meets_ite (fun empty => ?_) (fun fits => ?_)
  · have empty : (k.mailboxes i).lenOfQueue < msgLength := empty
    have calm : recvBreaks env k i msg msgLength = false := by
      simp [recvBreaks, Nat.not_le.mpr empty]
    rw [calm]
    exact mboxBlock_ends caller free _ _ msgLength fun p can =>
      .mailbox (.blockRecv _ valid empty can rfl caller.locking)
  · have fits : msgLength ≤ (k.mailboxes i).lenOfQueue := Nat.not_lt.mp fits
    refine Meets.bind (meets_copyOut i _ (k.hold (.mailbox i)) ring ?_) ?_
    · rw [addresses_length]
      exact fits
    rintro legal _ ⟨mbox, rfl, ring', opid, exact', whole⟩
    have breaks : recvBreaks env k i msg msgLength = !legal := by
      simp [recvBreaks, opened, fits, exact']
    rw [breaks]
    cases legal with
    | false => exact breaks_ends caller i ring' opid
    | true =>
      have departed := whole rfl
      rw [addresses_length] at departed
      have written := held.toSchedOk.setMailbox i mbox
      rw [if_pos rfl]
      refine Meets.bind (meets_unblockAll written small (by simp)) ?_
      rintro _ k' ⟨wakes, empty⟩
      have stirs := Stirs.wakes small (by simp) wakes written
      refine meets_spinLockRelease_bind (by rw [stirs.slock]; exact Kernel.hold_held k _) ?_
      rw [meets_noteDone]
      refine Keeps.ends (Keeps.locked_note free ?_) ok.toSchedOk small _
      refine .of_change (.mailbox (.received valid departed rfl wakes empty)) ?_
      refine Stirs.trans (Stirs.trans ?_ stirs) ?_
      · exact .objects rfl rfl rfl rfl rfl rfl
      · exact .objects rfl rfl rfl rfl rfl rfl

/-- A call on a mailbox, entered for the first time or again. -/
theorem mboxAgain_ends (caller : Caller env.cpu k) (i : Nat) {breaks : Bool}
    {again : KernelRoutine Out} (closed : (k.mailboxes i).opid = none → breaks = false)
    (goes : k.slock (.mailbox i) = false → (k.mailboxes i).opid ≠ none →
      Meets (Stops (slockAfter k (breakAt i breaks))) again (k.hold (.mailbox i))
        (Ends env.cpu (breakVictim env k breaks) (breakAt i breaks) k)) :
    Meets (Stops (slockAfter k (breakAt i breaks))) (mboxAgain i again) k
      (Ends env.cpu (breakVictim env k breaks) (breakAt i breaks) k) := by
  unfold mboxAgain
  refine meets_spinLockAcquire (fun held => slockAfter_held held) fun free => ?_
  rw [meets_get_bind]
  refine meets_ite (fun invalid => ?_) (fun valid => goes free valid)
  rw [closed invalid]
  refine meets_spinLockRelease_bind (Kernel.hold_held k _) ?_
  exact Keeps.ends (.nothing free) caller.ok.toSchedOk caller.small _

/-- `do_mbox_send` after its checks, for the first time or again. -/
theorem mboxSendAgain_ends (caller : Caller env.cpu k) (i msg msgLength blockYmr : Nat) :
    Meets (Stops (slockAfter k (breakAt i (sendBreaks env k i msg msgLength))))
      (mboxAgain i (mboxSendLoop env i msg msgLength blockYmr)) k
      (Ends env.cpu (breakVictim env k (sendBreaks env k i msg msgLength))
        (breakAt i (sendBreaks env k i msg msgLength)) k) :=
  mboxAgain_ends caller i (fun closed => by simp [sendBreaks, closed]) fun free valid =>
    mboxSendLoop_ends caller free valid msg msgLength blockYmr

/-- `do_mbox_recv` after its checks, for the first time or again. -/
theorem mboxRecvAgain_ends (caller : Caller env.cpu k) (i msg msgLength blockYmr : Nat) :
    Meets (Stops (slockAfter k (breakAt i (recvBreaks env k i msg msgLength))))
      (mboxAgain i (mboxRecvLoop env i msg msgLength blockYmr)) k
      (Ends env.cpu (breakVictim env k (recvBreaks env k i msg msgLength))
        (breakAt i (recvBreaks env k i msg msgLength)) k) :=
  mboxAgain_ends caller i (fun closed => by simp [recvBreaks, closed]) fun free valid =>
    mboxRecvLoop_ends caller free valid msg msgLength blockYmr

/-- `do_mbox_open` once the name is read. -/
theorem mboxOpen_ends (caller : Caller env.cpu k) (s : Nat) :
    Meets (Stops k.slock) (mboxOpen env s) k (Ends env.cpu none none k) := by
  have ok := caller.ok
  have small := caller.small
  unfold mboxOpen
  generalize s % mboxNum = i
  refine meets_region fun free => ?_
  rw [meets_get_bind]
  refine meets_ite (fun closed => ?_) (fun _ => ?_)
  · rw [meets_set_bind, meets_noteDone]
    refine meets_spinLockRelease_bind (Kernel.hold_held k _) ?_
    refine Keeps.ends (Keeps.locked free ?_) ok.toSchedOk small _
    refine .of_change (.mailbox (.opens closed)) (.objects rfl ?_ rfl rfl rfl rfl)
    exact (Kernel.clearQueue_ready (q := .mboxSend i) (by simp)).trans
      (Kernel.clearQueue_ready (q := .mboxRecv i) (by simp))
  · refine meets_spinLockRelease_bind (Kernel.hold_held k _) ?_
    exact Keeps.ends (.nothing free) ok.toSchedOk small _

/-- `do_mbox_close`. -/
theorem doMboxClose_ends (caller : Caller env.cpu k) (midx : Int) :
    Meets (Stops k.slock) (doMboxClose env midx) k (Ends env.cpu none none k) := by
  have ok := caller.ok
  have small := caller.small
  have goes := fun {k' : Kernel} (keeps : Keeps env.cpu none k k') => keeps.ends ok.toSchedOk small
  unfold doMboxClose
  refine meets_ite (fun _ => goes (.refl _ _ k) _) (fun _ => ?_)
  refine meets_region fun free => ?_
  generalize midx.toNat = i at free ⊢
  rw [meets_get_bind]
  refine meets_ite (fun _ => ?_) (fun _ => ?_)
  · exact meets_spinLockRelease_bind (Kernel.hold_held k _) (goes (.nothing free) _)
  · refine meets_closeMailbox none (ok.hold small (.mailbox i)) small i fun k' keeps => ?_
    refine meets_spinLockRelease_bind (by rw [keeps.slock]; exact Kernel.hold_held k _) ?_
    exact goes (keeps.locked free) _

end

end GlucOS.Sched
