import GlucOS.Locking.CallLaws

/-! The circular buffer of a mailbox, byte by byte and as a whole message. -/

namespace GlucOS.Sched

open Routine

namespace Mailbox

/-- Both indexes are inside the buffer. -/
def RingOk (mbox : Mailbox) : Prop := mbox.bufHead ≤ maxMboxLength ∧ mbox.bufTail ≤ maxMboxLength

variable {mbox mbox' : Mailbox}

/-- A mailbox never holds more bytes than fit. -/
theorem lenOfQueue_le (ring : mbox.RingOk) : mbox.lenOfQueue ≤ maxMboxLength := by
  obtain ⟨head, tail⟩ := ring
  unfold lenOfQueue
  split <;> omega

/-- The last index is followed by the first one. -/
theorem nextIndex_cases {index : Nat} (inside : index ≤ maxMboxLength) :
    (index = maxMboxLength ∧ nextIndex index = 0) ∨
      (index < maxMboxLength ∧ nextIndex index = index + 1) := by
  unfold nextIndex
  split
  · left
    omega
  · right
    omega

/-- Entering a byte that fits. -/
theorem queueEnter_fits (ring : mbox.RingOk) (d : UInt8) (fits : mbox.lenOfQueue < maxMboxLength) :
    ∃ mbox', mbox.queueEnter d = some mbox' ∧ mbox'.RingOk ∧ mbox'.opid = mbox.opid ∧
      mbox'.lenOfQueue = mbox.lenOfQueue + 1 := by
  refine ⟨_, if_pos fits, ⟨ring.1, nextIndex_le⟩, rfl, ?_⟩
  obtain ⟨head, tail⟩ := ring
  unfold lenOfQueue at fits ⊢
  -- The tail wraps around at the end, and never reaches the head.
  rcases nextIndex_cases tail with ⟨last, next⟩ | ⟨inner, next⟩
  · simp only [next]
    split_ifs at fits ⊢ <;> omega
  · simp only [next]
    split_ifs at fits ⊢ <;> omega

/-- Taking out a byte that is there. -/
theorem queueDepart_fits (ring : mbox.RingOk) (there : 0 < mbox.lenOfQueue) :
    ∃ mbox', mbox.queueDepart = some (mbox.buf mbox.bufHead, mbox') ∧ mbox'.RingOk ∧
      mbox'.opid = mbox.opid ∧ mbox'.buf = mbox.buf ∧ mbox'.bufHead = nextIndex mbox.bufHead ∧
      mbox'.lenOfQueue + 1 = mbox.lenOfQueue := by
  refine ⟨_, if_pos there, ⟨nextIndex_le, ring.2⟩, rfl, rfl, rfl, ?_⟩
  obtain ⟨head, tail⟩ := ring
  unfold lenOfQueue at there ⊢
  rcases nextIndex_cases head with ⟨last, next⟩ | ⟨inner, next⟩
  · simp only [next]
    split_ifs at there ⊢ <;> omega
  · simp only [next]
    split_ifs at there ⊢ <;> omega

/-- The first bytes are the first one and those that follow it. -/
theorem firstBytes_succ (ring : mbox.RingOk) (buf : mbox'.buf = mbox.buf)
    (head : mbox'.bufHead = nextIndex mbox.bufHead) (n : Nat) :
    mbox.firstBytes (n + 1) = mbox.buf mbox.bufHead :: mbox'.firstBytes n := by
  have inside := ring.1
  have first : mbox.bufHead % (maxMboxLength + 1) = mbox.bufHead :=
    Nat.mod_eq_of_lt (Nat.lt_succ_of_le inside)
  unfold firstBytes
  rw [List.range_succ_eq_map, List.map_cons, List.map_map, Nat.add_zero, first, buf, head]
  congr 1
  refine List.map_congr_left fun offset _ => ?_
  have same : (mbox.bufHead + (offset + 1)) % (maxMboxLength + 1) =
      (nextIndex mbox.bufHead + offset) % (maxMboxLength + 1) := by
    unfold nextIndex
    split
    · have last : mbox.bufHead = maxMboxLength := by omega
      rw [last]
      have shape : maxMboxLength + (offset + 1) = 0 + offset + (maxMboxLength + 1) := by omega
      rw [shape, Nat.add_mod_right]
    · congr 1
      omega
  exact congrArg mbox.buf same

end Mailbox

section

variable {env : Env} {k : Kernel} {accepted : KernelStop → Prop}

/-- Writing a mailbox back changes nothing. -/
theorem Kernel.setMailbox_self (k : Kernel) (i : Nat) : k.setMailbox i (k.mailboxes i) = k := by
  unfold Kernel.setMailbox
  rw [Function.update_eq_self]

/-- Only the last write of a mailbox counts. -/
theorem Kernel.setMailbox_twice (k : Kernel) (i : Nat) (mbox mbox' : Mailbox) :
    (k.setMailbox i mbox).setMailbox i mbox' = k.setMailbox i mbox' := by
  unfold Kernel.setMailbox
  simp only [Function.update_idem]

/-- The mailbox that was written. -/
@[simp] theorem Kernel.setMailbox_same (k : Kernel) (i : Nat) (mbox : Mailbox) :
    (k.setMailbox i mbox).mailboxes i = mbox := Function.update_self ..

/-- The copy loop of `do_mbox_send` enters the whole message, or meets an illegal address. -/
theorem meets_copyIn (i : Nat) : ∀ (addrs : List Nat) (k : Kernel), (k.mailboxes i).RingOk →
    (k.mailboxes i).lenOfQueue + addrs.length ≤ maxMboxLength →
      Meets accepted (copyIn env i addrs) k fun legal k' => ∃ mbox, k' = k.setMailbox i mbox ∧
        mbox.RingOk ∧ mbox.opid = (k.mailboxes i).opid ∧
        legal = !(addrs.any fun addr => (env.readByte addr).isNone) ∧
        (legal = true → (k.mailboxes i).enterAll (bytesAt env addrs) = some mbox) := by
  -- The induction is on the addresses that are left.
  intro addrs
  induction addrs with
  | nil =>
    intro k ring _
    exact ⟨_, (k.setMailbox_self i).symm, ring, rfl, rfl, fun _ => rfl⟩
  | cons addr rest ih =>
    intro k ring fits
    rw [List.length_cons] at fits
    unfold copyIn
    cases byte : env.readByte addr with
    | none =>
      refine ⟨_, (k.setMailbox_self i).symm, ring, rfl, ?_, by simp⟩
      simp [byte]
    | some d =>
      obtain ⟨mbox, entered, ring', opid, len⟩ :=
        Mailbox.queueEnter_fits ring d (Nat.lt_of_lt_of_le (by omega) fits)
      simp only [meets_get_bind, entered, meets_set_bind]
      refine (ih (k.setMailbox i mbox) (by simpa using ring') ?_).mono ?_
      · rw [Kernel.setMailbox_same, len]
        omega
      · rintro legal _ ⟨mbox', rfl, ring'', opid', exact', whole⟩
        rw [Kernel.setMailbox_same] at opid' whole
        refine ⟨mbox', k.setMailbox_twice i mbox mbox', ring'', opid'.trans opid, ?_, ?_⟩
        · simpa [byte] using exact'
        · intro isLegal
          have split : bytesAt env (addr :: rest) = d :: bytesAt env rest := by
            simp [bytesAt, byte]
          rw [split, Mailbox.enterAll, entered]
          exact whole isLegal

/-- The copy loop of `do_mbox_recv` takes the whole message out, or meets an illegal address. -/
theorem meets_copyOut (i : Nat) : ∀ (addrs : List Nat) (k : Kernel), (k.mailboxes i).RingOk →
    addrs.length ≤ (k.mailboxes i).lenOfQueue →
      Meets accepted (copyOut env i addrs) k fun legal k' => ∃ mbox, k' = k.setMailbox i mbox ∧
        mbox.RingOk ∧ mbox.opid = (k.mailboxes i).opid ∧
        legal = !(addrs.any fun addr => !env.canWrite addr) ∧
        (legal = true → (k.mailboxes i).departAll addrs.length =
          some ((k.mailboxes i).firstBytes addrs.length, mbox)) := by
  intro addrs
  induction addrs with
  | nil =>
    intro k ring _
    exact ⟨_, (k.setMailbox_self i).symm, ring, rfl, rfl, fun _ => rfl⟩
  | cons addr rest ih =>
    intro k ring fits
    rw [List.length_cons] at fits
    obtain ⟨mbox, departed, ring', opid, buf, head, len⟩ :=
      Mailbox.queueDepart_fits ring (Nat.lt_of_lt_of_le (Nat.succ_pos _) fits)
    unfold copyOut
    simp only [meets_get_bind, departed, meets_set_bind]
    refine meets_ite (fun legal => ?_) (fun illegal => ?_)
    · refine (ih (k.setMailbox i mbox) (by simpa using ring') ?_).mono ?_
      · rw [Kernel.setMailbox_same]
        omega
      · rintro isLegal _ ⟨mbox', rfl, ring'', opid', exact', whole⟩
        rw [Kernel.setMailbox_same] at opid' whole
        refine ⟨mbox', k.setMailbox_twice i mbox mbox', ring'', opid'.trans opid, ?_, ?_⟩
        · simpa [legal] using exact'
        · intro fine
          rw [List.length_cons, Mailbox.departAll, departed,
            Mailbox.firstBytes_succ ring buf head]
          simp [whole fine]
    · refine ⟨mbox, rfl, ring', opid, ?_, by simp⟩
      simp [illegal]

end

end GlucOS.Sched
