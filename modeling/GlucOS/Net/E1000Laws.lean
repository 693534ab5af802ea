import GlucOS.Net.E1000TxLaws
import GlucOS.Net.E1000RxLaws

/-! Both rings of the e1000 together, beside a NIC that works at any time. -/

namespace GlucOS.E1000

/-- The transmit descriptors that the NIC owns: from its head up to, and without, its tail. -/
def txOwned (nic : E1000) : List Nat :=
  (List.range ((nic.tdt + txDescs - nic.tdh) % txDescs)).map fun k => (nic.tdh + k) % txDescs

/-- What the rings promise in every state. -/
structure Safe (nic : E1000) : Prop where
  /--
  The frames accepted are those sent, and then those in the descriptors that the NIC owns.

  A call counts as having accepted all of its frames when its answer is positive, and none else.
  -/
  inOrder : nic.accepted = nic.wire ++ nic.txOwned.map nic.packetAt
  /-- No step of the kernel changes a descriptor that the NIC owns, or its frame buffer. -/
  untouched : ∀ next, nic.kernelStep = some next → ∀ slot ∈ nic.txOwned,
    next.txDesc slot = nic.txDesc slot ∧
    next.txBuffer (nic.txDesc slot).addr = nic.txBuffer (nic.txDesc slot).addr
  /-- The frames returned are the first that have arrived. -/
  returned : nic.returned <+: nic.arrived
  /-- A call answers that there is nothing only when all of them have been returned. -/
  nothing : ∀ next, nic.kernelStep = some next → next.log = nic.log ++ [.nothing] →
    nic.returned = nic.arrived

variable {nic next : E1000}

/-- What one step of the kernel does to the transmit ring and to the answers. -/
structure Effect (nic next : E1000) : Prop where
  /-- Only the slot at the tail is written to, and only with room for it. -/
  writes : (next.txDesc = nic.txDesc ∧ next.txBuffer = nic.txBuffer) ∨
    (0 < wanted nic.pc ∧ ∀ slot, slot ≠ nic.tcqTail →
      next.txDesc slot = nic.txDesc slot ∧ next.txBuffer slot = nic.txBuffer slot)
  /-- A poll answers that there is nothing when the next descriptor is not done. -/
  logs : next.log = nic.log ++ [.nothing] →
    ∃ target, nic.pc = .rxStatus target ∧ (nic.rxDesc nic.tailNext).done = false

/-- A step that writes to neither and does not return. -/
theorem Effect.silent (desc : next.txDesc = nic.txDesc) (buffer : next.txBuffer = nic.txBuffer)
    (log : next.log = nic.log) : Effect nic next where
  writes := Or.inl ⟨desc, buffer⟩
  logs := by
    intro logged
    rw [log] at logged
    simp at logged

/-- A step that returns something else. -/
theorem Effect.answer {entry : E1000Log} (desc : next.txDesc = nic.txDesc)
    (buffer : next.txBuffer = nic.txBuffer) (log : next.log = nic.log ++ [entry])
    (other : entry ≠ .nothing) : Effect nic next where
  writes := Or.inl ⟨desc, buffer⟩
  logs := by
    intro logged
    rw [log] at logged
    simp only [List.append_cancel_left_eq, List.cons.injEq, and_true] at logged
    exact absurd logged other

/-- A step that writes to the slot at the tail. -/
theorem Effect.write (room : 0 < wanted nic.pc) (log : next.log = nic.log)
    (apart : ∀ slot, slot ≠ nic.tcqTail →
      next.txDesc slot = nic.txDesc slot ∧ next.txBuffer slot = nic.txBuffer slot) :
    Effect nic next where
  writes := Or.inr ⟨room, apart⟩
  logs := by
    intro logged
    rw [log] at logged
    simp at logged

/-- Every step of the kernel has such an effect. -/
theorem kernelStep_effect (stepped : nic.kernelStep = some next) : Effect nic next := by
  unfold kernelStep at stepped
  cases at_ : nic.pc with
  | idle => simp [at_] at stepped
  | txHead array work =>
    simp only [at_, Option.some.injEq] at stepped
    subst stepped
    exact .silent rfl rfl rfl
  | txRoom array work =>
    simp only [at_] at stepped
    split at stepped
    · cases stepped
      exact .answer rfl rfl rfl (by simp)
    · cases stepped
      exact .silent rfl rfl rfl
  | txCopy work j =>
    simp only [at_] at stepped
    split at stepped
    · cases stepped
      exact .silent rfl rfl rfl
    · split at stepped
      · cases stepped
        exact .silent rfl rfl rfl
      · cases stepped
        exact .write (by simp [at_, wanted]) rfl fun slot apart => ⟨rfl, by simp [apart]⟩
  | txAddr work =>
    simp only [at_, Option.some.injEq] at stepped
    subst stepped
    exact .write (by simp [at_, wanted]) rfl fun slot apart => ⟨by simp [apart], rfl⟩
  | txLength work =>
    simp only [at_, Option.some.injEq] at stepped
    subst stepped
    exact .write (by simp [at_, wanted]) rfl fun slot apart => ⟨by simp [apart], rfl⟩
  | txCmd work =>
    simp only [at_, Option.some.injEq] at stepped
    subst stepped
    exact .write (by simp [at_, wanted]) rfl fun slot apart => ⟨by simp [apart], rfl⟩
  | txTail work =>
    simp only [at_, Option.some.injEq] at stepped
    subst stepped
    exact .silent rfl rfl rfl
  | txBell frames =>
    simp only [at_, Option.some.injEq] at stepped
    subst stepped
    exact .answer rfl rfl rfl (by simp)
  | rxStatus target =>
    simp only [at_] at stepped
    split at stepped
    · cases stepped
      exact .silent rfl rfl rfl
    · rename_i undone
      cases stepped
      exact ⟨Or.inl ⟨rfl, rfl⟩, fun _ => ⟨target, at_, by simpa using undone⟩⟩
  | rxLength target =>
    simp only [at_, Option.some.injEq] at stepped
    subst stepped
    exact .silent rfl rfl rfl
  | rxCopy target len =>
    simp only [at_] at stepped
    split at stepped
    · cases stepped
      exact .silent rfl rfl rfl
    · split at stepped
      · cases stepped
        exact .silent rfl rfl rfl
      · cases stepped
        exact .silent rfl rfl rfl
  | rxAddr frame =>
    simp only [at_, Option.some.injEq] at stepped
    subst stepped
    exact .silent rfl rfl rfl
  | rxClear frame =>
    simp only [at_, Option.some.injEq] at stepped
    subst stepped
    exact .silent rfl rfl rfl
  | rxTail frame =>
    simp only [at_, Option.some.injEq] at stepped
    subst stepped
    exact .silent rfl rfl rfl
  | rxBell frame =>
    simp only [at_, Option.some.injEq] at stepped
    subst stepped
    exact .answer rfl rfl rfl (by simp)

/-- The NIC owns as many descriptors as frames are queued, and they follow the frames sent. -/
theorem TxOk.txOwned (ok : TxOk nic) {queued : List TxPacket} (queue : TxQueue nic queued) :
    nic.txOwned = (List.range queued.length).map fun k => (nic.wire.length + k) % txDescs := by
  have total := congrArg List.length queue.inOrder
  have room := queue.room
  rw [List.length_append] at total
  unfold E1000.txOwned
  rw [ok.head, ok.bell, total]
  have count : ((nic.wire.length + queued.length) % txDescs + txDescs -
      nic.wire.length % txDescs) % txDescs = queued.length := by
    unfold txDescs at *
    omega
  rw [count]
  simp only [Nat.mod_add_mod]

/-- A descriptor that the NIC owns holds the queued frame of its place, in its own buffer. -/
theorem TxQueue.owned {queued : List TxPacket} (queue : TxQueue nic queued) {k : Nat}
    (inside : k < queued.length) :
    (nic.txDesc ((nic.wire.length + k) % txDescs)).addr = (nic.wire.length + k) % txDescs ∧
      nic.packetAt ((nic.wire.length + k) % txDescs) = queued[k] := by
  have cell := queue.cells k (some queued[k]) (by
    rw [List.map_append, List.getElem?_append_left (by simpa using inside)]
    simp [inside])
  unfold ownPacket at cell
  split at cell
  · rename_i own
    exact ⟨own, Option.some.inj cell⟩
  · cases cell

/-- The invariants of the two rings are what they promise. -/
theorem safe_of_ok (tx : TxOk nic) (rx : RxOk nic) : Safe nic where
  inOrder := by
    obtain ⟨queued, queue⟩ := tx.queue
    rw [queue.inOrder, tx.txOwned queue, List.map_map]
    congr 1
    apply List.ext_getElem
    · simp
    · intro k inside _
      simp only [List.getElem_map, List.getElem_range, Function.comp_apply]
      exact (queue.owned inside).2.symm
  untouched := by
    intro next stepped slot member
    obtain ⟨queued, queue⟩ := tx.queue
    rw [tx.txOwned queue] at member
    obtain ⟨k, inRange, same⟩ := List.mem_map.mp member
    have inside := List.mem_range.mp inRange
    subst same
    rw [(queue.owned inside).1]
    rcases (kernelStep_effect stepped).writes with nowhere | behind
    · rw [nowhere.1, nowhere.2]
      exact ⟨rfl, rfl⟩
    · -- The tail is behind everything queued, and one descriptor is still free.
      have room := queue.room
      apply behind.2
      rw [tx.tail, queue.inOrder, List.length_append]
      exact mod_ne_of_lt (by omega) (by omega)
  returned := by
    obtain ⟨waiting, inOrder, _, _, _⟩ := rx.queue
    exact ⟨held nic.pc ++ waiting, by rw [inOrder, List.append_assoc]⟩
  nothing := by
    intro next stepped logged
    obtain ⟨target, at_, undone⟩ := (kernelStep_effect stepped).logs logged
    exact (rx.nothing at_ undone).symm

/--
As long as no page fault ends `e1000_transmit_array` behind its first frame, the rings keep what
they promise, whenever the NIC sends or receives and whichever calls are made.
-/
theorem rings_safe (events : List Event) (outs : List Unit) (last : E1000)
    (ran : run step init events = some (outs, last))
    (whole : LegalRun step (fun nic event => nic.cutsShort event = false) init events) :
    Safe last := by
  -- Both invariants hold after `e1000_init`, and every step keeps them.
  have keep (nic : E1000) (event : Event) (out : Unit) (next : E1000) (ok : TxOk nic ∧ RxOk nic)
      (uncut : nic.cutsShort event = false) (stepped : step nic event = some (out, next)) :
      TxOk next ∧ RxOk next := ⟨ok.1.step uncut stepped, ok.2.step stepped⟩
  have kept := run_preserves keep events init outs last ⟨txOk_init, rxOk_init⟩ whole ran
  exact safe_of_ok kept.1 kept.2

/-- A frame of one byte. -/
def byteFrame (byte : UInt8) (legal : Nat) : TxFrame := ⟨fun _ => byte, legal, 1⟩

/-- Two frames queued at once, of which the NIC sends one, while it receives another. -/
def twoFrames : List Event :=
  .transmitArray (fun i => byteFrame (UInt8.ofNat i) 1) (fun _ => 1) 2 ::
    List.replicate 15 .kernel ++ [.receive [7], .send, .poll 1] ++ List.replicate 8 .kernel

/-- The first of the frames is on the wire, and the poll returns the one received. -/
theorem rings_safe_twoFrames : ∃ last, run step init twoFrames = some (List.replicate 27 (), last) ∧
    last.wire = [⟨[0], txdCmd⟩] ∧ last.returned = [[7]] ∧ Safe last := by
  refine ⟨_, rfl, by decide, by decide, ?_⟩
  have sound (nic : E1000) (event : Event) (passed : (!nic.cutsShort event) = true) :
      nic.cutsShort event = false := by simpa using passed
  exact rings_safe twoFrames _ _ rfl (.of_check sound _ _ (by decide))

/-- A page fault at the second of two frames, and then a frame that is sent by itself. -/
def cutFrames : List Event :=
  .transmitArray (fun i => byteFrame 1 (1 - i)) (fun _ => 1) 2 :: List.replicate 9 .kernel ++
    .transmit (byteFrame 2 1) 1 :: List.replicate 9 .kernel

/-- The frame of the call that was cut short is then handed to the NIC as well. -/
theorem rings_not_safe : ¬ ∀ (events : List Event) (outs : List Unit) (last : E1000),
    run step init events = some (outs, last) → Safe last := by
  intro always
  have safe := always cutFrames _ _ rfl
  exact absurd safe.inOrder (by decide)

end GlucOS.E1000
