import GlucOS.Net.E1000

/-! The transmit ring: what is between its head and its tail is what the calls have queued. -/

namespace GlucOS

/-- What a list of frames looks like on the wire. -/
def packets (frames : List TxFrame) : List TxPacket := frames.map TxFrame.packet

namespace E1000

/-- The frames of one finished call that it has queued: all of them, or none. -/
def acceptedBy : E1000Log → List TxPacket
  | .sent frames rt => if 0 < rt then packets frames else []
  | _ => []

/-- The frames that the calls of the driver have queued so far. -/
def accepted (nic : E1000) : List TxPacket := nic.log.flatMap acceptedBy

/-- The packet of a descriptor, if it is in the frame buffer of the same number. -/
def ownPacket (nic : E1000) (slot : Nat) : Option TxPacket :=
  if (nic.txDesc slot).addr = slot then some (nic.packetAt slot) else none

/-- The frames of the running call whose descriptors are complete, but not the NIC's yet. -/
def prepared : E1000Pc → List TxFrame
  | .txCopy work _ | .txAddr work | .txLength work | .txCmd work | .txTail work => work.before
  | .txBell frames => frames
  | _ => []

/-- The number of descriptors that the running call is still going to take. -/
def wanted : E1000Pc → Nat
  | .txCopy work _ | .txAddr work | .txLength work | .txCmd work | .txTail work =>
    work.after.length + 1
  | _ => 0

/-- The lengths that the driver accepts. -/
def Sized (frames : List TxFrame) : Prop :=
  ∀ frame ∈ frames, 0 < frame.length ∧ frame.length ≤ txFrmSize

/-- The first bytes of a frame have been copied to the buffer at the tail. -/
def Copied (nic : E1000) (frame : TxFrame) (count : Nat) : Prop :=
  ∀ i < count, nic.txBuffer nic.tcqTail i = frame.memory i

/-- A call that has not looked at the queue yet. -/
structure Fresh (array : Bool) (work : TxWork) : Prop where
  sized : Sized work.frames
  first : work.before = []
  /-- `e1000_transmit` is about one frame only. -/
  single : array = false → work.after = []

/-- What is known at each place of the transmitting calls. -/
def TxPlace (nic : E1000) : E1000Pc → Prop
  | .txHead array work => Fresh array work
  | .txRoom array work => Fresh array work ∧
      -- The head that has been read may be behind the NIC's by now.
      ∃ seen, nic.tcqHead = seen % txDescs ∧ seen ≤ nic.wire.length ∧
        nic.accepted.length < seen + txDescs
  | .txCopy work j => Sized work.frames ∧ Copied nic work.frame j ∧ j ≤ work.frame.length
  | .txAddr work => Sized work.frames ∧ Copied nic work.frame work.frame.length
  | .txLength work => Sized work.frames ∧ Copied nic work.frame work.frame.length ∧
      (nic.txDesc nic.tcqTail).addr = nic.tcqTail
  | .txCmd work => Sized work.frames ∧ Copied nic work.frame work.frame.length ∧
      (nic.txDesc nic.tcqTail).addr = nic.tcqTail ∧
      (nic.txDesc nic.tcqTail).length = work.frame.length
  | .txTail work => Sized work.frames ∧ nic.ownPacket nic.tcqTail = some work.frame.packet
  | .txBell frames => Sized frames ∧ frames ≠ []
  | _ => True

/-- The frames waiting between the transmit head and the tail that the kernel keeps. -/
structure TxQueue (nic : E1000) (queued : List TxPacket) : Prop where
  /-- The frames sent are the first of those accepted, and the others are queued. -/
  inOrder : nic.accepted = nic.wire ++ queued
  /-- The descriptors from the head on hold the queued frames, and then the prepared ones. -/
  cells : Window txDescs nic.ownPacket nic.wire.length
    ((queued ++ packets (prepared nic.pc)).map some)
  /-- One descriptor stays free, also when the running call has got all it wants. -/
  room : queued.length + (prepared nic.pc).length + wanted nic.pc < txDescs

/-- The invariant of the transmit ring. -/
structure TxOk (nic : E1000) : Prop where
  queue : ∃ queued, TxQueue nic queued
  head : nic.tdh = nic.wire.length % txDescs
  bell : nic.tdt = nic.accepted.length % txDescs
  tail : nic.tcqTail = (nic.accepted.length + (prepared nic.pc).length) % txDescs
  place : TxPlace nic nic.pc

variable {nic next : E1000} {work : TxWork} {queued : List TxPacket}

@[simp] theorem length_packets (frames : List TxFrame) :
    (packets frames).length = frames.length := by simp [packets]

/-- A finished call adds the frames that it has queued. -/
theorem accepted_answer (nic : E1000) (entry : E1000Log) :
    (nic.answer entry).accepted = nic.accepted ++ acceptedBy entry := by
  simp [accepted, answer]

/-- A descriptor and its frame buffer decide what its packet is. -/
theorem ownPacket_congr {slot : Nat} (desc : next.txDesc slot = nic.txDesc slot)
    (buffer : next.txBuffer slot = nic.txBuffer slot) :
    next.ownPacket slot = nic.ownPacket slot := by
  unfold ownPacket packetAt
  rw [desc]
  by_cases own : (nic.txDesc slot).addr = slot
  · rw [if_pos own, if_pos own, own, buffer]
  · rw [if_neg own, if_neg own]

/-- The place behind the queue is the tail. -/
theorem TxQueue.tail_slot (queue : TxQueue nic queued) (ok : TxOk nic) :
    (nic.wire.length + ((queued ++ packets (prepared nic.pc)).map some).length) % txDescs =
      nic.tcqTail := by
  rw [ok.tail, queue.inOrder]
  simp only [List.length_map, List.length_append, length_packets]
  congr 1
  omega

/-- A step that only touches the descriptor at the tail or its buffer keeps the queue. -/
theorem TxQueue.write (queue : TxQueue nic queued) (ok : TxOk nic)
    (desc : ∀ slot, slot ≠ nic.tcqTail → next.txDesc slot = nic.txDesc slot)
    (buffer : ∀ slot, slot ≠ nic.tcqTail → next.txBuffer slot = nic.txBuffer slot)
    (log : next.log = nic.log) (wire : next.wire = nic.wire)
    (before : prepared next.pc = prepared nic.pc) (more : wanted next.pc = wanted nic.pc)
    (some_wanted : 0 < wanted nic.pc) : TxQueue next queued where
  inOrder := by
    unfold accepted
    rw [log, wire]
    exact queue.inOrder
  cells := by
    rw [wire, before]
    have place := queue.tail_slot ok
    apply queue.cells.behind
    · have room := queue.room
      simp only [List.length_map, List.length_append, length_packets]
      omega
    · intro slot apart
      rw [place] at apart
      exact ownPacket_congr (desc slot apart) (buffer slot apart)
  room := by
    rw [before, more]
    exact queue.room

/-- What is known about a place depends on nothing but these parts of the state. -/
theorem TxPlace.congr {pc : E1000Pc} (place : TxPlace nic pc)
    (desc : next.txDesc = nic.txDesc) (buffer : next.txBuffer = nic.txBuffer)
    (tail : next.tcqTail = nic.tcqTail) (head : next.tcqHead = nic.tcqHead)
    (accepted : next.accepted = nic.accepted) (wire : nic.wire.length ≤ next.wire.length) :
    TxPlace next pc := by
  cases pc with
  | txRoom array work =>
    obtain ⟨fresh, seen, same, behind, near⟩ := place
    refine ⟨fresh, seen, ?_, le_trans behind wire, ?_⟩
    · rw [head]
      exact same
    · rw [accepted]
      exact near
  | txCopy work j =>
    unfold TxPlace Copied at *
    rw [buffer, tail]
    exact place
  | txAddr work =>
    unfold TxPlace Copied at *
    rw [buffer, tail]
    exact place
  | txLength work =>
    unfold TxPlace Copied at *
    rw [buffer, tail, desc]
    exact place
  | txCmd work =>
    unfold TxPlace Copied at *
    rw [buffer, tail, desc]
    exact place
  | txTail work =>
    unfold TxPlace at *
    rw [tail, ownPacket_congr (congrFun desc _) (congrFun buffer _)]
    exact place
  | _ => exact place

/-- Steps that have nothing to do with transmitting keep the transmit ring. -/
theorem TxOk.other (ok : TxOk nic) (desc : next.txDesc = nic.txDesc)
    (buffer : next.txBuffer = nic.txBuffer) (tail : next.tcqTail = nic.tcqTail)
    (accepted : next.accepted = nic.accepted) (wire : next.wire = nic.wire)
    (head : next.tdh = nic.tdh) (bell : next.tdt = nic.tdt)
    (before : prepared next.pc = prepared nic.pc) (more : wanted next.pc = wanted nic.pc)
    (place : TxPlace next next.pc) : TxOk next where
  queue := by
    obtain ⟨queued, inOrder, cells, room⟩ := ok.queue
    refine ⟨queued, ?_, ?_, ?_⟩
    · rw [accepted, wire]
      exact inOrder
    · rw [before, wire]
      exact cells.congr fun k _ => ownPacket_congr (congrFun desc _) (congrFun buffer _)
    · rw [before, more]
      exact room
  head := by rw [head, wire]; exact ok.head
  bell := by rw [bell, accepted]; exact ok.bell
  tail := by rw [tail, accepted, before]; exact ok.tail
  place := place

/-- The frames that are queued or prepared fit, with one descriptor left. -/
theorem TxOk.near (ok : TxOk nic) : nic.wire.length ≤ nic.accepted.length ∧
    nic.accepted.length + (prepared nic.pc).length + wanted nic.pc <
      nic.wire.length + txDescs := by
  obtain ⟨queued, inOrder, _, room⟩ := ok.queue
  have total := congrArg List.length inOrder
  rw [List.length_append] at total
  omega

/-- `tcq_len` counts the positions from the head that was read to the tail. -/
theorem tcqLen_eq {seen filled : Nat} (head : nic.tcqHead = seen % txDescs)
    (tail : nic.tcqTail = filled % txDescs) (behind : seen ≤ filled)
    (near : filled < seen + txDescs) : nic.tcqLen = filled - seen := by
  unfold tcqLen
  rw [head, tail]
  unfold txDescs at *
  split <;> omega

/-- Reading the transmit head. -/
theorem TxOk.txHead {array : Bool} (ok : TxOk nic) (at_ : nic.pc = .txHead array work) :
    TxOk { nic with tcqHead := nic.tdh, pc := .txRoom array work } := by
  have place : Fresh array work := by simpa [at_, TxPlace] using ok.place
  have near := ok.near
  refine ok.other rfl rfl rfl rfl rfl rfl rfl ?_ ?_ ⟨place, nic.wire.length, ok.head, le_rfl, ?_⟩
  · simp [at_, prepared]
  · simp [at_, wanted]
  · simp only [at_, prepared, wanted, List.length_nil] at near
    exact near.2

/-- A call that finds the queue full answers so. -/
theorem TxOk.txFull {array : Bool} (ok : TxOk nic) (at_ : nic.pc = .txRoom array work) :
    TxOk (nic.answer (.sent work.frames (-1))) := by
  refine ok.other rfl rfl rfl ?_ rfl rfl rfl ?_ ?_ trivial
  · simp [accepted_answer, acceptedBy]
  · simp [at_, prepared, answer]
  · simp [at_, wanted, answer]

/-- A call that finds room may take a descriptor for each of its frames. -/
theorem TxOk.txRoom {array : Bool} (ok : TxOk nic) (at_ : nic.pc = .txRoom array work)
    (free : nic.full array work = false) : TxOk { nic with pc := .txCopy work 0 } := by
  have place := ok.place
  have tail := ok.tail
  have near := ok.near
  simp only [at_, TxPlace] at place
  obtain ⟨fresh, seen, head, behind, close⟩ := place
  simp only [at_, prepared, wanted, List.length_nil, Nat.add_zero] at tail near
  have length := tcqLen_eq head tail (by omega) close
  -- Both tests say that the frames fit behind what was queued when the head was read.
  have fits : nic.accepted.length - seen + (work.after.length + 1) < txDescs := by
    have frames : work.frames.length = work.after.length + 1 := by
      simp [TxWork.frames, fresh.first]
    unfold full at free
    rw [length, frames] at free
    cases array with
    | false =>
      have alone := fresh.single rfl
      simp only [alone, List.length_nil, Bool.false_eq_true, if_false, decide_eq_false_iff_not]
        at free ⊢
      omega
    | true =>
      simp only [if_true, decide_eq_false_iff_not] at free
      omega
  obtain ⟨queued, inOrder, cells, room⟩ := ok.queue
  have total := congrArg List.length inOrder
  rw [List.length_append] at total
  refine ⟨⟨queued, inOrder, ?_, ?_⟩, ok.head, ok.bell, ?_, fresh.sized, ?_, Nat.zero_le _⟩
  · simp only [at_, prepared] at cells
    simp only [prepared, fresh.first]
    exact cells
  · simp only [prepared, wanted, fresh.first, List.length_nil]
    omega
  · simp only [prepared, fresh.first, List.length_nil, Nat.add_zero]
    exact tail
  · intro i none
    omega

/-- A step that touches nothing but the slot at the tail keeps the ring. -/
theorem TxOk.write (ok : TxOk nic)
    (desc : ∀ slot, slot ≠ nic.tcqTail → next.txDesc slot = nic.txDesc slot)
    (buffer : ∀ slot, slot ≠ nic.tcqTail → next.txBuffer slot = nic.txBuffer slot)
    (tail : next.tcqTail = nic.tcqTail) (log : next.log = nic.log) (wire : next.wire = nic.wire)
    (head : next.tdh = nic.tdh) (bell : next.tdt = nic.tdt)
    (before : prepared next.pc = prepared nic.pc) (more : wanted next.pc = wanted nic.pc)
    (some_wanted : 0 < wanted nic.pc) (place : TxPlace next next.pc) : TxOk next where
  queue := by
    obtain ⟨queued, queue⟩ := ok.queue
    exact ⟨queued, queue.write ok desc buffer log wire before more some_wanted⟩
  head := by rw [head, wire]; exact ok.head
  bell := by unfold accepted; rw [bell, log]; exact ok.bell
  tail := by unfold accepted; rw [tail, log, before]; exact ok.tail
  place := place

/-- Copying one byte of a frame. -/
theorem TxOk.txByte {j : Nat} (ok : TxOk nic) (at_ : nic.pc = .txCopy work j)
    (more : j < work.frame.length) :
    TxOk { nic with
      txBuffer := Function.update nic.txBuffer nic.tcqTail
        (Function.update (nic.txBuffer nic.tcqTail) j (work.frame.memory j))
      pc := .txCopy work (j + 1) } := by
  have place := ok.place
  simp only [at_, TxPlace] at place
  obtain ⟨sized, copied, _⟩ := place
  refine ok.write (fun _ _ => rfl) ?_ rfl rfl rfl rfl rfl ?_ ?_ ?_ ⟨sized, ?_, more⟩
  · intro slot apart
    simp [apart]
  · simp [at_, prepared]
  · simp [at_, wanted]
  · simp [at_, wanted]
  · intro i inside
    simp only [Function.update_self]
    by_cases last : i = j
    · simp [last]
    · simp only [Function.update_of_ne last]
      exact copied i (by omega)

/-- The end of the copy. -/
theorem TxOk.txCopied {j : Nat} (ok : TxOk nic) (at_ : nic.pc = .txCopy work j)
    (done : work.frame.length ≤ j) : TxOk { nic with pc := .txAddr work } := by
  have place := ok.place
  simp only [at_, TxPlace] at place
  refine ok.other rfl rfl rfl rfl rfl rfl rfl ?_ ?_ ⟨place.1, ?_⟩
  · simp [at_, prepared]
  · simp [at_, wanted]
  · intro i inside
    exact place.2.1 i (by omega)

/-- A page fault during the copy of the first frame leaves the queue as it was. -/
theorem TxOk.txFault {j : Nat} (ok : TxOk nic) (at_ : nic.pc = .txCopy work j)
    (first : work.before = []) : TxOk { nic with pc := .idle } := by
  obtain ⟨queued, inOrder, cells, room⟩ := ok.queue
  have tail := ok.tail
  simp only [at_, prepared, wanted, first] at cells room tail
  refine ⟨⟨queued, inOrder, cells, ?_⟩, ok.head, ok.bell, tail, trivial⟩
  simp only [prepared, wanted, List.length_nil] at room ⊢
  omega

/-- Writing a field of the descriptor at the tail. -/
theorem TxOk.txField {pc : E1000Pc} {desc : TxDesc} (ok : TxOk nic)
    (before : prepared pc = prepared nic.pc) (more : wanted pc = wanted nic.pc)
    (some_wanted : 0 < wanted nic.pc)
    (place : TxPlace { nic with txDesc := Function.update nic.txDesc nic.tcqTail desc, pc } pc) :
    TxOk { nic with txDesc := Function.update nic.txDesc nic.tcqTail desc, pc } :=
  ok.write (fun slot apart => by simp [apart]) (fun _ _ => rfl) rfl rfl rfl rfl rfl before more
    some_wanted place

/-- The address of the frame buffer. -/
theorem TxOk.txAddr (ok : TxOk nic) (at_ : nic.pc = .txAddr work) :
    TxOk { nic with
      txDesc := Function.update nic.txDesc nic.tcqTail
        { nic.txDesc nic.tcqTail with addr := nic.tcqTail }
      pc := .txLength work } := by
  have place := ok.place
  simp only [at_, TxPlace] at place
  apply ok.txField
  · simp [at_, prepared]
  · simp [at_, wanted]
  · simp [at_, wanted]
  · exact ⟨place.1, place.2, by simp⟩

/-- The length of the frame, which fits in sixteen bits. -/
theorem TxOk.txLength (ok : TxOk nic) (at_ : nic.pc = .txLength work) :
    TxOk { nic with
      txDesc := Function.update nic.txDesc nic.tcqTail
        { nic.txDesc nic.tcqTail with length := work.frame.length % 2 ^ 16 }
      pc := .txCmd work } := by
  have place := ok.place
  simp only [at_, TxPlace] at place
  have short := (place.1 work.frame (by simp [TxWork.frames])).2
  unfold txFrmSize at short
  apply ok.txField
  · simp [at_, prepared]
  · simp [at_, wanted]
  · simp [at_, wanted]
  · refine ⟨place.1, place.2.1, ?_, ?_⟩
    · simpa using place.2.2
    · simp only [Function.update_self]
      omega

/-- The command, which completes the descriptor. -/
theorem TxOk.txCmd (ok : TxOk nic) (at_ : nic.pc = .txCmd work) :
    TxOk { nic with
      txDesc := Function.update nic.txDesc nic.tcqTail
        { nic.txDesc nic.tcqTail with cmd := txdCmd }
      pc := .txTail work } := by
  have place := ok.place
  simp only [at_, TxPlace] at place
  obtain ⟨sized, copied, addr, length⟩ := place
  apply ok.txField
  · simp [at_, prepared]
  · simp [at_, wanted]
  · simp [at_, wanted]
  · refine ⟨sized, ?_⟩
    -- All that was written to the slot comes together in its packet.
    have bytes : (List.range work.frame.length).map (nic.txBuffer nic.tcqTail) =
        (List.range work.frame.length).map work.frame.memory :=
      List.map_congr_left fun i inside => copied i (List.mem_range.mp inside)
    simp [ownPacket, packetAt, addr, length, TxFrame.packet, bytes]

/-- The wrap of the tail, written as the driver does, is a count around the ring. -/
theorem txNext_mod (position : Nat) : txNext (position % txDescs) = (position + 1) % txDescs := by
  unfold txNext txDescs
  split <;> omega

/-- The tail moves on, and the descriptor it leaves behind is prepared. -/
theorem TxOk.txTail (ok : TxOk nic) (at_ : nic.pc = .txTail work) :
    TxOk { nic with tcqTail := txNext nic.tcqTail, pc := afterTail work } := by
  have place := ok.place
  have tail := ok.tail
  obtain ⟨queued, queue⟩ := ok.queue
  have slot := queue.tail_slot ok
  obtain ⟨inOrder, cells, room⟩ := queue
  simp only [at_, TxPlace] at place
  simp only [at_, prepared, wanted] at slot cells room tail
  obtain ⟨sized, own⟩ := place
  -- Whether the loop goes on or ends, the frame just handled is now among the prepared ones.
  have before : prepared (afterTail work) = work.before ++ [work.frame] := by
    unfold afterTail
    cases work.after with
    | nil => rfl
    | cons next rest => rfl
  have more : wanted (afterTail work) = work.after.length := by
    unfold afterTail
    cases work.after with
    | nil => rfl
    | cons next rest => rfl
  have longer := cells.push (slot ▸ own)
  refine ⟨⟨queued, inOrder, ?_, ?_⟩, ok.head, ok.bell, ?_, ?_⟩
  · have shape : (queued ++ packets (work.before ++ [work.frame])).map some =
        (queued ++ packets work.before).map some ++ [some work.frame.packet] := by simp [packets]
    simp only [before]
    rw [shape]
    exact longer
  · simp only [before, more, List.length_append, List.length_cons, List.length_nil]
    omega
  · simp only [before, tail, txNext_mod, List.length_append, List.length_cons, List.length_nil]
    rw [Nat.add_assoc]
    rfl
  · unfold afterTail
    cases rest : work.after with
    | nil =>
      refine ⟨?_, by simp⟩
      simpa [TxWork.frames, rest] using sized
    | cons next rest' =>
      refine ⟨?_, fun i none => by omega, Nat.zero_le _⟩
      simpa [TxWork.frames, rest] using sized

/-- The sum of sizes that are accepted is positive. -/
theorem Sized.total_pos {frames : List TxFrame} (sized : Sized frames) (some_frame : frames ≠ []) :
    0 < (frames.map TxFrame.length).sum := by
  cases frames with
  | nil => exact absurd rfl some_frame
  | cons frame rest =>
    have first := (sized frame (by simp)).1
    simp only [List.map_cons, List.sum_cons]
    omega

/-- The doorbell hands all frames of the call to the NIC at once. -/
theorem TxOk.txBell {frames : List TxFrame} (ok : TxOk nic) (at_ : nic.pc = .txBell frames) :
    TxOk ({ nic with tdt := nic.tcqTail }.answer
      (.sent frames ((frames.map TxFrame.length).sum : Nat))) := by
  have place := ok.place
  have tail := ok.tail
  obtain ⟨queued, inOrder, cells, room⟩ := ok.queue
  simp only [at_, TxPlace] at place
  simp only [at_, prepared, wanted] at cells room tail
  have total := place.1.total_pos place.2
  have accepted : ({ nic with tdt := nic.tcqTail }.answer
      (.sent frames ((frames.map TxFrame.length).sum : Nat))).accepted =
        nic.accepted ++ packets frames := by
    rw [accepted_answer]
    simp only [acceptedBy]
    rw [if_pos (by omega)]
    rfl
  refine ⟨⟨queued ++ packets frames, ?_, ?_, ?_⟩, ok.head, ?_, ?_, trivial⟩
  · rw [accepted, inOrder, List.append_assoc]
    rfl
  · have shape : (queued ++ packets frames ++ packets []).map some =
        (queued ++ packets frames).map some := by simp [packets]
    simp only [answer, prepared]
    rw [shape]
    exact cells
  · simpa [answer, prepared, wanted] using room
  · rw [accepted, List.length_append, length_packets]
    exact tail
  · rw [accepted, List.length_append, length_packets]
    exact tail

/-- The NIC sends the first of the queued frames. -/
theorem TxOk.send (ok : TxOk nic) (sent : nic.send = some next) : TxOk next := by
  obtain ⟨queued, inOrder, cells, room⟩ := ok.queue
  have near := ok.near
  have total := congrArg List.length inOrder
  rw [List.length_append] at total
  unfold E1000.send at sent
  by_cases empty : nic.tdh = nic.tdt
  · simp [empty] at sent
  rw [if_neg empty, Option.some.injEq] at sent
  subst sent
  cases queued with
  | nil =>
    -- With nothing queued, head and tail would be equal.
    rw [ok.head, ok.bell, total] at empty
    simp at empty
  | cons packet rest =>
    have front : nic.ownPacket nic.tdh = some packet := by
      rw [ok.head]
      exact cells.front
    have same : nic.packetAt nic.tdh = packet := by
      unfold ownPacket at front
      split at front
      · exact Option.some.inj front
      · cases front
    refine ⟨⟨rest, ?_, ?_, ?_⟩, ?_, ok.bell, ok.tail, ok.place.congr rfl rfl rfl rfl rfl ?_⟩
    · simp only [same, List.append_assoc, List.singleton_append]
      exact inOrder
    · simp only [List.length_append, List.length_cons, List.length_nil]
      exact cells.pop
    · simp only [List.length_cons] at room
      simp only
      omega
    · simp only [ok.head, List.length_append, List.length_cons, List.length_nil]
      unfold txDescs
      omega
    · simp

/-- The places at which no transmitting call has got to the queue. -/
def offQueue : E1000Pc → Bool
  | .txRoom .. | .txCopy .. | .txAddr .. | .txLength .. | .txCmd .. | .txTail .. | .txBell .. =>
    false
  | _ => true

/-- A step from one such place to another keeps the ring, unless it is about the ring. -/
theorem TxOk.off (ok : TxOk nic) (desc : next.txDesc = nic.txDesc)
    (buffer : next.txBuffer = nic.txBuffer) (tail : next.tcqTail = nic.tcqTail)
    (accepted : next.accepted = nic.accepted) (wire : next.wire = nic.wire)
    (head : next.tdh = nic.tdh) (bell : next.tdt = nic.tdt) (here : offQueue nic.pc = true)
    (there : offQueue next.pc = true) (place : TxPlace next next.pc) : TxOk next := by
  have none_prepared (pc : E1000Pc) (off : offQueue pc = true) :
      prepared pc = [] ∧ wanted pc = 0 := by
    cases pc <;> simp_all [offQueue, prepared, wanted]
  have before := none_prepared _ here
  have after := none_prepared _ there
  exact ok.other desc buffer tail accepted wire head bell (after.1.trans before.1.symm)
    (after.2.trans before.2.symm) place

/-- Every step of the kernel that is not cut short keeps the transmit ring. -/
theorem TxOk.kernel (ok : TxOk nic) (whole : nic.cutsShort .kernel = false)
    (stepped : nic.kernelStep = some next) : TxOk next := by
  unfold kernelStep at stepped
  cases at_ : nic.pc with
  | idle => simp [at_] at stepped
  | txHead array work =>
    simp only [at_, Option.some.injEq] at stepped
    subst stepped
    exact ok.txHead at_
  | txRoom array work =>
    simp only [at_] at stepped
    cases free : nic.full array work with
    | true =>
      simp only [free, if_true, Option.some.injEq] at stepped
      subst stepped
      exact ok.txFull at_
    | false =>
      simp only [free, Bool.false_eq_true, if_false, Option.some.injEq] at stepped
      subst stepped
      exact ok.txRoom at_ free
  | txCopy work j =>
    simp only [at_] at stepped
    by_cases done : work.frame.length ≤ j
    · simp only [done, if_true, Option.some.injEq] at stepped
      subst stepped
      exact ok.txCopied at_ done
    · by_cases fault : work.frame.legal ≤ j
      · -- The condition says that no descriptor has been prepared yet.
        simp only [done, fault, if_false, if_true, Option.some.injEq] at stepped
        subst stepped
        have short : j < work.frame.length := by omega
        simp only [cutsShort, at_, fault, short, and_self, decide_true, Bool.and_true,
          Bool.not_eq_false', List.isEmpty_iff] at whole
        exact ok.txFault at_ whole
      · simp only [done, fault, if_false, Option.some.injEq] at stepped
        subst stepped
        exact ok.txByte at_ (by omega)
  | txAddr work =>
    simp only [at_, Option.some.injEq] at stepped
    subst stepped
    exact ok.txAddr at_
  | txLength work =>
    simp only [at_, Option.some.injEq] at stepped
    subst stepped
    exact ok.txLength at_
  | txCmd work =>
    simp only [at_, Option.some.injEq] at stepped
    subst stepped
    exact ok.txCmd at_
  | txTail work =>
    simp only [at_, Option.some.injEq] at stepped
    subst stepped
    exact ok.txTail at_
  | txBell frames =>
    simp only [at_, Option.some.injEq] at stepped
    subst stepped
    exact ok.txBell at_
  | rxStatus target =>
    simp only [at_] at stepped
    split at stepped
    · cases stepped
      exact ok.off rfl rfl rfl rfl rfl rfl rfl (by simp [at_, offQueue]) rfl trivial
    · cases stepped
      refine ok.off rfl rfl rfl ?_ rfl rfl rfl (by simp [at_, offQueue]) rfl trivial
      simp [accepted_answer, acceptedBy]
  | rxLength target =>
    simp only [at_, Option.some.injEq] at stepped
    subst stepped
    exact ok.off rfl rfl rfl rfl rfl rfl rfl (by simp [at_, offQueue]) rfl trivial
  | rxCopy target len =>
    simp only [at_] at stepped
    split at stepped
    · cases stepped
      exact ok.off rfl rfl rfl rfl rfl rfl rfl (by simp [at_, offQueue]) rfl trivial
    · split at stepped
      · cases stepped
        exact ok.off rfl rfl rfl rfl rfl rfl rfl (by simp [at_, offQueue]) rfl trivial
      · cases stepped
        exact ok.off rfl rfl rfl rfl rfl rfl rfl (by simp [at_, offQueue]) rfl trivial
  | rxAddr frame =>
    simp only [at_, Option.some.injEq] at stepped
    subst stepped
    exact ok.off rfl rfl rfl rfl rfl rfl rfl (by simp [at_, offQueue]) rfl trivial
  | rxClear frame =>
    simp only [at_, Option.some.injEq] at stepped
    subst stepped
    exact ok.off rfl rfl rfl rfl rfl rfl rfl (by simp [at_, offQueue]) rfl trivial
  | rxTail frame =>
    simp only [at_, Option.some.injEq] at stepped
    subst stepped
    exact ok.off rfl rfl rfl rfl rfl rfl rfl (by simp [at_, offQueue]) rfl trivial
  | rxBell frame =>
    simp only [at_, Option.some.injEq] at stepped
    subst stepped
    refine ok.off rfl rfl rfl ?_ rfl rfl rfl (by simp [at_, offQueue]) rfl trivial
    rw [accepted_answer]
    simp [acceptedBy, accepted]

/-- A call of `e1000_transmit` starts with nothing queued by itself. -/
theorem TxOk.transmit {frame : TxFrame} {length : Int} (ok : TxOk nic) (at_ : nic.pc = .idle) :
    TxOk (nic.transmit frame length) := by
  unfold E1000.transmit
  split
  · refine ok.off rfl rfl rfl ?_ rfl rfl rfl (by simp [at_, offQueue]) rfl trivial
    simp [accepted_answer, acceptedBy]
  · rename_i sizes
    refine ok.off rfl rfl rfl rfl rfl rfl rfl (by simp [at_, offQueue]) rfl ⟨?_, rfl, fun _ => rfl⟩
    intro one member
    simp only [TxWork.frames, List.nil_append, List.mem_singleton] at member
    subst member
    simp only
    omega

/-- A call of `e1000_transmit_array` checks all lengths before it queues anything. -/
theorem TxOk.transmitArray {vfrm : Nat → TxFrame} {vlen : Nat → Int} {nfrm : Int} (ok : TxOk nic)
    (at_ : nic.pc = .idle) : TxOk (nic.transmitArray vfrm vlen nfrm) := by
  unfold E1000.transmitArray
  have refused : TxOk (nic.answer (.sent [] 0)) := by
    refine ok.off rfl rfl rfl ?_ rfl rfl rfl (by simp [at_, offQueue]) rfl trivial
    simp [accepted_answer, acceptedBy]
  simp only
  split
  · exact refused
  split
  · exact refused
  rename_i sizes
  -- Every element has passed its check.
  have sized : Sized ((List.range nfrm.toNat).map fun i =>
      { vfrm i with length := (vlen i).toNat }) := by
    intro frame member
    obtain ⟨i, inside, same⟩ := List.mem_map.mp member
    subst same
    simp only [Bool.not_eq_true, List.any_eq_false, Bool.or_eq_false_iff,
      decide_eq_false_iff_not] at sizes
    have checked := sizes i inside
    simp only
    omega
  split
  · exact ok
  · rename_i frame after same
    rw [same] at sized
    exact ok.off rfl rfl rfl rfl rfl rfl rfl (by simp [at_, offQueue]) rfl
      ⟨sized, rfl, fun single => absurd single (by simp)⟩

/-- The NIC's reception does not touch the transmit ring. -/
theorem TxOk.receive {frame : List UInt8} (ok : TxOk nic)
    (received : nic.receive frame = some next) : TxOk next := by
  unfold E1000.receive at received
  split at received
  · cases received
  · simp only [Option.some.injEq] at received
    subst received
    exact ok.other rfl rfl rfl rfl rfl rfl rfl rfl rfl (ok.place.congr rfl rfl rfl rfl rfl le_rfl)

/-- Every step that does not cut a call short keeps the transmit ring. -/
theorem TxOk.step {event : Event} (ok : TxOk nic) (whole : nic.cutsShort event = false) {out : Unit}
    (stepped : nic.step event = some (out, next)) : TxOk next := by
  cases event with
  | transmit frame length =>
    cases at_ : nic.pc with
    | idle =>
      simp only [E1000.step, at_, Option.some.injEq, Prod.mk.injEq] at stepped
      exact stepped.2 ▸ ok.transmit at_
    | _ => simp [E1000.step, at_] at stepped
  | transmitArray vfrm vlen nfrm =>
    cases at_ : nic.pc with
    | idle =>
      simp only [E1000.step, at_, Option.some.injEq, Prod.mk.injEq] at stepped
      exact stepped.2 ▸ ok.transmitArray at_
    | _ => simp [E1000.step, at_] at stepped
  | poll legal =>
    cases at_ : nic.pc with
    | idle =>
      simp only [E1000.step, at_, Option.some.injEq, Prod.mk.injEq] at stepped
      obtain ⟨_, same⟩ := stepped
      subst same
      exact ok.off rfl rfl rfl rfl rfl rfl rfl (by simp [at_, offQueue]) rfl trivial
    | _ => simp [E1000.step, at_] at stepped
  | kernel =>
    obtain ⟨after, moved, same⟩ := Option.map_eq_some_iff.mp stepped
    cases same
    exact ok.kernel whole moved
  | send =>
    obtain ⟨after, sent, same⟩ := Option.map_eq_some_iff.mp stepped
    cases same
    exact ok.send sent
  | receive frame =>
    obtain ⟨after, received, same⟩ := Option.map_eq_some_iff.mp stepped
    cases same
    exact ok.receive received

/-- After `e1000_init` the ring is empty. -/
theorem txOk_init : TxOk init := by
  refine ⟨⟨[], rfl, ?_, by decide⟩, rfl, rfl, rfl, trivial⟩
  exact Window.nil

end E1000

end GlucOS
