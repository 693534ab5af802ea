import GlucOS.Net.E1000

/-! The receive ring: what has arrived is returned in order, and waits in the ring until then. -/

namespace GlucOS.E1000

/-- The frame returned by one finished call. -/
def returnedBy : E1000Log → List (List UInt8)
  | .polled frame => [frame]
  | _ => []

/-- The frames that the calls of `e1000_poll` have returned so far. -/
def returned (nic : E1000) : List (List UInt8) := nic.log.flatMap returnedBy

/-- The frame of a receive descriptor that is done. -/
def doneFrame (nic : E1000) (slot : Nat) : Option (List UInt8) :=
  if (nic.rxDesc slot).done then
    some ((List.range (nic.rxDesc slot).length).map (nic.rxBuffer (nic.rxDesc slot).addr))
  else none

/-- The frame that the running call has taken from the ring, but not returned yet. -/
def held : E1000Pc → List (List UInt8)
  | .rxTail frame | .rxBell frame => [frame]
  | _ => []

/-- How far the running call has moved the tail ahead of the NIC's. -/
def moved : E1000Pc → Nat
  | .rxBell _ => 1
  | _ => 0

/-- What is known at each place of `e1000_poll`. -/
def RxPlace (nic : E1000) : E1000Pc → Prop
  | .rxStatus target => target.got = []
  | .rxLength target => target.got = [] ∧ (nic.rxDesc nic.tailNext).done = true
  | .rxCopy target len => (nic.rxDesc nic.tailNext).done = true ∧
      len = (nic.rxDesc nic.tailNext).length ∧ target.got.length ≤ len ∧
      target.got = (List.range target.got.length).map (nic.rxBuffer nic.tailNext)
  | .rxAddr frame | .rxClear frame => nic.doneFrame nic.tailNext = some frame
  | _ => True

/-- The frames waiting in the ring. -/
structure RxQueue (nic : E1000) (waiting : List (List UInt8)) : Prop where
  /-- The frames returned are the first that have arrived, and the others wait. -/
  inOrder : nic.arrived = nic.returned ++ held nic.pc ++ waiting
  /-- The descriptors behind the tail hold the waiting frames. -/
  cells : Window rxDescs nic.doneFrame (nic.returned.length + (held nic.pc).length)
    (waiting.map some)
  /-- The others are not done. -/
  empty : ∀ k, waiting.length ≤ k → k < rxDescs →
    (nic.rxDesc ((nic.returned.length + (held nic.pc).length + k) % rxDescs)).done = false
  /-- One descriptor stays free. -/
  room : (held nic.pc).length + waiting.length < rxDescs

/-- The invariant of the receive ring. -/
structure RxOk (nic : E1000) : Prop where
  queue : ∃ waiting, RxQueue nic waiting
  head : nic.rdh = nic.arrived.length % rxDescs
  bell : nic.rdt = (nic.returned.length + (rxDescs - 1)) % rxDescs
  tail : nic.rcqTail = (nic.returned.length + moved nic.pc + (rxDescs - 1)) % rxDescs
  /-- Every descriptor keeps its own frame buffer. -/
  own : ∀ slot < rxDescs, (nic.rxDesc slot).addr = slot
  place : RxPlace nic nic.pc

variable {nic next : E1000} {waiting : List (List UInt8)} {target : RxTarget}
  {frame : List UInt8}

/-- A finished call adds the frame that it returns. -/
theorem returned_answer (nic : E1000) (entry : E1000Log) :
    (nic.answer entry).returned = nic.returned ++ returnedBy entry := by
  simp [returned, answer]

/-- A descriptor and its buffer decide what its frame is. -/
theorem doneFrame_congr {slot : Nat} (desc : next.rxDesc slot = nic.rxDesc slot)
    (buffer : next.rxBuffer (nic.rxDesc slot).addr = nic.rxBuffer (nic.rxDesc slot).addr) :
    next.doneFrame slot = nic.doneFrame slot := by
  unfold doneFrame
  rw [desc, buffer]

/-- A descriptor with a frame is done. -/
theorem done_of_frame {slot : Nat} (filled : nic.doneFrame slot = some frame) :
    (nic.rxDesc slot).done = true := by
  unfold doneFrame at filled
  split at filled
  · assumption
  · cases filled

/-- Until the tail is moved, `e1000_poll` looks at the first descriptor that is not returned. -/
theorem RxOk.tailNext (ok : RxOk nic) (still : moved nic.pc = 0) :
    nic.tailNext = nic.returned.length % rxDescs := by
  have tail := ok.tail
  unfold E1000.tailNext
  rw [still] at tail
  unfold rxDescs at *
  omega

/-- Steps that have nothing to do with receiving keep the receive ring. -/
theorem RxOk.other (ok : RxOk nic) (desc : next.rxDesc = nic.rxDesc)
    (buffer : next.rxBuffer = nic.rxBuffer) (tail : next.rcqTail = nic.rcqTail)
    (returned : next.returned = nic.returned) (arrived : next.arrived = nic.arrived)
    (head : next.rdh = nic.rdh) (bell : next.rdt = nic.rdt) (hold : held next.pc = held nic.pc)
    (move : moved next.pc = moved nic.pc) (place : RxPlace next next.pc) : RxOk next where
  queue := by
    obtain ⟨waiting, inOrder, cells, empty, room⟩ := ok.queue
    refine ⟨waiting, ?_, ?_, ?_, ?_⟩
    · rw [arrived, returned, hold]
      exact inOrder
    · rw [returned, hold]
      exact cells.congr fun k _ => doneFrame_congr (congrFun desc _) (congrFun buffer _)
    · rw [returned, hold, desc]
      exact empty
    · rw [hold]
      exact room
  head := by rw [head, arrived]; exact ok.head
  bell := by rw [bell, returned]; exact ok.bell
  tail := by rw [tail, returned, move]; exact ok.tail
  own := by rw [desc]; exact ok.own
  place := place

/-- The places at which no frame is being taken from the ring. -/
def offRing : E1000Pc → Bool
  | .rxLength .. | .rxCopy .. | .rxAddr .. | .rxClear .. | .rxTail .. | .rxBell .. => false
  | _ => true

/-- A step from one such place to another keeps the ring, unless it is about the ring. -/
theorem RxOk.off (ok : RxOk nic) (desc : next.rxDesc = nic.rxDesc)
    (buffer : next.rxBuffer = nic.rxBuffer) (tail : next.rcqTail = nic.rcqTail)
    (returned : next.returned = nic.returned) (arrived : next.arrived = nic.arrived)
    (head : next.rdh = nic.rdh) (bell : next.rdt = nic.rdt) (here : offRing nic.pc = true)
    (there : offRing next.pc = true) (place : RxPlace next next.pc) : RxOk next := by
  have nothing_held (pc : E1000Pc) (off : offRing pc = true) : held pc = [] ∧ moved pc = 0 := by
    cases pc <;> simp_all [offRing, held, moved]
  have before := nothing_held _ here
  have after := nothing_held _ there
  exact ok.other desc buffer tail returned arrived head bell (after.1.trans before.1.symm)
    (after.2.trans before.2.symm) place

/-- A poll answers that there is nothing only when everything has been returned. -/
theorem RxOk.nothing (ok : RxOk nic) (at_ : nic.pc = .rxStatus target)
    (undone : (nic.rxDesc nic.tailNext).done = false) : nic.arrived = nic.returned := by
  obtain ⟨waiting, inOrder, cells, _, _⟩ := ok.queue
  rw [ok.tailNext (by simp [at_, moved])] at undone
  simp only [at_, held, List.append_nil, List.length_nil, Nat.add_zero] at inOrder cells
  cases waiting with
  | nil => simpa using inOrder
  | cons first rest =>
    -- A waiting frame would have been found in its descriptor.
    have done := done_of_frame cells.front
    rw [undone] at done
    cases done

/-- Reading the length of a frame that is done. -/
theorem RxOk.rxLength (ok : RxOk nic) (at_ : nic.pc = .rxLength target) :
    RxOk { nic with pc := .rxCopy target (nic.rxDesc nic.tailNext).length } := by
  have place := ok.place
  simp only [at_, RxPlace] at place
  refine ok.other rfl rfl rfl rfl rfl rfl rfl ?_ ?_ ⟨place.2, rfl, ?_, ?_⟩
  · simp [at_, held]
  · simp [at_, moved]
  · simp [place.1]
  · simp [place.1]

/-- Copying one byte of it. -/
theorem RxOk.rxByte {len : Nat} (ok : RxOk nic) (at_ : nic.pc = .rxCopy target len)
    (more : target.got.length < len) :
    RxOk { nic with
      pc := .rxCopy
        ⟨target.legal, target.got ++ [nic.rxBuffer nic.tailNext target.got.length]⟩ len } := by
  have place := ok.place
  simp only [at_, RxPlace] at place
  obtain ⟨done, length, _, copied⟩ := place
  refine ok.other rfl rfl rfl rfl rfl rfl rfl ?_ ?_ ⟨done, length, ?_, ?_⟩
  · simp [at_, held]
  · simp [at_, moved]
  · simpa using more
  · have longer : target.got ++ [nic.rxBuffer nic.tailNext target.got.length] =
        (List.range (target.got.length + 1)).map (nic.rxBuffer nic.tailNext) := by
      rw [List.range_succ, List.map_append, ← copied]
      rfl
    simp only [List.length_append, List.length_singleton]
    exact longer

/-- When all bytes have been copied, the caller has the frame of the descriptor. -/
theorem RxOk.rxCopied {len : Nat} (ok : RxOk nic) (at_ : nic.pc = .rxCopy target len)
    (all : len ≤ target.got.length) : RxOk { nic with pc := .rxAddr target.got } := by
  have place := ok.place
  simp only [at_, RxPlace] at place
  obtain ⟨done, length, short, copied⟩ := place
  refine ok.other rfl rfl rfl rfl rfl rfl rfl ?_ ?_ ?_
  · simp [at_, held]
  · simp [at_, moved]
  · have slot : nic.tailNext < rxDescs := Nat.mod_lt _ (by decide)
    have whole : (nic.rxDesc nic.tailNext).length = target.got.length := by omega
    have same : nic.doneFrame nic.tailNext = some target.got := by
      unfold doneFrame
      rw [if_pos done, ok.own _ slot, whole, ← copied]
    exact same

/-- Writing the address of the frame buffer again. -/
theorem RxOk.rxAddr (ok : RxOk nic) (at_ : nic.pc = .rxAddr frame) :
    RxOk { nic with
      rxDesc := Function.update nic.rxDesc nic.tailNext
        { nic.rxDesc nic.tailNext with addr := nic.tailNext }
      pc := .rxClear frame } := by
  have slot : nic.tailNext < rxDescs := Nat.mod_lt _ (by decide)
  have own := ok.own _ slot
  have place := ok.place
  simp only [at_, RxPlace] at place
  -- The descriptor has had this address all the time.
  have same : Function.update nic.rxDesc nic.tailNext
      { nic.rxDesc nic.tailNext with addr := nic.tailNext } = nic.rxDesc := by
    have unchanged (desc : RxDesc) (addr : Nat) (is : desc.addr = addr) :
        { desc with addr } = desc := by
      subst is
      rfl
    exact Function.update_eq_self_iff.mpr (unchanged _ _ own)
  rw [same]
  refine ok.other rfl rfl rfl rfl rfl rfl rfl ?_ ?_ place
  · simp [at_, held]
  · simp [at_, moved]

/-- Clearing the descriptor takes the frame from the ring. -/
theorem RxOk.rxClear (ok : RxOk nic) (at_ : nic.pc = .rxClear frame) :
    RxOk { nic with
      rxDesc := Function.update nic.rxDesc nic.tailNext
        { nic.rxDesc nic.tailNext with length := 0, done := false }
      pc := .rxTail frame } := by
  have place := ok.place
  have slot := ok.tailNext (by simp [at_, moved])
  have tail := ok.tail
  obtain ⟨waiting, inOrder, cells, empty, room⟩ := ok.queue
  simp only [at_, RxPlace] at place
  simp only [at_, held, moved, List.append_nil, List.length_nil, Nat.add_zero, Nat.zero_add]
    at inOrder cells empty room tail
  cases waiting with
  | nil =>
    -- Without a waiting frame the descriptor would not be done.
    have undone := empty 0 (by simp) (by decide)
    rw [Nat.add_zero, ← slot, done_of_frame place] at undone
    cases undone
  | cons first rest =>
    have front := cells.front
    rw [← slot, place, Option.some.injEq] at front
    subst front
    simp only [List.length_cons] at room empty
    refine ⟨⟨rest, ?_, ?_, ?_, ?_⟩, ok.head, ok.bell, ?_, ?_, trivial⟩
    · simp only [held, List.append_assoc, List.singleton_append]
      exact inOrder
    · simp only [held, List.length_cons, List.length_nil]
      apply Window.congr cells.pop
      intro k inside
      rw [List.length_map] at inside
      have apart : (nic.returned.length + 1 + k) % rxDescs ≠ nic.tailNext := by
        rw [slot]
        exact (mod_ne_of_lt (by omega) (by omega)).symm
      exact doneFrame_congr (by simp [apart]) rfl
    · intro k outside inside
      simp only [held, List.length_cons, List.length_nil]
      by_cases last : k + 1 = rxDescs
      · -- The descriptor just cleared is now the last of the free ones.
        have same : (nic.returned.length + (0 + 1) + k) % rxDescs = nic.tailNext := by
          rw [slot]
          unfold rxDescs at *
          omega
        change (Function.update nic.rxDesc nic.tailNext _
          ((nic.returned.length + (0 + 1) + k) % rxDescs)).done = false
        rw [same]
        simp
      · have apart : (nic.returned.length + (0 + 1) + k) % rxDescs ≠ nic.tailNext := by
          rw [slot]
          exact (mod_ne_of_lt (by omega) (by omega)).symm
        change (Function.update nic.rxDesc nic.tailNext _
          ((nic.returned.length + (0 + 1) + k) % rxDescs)).done = false
        rw [Function.update_of_ne apart]
        have earlier := empty (k + 1) (by omega) (by omega)
        rw [show nic.returned.length + (k + 1) = nic.returned.length + (0 + 1) + k by omega]
          at earlier
        exact earlier
    · simp only [held, List.length_cons, List.length_nil]
      omega
    · exact tail
    · intro other inside
      simp only
      by_cases same : other = nic.tailNext
      · subst same
        simpa using ok.own _ inside
      · simpa [same] using ok.own other inside

/-- Moving the tail to the frame that was taken. -/
theorem RxOk.rxTail (ok : RxOk nic) (at_ : nic.pc = .rxTail frame) :
    RxOk { nic with rcqTail := nic.tailNext, pc := .rxBell frame } := by
  have slot := ok.tailNext (by simp [at_, moved])
  obtain ⟨waiting, inOrder, cells, empty, room⟩ := ok.queue
  simp only [at_, held] at inOrder cells empty room
  refine ⟨⟨waiting, inOrder, cells, empty, room⟩, ok.head, ok.bell, ?_, ok.own, trivial⟩
  simp only [slot, moved]
  rw [Nat.add_assoc]
  exact (Nat.add_mod_right _ _).symm

/-- The doorbell gives the descriptor back to the NIC, and the frame is returned. -/
theorem RxOk.rxBell (ok : RxOk nic) (at_ : nic.pc = .rxBell frame) :
    RxOk ({ nic with rdt := nic.rcqTail }.answer (.polled frame)) := by
  have tail := ok.tail
  obtain ⟨waiting, inOrder, cells, empty, room⟩ := ok.queue
  simp only [at_, held, moved, List.length_cons, List.length_nil] at inOrder cells empty room tail
  have returned : ({ nic with rdt := nic.rcqTail }.answer (.polled frame)).returned =
      nic.returned ++ [frame] := by
    rw [returned_answer]
    rfl
  have count : ({ nic with rdt := nic.rcqTail }.answer (.polled frame)).returned.length =
      nic.returned.length + 1 := by simp [returned]
  refine ⟨⟨waiting, ?_, ?_, ?_, ?_⟩, ok.head, ?_, ?_, ok.own, trivial⟩
  · rw [returned]
    simpa [answer, held] using inOrder
  · rw [count]
    exact cells
  · rw [count]
    exact empty
  · simp only [answer, held, List.length_nil]
    omega
  · rw [count]
    exact tail
  · rw [count]
    exact tail

/-- The frame that the NIC has just put into a descriptor is found there. -/
theorem doneFrame_deliver (nic : E1000) (frame : List UInt8) :
    (nic.deliver frame).doneFrame nic.rdh = some frame := by
  have bytes : (List.range frame.length).map (fun i =>
      frame.getD i (nic.rxBuffer (nic.rxDesc nic.rdh).addr i)) = frame := by
    apply List.ext_getElem
    · simp
    · intro i _ inside
      simp [inside]
  simp only [doneFrame, deliver, Function.update_self, if_true]
  rw [bytes]

/-- The other descriptors and their frames are not touched. -/
theorem RxOk.doneFrame_deliver_of_ne (ok : RxOk nic) {slot : Nat} (bound : slot < rxDescs)
    (apart : slot ≠ nic.rdh) : (nic.deliver frame).doneFrame slot = nic.doneFrame slot := by
  have inside : nic.rdh < rxDescs := by
    rw [ok.head]
    exact Nat.mod_lt _ (by decide)
  -- Each descriptor leads to its own frame buffer.
  apply doneFrame_congr
  · simp [deliver, apart]
  · simp only [deliver]
    rw [ok.own _ inside, ok.own _ bound, Function.update_of_ne apart]

/-- The descriptor that a call works on is not the one that the NIC fills. -/
theorem RxOk.tailNext_ne_rdh (ok : RxOk nic) (still : moved nic.pc = 0) (nothing : held nic.pc = [])
    (done : (nic.rxDesc nic.tailNext).done = true) : nic.tailNext ≠ nic.rdh := by
  obtain ⟨waiting, inOrder, cells, empty, room⟩ := ok.queue
  simp only [nothing, List.append_nil, List.length_nil, Nat.add_zero, Nat.zero_add]
    at inOrder empty room
  have slot := ok.tailNext still
  have total := congrArg List.length inOrder
  rw [List.length_append] at total
  -- It is done, so a frame is waiting there, and the NIC is behind the waiting frames.
  have some_waiting : 0 < waiting.length := by
    by_contra none_waiting
    have undone := empty 0 (by omega) (by decide)
    rw [Nat.add_zero, ← slot, done] at undone
    cases undone
  rw [slot, ok.head, total]
  exact mod_ne_of_lt (by omega) (by omega)

/-- What is known about the call in progress is not changed by the NIC. -/
theorem RxOk.place_deliver (ok : RxOk nic) :
    RxPlace (nic.deliver frame) (nic.deliver frame).pc := by
  have place := ok.place
  have inside : nic.rdh < rxDescs := by
    rw [ok.head]
    exact Nat.mod_lt _ (by decide)
  have own := ok.own _ inside
  change RxPlace (nic.deliver frame) nic.pc
  -- Only a call that has found its descriptor done knows anything about it.
  have slot (apart : nic.tailNext ≠ nic.rdh) :
      (nic.deliver frame).rxDesc nic.tailNext = nic.rxDesc nic.tailNext ∧
      (nic.deliver frame).rxBuffer nic.tailNext = nic.rxBuffer nic.tailNext := by
    simp [deliver, own, apart]
  have bound : nic.tailNext < rxDescs := Nat.mod_lt _ (by decide)
  cases at_ : nic.pc with
  | rxLength target =>
    simp only [at_, RxPlace] at place ⊢
    have same := slot (ok.tailNext_ne_rdh (by simp [at_, moved]) (by simp [at_, held]) place.2)
    refine ⟨place.1, ?_⟩
    change ((nic.deliver frame).rxDesc nic.tailNext).done = true
    rw [same.1]
    exact place.2
  | rxCopy target len =>
    simp only [at_, RxPlace] at place ⊢
    have same := slot (ok.tailNext_ne_rdh (by simp [at_, moved]) (by simp [at_, held]) place.1)
    change ((nic.deliver frame).rxDesc nic.tailNext).done = true ∧
      len = ((nic.deliver frame).rxDesc nic.tailNext).length ∧ target.got.length ≤ len ∧
      target.got = (List.range target.got.length).map ((nic.deliver frame).rxBuffer nic.tailNext)
    rw [same.1, same.2]
    exact place
  | rxAddr kept =>
    simp only [at_, RxPlace] at place ⊢
    have apart := ok.tailNext_ne_rdh (by simp [at_, moved]) (by simp [at_, held])
      (done_of_frame place)
    exact (ok.doneFrame_deliver_of_ne bound apart).trans place
  | rxClear kept =>
    simp only [at_, RxPlace] at place ⊢
    have apart := ok.tailNext_ne_rdh (by simp [at_, moved]) (by simp [at_, held])
      (done_of_frame place)
    exact (ok.doneFrame_deliver_of_ne bound apart).trans place
  | rxStatus target =>
    simp only [at_, RxPlace] at place ⊢
    exact place
  | _ => trivial

/-- A frame put by the NIC where its head is joins the waiting ones. -/
theorem RxOk.receive (ok : RxOk nic) (received : nic.receive frame = some next) : RxOk next := by
  obtain ⟨waiting, inOrder, cells, empty, room⟩ := ok.queue
  have bell := ok.bell
  have head := ok.head
  have total := congrArg List.length inOrder
  simp only [List.length_append] at total
  unfold E1000.receive at received
  by_cases refused : nic.rdh = nic.rdt ∨ rxFrmSize < frame.length
  · simp [refused] at received
  rw [if_neg refused, Option.some.injEq] at received
  subst received
  have free : nic.rdh ≠ nic.rdt := fun same => refused (Or.inl same)
  -- The NIC's head is the position behind the waiting frames, and not yet the tail.
  have more : (held nic.pc).length + waiting.length + 1 < rxDescs := by
    rw [head, bell, total] at free
    by_contra full
    apply free
    congr 1
    omega
  have slot : nic.rdh =
      (nic.returned.length + (held nic.pc).length + waiting.length) % rxDescs := by
    rw [head, total]
  have small (position : Nat) : position % rxDescs < rxDescs := Nat.mod_lt _ (by decide)
  have older : Window rxDescs (nic.deliver frame).doneFrame
      (nic.returned.length + (held nic.pc).length) (waiting.map some) := by
    apply cells.congr
    intro k inside
    rw [List.length_map] at inside
    apply ok.doneFrame_deliver_of_ne (small _)
    rw [slot]
    exact mod_ne_of_lt (by omega) (by omega)
  refine ⟨⟨waiting ++ [frame], ?_, ?_, ?_, ?_⟩, ?_, bell, ok.tail, ?_, ?_⟩
  · change nic.arrived ++ [frame] = nic.returned ++ held nic.pc ++ (waiting ++ [frame])
    rw [inOrder, List.append_assoc]
  · rw [List.map_append]
    apply older.push
    rw [List.length_map, ← slot]
    exact doneFrame_deliver nic frame
  · intro k outside inside
    simp only [List.length_append, List.length_singleton] at outside
    have apart : (nic.returned.length + (held nic.pc).length + k) % rxDescs ≠ nic.rdh := by
      rw [slot]
      exact (mod_ne_of_lt (by omega) (by omega)).symm
    change (Function.update nic.rxDesc nic.rdh _
      ((nic.returned.length + (held nic.pc).length + k) % rxDescs)).done = false
    rw [Function.update_of_ne apart]
    exact empty k (by omega) inside
  · change (held nic.pc).length + (waiting ++ [frame]).length < rxDescs
    rw [List.length_append, List.length_singleton]
    omega
  · simp only [deliver, List.length_append, List.length_singleton, head]
    unfold rxDescs
    omega
  · intro other bound
    simp only [deliver]
    by_cases same : other = nic.rdh
    · subst same
      simpa using ok.own _ bound
    · simpa [same] using ok.own other bound
  · exact ok.place_deliver

/-- `kernelStep` keeps the receive ring. -/
theorem RxOk.kernel (ok : RxOk nic) (stepped : nic.kernelStep = some next) : RxOk next := by
  unfold kernelStep at stepped
  cases at_ : nic.pc with
  | idle => simp [at_] at stepped
  | txHead array work =>
    simp only [at_, Option.some.injEq] at stepped
    subst stepped
    exact ok.off rfl rfl rfl rfl rfl rfl rfl (by simp [at_, offRing]) rfl trivial
  | txRoom array work =>
    simp only [at_] at stepped
    split at stepped
    · cases stepped
      refine ok.off rfl rfl rfl ?_ rfl rfl rfl (by simp [at_, offRing]) rfl trivial
      simp [returned_answer, returnedBy]
    · cases stepped
      exact ok.off rfl rfl rfl rfl rfl rfl rfl (by simp [at_, offRing]) rfl trivial
  | txCopy work j =>
    simp only [at_] at stepped
    split at stepped
    · cases stepped
      exact ok.off rfl rfl rfl rfl rfl rfl rfl (by simp [at_, offRing]) rfl trivial
    · split at stepped
      · cases stepped
        exact ok.off rfl rfl rfl rfl rfl rfl rfl (by simp [at_, offRing]) rfl trivial
      · cases stepped
        exact ok.off rfl rfl rfl rfl rfl rfl rfl (by simp [at_, offRing]) rfl trivial
  | txAddr work =>
    simp only [at_, Option.some.injEq] at stepped
    subst stepped
    exact ok.off rfl rfl rfl rfl rfl rfl rfl (by simp [at_, offRing]) rfl trivial
  | txLength work =>
    simp only [at_, Option.some.injEq] at stepped
    subst stepped
    exact ok.off rfl rfl rfl rfl rfl rfl rfl (by simp [at_, offRing]) rfl trivial
  | txCmd work =>
    simp only [at_, Option.some.injEq] at stepped
    subst stepped
    exact ok.off rfl rfl rfl rfl rfl rfl rfl (by simp [at_, offRing]) rfl trivial
  | txTail work =>
    simp only [at_, Option.some.injEq] at stepped
    subst stepped
    have there : offRing (afterTail work) = true ∧ ∀ nic, RxPlace nic (afterTail work) := by
      unfold afterTail
      cases work.after with
      | nil => exact ⟨rfl, fun _ => trivial⟩
      | cons _ _ => exact ⟨rfl, fun _ => trivial⟩
    exact ok.off rfl rfl rfl rfl rfl rfl rfl (by simp [at_, offRing]) there.1 (there.2 _)
  | txBell frames =>
    simp only [at_, Option.some.injEq] at stepped
    subst stepped
    refine ok.off rfl rfl rfl ?_ rfl rfl rfl (by simp [at_, offRing]) rfl trivial
    rw [returned_answer]
    simp [returnedBy, returned]
  | rxStatus target =>
    simp only [at_] at stepped
    split at stepped
    · rename_i done
      cases stepped
      have place := ok.place
      simp only [at_, RxPlace] at place
      exact ok.other rfl rfl rfl rfl rfl rfl rfl (by simp [at_, held]) (by simp [at_, moved])
        ⟨place, done⟩
    · cases stepped
      refine ok.off rfl rfl rfl ?_ rfl rfl rfl (by simp [at_, offRing]) rfl trivial
      simp [returned_answer, returnedBy]
  | rxLength target =>
    simp only [at_, Option.some.injEq] at stepped
    subst stepped
    exact ok.rxLength at_
  | rxCopy target len =>
    simp only [at_] at stepped
    split at stepped
    · rename_i all
      cases stepped
      exact ok.rxCopied at_ all
    · rename_i more
      split at stepped
      · -- A page fault leaves the frame in the ring for the next call.
        cases stepped
        exact ok.other rfl rfl rfl rfl rfl rfl rfl (by simp [at_, held]) (by simp [at_, moved])
          trivial
      · cases stepped
        exact ok.rxByte at_ (by omega)
  | rxAddr frame =>
    simp only [at_, Option.some.injEq] at stepped
    subst stepped
    exact ok.rxAddr at_
  | rxClear frame =>
    simp only [at_, Option.some.injEq] at stepped
    subst stepped
    exact ok.rxClear at_
  | rxTail frame =>
    simp only [at_, Option.some.injEq] at stepped
    subst stepped
    exact ok.rxTail at_
  | rxBell frame =>
    simp only [at_, Option.some.injEq] at stepped
    subst stepped
    exact ok.rxBell at_

/-- Every step keeps the receive ring. -/
theorem RxOk.step {event : Event} (ok : RxOk nic) {out : Unit}
    (stepped : nic.step event = some (out, next)) : RxOk next := by
  cases event with
  | transmit frame length =>
    cases at_ : nic.pc with
    | idle =>
      simp only [E1000.step, at_, Option.some.injEq, Prod.mk.injEq] at stepped
      obtain ⟨_, same⟩ := stepped
      subst same
      unfold E1000.transmit
      split
      · refine ok.off rfl rfl rfl ?_ rfl rfl rfl (by simp [at_, offRing]) rfl trivial
        simp [returned_answer, returnedBy]
      · exact ok.off rfl rfl rfl rfl rfl rfl rfl (by simp [at_, offRing]) rfl trivial
    | _ => simp [E1000.step, at_] at stepped
  | transmitArray vfrm vlen nfrm =>
    cases at_ : nic.pc with
    | idle =>
      simp only [E1000.step, at_, Option.some.injEq, Prod.mk.injEq] at stepped
      obtain ⟨_, same⟩ := stepped
      subst same
      have refused : RxOk (nic.answer (.sent [] 0)) := by
        refine ok.off rfl rfl rfl ?_ rfl rfl rfl (by simp [at_, offRing]) rfl trivial
        simp [returned_answer, returnedBy]
      unfold E1000.transmitArray
      simp only
      split
      · exact refused
      split
      · exact refused
      split
      · exact ok
      · exact ok.off rfl rfl rfl rfl rfl rfl rfl (by simp [at_, offRing]) rfl trivial
    | _ => simp [E1000.step, at_] at stepped
  | poll legal =>
    cases at_ : nic.pc with
    | idle =>
      simp only [E1000.step, at_, Option.some.injEq, Prod.mk.injEq] at stepped
      obtain ⟨_, same⟩ := stepped
      subst same
      exact ok.off rfl rfl rfl rfl rfl rfl rfl (by simp [at_, offRing]) rfl rfl
    | _ => simp [E1000.step, at_] at stepped
  | kernel =>
    obtain ⟨after, moved, same⟩ := Option.map_eq_some_iff.mp stepped
    cases same
    exact ok.kernel moved
  | send =>
    obtain ⟨after, sent, same⟩ := Option.map_eq_some_iff.mp stepped
    cases same
    unfold E1000.send at sent
    split at sent
    · cases sent
    · cases sent
      exact ok.other rfl rfl rfl rfl rfl rfl rfl rfl rfl ok.place
  | receive frame =>
    obtain ⟨after, received, same⟩ := Option.map_eq_some_iff.mp stepped
    cases same
    exact ok.receive received

/-- After `e1000_init` the ring is empty, and all descriptors but one are the NIC's. -/
theorem rxOk_init : RxOk init := by
  refine ⟨⟨[], rfl, Window.nil, ?_, by decide⟩, rfl, rfl, rfl, ?_, trivial⟩
  · intro k _ _
    simp only [init, configureRx, boot, configureTx]
    split <;> rfl
  · intro slot inside
    simp [init, configureRx, inside]

end GlucOS.E1000
