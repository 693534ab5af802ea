import GlucOS.Net.Gntp

/-! What the GNTP receiver guarantees: the buffer holds the stream as far as it is received. -/

namespace GlucOS

/-! ## Headers -/

/-- The number in `count` bytes from a place on, the most significant byte first. -/
def Bytes.bigEndian (bytes : Bytes) (place : Nat) : Nat → Nat
  | 0 => 0
  | count + 1 => bytes.bigEndian place count * 256 + (bytes (place + count)).toNat

/-- Shifting in one more byte is one more digit of base 256. -/
theorem shift_or_byte (high : Nat) (byte : UInt8) :
    (high <<< 8) ||| byte.toNat = high * 256 + byte.toNat := by
  have small : byte.toNat < 2 ^ 8 := byte.toNat_lt
  rw [← Nat.shiftLeft_add_eq_or_of_lt small, Nat.shiftLeft_eq]

/-- The length of a header is read as a big-endian number. -/
theorem header_length (fb : Bytes) (place : Nat) :
    (copyHeaderFromBuffer fb place).length = fb.bigEndian (place + 2) 2 := by
  simp [copyHeaderFromBuffer, Bytes.bigEndian, shift_or_byte]

/-- The sequence number of a header is read as a big-endian number. -/
theorem header_seq (fb : Bytes) (place : Nat) :
    (copyHeaderFromBuffer fb place).seq = fb.bigEndian (place + 4) 4 := by
  -- The three shifts by whole bytes nest, so that each byte is shifted in by one of them.
  have nested (a b c d : Nat) : (a <<< 24) ||| (b <<< 16) ||| (c <<< 8) ||| d =
      ((((a <<< 8) ||| b) <<< 8 ||| c) <<< 8) ||| d := by
    simp only [Nat.shiftLeft_or_distrib, ← Nat.shiftLeft_add]
  simp only [copyHeaderFromBuffer, nested, shift_or_byte]
  simp [Bytes.bigEndian]

/-- A big-endian number of `count` bytes has as many digits. -/
theorem Bytes.bigEndian_lt (bytes : Bytes) (place count : Nat) :
    bytes.bigEndian place count < 256 ^ count := by
  induction count with
  | zero => simp [bigEndian]
  | succ count ih =>
    have digit : (bytes (place + count)).toNat < 256 := (bytes (place + count)).toNat_lt
    simp only [bigEndian, pow_succ]
    omega

/-- A number is read from the bytes of its own place only. -/
theorem Bytes.bigEndian_congr {bytes other : Bytes} {place count : Nat}
    (same : ∀ i < count, bytes (place + i) = other (place + i)) :
    bytes.bigEndian place count = other.bigEndian place count := by
  induction count with
  | zero => rfl
  | succ count ih =>
    simp only [bigEndian]
    rw [ih fun i inside => same i (by omega), same count (by omega)]

/-- A header written to the frame buffer is read back unchanged. -/
theorem copyHeader_round_trip (fb : Bytes) (place : Nat) (header : GntpHeader)
    (short : header.length < 2 ^ 16) (word : header.seq < 2 ^ 32) :
    copyHeaderFromBuffer (copyHeaderToBuffer fb place header) place = header := by
  have length := header_length (copyHeaderToBuffer fb place header) place
  have seq := header_seq (copyHeaderToBuffer fb place header) place
  -- Each byte is a digit of base 256, and the digits add up to the number.
  simp [Bytes.bigEndian, copyHeaderToBuffer, Nat.add_assoc, Nat.shiftRight_eq_div_pow] at length seq
  have sameLength : (copyHeaderFromBuffer (copyHeaderToBuffer fb place header) place).length =
      header.length := by rw [length]; omega
  have sameSeq : (copyHeaderFromBuffer (copyHeaderToBuffer fb place header) place).seq =
      header.seq := by rw [seq]; omega
  cases header with
  | mk magic type len number =>
    simp only [GntpHeader.mk.injEq, copyHeaderFromBuffer] at sameLength sameSeq ⊢
    refine ⟨?_, ?_, sameLength, sameSeq⟩
    · simp [copyHeaderToBuffer]
    · simp [copyHeaderToBuffer]

/-! ## The list of received ranges -/

/-- What an insertion into a chain of ranges does. -/
structure Inserts (old : List (Span Nat)) (start stop : Nat) (kmalloc : Bool) (rt : Int)
    (new : List (Span Nat)) : Prop where
  /-- The ranges still keep apart. -/
  apart : Apart new
  /-- The first range starts where it did. -/
  first : new.head?.map Span.start = old.head?.map Span.start
  /-- After 0 the new range is covered too, and nothing else. -/
  covers : rt = 0 → ∀ i, Covered new i ↔ Covered old i ∨ Span.Has ⟨start, stop⟩ i
  /-- After any other answer nothing has changed. -/
  same : rt ≠ 0 → new = old
  /-- The answer is -1 only without memory. -/
  memory : rt = -1 → kmalloc = false

namespace Dlist

variable {start stop : Nat} {kmalloc : Bool} {p q : Span Nat} {rest : List (Span Nat)}

/-- An insertion that is refused changes nothing. -/
theorem inserts_refused {old : List (Span Nat)} (apart : Apart old) :
    Inserts old start stop kmalloc 1 old where
  apart := apart
  first := rfl
  covers success := absurd success (by decide)
  same _ := rfl
  memory failure := absurd failure (by decide)

/-- An insertion that fails for want of memory changes nothing. -/
theorem inserts_failed {old : List (Span Nat)} (apart : Apart old) :
    Inserts old start stop false (-1) old where
  apart := apart
  first := rfl
  covers success := absurd success (by decide)
  same _ := rfl
  memory _ := rfl

/-- Appending to the last range. -/
theorem link_last (apart : Apart [p]) (after : p.start ≤ start) (proper : start < stop) :
    ∃ rt nodes, link start stop kmalloc p [] = some (rt, nodes) ∧
      Inserts [p] start stop kmalloc rt nodes := by
  have ordered := apart_single.mp apart
  unfold link
  rw [if_neg (by omega)]
  by_cases overlap : start < p.stop
  · rw [if_pos overlap]
    exact ⟨1, _, rfl, inserts_refused apart⟩
  rw [if_neg overlap]
  by_cases touch : start = p.stop
  · -- The range grows at its end.
    rw [if_pos touch]
    refine ⟨0, _, rfl, apart_single.mpr (by simp; omega), rfl, fun _ i => ?_, by simp, by simp⟩
    simp only [covered_cons, not_covered_nil, or_false, Span.Has]
    omega
  rw [if_neg touch]
  cases kmalloc with
  | false => exact ⟨-1, _, rfl, inserts_failed apart⟩
  | true =>
    have proper' : start ≤ stop := by omega
    refine ⟨0, _, rfl, apart_cons_cons.mpr ⟨ordered, ?_, apart_single.mpr proper'⟩, rfl,
      fun _ i => ?_, by simp, by simp⟩
    · simp only
      omega
    · simp only [covered_cons, not_covered_nil, or_false]

/-- Inserting between two ranges. -/
theorem link_between (apart : Apart (p :: q :: rest)) (after : p.start ≤ start)
    (before : start < q.start) (proper : start < stop) :
    ∃ rt nodes, link start stop kmalloc p (q :: rest) = some (rt, nodes) ∧
      Inserts (p :: q :: rest) start stop kmalloc rt nodes := by
  obtain ⟨ordered, gap, tail⟩ := apart_cons_cons.mp apart
  have orderedNext := tail.proper q (by simp)
  have new : (⟨start, stop⟩ : Span Nat).start ≤ (⟨start, stop⟩ : Span Nat).stop := proper.le
  simp only [link]
  rw [if_neg (by omega)]
  by_cases overlap : start < p.stop ∨ q.start < stop
  · rw [if_pos overlap]
    exact ⟨1, _, rfl, inserts_refused apart⟩
  rw [if_neg overlap]
  by_cases left : start = p.stop
  · rw [if_pos left]
    by_cases right : stop = q.start
    · -- The new range closes the gap, and one node takes over the other.
      rw [if_pos right]
      have joined : Apart (⟨p.start, q.stop⟩ :: rest) := tail.restart (by omega)
      refine ⟨0, _, rfl, joined, rfl, fun _ i => ?_, by simp, by simp⟩
      simp only [covered_cons, Span.Has]
      constructor
      · intro inside
        rcases inside with inside | inside
        · omega
        · exact Or.inl (Or.inr (Or.inr inside))
      · intro inside
        rcases inside with (inside | inside | inside) | inside
        · left; omega
        · left; omega
        · exact Or.inr inside
        · left; omega
    · rw [if_neg right]
      have grown : Apart ((⟨p.start, stop⟩ : Span Nat) :: q :: rest) :=
        apart_cons_cons.mpr ⟨by simp; omega, by simp; omega, tail⟩
      refine ⟨0, _, rfl, grown, rfl, fun _ i => ?_, by simp, by simp⟩
      simp only [covered_cons]
      rw [covered_join ordered new left.symm]
      tauto
  rw [if_neg left]
  by_cases right : stop = q.start
  · -- The next range grows at its start.
    rw [if_pos right]
    have grown : Apart (p :: ⟨start, q.stop⟩ :: rest) :=
      apart_cons_cons.mpr ⟨ordered, by simp; omega, tail.restart (by omega)⟩
    refine ⟨0, _, rfl, grown, rfl, fun _ i => ?_, by simp, by simp⟩
    simp only [covered_cons]
    rw [covered_join new orderedNext right]
    tauto
  rw [if_neg right]
  cases kmalloc with
  | false => exact ⟨-1, _, rfl, inserts_failed apart⟩
  | true =>
    have linked : Apart (p :: ⟨start, stop⟩ :: q :: rest) :=
      apart_cons_cons.mpr ⟨ordered, by simp; omega,
        apart_cons_cons.mpr ⟨by simp; omega, by simp; omega, tail⟩⟩
    refine ⟨0, _, rfl, linked, rfl, fun _ i => ?_, by simp, by simp⟩
    simp only [covered_cons]
    tauto

/-- The loop ends at the last range that starts no later, and the insertion there succeeds. -/
theorem place_spec (kmalloc : Bool) (apart : Apart (p :: rest)) (after : p.start ≤ start)
    (proper : start < stop) :
    ∃ rt nodes, place start stop kmalloc p rest = some (rt, nodes) ∧
      Inserts (p :: rest) start stop kmalloc rt nodes := by
  -- The induction follows the loop, which keeps the nodes it has passed.
  induction rest generalizing p with
  | nil => exact link_last apart after proper
  | cons q rest ih =>
    unfold place
    by_cases step : q.start ≤ start
    · rw [if_pos step]
      obtain ⟨ordered, gap, tail⟩ := apart_cons_cons.mp apart
      obtain ⟨rt, nodes, placed, inserted⟩ := ih tail step
      refine ⟨rt, p :: nodes, by rw [placed]; rfl, ?_, rfl, fun success i => ?_, fun failure => ?_,
        inserted.memory⟩
      · -- The node behind `p` starts where it did, so the gap is still there.
        have first := inserted.first
        cases nodes with
        | nil => simp at first
        | cons next nodes =>
          simp only [List.head?_cons, Option.map_some, Option.some.injEq] at first
          exact apart_cons_cons.mpr ⟨ordered, first.symm ▸ gap, inserted.apart⟩
      · simp only [covered_cons, inserted.covers success i, or_assoc]
      · rw [inserted.same failure]
    · rw [if_neg step]
      exact link_between apart after (by omega) proper

/-- `dlist_insert` does not panic on ranges that keep apart, the first of which starts at 0. -/
theorem insert_spec (dlist : Dlist) (start stop : Nat) (kmalloc : Bool) (apart : Apart dlist.all)
    (zero : dlist.dlh.start = 0) :
    ∃ rt after, dlist.insert start stop kmalloc = some (rt, after) ∧
      Inserts dlist.all start stop kmalloc rt after.all ∧ (rt = 0 → start < stop) := by
  unfold insert
  by_cases wanted : stop ≤ start ∨ u32 (dlist.dlh.stop + gntpWinsize) ≤ stop
  · rw [if_pos wanted]
    exact ⟨1, dlist, rfl, inserts_refused apart, fun success => absurd success (by decide)⟩
  · rw [if_neg wanted]
    have proper : start < stop := by omega
    have after : dlist.dlh.start ≤ start := zero ▸ Nat.zero_le start
    obtain ⟨rt, nodes, placed, inserted⟩ := place_spec kmalloc apart after proper
    rw [placed]
    have first := inserted.first
    cases nodes with
    | nil => simp at first
    | cons dlh nodes => exact ⟨rt, ⟨dlh, nodes⟩, rfl, inserted, fun _ => proper⟩

end Dlist

/-! ## The receiver -/

/-- The NIC's frame is one that the receiver takes for GNTP data. -/
def RxFrame.IsData (frame : RxFrame) : Prop :=
  frame.bytes gntpHeaderStart = gntpMagic ∧ frame.bytes (gntpHeaderStart + 1) &&& gntpDat ≠ 0

/-- The frame carries a sequence number, a length, and that many bytes of the stream from there. -/
structure RxFrame.CutFrom (frame : RxFrame) (stream : List UInt8) : Prop where
  /-- The bytes lie within the frame. -/
  whole : gntpHeaderStart + gntpHeaderSize + frame.bytes.bigEndian (gntpHeaderStart + 2) 2 ≤
    frame.length
  /-- They are those of the stream at the sequence number. -/
  cut : ∀ i < frame.bytes.bigEndian (gntpHeaderStart + 2) 2,
    stream[frame.bytes.bigEndian (gntpHeaderStart + 4) 4 + i]? =
      some (frame.bytes (gntpHeaderStart + gntpHeaderSize + i))

/-- What the NIC may hand out: no runts, and data frames of one stream among any others. -/
structure RxFrame.Genuine (frame : RxFrame) (stream : List UInt8) : Prop where
  /-- Shorter frames are padded by their sender. -/
  long : 60 ≤ frame.length
  /-- A data frame is cut from the stream. -/
  cut : frame.IsData → frame.CutFrom stream

/-- The data frame a sender makes of a piece of the stream, with nothing in its lower layers. -/
def dataFrame (stream : List UInt8) (seq length : Nat)
    (fits : gntpHeaderStart + gntpHeaderSize + length ≤ rxFrmSize) : RxFrame where
  bytes i :=
    if i < gntpHeaderStart + gntpHeaderSize then
      copyHeaderToBuffer (fun _ => 0) gntpHeaderStart ⟨gntpMagic, gntpDat, length, seq⟩ i
    else stream.getD (seq + (i - (gntpHeaderStart + gntpHeaderSize))) 0
  length := gntpHeaderStart + gntpHeaderSize + length
  fits := fits

/-- Such a frame is well formed. -/
theorem dataFrame_cutFrom {stream : List UInt8} {seq length : Nat}
    (fits : gntpHeaderStart + gntpHeaderSize + length ≤ rxFrmSize) (word : seq < 2 ^ 32)
    (inside : seq + length ≤ stream.length) : (dataFrame stream seq length fits).CutFrom stream := by
  have short : length < 2 ^ 16 := by unfold rxFrmSize at fits; omega
  -- The header is read back from the bytes it was written to.
  have read := copyHeader_round_trip (fun _ => 0) gntpHeaderStart ⟨gntpMagic, gntpDat, length, seq⟩
    short word
  have number (place count : Nat) (header : place + count ≤ gntpHeaderStart + gntpHeaderSize) :
      (dataFrame stream seq length fits).bytes.bigEndian place count =
        (copyHeaderToBuffer (fun _ => 0) gntpHeaderStart
          ⟨gntpMagic, gntpDat, length, seq⟩).bigEndian place count :=
    Bytes.bigEndian_congr fun i less => if_pos (by omega)
  have sameLength := congrArg GntpHeader.length read
  have sameSeq := congrArg GntpHeader.seq read
  rw [header_length, ← number _ _ (by decide)] at sameLength
  rw [header_seq, ← number _ _ (by decide)] at sameSeq
  constructor
  · rw [sameLength]
    exact le_rfl
  · intro i less
    rw [sameLength] at less
    simp only at less
    rw [sameSeq]
    simp only [dataFrame]
    rw [if_neg (by omega), Nat.add_sub_cancel_left, List.getD_eq_getElem?_getD,
      List.getElem?_eq_getElem (by omega)]
    simp

/-- The buffer agrees with the stream on every range that counts as received. -/
structure Gntp.Reassembles (net : Gntp) (stream : List UInt8) (len : Nat) : Prop where
  /-- The received ranges keep apart. -/
  apart : Apart net.dlist.all
  /-- The first of them starts with the stream. -/
  zero : net.dlist.dlh.start = 0
  /-- What they cover has been copied from the stream. -/
  holds : ∀ i, Covered net.dlist.all i → i < len → stream[i]? = some (net.buf i)
  /-- Nothing outside the buffer has been written. -/
  inside : ∀ i ∈ net.stores, i < len

namespace Gntp

variable {net next : Gntp} {stream : List UInt8} {len : Nat}

/-- The frame buffer and the variables about replies play no part in the reassembly. -/
theorem Reassembles.of_same (good : net.Reassembles stream len) (dlist : next.dlist = net.dlist)
    (buf : next.buf = net.buf) (stores : next.stores = net.stores) :
    next.Reassembles stream len := by
  obtain ⟨apart, zero, holds, inside⟩ := good
  exact ⟨dlist ▸ apart, dlist ▸ zero, by rw [dlist, buf]; exact holds, stores ▸ inside⟩

/-- A turn without a frame leaves the received ranges and the buffer alone. -/
theorem idle_keeps (good : net.Reassembles stream len) : net.idle.Reassembles stream len := by
  have acknowledged : net.acknowledge.Reassembles stream len := by
    unfold acknowledge
    split
    · exact good.of_same rfl rfl rfl
    · exact good
  have asked : net.acknowledge.askAgain.Reassembles stream len := by
    unfold askAgain
    split
    · exact acknowledged.of_same rfl rfl rfl
    · exact acknowledged
  unfold idle tick
  split
  · exact asked.of_same rfl rfl rfl
  · exact asked

/-- Copying bytes to the buffer touches nothing of the receiver but the buffer. -/
theorem store_dlist (net : Gntp) (i j count : Nat) : (net.store i j count).dlist = net.dlist := by
  induction count generalizing net i j with
  | zero => rfl
  | succ count ih => simp only [store, ih]

/-- The bytes copied to the buffer are those of the frame buffer, and the others stay. -/
theorem store_buf (net : Gntp) (i j count k : Nat) : (net.store i j count).buf k =
    if i ≤ k ∧ k < i + count then net.fb (j + (k - i)) else net.buf k := by
  induction count generalizing net i j with
  | zero => rw [if_neg (by omega)]; rfl
  | succ count ih =>
    simp only [store, ih]
    by_cases first : k = i
    · -- The loop does not come back to the first byte.
      subst first
      rw [if_neg (by omega), if_pos (by omega)]
      simp
    · by_cases later : i + 1 ≤ k ∧ k < i + 1 + count
      · rw [if_pos later, if_pos (by omega)]
        congr 1
        omega
      · rw [if_neg later, if_neg (by omega)]
        simp [first]

/-- Every offset written is one of those asked for. -/
theorem store_stores (net : Gntp) (i j count : Nat) {k : Nat}
    (written : k ∈ (net.store i j count).stores) : k ∈ net.stores ∨ i ≤ k ∧ k < i + count := by
  induction count generalizing net i j with
  | zero => exact Or.inl written
  | succ count ih =>
    rcases ih _ _ _ written with before | now
    · rcases List.mem_cons.mp before with same | older
      · right; omega
      · exact Or.inl older
    · right; omega

/-- A range that is inserted ends where it should, without wrapping around. -/
theorem stop_of_lt {seq length : Nat} (word : seq < 2 ^ 32) (short : length < 2 ^ 16)
    (proper : seq < u32 (seq + length)) : u32 (seq + length) = seq + length := by
  unfold u32 at *
  omega

/-- Copying the payload of a data frame whose range has just been inserted. -/
theorem Reassembles.store {dlist : Dlist} {seq length : Nat} {kmalloc : Bool}
    (good : net.Reassembles stream len)
    (inserted : Inserts net.dlist.all seq (seq + length) kmalloc 0 dlist.all)
    (payload : ∀ i < length, stream[seq + i]? = some (net.fb (gntpHeaderStart + gntpHeaderSize + i))) :
    ({ net with dlist }.store seq (gntpHeaderStart + gntpHeaderSize)
      (min len (seq + length) - seq)).Reassembles stream len where
  apart := by
    rw [store_dlist]
    exact inserted.apart
  zero := by
    rw [store_dlist]
    have first := inserted.first
    simp only [Dlist.all, List.head?_cons, Option.map_some, Option.some.injEq] at first
    exact first.trans good.zero
  holds := by
    intro i covered short
    rw [store_dlist] at covered
    rw [store_buf]
    by_cases copied : seq ≤ i ∧ i < seq + (min len (seq + length) - seq)
    · -- The byte has come with this frame.
      rw [if_pos copied, ← payload (i - seq) (by omega)]
      congr 1
      omega
    · -- The byte was covered before, for the frame would have brought it otherwise.
      rw [if_neg copied]
      rcases (inserted.covers rfl i).mp covered with before | now
      · exact good.holds i before short
      · unfold Span.Has at now
        simp only at now
        omega
  inside := by
    intro i written
    rcases store_stores _ _ _ _ written with before | now
    · exact good.inside i before
    · omega

end Gntp

/-- What may be said of `do_net_recv_stream` wherever it is. -/
def Progress.Faithful (stream : List UInt8) (len : Nat) : Progress → Prop
  | .receiving net => net.Reassembles stream len
  | .returned value net => (∀ i ∈ net.stores, i < len) ∧
      (0 < value → len ≤ value ∧ ∀ i < len, stream[i]? = some (net.buf i))
  | .panicked => False

namespace Gntp

variable {net : Gntp} {stream : List UInt8} {len : Nat}

/-- With everything up to `lfr` received, the whole buffer agrees with the stream. -/
theorem Reassembles.complete (good : net.Reassembles stream len) (done : len ≤ net.lfr) :
    ∀ i < len, stream[i]? = some (net.buf i) := by
  intro i short
  refine good.holds i ⟨net.dlist.dlh, by simp [Dlist.all], ?_, ?_⟩ short
  · exact good.zero ▸ Nat.zero_le i
  · exact lt_of_lt_of_le short done

/-- A data frame whose payload is in the frame buffer is added to the stream or left alone. -/
theorem receive_faithful (good : net.Reassembles stream len) (kmalloc : Bool)
    (word : net.headerTemp.seq < 2 ^ 32) (short : net.headerTemp.length < 2 ^ 16)
    (payload : ∀ i < net.headerTemp.length, stream[net.headerTemp.seq + i]? =
      some (net.fb (gntpHeaderStart + gntpHeaderSize + i))) :
    (net.receive len kmalloc).Faithful stream len := by
  obtain ⟨rt, dlist, inserted, spec, proper⟩ := net.dlist.insert_spec net.headerTemp.seq
    (u32 (net.headerTemp.seq + net.headerTemp.length)) kmalloc good.apart good.zero
  unfold receive
  simp only [inserted]
  by_cases success : rt = 0
  · -- The range is new, so its bytes are copied and may complete the buffer.
    subst success
    have stop := stop_of_lt word short (proper rfl)
    rw [stop] at spec ⊢
    have stored := good.store spec payload
    rw [if_pos rfl]
    split
    · rename_i done
      exact ⟨stored.inside, fun _ => ⟨done, stored.complete done⟩⟩
    · exact stored.of_same rfl rfl rfl
  · -- Nothing has been inserted, and nothing is copied.
    rw [if_neg success]
    have same := spec.same success
    split
    · exact ⟨good.inside, by simp⟩
    · refine good.of_same ?_ rfl rfl
      obtain ⟨dlh, nodes⟩ := dlist
      simp only [Dlist.all, List.cons.injEq] at same
      simp [same.1, same.2]

/-- A frame is either ignored, or its bytes are added to the stream. -/
theorem accept_faithful (good : net.Reassembles stream len) {frame : RxFrame} (kmalloc : Bool)
    (genuine : frame.Genuine stream) :
    (net.accept len frame kmalloc).Faithful stream len := by
  -- The magic number and the type are read from the frame, as no frame is shorter.
  have copied (i : Nat) (inside : i < frame.length) :
      net.fb.copy frame.bytes frame.length i = frame.bytes i := if_pos inside
  have long := genuine.long
  unfold accept
  simp only
  split
  · exact good.of_same rfl rfl rfl
  rename_i data
  simp only [copyHeaderFromBuffer, not_or, ne_eq, not_not] at data
  rw [copied _ (by unfold gntpHeaderStart; omega),
    copied _ (by unfold gntpHeaderStart; omega)] at data
  obtain ⟨whole, cut⟩ := genuine.cut data
  -- Length, sequence number and payload lie within the frame as well.
  have number (place count : Nat) (inside : place + count ≤ frame.length) :
      (net.fb.copy frame.bytes frame.length).bigEndian place count =
        frame.bytes.bigEndian place count :=
    Bytes.bigEndian_congr fun i less => copied _ (by omega)
  unfold gntpHeaderSize at whole
  have sameLength := number (gntpHeaderStart + 2) 2 (by omega)
  have sameSeq := number (gntpHeaderStart + 4) 4 (by omega)
  rw [← header_length] at sameLength
  rw [← header_seq] at sameSeq
  apply receive_faithful
  · exact good.of_same rfl rfl rfl
  · simp only [sameSeq]
    exact Bytes.bigEndian_lt _ _ 4
  · simp only [sameLength]
    exact Bytes.bigEndian_lt _ _ 2
  · intro i less
    simp only [sameLength, sameSeq] at less ⊢
    rw [cut i less, copied]
    unfold gntpHeaderSize
    omega

/-- Every turn of the loop keeps the buffer faithful to the stream. -/
theorem turn_faithful (good : net.Reassembles stream len) {poll : Poll}
    (genuine : ∀ frame, poll.frame = some frame → frame.Genuine stream) :
    (net.turn len poll).Faithful stream len := by
  unfold turn
  cases polled : poll.frame with
  | none => exact idle_keeps good
  | some frame => exact accept_faithful good poll.kmalloc (genuine frame polled)

/-- So does every run of it. -/
theorem loop_faithful (good : net.Reassembles stream len) {polls : List Poll}
    (genuine : ∀ poll ∈ polls, ∀ frame, poll.frame = some frame → frame.Genuine stream) :
    (net.loop len polls).Faithful stream len := by
  -- The induction follows the polls; a turn that returns or panics ends the run.
  induction polls generalizing net with
  | nil => exact good
  | cons poll rest ih =>
    have first := turn_faithful good (genuine poll (by simp))
    unfold loop
    cases turned : net.turn len poll with
    | receiving next =>
      rw [turned] at first
      exact ih first fun later member => genuine later (by simp [member])
    | returned value next =>
      rw [turned] at first
      exact first
    | panicked =>
      rw [turned] at first
      exact first

end Gntp

/-- A receiver that has not been used yet. -/
def freshGntp : Gntp where
  headerTemp := ⟨0, 0, 0, 0⟩
  fb := fun _ => 0
  dlist := .clear
  seqMax := 0
  recvStarted := false
  time := 0
  tcpHeader := fun _ => 0
  buf := fun _ => 0
  stores := []
  flen := 0
  loads := []
  sent := []

end GlucOS
