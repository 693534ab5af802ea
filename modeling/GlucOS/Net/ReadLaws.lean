import GlucOS.Net.DlistLaws

/-! How far the frame buffer is read: as far as the frame says, whether it is that long or not. -/

namespace GlucOS

namespace Gntp

variable {net next : Gntp} {len : Nat}

/-- All bytes that went to the user lay within the frames that had just come. -/
def ReadsInside (net : Gntp) : Prop := ∀ load ∈ net.loads, load.1 < load.2

/--
A frame is as long as its header says, or at least as far as its bytes are wanted.

They are wanted when their range is new and starts within the user's buffer.
-/
def Carries (net : Gntp) (len : Nat) (frame : RxFrame) (kmalloc : Bool) : Prop :=
  let header := net.headerOf frame
  let stop := u32 (header.seq + header.length)
  header.IsData → net.dlist.Welcome ⟨header.seq, stop, kmalloc⟩ → header.seq < len →
    gntpHeaderStart + gntpHeaderSize + (min len stop - header.seq) ≤ frame.length

/-- Every frame of a run carries the bytes that are wanted of it. -/
def AllCarry (net : Gntp) (len : Nat) : List Poll → Prop
  | [] => True
  | poll :: rest =>
    (∀ frame, poll.frame = some frame → net.Carries len frame poll.kmalloc) ∧
      ∀ next, net.turn len poll = .receiving next → next.AllCarry len rest

/-- What the copy of a payload reads. -/
theorem mem_store_loads (net : Gntp) (i j count : Nat) {load : Nat × Nat} :
    load ∈ (net.store i j count).loads ↔
      load ∈ net.loads ∨ load.2 = net.flen ∧ j ≤ load.1 ∧ load.1 < j + count := by
  -- The induction follows the loop.
  induction count generalizing net i j with
  | zero =>
    simp only [store]
    constructor
    · exact Or.inl
    · intro either
      rcases either with before | now
      · exact before
      · omega
  | succ count ih =>
    obtain ⟨place, length⟩ := load
    simp only [store, ih, List.mem_cons, Prod.mk.injEq]
    constructor
    · intro either
      rcases either with (now | before) | later
      · right; omega
      · exact Or.inl before
      · right; omega
    · intro either
      rcases either with before | now
      · exact Or.inl (Or.inr before)
      · by_cases first : place = j
        · exact Or.inl (Or.inl ⟨first, now.1⟩)
        · right; omega

/-- The copy of a payload reads inside the frame if the payload ends there. -/
theorem store_readsInside (net : Gntp) (i j count : Nat) :
    (net.store i j count).ReadsInside ↔
      net.ReadsInside ∧ (0 < count → j + count ≤ net.flen) := by
  unfold ReadsInside
  constructor
  · intro inside
    constructor
    · intro load before
      exact inside load ((mem_store_loads net i j count).mpr (Or.inl before))
    · intro some
      -- The last byte of the payload is read.
      have last := inside (j + count - 1, net.flen)
        ((mem_store_loads net i j count).mpr (Or.inr ⟨rfl, by simp only; omega, by simp only; omega⟩))
      simp only at last
      omega
  · intro both load read
    obtain ⟨before, payload⟩ := both
    rcases (mem_store_loads net i j count).mp read with earlier | now
    · exact before load earlier
    · have ends := payload (by omega)
      omega

/-- A turn without a frame reads nothing for the user. -/
theorem idle_loads (net : Gntp) : net.idle.loads = net.loads ∧ net.idle.dlist = net.dlist := by
  have acknowledged : net.acknowledge.loads = net.loads ∧ net.acknowledge.dlist = net.dlist := by
    unfold acknowledge
    split
    · exact ⟨rfl, rfl⟩
    · exact ⟨rfl, rfl⟩
  have asked : net.acknowledge.askAgain.loads = net.acknowledge.loads ∧
      net.acknowledge.askAgain.dlist = net.acknowledge.dlist := by
    unfold askAgain
    split
    · exact ⟨rfl, rfl⟩
    · exact ⟨rfl, rfl⟩
  unfold idle tick
  split
  · exact ⟨asked.1.trans acknowledged.1, asked.2.trans acknowledged.2⟩
  · exact ⟨asked.1.trans acknowledged.1, asked.2.trans acknowledged.2⟩

/-- Copying bytes to the buffer leaves `flen` alone. -/
theorem store_flen (net : Gntp) (i j count : Nat) : (net.store i j count).flen = net.flen := by
  induction count generalizing net i j with
  | zero => rfl
  | succ count ih => simp only [store, ih]

end Gntp

/-- What may be said of the reads wherever `do_net_recv_stream` is, and of the list in its loop. -/
def Progress.ReadsInside : Progress → Prop
  | .receiving net => net.ReadsInside
  | .returned _ net => net.ReadsInside
  | .panicked => False

/-- The list is sorted as long as the loop goes on. -/
def Progress.Sorted : Progress → Prop
  | .receiving net => net.dlist.Sorted
  | .returned _ _ => True
  | .panicked => False

namespace Gntp

variable {net next : Gntp} {len : Nat}

/-- A data frame in the frame buffer is read inside if what is wanted of it is there. -/
theorem receive_reads (sorted : net.dlist.Sorted) (len : Nat) (kmalloc : Bool) :
    let seq := net.headerTemp.seq
    let stop := u32 (seq + net.headerTemp.length)
    (net.receive len kmalloc).Sorted ∧ ((net.receive len kmalloc).ReadsInside ↔
      net.ReadsInside ∧ (net.dlist.Welcome ⟨seq, stop, kmalloc⟩ → seq < len →
        gntpHeaderStart + gntpHeaderSize + (min len stop - seq) ≤ net.flen)) := by
  intro seq stop
  obtain ⟨rt, after, inserted, next, zero, -, -⟩ := sorted.insert ⟨seq, stop, kmalloc⟩
  simp only at inserted
  unfold receive
  simp only
  rw [inserted]
  simp only
  by_cases new : rt = 0
  · -- The bytes are copied, and then the run returns or goes on.
    have welcome := zero.mp new
    have nonempty := welcome.proper
    simp only at nonempty
    have copied := store_readsInside { net with dlist := after } seq
      (gntpHeaderStart + gntpHeaderSize) (min len stop - seq)
    have wanted : (0 < min len stop - seq → gntpHeaderStart + gntpHeaderSize +
          (min len stop - seq) ≤ net.flen) ↔ (net.dlist.Welcome ⟨seq, stop, kmalloc⟩ →
        seq < len → gntpHeaderStart + gntpHeaderSize + (min len stop - seq) ≤ net.flen) := by
      constructor
      · intro some _ inside
        exact some (by omega)
      · intro some positive
        exact some welcome (by omega)
    rw [if_pos new]
    split
    · exact ⟨trivial, copied.trans (and_congr Iff.rfl wanted)⟩
    · refine ⟨?_, copied.trans (and_congr Iff.rfl wanted)⟩
      show (store _ _ _ _).dlist.Sorted
      rw [store_dlist]
      exact next
  · -- Nothing is copied.
    have unwelcome : ¬ net.dlist.Welcome ⟨seq, stop, kmalloc⟩ := fun welcome =>
      new (zero.mpr welcome)
    rw [if_neg new]
    split
    · exact ⟨trivial, ⟨fun inside => ⟨inside, fun welcome => absurd welcome unwelcome⟩, And.left⟩⟩
    · exact ⟨next, ⟨fun inside => ⟨inside, fun welcome => absurd welcome unwelcome⟩, And.left⟩⟩

/-- A turn with a frame reads inside if the frame carries what is wanted of it. -/
theorem accept_reads (sorted : net.dlist.Sorted) (len : Nat) (frame : RxFrame) (kmalloc : Bool) :
    (net.accept len frame kmalloc).Sorted ∧ ((net.accept len frame kmalloc).ReadsInside ↔
      net.ReadsInside ∧ net.Carries len frame kmalloc) := by
  unfold accept Carries headerOf GntpHeader.IsData
  simp only
  split
  · -- The frame is no data frame.
    rename_i other
    refine ⟨sorted, ⟨fun inside => ⟨inside, fun data => ?_⟩, And.left⟩⟩
    rcases other with wrong | wrong
    · exact absurd data.1 wrong
    · exact absurd wrong data.2
  · rename_i data
    obtain ⟨magic, type⟩ := not_or.mp data
    have received := @receive_reads { net with
        headerTemp := copyHeaderFromBuffer (net.fb.copy frame.bytes frame.length) gntpHeaderStart
        fb := net.fb.copy frame.bytes frame.length
        tcpHeader := if net.recvStarted then net.tcpHeader
          else net.tcpHeader.copy (net.fb.copy frame.bytes frame.length) gntpHeaderStart
        flen := frame.length
        recvStarted := true } sorted len kmalloc
    refine ⟨received.1, received.2.trans (and_congr Iff.rfl ?_)⟩
    constructor
    · intro carries _
      exact carries
    · intro carries
      exact carries ⟨not_not.mp magic, type⟩

/-- A turn reads inside if its frame, when there is one, carries what is wanted of it. -/
theorem turn_reads (sorted : net.dlist.Sorted) (len : Nat) (poll : Poll) :
    (net.turn len poll).Sorted ∧ ((net.turn len poll).ReadsInside ↔ net.ReadsInside ∧
      ∀ frame, poll.frame = some frame → net.Carries len frame poll.kmalloc) := by
  unfold turn
  cases polled : poll.frame with
  | none =>
    obtain ⟨loads, dlist⟩ := net.idle_loads
    simp only [Progress.Sorted, Progress.ReadsInside, ReadsInside, loads, dlist]
    exact ⟨sorted, by simp⟩
  | some frame =>
    obtain ⟨next, reads⟩ := accept_reads sorted len frame poll.kmalloc
    refine ⟨next, reads.trans (and_congr Iff.rfl ?_)⟩
    constructor
    · intro carries other same
      rw [← Option.some.inj same]
      exact carries
    · intro carries
      exact carries frame rfl

/-- A run reads inside if every frame of it carries what is wanted of it. -/
theorem loop_reads (sorted : net.dlist.Sorted) (len : Nat) (polls : List Poll) :
    (net.loop len polls).ReadsInside ↔ net.ReadsInside ∧ net.AllCarry len polls := by
  -- The induction follows the polls; what is read stays noted.
  induction polls generalizing net with
  | nil => simp [loop, AllCarry, Progress.ReadsInside]
  | cons poll rest ih =>
    obtain ⟨next, reads⟩ := turn_reads sorted len poll
    unfold loop AllCarry
    cases turned : net.turn len poll with
    | receiving later =>
      rw [turned] at next reads
      simp only [ih next]
      simp only [Progress.ReadsInside] at reads
      rw [reads, and_assoc]
      simp
    | returned value later =>
      rw [turned] at reads
      simp only [reads]
      simp
    | panicked =>
      rw [turned] at next
      exact absurd next id

/-- The state in which the loop of `do_net_recv_stream` starts. -/
def started (net : Gntp) : Gntp :=
  { net with
    stores := [], loads := [], sent := []
    dlist := .clear, seqMax := 0, time := 0, recvStarted := false }

end Gntp

/--
What `do_net_recv_stream` copies to the user comes from the frames received, as long as every frame
of which bytes are wanted has them.

Nothing checks this, as only the length field of a header is looked at.
-/
theorem recv_reads_inside_iff (net : Gntp) (buf : Nat) (len : Int) (kmalloc : Bool)
    (polls : List Poll) :
    (doNetRecvStream net buf len kmalloc polls).ReadsInside ↔
      (buf < kvaOffset → 0 < len → kmalloc = true → net.started.AllCarry len.toNat polls) := by
  have none : ({ net with stores := [], loads := [], sent := [] } : Gntp).ReadsInside := by
    simp [Gntp.ReadsInside]
  unfold doNetRecvStream
  simp only
  by_cases refused : kvaOffset ≤ buf ∨ len ≤ 0
  · rw [if_pos refused]
    constructor
    · intro _ low positive
      omega
    · intro _
      exact none
  rw [if_neg refused]
  obtain ⟨low, positive⟩ : buf < kvaOffset ∧ 0 < len := by omega
  cases kmalloc with
  | false =>
    constructor
    · intro _ _ _ works
      cases works
    · intro _
      exact none
  | true =>
    rw [if_pos rfl]
    have reads := @Gntp.loop_reads net.started Dlist.sorted_clear len.toNat polls
    constructor
    · intro inside _ _ _
      exact (reads.mp inside).2
    · intro carry
      exact reads.mpr ⟨none, carry low positive rfl⟩

/-- A frame of 64 bytes whose header announces eight bytes from the start of the stream on. -/
def shortFrame : RxFrame where
  bytes := copyHeaderToBuffer (fun _ => 0) gntpHeaderStart ⟨gntpMagic, gntpDat, 8, 0⟩
  length := 64
  fits := by decide

/-- Six of the eight bytes are taken from behind the frame. -/
theorem recv_reads_behind : ¬ ∀ (net : Gntp) (buf : Nat) (len : Int) (kmalloc : Bool)
    (polls : List Poll), (doNetRecvStream net buf len kmalloc polls).ReadsInside := by
  intro inside
  have all : ∀ load ∈ ([69, 68, 67, 66, 65, 64, 63, 62] : List Nat).map fun j => (j, 64),
      load.1 < load.2 := inside freshGntp 0 8 true [⟨some shortFrame, true⟩]
  exact absurd (all (64, 64) (by decide)) (by decide)

end GlucOS
