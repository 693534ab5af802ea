import GlucOS.Net.GntpLaws
import GlucOS.Net.ReadLaws
import GlucOS.Syscall.Copy

/-! Which pointers of the user lead the calls that copy bytes to the memory of the kernel. -/

namespace GlucOS

open Access

variable {mem : Memory} {addr count : Nat} {A : Type}

/-! ## The gap of Sv39 -/

/-- The gap has two ends. -/
theorem userTop_lt : userTop < kernelBase := by decide

/-- The gap ends where addresses still fit into a register. -/
theorem kernelBase_le : kernelBase ≤ 2 ^ 64 := by decide

/-- Addresses of the user lie below those of the kernel. -/
theorem userTop_le : userTop ≤ kvaMin := by decide

/-- The first addresses of the kernel lie in the gap. -/
theorem kvaMin_lt : kvaMin < kernelBase := by decide

/-- Memory of which nothing in the gap of Sv39 is legal. -/
abbrev Memory.Split (mem : Memory) : Prop := mem.Gap userTop kernelBase

/-- The routine reaches no byte of the kernel. -/
abbrev Access.UserOnly (routine : Access A) (mem : Memory) : Prop := routine.StaysBelow kvaMin mem

/-- Runs leave the gap where it is. -/
theorem Memory.Gap.run {low high : Nat} (gap : mem.Gap low high) (routine : Access A) :
    (routine.run mem).memory.Gap low high := by
  intro addr legal
  rw [run_legal] at legal
  exact gap addr legal

/-- Reading from below the kernel's pages reaches none of them. -/
theorem loadBytes_userOnly (split : mem.Split) (below : addr < kernelBase) (count : Nat) :
    (loadBytes addr count).UserOnly mem :=
  loadBytes_staysBelow split userTop_lt kernelBase_le below userTop_le count

/-- Writing from below the kernel's pages reaches none of them. -/
theorem storeBytes_userOnly (split : mem.Split) (below : addr < kernelBase) (bytes : List UInt8) :
    (storeBytes addr bytes).UserOnly mem :=
  storeBytes_staysBelow split userTop_lt kernelBase_le below userTop_le bytes

/-- Two routines one after the other, where the second one starts from any memory like this. -/
theorem Access.UserOnly.andThen {B : Type} {first : Access A} {next : A → Access B}
    (split : mem.Split) (stays : first.UserOnly mem)
    (later : ∀ value (mem' : Memory), mem'.Split → (first.run mem).value = some value →
      (next value).UserOnly mem') : (first.andThen next).UserOnly mem := by
  unfold UserOnly
  rw [staysBelow_andThen]
  exact ⟨stays, fun value ended => later value _ (split.run first) ended⟩

/-- Packing an answer reaches nothing. -/
theorem userOnly_andThen_ret {B : Type} {first : Access A} {pack : A → B} :
    (first.andThen fun value => ret (pack value)).UserOnly mem ↔ first.UserOnly mem := by
  unfold UserOnly
  rw [staysBelow_andThen]
  exact ⟨fun both => both.1, fun stays => ⟨stays, fun _ _ => staysBelow_ret _⟩⟩

/-! ## Files -/

/-- The groups of a file are copied to the caller's own memory. -/
theorem readGroups_userOnly {pos len buf : Nat} {blocks : Nat → Block} (dib : List Nat) (i : Nat)
    {r : Nat} (split : mem.Split) (below : buf + r < kernelBase) :
    (readGroups pos len buf blocks dib i r).UserOnly mem := by
  -- The induction is on the pointers, and the next byte stays below the kernel's pages.
  induction dib generalizing i r mem with
  | nil => exact staysBelow_ret _
  | cons ptr dib ih =>
    unfold readGroups
    split
    · exact staysBelow_ret _
    · split
      · exact staysBelow_ret _
      · apply Access.UserOnly.andThen split (storeBytes_userOnly split below _)
        intro _ mem' split' ended
        have next := storeBytes_done split userTop_lt kernelBase_le below ended
        exact ih (i + 1) split' (by omega)

/-- The data of a file are copied to the caller's own memory. -/
theorem readData_userOnly (inode : GfsInode) {pos len buf : Nat} (blocks : Nat → Block)
    (split : mem.Split) (below : buf < kernelBase) :
    (readData inode pos len buf blocks).UserOnly mem := by
  unfold readData
  apply Access.UserOnly.andThen split (storeBytes_userOnly split below _)
  intro _ mem' split' ended
  -- Each part that was written in full leaves the next one below the gap.
  have next := storeBytes_done split userTop_lt kernelBase_le below ended
  dsimp only
  split
  · exact staysBelow_ret _
  · split
    · exact staysBelow_ret _
    · apply Access.UserOnly.andThen split' (storeBytes_userOnly split' next _)
      intro _ mem'' split'' ended'
      have last := storeBytes_done split' userTop_lt kernelBase_le next ended'
      split
      · exact staysBelow_ret _
      · split
        · exact staysBelow_ret _
        · exact readGroups_userOnly _ 0 split'' (by omega)

/-- `do_read` writes to the caller's own memory. -/
theorem doRead_userOnly (fs : Gfs) (fd : Int) (buf len : Nat) (split : mem.Split) :
    (doRead fs fd buf len).UserOnly mem := by
  unfold doRead
  split
  · exact staysBelow_ret _
  · split
    · exact staysBelow_ret _
    -- The check of the pointer is the only fact that the copy needs.
    · rename_i low
      dsimp only
      split
      · exact staysBelow_ret _
      · have := kvaMin_lt
        rw [userOnly_andThen_ret]
        exact readData_userOnly _ _ split (by omega)

/-- How many bytes are copied depends on the pointers alone. -/
theorem writePtrs_count (len : Nat) (buf buf' : Nat → UInt8) (parr : List Nat)
    (blocks blocks' : Nat → Block) (boffset w : Nat) :
    (writePtrs len buf parr blocks boffset w).2 =
      (writePtrs len buf' parr blocks' boffset w).2 := by
  -- Bytes and blocks change along the pointers, their number does not depend on them.
  induction parr generalizing blocks blocks' boffset w with
  | nil => rfl
  | cons ptr parr ih =>
    unfold writePtrs
    split
    · rfl
    · exact ih _ _ _ _

/-- How many bytes are copied depends on the pointers alone. -/
theorem writeFileOnPtrArr_count (parr : List Nat) (startPos len : Nat) (buf buf' : Nat → UInt8)
    (blocks : Nat → Block) : (writeFileOnPtrArr parr startPos len buf blocks).2 =
      (writeFileOnPtrArr parr startPos len buf' blocks).2 := by
  unfold writeFileOnPtrArr
  split
  · rfl
  · exact writePtrs_count _ _ _ _ _ _ _ _

/-- The next byte of a buffer, if there is one, lies below the kernel's pages. -/
def NextLow (buf w : Nat) : Prop := buf = 0 ∨ buf + w < kernelBase

/-- An array of pointers is filled from the caller's own memory. -/
theorem writeFrom_userOnly {parr : List Nat} {startPos len buf w : Nat} {blocks : Nat → Block}
    (split : mem.Split) (low : NextLow buf w) :
    (writeFrom parr startPos len buf w blocks).UserOnly mem ∧
      ∀ value, ((writeFrom parr startPos len buf w blocks).run mem).value = some value →
        NextLow buf (w + value.2) := by
  unfold writeFrom
  rw [userOnly_andThen_ret, run_andThen]
  obtain ⟨-, answers⟩ := loadBytes_run (buf + w)
    (if buf = 0 then 0 else (writeFileOnPtrArr parr startPos len (fun _ => 0) blocks).2) mem
  by_cases null : buf = 0
  · -- A null buffer is not read at all.
    refine ⟨?_, fun _ _ => Or.inl null⟩
    rw [if_pos null]
    exact staysBelow_ret _
  · have below : buf + w < kernelBase := by
      obtain null' | below := low
      · exact absurd null' null
      · exact below
    refine ⟨loadBytes_userOnly split below _, ?_⟩
    intro value ended
    right
    rw [if_neg null] at ended answers
    cases read : ((loadBytes (buf + w)
        (writeFileOnPtrArr parr startPos len (fun _ => 0) blocks).2).run mem).value with
    | none => simp [read] at ended
    | some bytes =>
      -- All bytes were read, so the next one lies below the kernel's pages as well.
      have readable := ((answers bytes).mp read).1
      have ends := split.ends userTop_lt kernelBase_le below readable
      simp only [read] at ended
      have is := Option.some.inj ended
      rw [← is, writeFileOnPtrArr_count _ _ _ _ (fun _ => 0)]
      omega

/-- The groups of a file are filled from the caller's own memory. -/
theorem writeGroupsFrom_userOnly {pos len buf : Nat} (dib : List Nat) (i : Nat)
    {blocks : Nat → Block} {w : Nat} (split : mem.Split) (low : NextLow buf w) :
    (writeGroupsFrom pos len buf dib i blocks w).UserOnly mem := by
  -- The induction is on the pointers, as for reading.
  induction dib generalizing i blocks w mem with
  | nil => exact staysBelow_ret _
  | cons ptr dib ih =>
    unfold writeGroupsFrom
    split
    · exact staysBelow_ret _
    · split
      · exact staysBelow_ret _
      · obtain ⟨stays, next⟩ := writeFrom_userOnly split low
        apply Access.UserOnly.andThen split stays
        intro value mem' split' ended
        exact ih (i + 1) split' (next value ended)

/-- The data of a file are filled from the caller's own memory. -/
theorem writeDataFrom_userOnly (inode : GfsInode) {pos len buf : Nat} (blocks : Nat → Block)
    (split : mem.Split) (below : buf < kernelBase) :
    (writeDataFrom inode pos len buf blocks).UserOnly mem := by
  unfold writeDataFrom
  obtain ⟨stays, next⟩ := writeFrom_userOnly split (show NextLow buf 0 from Or.inr below)
  apply Access.UserOnly.andThen split stays
  intro value mem' split' ended
  -- The direct pointers come first, and each part knows where the one before it ended.
  have low := next value ended
  rw [Nat.zero_add] at low
  obtain ⟨blocks, w⟩ := value
  simp only at low ⊢
  split
  · exact staysBelow_ret _
  · split
    · exact staysBelow_ret _
    · obtain ⟨stays', next'⟩ := writeFrom_userOnly split' low
      apply Access.UserOnly.andThen split' stays'
      intro value mem'' split'' ended'
      have low' := next' value ended'
      obtain ⟨blocks, more⟩ := value
      simp only at low' ⊢
      split
      · exact staysBelow_ret _
      · split
        · exact staysBelow_ret _
        · apply Access.UserOnly.andThen split'' (writeGroupsFrom_userOnly _ 0 split'' low')
          intro value _ _ _
          obtain ⟨blocks, result⟩ := value
          cases result with
          | error code => exact staysBelow_ret _
          | ok w => exact staysBelow_ret _

/-- The end of `do_write` reads the caller's own memory. -/
theorem copyDataFrom_userOnly (fs : Gfs) (fd : Int) (desc : FileDesc) (len : Nat) {buf : Nat}
    (split : mem.Split) (below : buf < kernelBase) :
    (fs.copyDataFrom fd desc len buf).UserOnly mem := by
  unfold Gfs.copyDataFrom
  apply Access.UserOnly.andThen split (writeDataFrom_userOnly _ _ split below)
  intro value _ _ _
  obtain ⟨blocks, result⟩ := value
  cases result with
  | error code => exact staysBelow_ret _
  | ok w => exact staysBelow_ret _

/-- `do_write` reads the caller's own memory. -/
theorem doWriteFrom_userOnly (noHeap : Bool) (depth : Nat) (fs : Gfs) (fd : Int) (buf len : Nat)
    (split : mem.Split) : (doWriteFrom noHeap depth fs fd buf len).UserOnly mem := by
  unfold doWriteFrom
  split
  · exact staysBelow_ret _
  · split
    · exact staysBelow_ret _
    · rename_i low
      have below : buf < kernelBase := by
        have := kvaMin_lt
        omega
      split
      · exact staysBelow_ret _
      · dsimp only
        split
        · exact staysBelow_ret _
        · -- Whether blocks were allocated first does not matter.
          generalize (if (_ : Nat) < _ then fs.extend _ _ else fs) = grown
          split
          · -- The padding reads nothing, as its buffer is null.
            split
            · exact staysBelow_ret _
            · split
              · exact staysBelow_ret _
              · exact copyDataFrom_userOnly _ _ _ _ split below
          · exact copyDataFrom_userOnly _ _ _ _ split below

/-! ## Frames to send -/

/-- Frames have lengths that the driver takes. -/
def ValidLens (mem : Memory) (vlen i : Nat) : Nat → Prop
  | 0 => True
  | more + 1 => mem.Readable (vlen + 4 * i) 4 ∧ 0 < intOf (mem.bytesAt (vlen + 4 * i) 4) ∧
    intOf (mem.bytesAt (vlen + 4 * i) 4) ≤ txFrmSize ∧ ValidLens mem vlen (i + 1) more

/--
No pointer of the array leads to the kernel's pages, as far as the frames in front of it can be
read.
-/
def SendsUser (mem : Memory) (vfrm vlen i : Nat) : Nat → Prop
  | 0 => True
  | more + 1 =>
    let frame := littleEndian (mem.bytesAt (vfrm + 8 * i) 8)
    let length := (intOf (mem.bytesAt (vlen + 4 * i) 4)).toNat
    mem.Readable (vfrm + 8 * i) 8 → mem.Readable (vlen + 4 * i) 4 →
      (0 < length → mem.legal frame = true → frame < kvaMin) ∧
        (mem.Readable frame length → SendsUser mem vfrm vlen (i + 1) more)

/-- What comes after a run of reads is reached when all of them succeed. -/
theorem userOnly_loadBytes_andThen {next : List UInt8 → Access A} :
    ((loadBytes addr count).andThen next).UserOnly mem ↔ (loadBytes addr count).UserOnly mem ∧
      (mem.Readable addr count → (next (mem.bytesAt addr count)).UserOnly mem) := by
  unfold UserOnly
  rw [staysBelow_andThen]
  -- Reads leave the memory as it is.
  obtain ⟨same, answers⟩ := loadBytes_run addr count mem
  rw [same]
  constructor
  · intro both
    exact ⟨both.1, fun readable => both.2 _ ((answers _).mpr ⟨readable, rfl⟩)⟩
  · intro both
    refine ⟨both.1, fun bytes ended => ?_⟩
    obtain ⟨readable, rfl⟩ := (answers bytes).mp ended
    exact both.2 readable

/-- The answer after a run of reads. -/
theorem run_loadBytes_andThen (addr count : Nat) (mem : Memory) (next : List UInt8 → Access A) :
    (((loadBytes addr count).andThen next).run mem).memory =
        (if ((loadBytes addr count).run mem).value = none then mem
          else ((next (mem.bytesAt addr count)).run mem).memory) ∧
      ∀ value, (((loadBytes addr count).andThen next).run mem).value = some value ↔
        mem.Readable addr count ∧ ((next (mem.bytesAt addr count)).run mem).value = some value := by
  obtain ⟨same, answers⟩ := loadBytes_run addr count mem
  rw [run_andThen]
  -- The reads either fail, or give the bytes that are there.
  cases read : ((loadBytes addr count).run mem).value with
  | none =>
    refine ⟨by simpa using same, fun value => ⟨fun none => by simp at none, ?_⟩⟩
    intro wanted
    have := (answers (mem.bytesAt addr count)).mpr ⟨wanted.1, rfl⟩
    rw [read] at this
    cases this
  | some bytes =>
    obtain ⟨readable, is⟩ := (answers bytes).mp read
    subst is
    simp [same, readable]

/-- The lengths are read from the caller's own memory, and nothing is changed. -/
theorem checkLens_spec (vlen i more : Nat) (split : mem.Split)
    (below : vlen + 4 * i < kernelBase) :
    (checkLens vlen i more).UserOnly mem ∧ ((checkLens vlen i more).run mem).memory = mem ∧
      (((checkLens vlen i more).run mem).value = some true ↔ ValidLens mem vlen i more) := by
  induction more generalizing i with
  | zero => exact ⟨staysBelow_ret _, rfl, by simp [checkLens, Access.run, ValidLens]⟩
  | succ more ih =>
    unfold checkLens ValidLens
    rw [userOnly_loadBytes_andThen]
    obtain ⟨memory, answers⟩ := run_loadBytes_andThen (vlen + 4 * i) 4 mem
      fun bytes =>
        if intOf bytes ≤ 0 ∨ (txFrmSize : Int) < intOf bytes then ret false
        else checkLens vlen (i + 1) more
    rw [memory, answers true]
    by_cases readable : mem.Readable (vlen + 4 * i) 4
    · have ends := split.ends userTop_lt kernelBase_le below readable
      obtain ⟨stays, same, valid⟩ := ih (i + 1) (by omega)
      by_cases bad : intOf (mem.bytesAt (vlen + 4 * i) 4) ≤ 0 ∨
          (txFrmSize : Int) < intOf (mem.bytesAt (vlen + 4 * i) 4)
      · simp only [if_pos bad]
        refine ⟨⟨loadBytes_userOnly split below _, fun _ => staysBelow_ret _⟩, ?_, ?_⟩
        · split <;> rfl
        · constructor
          · intro wrong
            simp [Access.run] at wrong
          · intro good
            omega
      · simp only [if_neg bad, same, valid]
        refine ⟨⟨loadBytes_userOnly split below _, fun _ => stays⟩, by split <;> rfl, ?_⟩
        constructor
        · intro good
          exact ⟨good.1, by omega, by omega, good.2⟩
        · intro good
          exact ⟨good.1, good.2.2.2⟩
    · refine ⟨⟨loadBytes_userOnly split below _, fun yes => absurd yes readable⟩, ?_, ?_⟩
      · rw [if_pos]
        by_contra some
        obtain ⟨bytes, read⟩ := Option.ne_none_iff_exists'.mp some
        exact readable (((loadBytes_run _ _ mem).2 bytes).mp read).1
      · constructor
        · intro good
          exact absurd good.1 readable
        · intro good
          exact absurd good.1 readable

/-- Pointers in memory fit into a register. -/
theorem pointer_lt (mem : Memory) (addr : Nat) : littleEndian (mem.bytesAt addr 8) < 2 ^ 64 := by
  have digits : ∀ digit ∈ (mem.bytesAt addr 8).map UInt8.toNat, digit < 256 := by
    intro digit member
    obtain ⟨byte, -, rfl⟩ := List.mem_map.mp member
    exact byte.toNat_lt
  have small := Nat.ofDigits_lt_base_pow_length (by decide) digits
  simpa [littleEndian, Memory.bytesAt] using small

/-- Frames are copied from the caller's own memory exactly when no pointer leads elsewhere. -/
theorem copyFrames_userOnly (vfrm vlen i more : Nat) (split : mem.Split)
    (frames : vfrm + 8 * i < kernelBase) (lens : vlen + 4 * i < kernelBase) :
    (copyFrames vfrm vlen i more).UserOnly mem ↔ SendsUser mem vfrm vlen i more := by
  induction more generalizing i with
  | zero => simp [copyFrames, SendsUser, UserOnly]
  | succ more ih =>
    unfold copyFrames SendsUser
    simp only
    rw [userOnly_loadBytes_andThen, userOnly_loadBytes_andThen, userOnly_loadBytes_andThen]
    have first := loadBytes_userOnly split frames 8
    have second := loadBytes_userOnly split lens 4
    -- The frame itself is where its pointer leads.
    have third := loadBytes_staysBelow_iff split userTop_lt kernelBase_le userTop_le kvaMin_lt.le
      (pointer_lt mem (vfrm + 8 * i)) (intOf (mem.bytesAt (vlen + 4 * i) 4)).toNat
    constructor
    · intro stays readable readable'
      obtain ⟨here, later⟩ := (stays.2 readable).2 readable'
      refine ⟨third.mp here, fun readable'' => ?_⟩
      have ends := split.ends userTop_lt kernelBase_le frames readable
      have ends' := split.ends userTop_lt kernelBase_le lens readable'
      rw [← ih (i + 1) (by omega) (by omega)]
      exact userOnly_andThen_ret.mp (later readable'')
    · intro sends
      refine ⟨first, fun readable => ⟨second, fun readable' => ?_⟩⟩
      obtain ⟨here, later⟩ := sends readable readable'
      refine ⟨third.mpr here, fun readable'' => ?_⟩
      have ends := split.ends userTop_lt kernelBase_le frames readable
      have ends' := split.ends userTop_lt kernelBase_le lens readable'
      apply userOnly_andThen_ret.mpr
      rw [ih (i + 1) (by omega) (by omega)]
      exact later readable''

/-- The number of frames is one that the driver takes. -/
def TakesFrames (npkt : Int) : Prop := 0 < npkt ∧ npkt < txDescs

/-- The frames of the array, when they are copied at all, are the user's own. -/
def ArrayOfUser (mem : Memory) (vpkt vlen : Nat) (npkt : Int) : Prop :=
  TakesFrames npkt → ValidLens mem vlen 0 npkt.toNat → SendsUser mem vpkt vlen 0 npkt.toNat

section Arrays

variable {vpkt vlen : Nat} {npkt : Int}

/-- With a full queue only the lengths are read, and the answer tells whether they are good. -/
theorem transmitArrayFrom_full (vpkt : Nat) (npkt : Int) (split : mem.Split)
    (lens : vlen < kernelBase) :
    (transmitArrayFrom true vpkt vlen npkt).UserOnly mem ∧
      ((transmitArrayFrom true vpkt vlen npkt).run mem).memory = mem ∧
      ((∃ frames, ((transmitArrayFrom true vpkt vlen npkt).run mem).value = some (-1, frames)) ↔
        TakesFrames npkt ∧ ValidLens mem vlen 0 npkt.toNat) := by
  unfold transmitArrayFrom TakesFrames
  -- A count out of range is refused before anything is read.
  by_cases range : npkt ≤ 0 ∨ (txDescs : Int) - 1 < npkt
  · simp only [if_pos range]
    refine ⟨staysBelow_ret _, rfl, ?_⟩
    constructor
    · intro sent
      obtain ⟨frames, sent⟩ := sent
      simp [Access.run] at sent
    · intro good
      omega
  · simp only [if_neg range]
    obtain ⟨stays, same, valid⟩ := checkLens_spec vlen 0 npkt.toNat split (by omega)
    unfold UserOnly
    rw [staysBelow_andThen, run_andThen, same]
    -- The lengths are unreadable, bad, or good, and only then the queue is looked at.
    cases answer : ((checkLens vlen 0 npkt.toNat).run mem).value with
    | none =>
      refine ⟨⟨stays, fun value ended => by cases ended⟩, rfl, ?_⟩
      constructor
      · intro sent
        obtain ⟨frames, sent⟩ := sent
        cases sent
      · intro good
        have := valid.mpr good.2
        rw [answer] at this
        cases this
    | some isValid =>
      cases isValid with
      | false =>
        refine ⟨⟨stays, fun value ended => ?_⟩, rfl, ?_⟩
        · cases ended
          exact staysBelow_ret _
        · constructor
          · intro sent
            obtain ⟨frames, sent⟩ := sent
            simp [Access.run] at sent
          · intro good
            have := valid.mpr good.2
            rw [answer] at this
            cases this
      | true =>
        refine ⟨⟨stays, fun value ended => ?_⟩, rfl, ?_⟩
        · cases ended
          exact staysBelow_ret _
        · constructor
          · intro _
            exact ⟨by omega, valid.mp answer⟩
          · intro _
            exact ⟨[], rfl⟩

/-- With room in the queue the frames are copied once their lengths are good. -/
theorem transmitArrayFrom_room (split : mem.Split) (frames : vpkt < kernelBase)
    (lens : vlen < kernelBase) :
    (transmitArrayFrom false vpkt vlen npkt).UserOnly mem ↔ ArrayOfUser mem vpkt vlen npkt := by
  unfold transmitArrayFrom ArrayOfUser TakesFrames
  by_cases range : npkt ≤ 0 ∨ (txDescs : Int) - 1 < npkt
  · simp only [if_pos range]
    refine ⟨fun _ inside => by omega, fun _ => staysBelow_ret _⟩
  · simp only [if_neg range]
    -- The lengths are read first and change nothing, so the frames decide.
    obtain ⟨stays, same, valid⟩ := checkLens_spec vlen 0 npkt.toNat split (by omega)
    have copies := copyFrames_userOnly vpkt vlen 0 npkt.toNat split (by omega) (by omega)
    unfold UserOnly
    rw [staysBelow_andThen, same]
    constructor
    · intro both _ good
      have later := both.2 true (valid.mpr good)
      exact copies.mp (userOnly_andThen_ret.mp later)
    · intro sends
      refine ⟨stays, fun isValid ended => ?_⟩
      cases isValid with
      | false => exact staysBelow_ret _
      | true => exact userOnly_andThen_ret.mpr (copies.mpr (sends (by omega) (valid.mp ended)))

/-- However often the queue is full before, only the frames that are copied in the end matter. -/
theorem sendArrayLoop_userOnly (split : mem.Split) (frames : vpkt < kernelBase)
    (lens : vlen < kernelBase) (fulls : Nat) :
    (sendArrayLoop vpkt vlen npkt fulls).UserOnly mem ↔ ArrayOfUser mem vpkt vlen npkt := by
  -- Each turn with a full queue reads the lengths once more and starts over.
  induction fulls with
  | zero => exact transmitArrayFrom_room split frames lens
  | succ fulls ih =>
    obtain ⟨stays, same, again⟩ := transmitArrayFrom_full vpkt npkt split lens
    unfold sendArrayLoop UserOnly
    rw [staysBelow_andThen, same]
    constructor
    · intro both takes good
      obtain ⟨sent, ended⟩ := again.mpr ⟨takes, good⟩
      have later := both.2 _ ended
      simp only [if_true] at later
      exact ih.mp later takes good
    · intro sends
      refine ⟨stays, fun value _ => ?_⟩
      obtain ⟨rt, sent⟩ := value
      dsimp only
      split
      · exact ih.mpr sends
      · exact staysBelow_ret _

end Arrays

/-- `do_net_send` reads the caller's own memory. -/
theorem doNetSend_userOnly (txpacket : Nat) (length : Int) (split : mem.Split) :
    (doNetSend txpacket length).UserOnly mem := by
  unfold doNetSend
  split
  · exact staysBelow_ret _
  · split
    · exact staysBelow_ret _
    · have := kvaMin_lt
      rw [userOnly_andThen_ret]
      exact loadBytes_userOnly split (by omega) _

/-! ## Frames received -/

/-- The frames and their lengths go to the caller's own memory. -/
theorem netRecvLoop_userOnly {rxbuffer pktLens : Nat} (i : Nat) {rYmr : Nat}
    (frames : Nat → RxFrame) (more : Nat) (split : mem.Split)
    (buffer : rxbuffer + rYmr < kernelBase)
    (lens : pktLens + 4 * i < kernelBase) :
    (netRecvLoop rxbuffer pktLens i rYmr frames more).UserOnly mem := by
  -- The induction is on the frames that are left, for the buffer and the lengths at once.
  induction more generalizing i rYmr mem with
  | zero => exact staysBelow_ret _
  | succ more ih =>
    unfold netRecvLoop
    apply Access.UserOnly.andThen split (storeBytes_userOnly split buffer _)
    intro _ mem' split' ended
    have next := storeBytes_done split userTop_lt kernelBase_le buffer ended
    apply Access.UserOnly.andThen split' (storeBytes_userOnly split' lens _)
    intro _ mem'' split'' ended'
    have next' := storeBytes_done split' userTop_lt kernelBase_le lens ended'
    have size : (frames i).content.length = (frames i).length := by simp [RxFrame.content]
    have word : (intBytes (frames i).length).length = 4 := by simp [intBytes]
    exact ih (i + 1) split'' (by omega) (by omega)

/-- `do_net_recv` writes to the caller's own memory. -/
theorem doNetRecv_userOnly (rxbuffer : Nat) (pktNum : Int) (pktLens : Nat)
    (frames : Nat → RxFrame) (split : mem.Split) :
    (doNetRecv rxbuffer pktNum pktLens frames).UserOnly mem := by
  unfold doNetRecv
  split
  · exact staysBelow_ret _
  · have := kvaMin_lt
    exact netRecvLoop_userOnly 0 frames _ split (by omega) (by omega)

/-! ## Streams -/

section Streams

variable {net next : Gntp} {len buf : Nat}

/-- A data frame leaves the ranges that its insertion leaves. -/
theorem Gntp.receive_dlist {kmalloc : Bool} (received : net.receive len kmalloc = .receiving next) :
    ∃ rt, net.dlist.insert net.headerTemp.seq
      (u32 (net.headerTemp.seq + net.headerTemp.length)) kmalloc = some (rt, next.dlist) := by
  -- Storing the bytes and answering do not touch the ranges.
  unfold Gntp.receive at received
  dsimp only at received
  cases inserted : net.dlist.insert net.headerTemp.seq
      (u32 (net.headerTemp.seq + net.headerTemp.length)) kmalloc with
  | none =>
    rw [inserted] at received
    cases received
  | some answer =>
    obtain ⟨rt, dlist⟩ := answer
    rw [inserted] at received
    dsimp only at received
    refine ⟨rt, ?_⟩
    split at received
    · split at received
      · cases received
      · cases received
        simp only [Gntp.store_dlist]
    · split at received
      · cases received
      · cases received
        rfl

/-- A turn changes the ranges for a data frame alone. -/
theorem Gntp.turn_dlist {poll : Poll} (turned : net.turn len poll = .receiving next) :
    next.dlist = net.dlist ∨ ∃ frame rt, poll.frame = some frame ∧
      (net.headerOf frame).IsData ∧
      net.dlist.insert (net.headerOf frame).seq
        (u32 ((net.headerOf frame).seq + (net.headerOf frame).length)) poll.kmalloc =
          some (rt, next.dlist) := by
  unfold Gntp.turn at turned
  -- Without a frame the receiver only answers, asks again, or waits.
  cases polled : poll.frame with
  | none =>
    rw [polled] at turned
    cases turned
    exact Or.inl net.idle_loads.2
  | some frame =>
    rw [polled] at turned
    unfold Gntp.accept at turned
    dsimp only at turned
    split at turned
    · cases turned
      exact Or.inl rfl
    · rename_i isData
      right
      obtain ⟨rt, inserted⟩ := Gntp.receive_dlist turned
      refine ⟨frame, rt, rfl, ?_, inserted⟩
      unfold GntpHeader.IsData
      exact ⟨by_contra fun other => isData (Or.inl other), fun other => isData (Or.inr other)⟩

/-- A turn copies into the buffer, and only so far beyond what has come without a hole. -/
theorem Gntp.copies_near {poll : Poll} {entry : Nat × UInt8}
    (copied : entry ∈ net.copies len poll) :
    entry.1 < len ∧ entry.1 < net.lfr + gntpWinsize := by
  unfold Gntp.copies at copied
  cases polled : poll.frame with
  | none => simp [polled] at copied
  | some frame =>
    simp only [polled] at copied
    split at copied
    · cases inserted : net.dlist.insert (net.headerOf frame).seq
          (u32 ((net.headerOf frame).seq + (net.headerOf frame).length)) poll.kmalloc with
      | none => simp [inserted] at copied
      | some answer =>
        obtain ⟨rt, dlist⟩ := answer
        rw [inserted] at copied
        by_cases new : rt = 0
        · subst new
          simp only [List.mem_map, List.mem_range] at copied
          obtain ⟨k, inside, rfl⟩ := copied
          -- A frame that reaches beyond the window is refused.
          have window : ¬ (u32 (net.dlist.dlh.stop + gntpWinsize) ≤
              u32 ((net.headerOf frame).seq + (net.headerOf frame).length)) := by
            intro beyond
            unfold Dlist.insert at inserted
            rw [if_pos (Or.inr beyond)] at inserted
            cases inserted
          have wraps : u32 (net.dlist.dlh.stop + gntpWinsize) ≤ net.dlist.dlh.stop + gntpWinsize :=
            Nat.mod_le _ _
          unfold Gntp.lfr
          simp only
          omega
        · split at copied
          · rename_i same
            cases same
            exact absurd rfl new
          · cases copied
    · cases copied

/--
The ranges of a stream are in order, and the buffer is the user's once its first byte is there.
-/
structure Gntp.FromUser (net : Gntp) (buf : Nat) : Prop where
  /-- The ranges keep apart. -/
  apart : Apart net.dlist.all
  /-- The first one starts with the stream. -/
  zero : net.dlist.dlh.start = 0
  /-- Once the first byte has come, the buffer starts in user space. -/
  low : Covered net.dlist.all 0 → buf < userTop

/-- A turn whose bytes were all written keeps the buffer of a stream in user space. -/
theorem Gntp.FromUser.turn (good : net.FromUser buf) {poll : Poll} (split : mem.Split)
    (below : buf < kernelBase) (positive : 0 < len)
    (turned : net.turn len poll = .receiving next)
    (written : ∀ entry ∈ net.copies len poll, mem.legal ((buf + entry.1) % 2 ^ 64) = true) :
    next.FromUser buf := by
  -- The ranges are the same, or those after an insertion.
  obtain same | ⟨frame, rt, polled, isData, inserted⟩ := Gntp.turn_dlist turned
  · exact ⟨by rw [same]; exact good.apart, by rw [same]; exact good.zero,
      by rw [same]; exact good.low⟩
  · obtain ⟨rt', after, inserted', inserts, -⟩ := Dlist.insert_spec net.dlist
      (net.headerOf frame).seq (u32 ((net.headerOf frame).seq + (net.headerOf frame).length))
      poll.kmalloc good.apart good.zero
    rw [inserted] at inserted'
    cases inserted'
    have zero : next.dlist.dlh.start = 0 := by
      have first := inserts.first
      simp only [Dlist.all, List.head?_cons, Option.map_some, Option.some.injEq] at first
      rw [first]
      exact good.zero
    refine ⟨inserts.apart, zero, ?_⟩
    intro covered
    by_cases new : rt = 0
    · subst new
      -- The first byte was there before, or it has just been written.
      obtain before | now := (inserts.covers rfl 0).mp covered
      · exact good.low before
      · have starts : (net.headerOf frame).seq = 0 := Nat.le_zero.mp now.1
        have ends := now.2
        simp only at ends
        have copied : (0, net.fb.copy frame.bytes frame.length
            (gntpHeaderStart + gntpHeaderSize + 0)) ∈ net.copies len poll := by
          unfold Gntp.copies
          simp only [polled, if_pos isData]
          rw [inserted]
          simp only [List.mem_map, List.mem_range]
          refine ⟨0, by omega, ?_⟩
          rw [starts]
        have legal := written _ copied
        simp only [Nat.add_zero] at legal
        have := kernelBase_le
        rw [Nat.mod_eq_of_lt (by omega)] at legal
        -- The byte was written, so its address is legal, and it is not the kernel's.
        obtain low | high := split buf legal
        · exact low
        · omega
    · rw [inserts.same new] at covered
      exact good.low covered

/-- What a turn copies goes to addresses below the kernel's pages. -/
theorem Gntp.FromUser.below (good : net.FromUser buf) {poll : Poll} (user : buf < kvaMin)
    (short : len < 2 ^ 31) :
    ∀ entry ∈ net.copies len poll, buf + entry.1 < kernelBase := by
  intro entry copied
  obtain ⟨inside, near⟩ := Gntp.copies_near copied
  -- With the first byte there, the buffer starts in user space and ends below the kernel's.
  by_cases some : 0 < net.lfr
  · have covered : Covered net.dlist.all 0 := by
      refine ⟨net.dlist.dlh, by simp [Dlist.all], ?_⟩
      have := good.zero
      exact ⟨by omega, some⟩
    have low := good.low covered
    unfold userTop kernelBase at *
    omega
  · -- Nothing has come from the start on, so the window ends near the buffer's start.
    unfold gntpWinsize kvaMin kernelBase at *
    omega

/-- The bytes of a stream go to the caller's own memory. -/
theorem recvStreamLoop_userOnly (polls : List Poll) (good : net.FromUser buf)
    (split : mem.Split) (user : buf < kvaMin) (positive : 0 < len) (short : len < 2 ^ 31) :
    (recvStreamLoop buf len polls net).UserOnly mem := by
  -- The induction is on the polls, and `FromUser` is what each turn keeps.
  induction polls generalizing net mem with
  | nil => exact staysBelow_ret _
  | cons poll polls ih =>
    unfold recvStreamLoop
    have below := kvaMin_lt
    apply Access.UserOnly.andThen split
      (storeAt_staysBelow split kernelBase_le userTop_le (good.below user short))
    intro _ mem' split' ended
    cases turned : net.turn len poll with
    | receiving next =>
      have good' := good.turn split (by omega) positive turned (storeAt_done ended)
      exact ih good' split'
    | returned value next => exact staysBelow_ret _
    | panicked => exact staysBelow_ret _

/-- `do_net_recv_stream` writes to the caller's own memory. -/
theorem recvStream_userOnly (net : Gntp) (buf : Nat) {len : Int} (kmalloc : Bool)
    (polls : List Poll) (split : mem.Split) (short : len < 2 ^ 31) :
    (recvStream net buf len kmalloc polls).UserOnly mem := by
  unfold recvStream
  dsimp only
  split
  · exact staysBelow_ret _
  · rename_i valid
    split
    · apply recvStreamLoop_userOnly polls _ split _ (by omega) (by omega)
      -- At the start no byte has come.
      · refine ⟨apart_single.mpr (Nat.le_refl _), rfl, ?_⟩
        intro covered
        obtain ⟨span, mem', has⟩ := covered
        cases List.mem_singleton.mp mem'
        exact absurd has.2 (Nat.lt_irrefl 0)
      · unfold kvaOffset at valid
        unfold kvaMin
        omega
    · exact staysBelow_ret _

/-- What `do_net_recv_stream` answers, unless a write ends it, is what the receiver's model says. -/
theorem recvStream_value (net : Gntp) (buf : Nat) (len : Int) (kmalloc : Bool) (polls : List Poll)
    {progress : Progress}
    (ended : ((recvStream net buf len kmalloc polls).run mem).value = some progress) :
    progress = doNetRecvStream net buf len kmalloc polls := by
  -- The loop does turn by turn what the receiver's model does.
  have loop : ∀ (polls : List Poll) (net : Gntp) (mem : Memory) {progress : Progress},
      ((recvStreamLoop buf len.toNat polls net).run mem).value = some progress →
        progress = net.loop len.toNat polls := by
    intro polls
    induction polls with
    | nil =>
      intro net mem progress ended
      exact (Option.some.inj ended).symm
    | cons poll polls ih =>
      intro net mem progress ended
      unfold recvStreamLoop at ended
      rw [run_andThen] at ended
      unfold Gntp.loop
      cases stored : ((storeAt buf (net.copies len.toNat poll)).run mem).value with
      | none =>
        rw [stored] at ended
        cases ended
      | some _ =>
        rw [stored] at ended
        cases turned : net.turn len.toNat poll with
        | receiving next =>
          rw [turned] at ended
          exact ih next _ ended
        | returned value next =>
          rw [turned] at ended
          exact (Option.some.inj ended).symm
        | panicked =>
          rw [turned] at ended
          exact (Option.some.inj ended).symm
  unfold recvStream at ended
  unfold doNetRecvStream
  dsimp only at ended ⊢
  split at ended
  · rename_i refused
    rw [if_pos refused]
    exact (Option.some.inj ended).symm
  · rename_i valid
    rw [if_neg valid]
    split at ended
    · rename_i heap
      rw [if_pos heap]
      exact loop _ _ _ ended
    · rename_i noHeap
      rw [if_neg noHeap]
      exact (Option.some.inj ended).symm

end Streams

/-! ## The screen, paths and mailboxes -/

/-- `do_screen_write` reads the caller's own memory. -/
theorem doScreenWrite_userOnly (buff len : Nat) (split : mem.Split) :
    (doScreenWrite buff len).UserOnly mem := by
  unfold doScreenWrite
  split
  · exact staysBelow_ret _
  · have := kvaMin_lt
    dsimp only
    rw [userOnly_andThen_ret]
    exact loadBytes_userOnly split (by omega) _

/-- `do_getpath` writes to the caller's own memory. -/
theorem doGetpath_userOnly (path : Nat) (cpath : List UInt8) (curIno : Nat) (split : mem.Split) :
    (doGetpath path cpath curIno).UserOnly mem := by
  unfold doGetpath
  split
  · exact staysBelow_ret _
  · have := kvaMin_lt
    apply Access.UserOnly.andThen split (storeBytes_userOnly split (by omega) _)
    intro _ _ _ _
    exact staysBelow_ret _

/-- `do_mbox_recv` writes to the caller's own memory. -/
theorem mboxRecvTo_userOnly (midx : Int) (msg msgLength : Nat) (blocked : Option Nat)
    (next : Nat → UInt8) (split : mem.Split) :
    (mboxRecvTo midx msg msgLength blocked next).UserOnly mem := by
  unfold mboxRecvTo
  split
  · exact staysBelow_ret _
  · split
    · exact staysBelow_ret _
    · cases blocked with
      | none => exact staysBelow_ret _
      | some blockYmr =>
        have := kvaMin_lt
        apply Access.UserOnly.andThen split (storeBytes_userOnly split (by omega) _)
        intro _ _ _ _
        exact staysBelow_ret _

/-- `do_mbox_send` has no check of its own, and reads the message wherever it is. -/
theorem mboxSendFrom_userOnly {midx : Int} {msg msgLength : Nat} {blocked : Option Nat}
    (split : mem.Split) (word : msg < 2 ^ 64) :
    (mboxSendFrom midx msg msgLength blocked).UserOnly mem ↔
      (¬ badMessage midx msgLength → blocked ≠ none → mem.legal msg = true → msg < kvaMin) := by
  unfold mboxSendFrom
  by_cases bad : badMessage midx msgLength
  · rw [if_pos bad]
    exact ⟨fun _ good => absurd bad good, fun _ => staysBelow_ret _⟩
  · rw [if_neg bad]
    cases blocked with
    | none => exact ⟨fun _ _ open_ => absurd rfl open_, fun _ => staysBelow_ret _⟩
    | some blockYmr =>
      have some : 0 < msgLength := by
        unfold badMessage at bad
        omega
      dsimp only
      rw [userOnly_andThen_ret]
      unfold UserOnly
      -- The first byte decides, since bytes are read upwards.
      rw [loadBytes_staysBelow_iff split userTop_lt kernelBase_le userTop_le kvaMin_lt.le word]
      constructor
      · intro first _ _
        exact first some
      · intro first _
        exact first bad (by simp)

/-! ## All calls -/

/-- A call moves no byte of the kernel, and cannot tell apart what the kernel's bytes are. -/
structure CopyCall.Harmless (call : CopyCall) (mem : Sv39) : Prop where
  /-- No byte that it reads or writes is the kernel's. -/
  userOnly : call.routine.UserOnly mem.toMemory
  /-- It answers, reads, writes and leaves the same, whatever the kernel's bytes are. -/
  same : ∀ other : Sv39, mem.toMemory.AgreeBelow kvaMin other.toMemory →
    SameBelow kvaMin (call.routine.run mem.toMemory) (call.routine.run other.toMemory)

/-- No pointer that a call follows without a check leads to the kernel's pages. -/
def CopyCall.PointersOfUser (mem : Memory) : CopyCall → Prop
  | .mboxSend midx msg msgLength blocked =>
    ¬ badMessage midx.toInt msgLength → blocked ≠ none → mem.legal msg.toNat = true →
      msg.toNat < kvaMin
  | .netSendArray vpkt vlen npkt _ =>
    vpkt.toNat < kvaMin → vlen.toNat < kvaMin →
      ArrayOfUser mem vpkt.toNat vlen.toNat npkt.toInt
  | _ => True

/-- `do_net_send_array` checks its two pointers, and none of those in the array. -/
theorem doNetSendArray_userOnly {vpkt vlen : Nat} {npkt : Int} (fulls : Nat) (split : mem.Split) :
    (doNetSendArray vpkt vlen npkt fulls).UserOnly mem ↔
      (vpkt < kvaMin → vlen < kvaMin → ArrayOfUser mem vpkt vlen npkt) := by
  unfold doNetSendArray
  have := kvaMin_lt
  -- The check covers the array of pointers and that of lengths only.
  by_cases checked : kvaMin ≤ vpkt ∨ kvaMin ≤ vlen
  · rw [if_pos checked]
    refine ⟨fun _ frames lens => by omega, fun _ => staysBelow_ret _⟩
  · rw [if_neg checked, sendArrayLoop_userOnly split (by omega) (by omega)]
    constructor
    · intro sends _ _
      exact sends
    · intro sends
      exact sends (by omega) (by omega)

/-- A call reaches no byte of the kernel exactly when its unchecked pointers are the user's. -/
theorem routine_userOnly (call : CopyCall) (split : mem.Split) :
    call.routine.UserOnly mem ↔ call.PointersOfUser mem := by
  -- Eight calls meet it for every argument, and two depend on the pointers left unchecked.
  cases call with
  | read fs fd buf len =>
    exact iff_of_true (userOnly_andThen_ret.mpr (doRead_userOnly _ _ _ _ split)) trivial
  | write noHeap depth fs fd buf len =>
    exact iff_of_true (userOnly_andThen_ret.mpr (doWriteFrom_userOnly _ _ _ _ _ _ split)) trivial
  | getpath path cpath curIno =>
    exact iff_of_true (userOnly_andThen_ret.mpr (doGetpath_userOnly _ _ _ split)) trivial
  | mboxSend midx msg msgLength blocked =>
    exact userOnly_andThen_ret.trans (mboxSendFrom_userOnly split msg.toNat_lt)
  | mboxRecv midx msg msgLength blocked next =>
    exact iff_of_true (userOnly_andThen_ret.mpr (mboxRecvTo_userOnly _ _ _ _ _ split)) trivial
  | netSend txpacket length =>
    exact iff_of_true (userOnly_andThen_ret.mpr (doNetSend_userOnly _ _ split)) trivial
  | netSendArray vpkt vlen npkt fulls =>
    exact userOnly_andThen_ret.trans (doNetSendArray_userOnly fulls split)
  | netRecv rxbuffer pktNum pktLens frames =>
    exact iff_of_true (userOnly_andThen_ret.mpr (doNetRecv_userOnly _ _ _ _ split)) trivial
  | netRecvStream net buf len kmalloc polls =>
    have short := len.toInt_lt
    exact iff_of_true (userOnly_andThen_ret.mpr (recvStream_userOnly _ _ _ _ split short)) trivial
  | screenWrite buff len =>
    exact iff_of_true (userOnly_andThen_ret.mpr (doScreenWrite_userOnly _ _ split)) trivial

/-- No call moves memory of the kernel, except where a pointer that nothing checks leads there. -/
theorem kernel_memory_stays (call : CopyCall) (mem : Sv39) :
    call.Harmless mem ↔ call.PointersOfUser mem.toMemory := by
  constructor
  -- The first part of harmlessness already says which pointers were followed.
  · intro harmless
    exact (routine_userOnly call mem.gap).mp harmless.userOnly
  -- A routine that reaches no byte of the kernel cannot tell what these bytes are.
  · intro users
    have stays := (routine_userOnly call mem.gap).mpr users
    exact ⟨stays, fun other agree => stays.same agree⟩

/-- Memory in which all pages of the kernel are mapped, and none of the user. -/
def kernelPages : Sv39 where
  legal addr := decide (kernelBase ≤ addr)
  byte _ := 0
  gap _ legal := Or.inr (of_decide_eq_true legal)

/-- A byte of the kernel can be sent to a mailbox, from where the user receives it. -/
theorem kernel_memory_moves : ¬ ∀ (call : CopyCall) (mem : Sv39), call.Harmless mem := by
  intro all
  have harmless := all (.mboxSend 0 0xffffffc050000000 1 (some 0)) kernelPages
  have stays := userOnly_andThen_ret.mp harmless.userOnly
  rw [mboxSendFrom_userOnly kernelPages.gap (by decide)] at stays
  have low := stays (by decide) (by decide) (by decide)
  exact absurd low (by decide)

end GlucOS
