import GlucOS.Gfs.CountLaws
import GlucOS.Volume.SourceLaws

/-! What a file holds before and after it is read or written. -/

namespace GlucOS

open Access

/-! ## What a file holds -/

/-- The bytes of a file, up to its size. -/
def Gfs.contents (fs : Gfs) (ino : Nat) : List UInt8 :=
  (List.range (fs.vol.inodes ino).size).map fun x => (fs.byteAt ino x).getD 0

/-- A file with as many blocks as its size asks for. -/
structure FileFull (fs : Gfs) (ino : Nat) (ps : List Nat) : Prop extends FileOk fs ino ps where
  /-- There are as many pointers as `GFS_nbytes2blocks` says. -/
  count : ps.length = gfsNbytes2blocks (fs.vol.inodes ino).size

section Contents

variable {fs next : Gfs} {ino : Nat} {ps : List Nat}

/-- A file holds as many bytes as its size says. -/
@[simp] theorem Gfs.length_contents : (fs.contents ino).length = (fs.vol.inodes ino).size := by
  rw [Gfs.contents, List.length_map, List.length_range]

/-- Each of them is the one at its position. -/
theorem Gfs.getElem?_contents (k : Nat) : (fs.contents ino)[k]? =
    if k < (fs.vol.inodes ino).size then some ((fs.byteAt ino k).getD 0) else none := by
  rw [Gfs.contents, List.getElem?_map]
  by_cases inside : k < (fs.vol.inodes ino).size
  · rw [if_pos inside, List.getElem?_range inside, Option.map_some]
  · rw [if_neg inside, List.getElem?_eq_none (by simpa using inside), Option.map_none]

/-- A file whose size and bytes stay holds the same. -/
theorem Gfs.contents_congr (size : (next.vol.inodes ino).size = (fs.vol.inodes ino).size)
    (same : ∀ x < (fs.vol.inodes ino).size, next.byteAt ino x = fs.byteAt ino x) :
    next.contents ino = fs.contents ino := by
  rw [Gfs.contents, Gfs.contents, size]
  apply List.map_congr_left
  intro x mem
  rw [same x (List.mem_range.mp mem)]

/-- As many blocks as `GFS_nbytes2blocks` says have room for the file. -/
theorem le_roomOf {size : Nat} (word : size ≤ uint32Max) :
    size ≤ roomOf (gfsNbytes2blocks size) := by
  rw [roomOf, dataCount_nbytes2blocks word, dataBlocks]
  have := Nat.div_add_mod (size + (blockSize - 1)) blockSize
  have := Nat.mod_lt (size + (blockSize - 1)) (show 0 < blockSize by decide)
  rw [Nat.mul_comm]
  omega

/-- A full file has room for its bytes. -/
theorem FileFull.room (full : FileFull fs ino ps) :
    (fs.vol.inodes ino).size ≤ roomOf ps.length := by
  rw [full.count]
  exact le_roomOf full.word

/-- The byte at a position is that of a data block. -/
theorem FileOk.byteAt_block (ok : FileOk fs ino ps) {x : Nat} (inside : x < roomOf ps.length) :
    fs.byteAt ino x = some (blockByte fs.vol.blocks (dataPtrs ps) x) := by
  have index := lt_roomOf.mp inside
  rw [ok.byteAt_some index, blockByte, List.getD_eq_getElem?_getD, List.getElem?_eq_getElem index,
    Option.getD_some, Block.byte, dif_pos (Nat.mod_lt _ (by decide))]

/-- The bytes of the data blocks are those of the file. -/
theorem FileFull.blockBytes_part (full : FileFull fs ino ps) {pos len : Nat}
    (inside : pos + len ≤ (fs.vol.inodes ino).size) :
    blockBytes fs.vol.blocks (dataPtrs ps) pos len = part (fs.contents ino) pos len := by
  have room := full.room
  apply List.ext_getElem?
  intro k
  rw [getElem?_part, Gfs.getElem?_contents, blockBytes, List.getElem?_map]
  by_cases below : k < len
  · rw [if_pos below, if_pos (by omega), List.getElem?_range below, Option.map_some,
      full.byteAt_block (by omega), Option.getD_some]
  · rw [if_neg below, List.getElem?_eq_none (by simpa using below), Option.map_none]

end Contents

/-! ## Reading -/

/-- `do_read` from an open file copies the part at the position, and moves behind it. -/
theorem doRead_gives {fs : Gfs} {fd : Int} {desc : FileDesc} {ps : List Nat} {mem : Memory}
    {buf len : Nat} (opened : fs.openFile fd oRdonly = some desc) (user : buf < kvaMin)
    (full : FileFull fs desc.ino ps)
    (readable : mem.Readable buf (part (fs.contents desc.ino) desc.pos len).length) :
    let bytes := part (fs.contents desc.ino) desc.pos len
    (doRead fs fd buf len).Gives mem
      (bytes.length, fs.putPos fd desc (desc.pos + bytes.length)) (mem.put buf bytes) := by
  have word := full.word
  have count : (part (fs.contents desc.ino) desc.pos len).length =
      min len ((fs.vol.inodes desc.ino).size - desc.pos) := by
    rw [length_part, Gfs.length_contents]
  unfold doRead
  rw [opened]
  dsimp only
  rw [if_neg (by omega)]
  by_cases none_ : len = 0 ∨ (fs.vol.inodes desc.ino).size ≤ desc.pos
  · -- There is nothing to read, and the position stays.
    have nothing : part (fs.contents desc.ino) desc.pos len = [] := by
      apply List.eq_nil_of_length_eq_zero
      omega
    have same : fs.putPos fd desc (desc.pos + 0) = fs := by
      rw [Gfs.putPos, Nat.add_zero, ← Gfs.openFile_fds opened, Function.update_eq_self]
    rw [if_pos none_, nothing, List.length_nil, same]
    exact gives_ret _ mem
  · rw [if_neg none_]
    rw [count] at readable ⊢
    have all : part (fs.contents desc.ino) desc.pos len = part (fs.contents desc.ino) desc.pos
        (min len ((fs.vol.inodes desc.ino).size - desc.pos)) := by
      apply List.ext_getElem?
      intro k
      rw [getElem?_part, getElem?_part, Gfs.getElem?_contents]
      by_cases below : k < min len ((fs.vol.inodes desc.ino).size - desc.pos)
      · rw [if_pos below, if_pos (by omega)]
      · rw [if_neg below]
        split
        · rw [if_neg (by omega)]
        · rfl
    rw [all]
    generalize isCount : min len ((fs.vol.inodes desc.ino).size - desc.pos) = count at readable ⊢
    have inside : desc.pos + count ≤ (fs.vol.inodes desc.ino).size := by omega
    rw [← full.blockBytes_part inside]
    apply Gives.andThen (readData_gives full.tree full.valid (by omega)
      (by
        have := full.room
        rw [roomOf, ← dataPtrs_length] at this
        omega) readable)
    rw [if_pos rfl]
    exact gives_ret _ _

/-! ## Writing -/

/-- The bytes that a write takes from its buffer, one after the other. -/
theorem takenBytes_eq (mem : Memory) (buf count : Nat) :
    takenBytes mem buf count = (List.range count).map (bufOf buf (mem.source buf)) := by
  unfold takenBytes
  by_cases null : buf = 0
  · rw [if_pos null]
    apply List.ext_getElem?
    intro k
    rw [List.getElem?_replicate, List.getElem?_map]
    by_cases below : k < count
    · rw [if_pos below, List.getElem?_range below, Option.map_some, bufOf, if_pos null]
    · rw [if_neg below, List.getElem?_eq_none (by simpa using below), Option.map_none]
  · rw [if_neg null, bufOf, if_neg null]
    rfl

/-- There are as many as asked for. -/
@[simp] theorem length_takenBytes (mem : Memory) (buf count : Nat) :
    (takenBytes mem buf count).length = count := by
  rw [takenBytes_eq, List.length_map, List.length_range]

/-- Free blocks are those that are taken, and the others. -/
theorem clear_apart {mem : SecMem} {qs : List Nat}
    (free : ∀ q ∈ qs, ∃ b < blockBitmap.bits, q = b + gfsDatalocBlock ∧
      blockBitmap.isSet mem.cache b = false) (nodup : qs.Nodup) :
    ((blockBitmap.clear mem).filter fun b => !decide (b + gfsDatalocBlock ∈ qs)).length +
      qs.length = (blockBitmap.clear mem).length := by
  have taken : (((blockBitmap.clear mem).filter fun b =>
      decide (b + gfsDatalocBlock ∈ qs)).map (· + gfsDatalocBlock)).Perm qs := by
    rw [List.perm_ext_iff_of_nodup]
    · intro q
      simp only [List.mem_map, List.mem_filter, decide_eq_true_eq, SecRange.clear, List.mem_range]
      constructor
      · intro found
        obtain ⟨b, ⟨-, member⟩, rfl⟩ := found
        exact member
      · intro member
        obtain ⟨b, inside, isQ, unset⟩ := free q member
        exact ⟨b, ⟨⟨inside, by rw [unset]; rfl⟩, isQ ▸ member⟩, isQ.symm⟩
    · apply List.Nodup.map
      · intro a b same
        exact Nat.add_right_cancel same
      · exact (List.nodup_range.filter _).filter _
    · exact nodup
  have count := taken.length_eq
  rw [List.length_map] at count
  rw [← count, ← List.countP_eq_length_filter, ← List.countP_eq_length_filter]
  have parts := List.length_eq_countP_add_countP (fun b => decide (b + gfsDatalocBlock ∈ qs))
    (l := blockBitmap.clear mem)
  simp only [decide_not, Bool.decide_eq_true] at parts ⊢
  omega

/-- Blocks that were taken are not free any more. -/
theorem clear_taken {mem next : SecMem} {qs : List Nat}
    (bits : ∀ b, blockBitmap.isSet next.cache b =
      (blockBitmap.isSet mem.cache b || decide (b + gfsDatalocBlock ∈ qs)))
    (free : ∀ q ∈ qs, ∃ b < blockBitmap.bits, q = b + gfsDatalocBlock ∧
      blockBitmap.isSet mem.cache b = false) (nodup : qs.Nodup) :
    (blockBitmap.clear next).length + qs.length = (blockBitmap.clear mem).length := by
  have left : blockBitmap.clear next =
      (blockBitmap.clear mem).filter fun b => !decide (b + gfsDatalocBlock ∈ qs) := by
    rw [SecRange.clear, SecRange.clear, List.filter_filter]
    apply List.filter_congr
    intro b _
    rw [bits, Bool.not_or, Bool.and_comm]
  rw [left]
  exact clear_apart free nodup

/-- When no other block is missing, exactly these were taken. -/
theorem taken_exactly {mem next : SecMem} {qs : List Nat}
    (kept : ∀ b, blockBitmap.isSet mem.cache b = true → blockBitmap.isSet next.cache b = true)
    (taken : ∀ q ∈ qs, ∃ b < blockBitmap.bits, q = b + gfsDatalocBlock ∧
      blockBitmap.isSet mem.cache b = false ∧ blockBitmap.isSet next.cache b = true)
    (nodup : qs.Nodup)
    (count : (blockBitmap.clear next).length + qs.length = (blockBitmap.clear mem).length) :
    ∀ b < blockBitmap.bits, blockBitmap.isSet next.cache b = true →
      blockBitmap.isSet mem.cache b = true ∨ b + gfsDatalocBlock ∈ qs := by
  have parts := @clear_apart mem qs (by
    intro q mem'
    obtain ⟨b, inside, is, free, -⟩ := taken q mem'
    exact ⟨b, inside, is, free⟩) nodup
  -- Blocks that are free still were free, and are none of these; there are as many as that.
  have still : (blockBitmap.clear next).Subperm
      ((blockBitmap.clear mem).filter fun b => !decide (b + gfsDatalocBlock ∈ qs)) := by
    apply List.Nodup.subperm (List.nodup_range.filter _)
    intro b free
    simp only [SecRange.clear, List.mem_filter, List.mem_range, Bool.not_eq_true',
      decide_eq_false_iff_not] at free ⊢
    refine ⟨⟨free.1, ?_⟩, ?_⟩
    · rw [← Bool.not_eq_true]
      intro isSet
      rw [kept b isSet] at free
      cases free.2
    · intro mem'
      obtain ⟨b', -, is, -, isSet⟩ := taken _ mem'
      obtain rfl : b = b' := Nat.add_right_cancel is
      rw [isSet] at free
      cases free.2
  have same := still.perm_of_length_le (by omega)
  intro b inside isSet
  by_contra neither
  rw [not_or, Bool.not_eq_true] at neither
  have free : b ∈ blockBitmap.clear next := by
    rw [same.mem_iff]
    simp [SecRange.clear, inside, neither]
  rw [SecRange.clear, List.mem_filter, isSet] at free
  cases free.2

/-- So are those that a file has grown by. -/
theorem Grown.clear {fs next : Gfs} {ino : Nat} {ps qs : List Nat}
    (grown : Grown fs next ino ps qs) :
    (blockBitmap.clear next.bitmaps).length + qs.length =
      (blockBitmap.clear fs.bitmaps).length := by
  apply clear_taken grown.bits _ (List.nodup_append.mp grown.ok.nodup).2.1
  intro q member
  obtain ⟨b, isQ, free⟩ := grown.free q member
  obtain ⟨b', inside, -, isQ'⟩ := grown.ok.held q (List.mem_append_right _ member)
  obtain rfl : b = b' := by omega
  exact ⟨b, inside, isQ, free⟩

/-- Copying within the blocks of a file puts the bytes in. -/
theorem copyData_contents {base : Gfs} {desc : FileDesc} {rs : List Nat} {len : Nat} (fd : Int)
    (buf : Nat → UInt8) (ok : FileOk base desc.ino rs) (word : desc.pos + len ≤ uint32Max)
    (fits : desc.pos + len ≤ roomOf rs.length)
    (near : desc.pos ≤ (base.vol.inodes desc.ino).size) :
    let result := base.copyData fd desc len buf
    result.1 = len ∧
      result.2.fds = Function.update base.fds fd.toNat (some { desc with pos := desc.pos + len }) ∧
      (result.2.vol.inodes desc.ino).size =
        max (base.vol.inodes desc.ino).size (desc.pos + len) ∧
      result.2.contents desc.ino =
        splice 0 (base.contents desc.ino) desc.pos ((List.range len).map buf) := by
  have old := ok.word
  obtain ⟨copied, -, done⟩ := copyData_spec fd buf ok word
  obtain ⟨answer, fds, inode⟩ := done len (if_pos (.inr fits))
  have size := congrArg GfsInode.size inode
  dsimp only at size
  refine ⟨answer, fds, size, ?_⟩
  have bytes := copied.byteAt ok (by rw [size]; omega)
  apply List.ext_getElem?
  intro k
  rw [Gfs.getElem?_contents, getElem?_splice, Gfs.getElem?_contents, Gfs.length_contents, size,
    bytes, List.length_map, List.length_range]
  by_cases before : k < desc.pos
  · rw [if_pos (by omega), if_neg (by omega), if_pos before, if_pos (by omega), if_pos (by omega)]
  · by_cases new : k < desc.pos + len
    · rw [if_pos (by omega), if_pos (by omega), if_neg before, if_pos new,
        ok.byteAt_block (by omega), List.getElem?_map, List.getElem?_range (by omega)]
      rfl
    · rw [if_neg (show ¬ (desc.pos ≤ k ∧ k < desc.pos + len) by omega), if_neg before, if_neg new]
      by_cases inside : k < (base.vol.inodes desc.ino).size
      · rw [if_pos (by omega), if_pos inside]
      · rw [if_neg (by omega), if_neg inside]

/-- What a write comes to that finds all the blocks it needs. -/
structure Stored (fs next : Gfs) (fd : Int) (desc : FileDesc) (ps qs : List Nat)
    (new : List UInt8) : Prop where
  /-- The file has the new blocks, and nothing else has changed on the volume. -/
  grew : Grew fs next desc.ino ps qs
  /-- It has as many blocks as its size asks for. -/
  count : (ps ++ qs).length = gfsNbytes2blocks (next.vol.inodes desc.ino).size
  /-- The bytes were put in. -/
  contents : next.contents desc.ino = splice 0 (fs.contents desc.ino) desc.pos new
  /-- The position is behind them. -/
  fds : next.fds = Function.update fs.fds fd.toNat (some { desc with pos := desc.pos + new.length })
  /-- The new blocks are not free any more. -/
  clear : (blockBitmap.clear next.bitmaps).length + qs.length =
    (blockBitmap.clear fs.bitmaps).length

/-- `do_write` to an open file stores the bytes when there are blocks for them. -/
theorem doWrite_stores {fs : Gfs} {fd : Int} {desc : FileDesc} {ps : List Nat} {noHeap : Bool}
    {addr len : Nat} (byte : Nat → UInt8) (opened : fs.openFile fd oWronly = some desc)
    (full : FileFull fs desc.ino ps) (word : desc.pos ≤ uint32Max) (user : addr < kvaMin)
    (some_ : len ≠ 0)
    (free : blocksAsked fs desc (writeLength desc.pos len) ≤
      (blockBitmap.clear fs.bitmaps).length)
    (heap : 0 < blocksAsked fs desc (writeLength desc.pos len) → noHeap = false) :
    ∃ next qs, (∀ depth, doWrite noHeap (depth + 2) fs fd addr byte len =
        some (((writeLength desc.pos len : Nat) : Int), next)) ∧
      qs.length = blocksAsked fs desc (writeLength desc.pos len) ∧
      Stored fs next fd desc ps qs
        ((List.range (writeLength desc.pos len)).map (bufOf addr byte)) := by
  have size := full.word
  have within : desc.pos + writeLength desc.pos len ≤ uint32Max := by
    rw [writeLength]
    omega
  obtain ⟨result, next, calls, ends⟩ := doWrite_ends noHeap byte opened full.toFileOk word
    (Nat.not_le.mpr user) some_
  change WriteEnd noHeap fs fd desc ps (bufOf addr byte) (writeLength desc.pos len) result next
    at ends
  generalize writeLength desc.pos len = count at free heap within ends ⊢
  have noNeed : ¬ (0 < blocksAsked fs desc count ∧ noHeap = true) := by
    intro both
    rw [heap both.1] at both
    cases both.2
  -- With the blocks that are granted the file has as many as its new size asks for.
  have sized : ∀ qs : List Nat,
      qs.length = min (blocksAsked fs desc count) (blockBitmap.clear fs.bitmaps).length →
      (ps ++ qs).length =
        gfsNbytes2blocks (max (fs.vol.inodes desc.ino).size (desc.pos + count)) := by
    intro qs granted
    rw [List.length_append, granted, Nat.min_eq_left free, full.count, blocksAsked]
    by_cases more : (fs.vol.inodes desc.ino).size ≤ desc.pos + count
    · have := gfsNbytes2blocks_mono more within
      rw [Nat.max_eq_right more]
      omega
    · have := gfsNbytes2blocks_mono (Nat.le_of_not_le more) size
      rw [Nat.max_eq_left (Nat.le_of_not_le more)]
      omega
  have room : ∀ qs : List Nat,
      qs.length = min (blocksAsked fs desc count) (blockBitmap.clear fs.bitmaps).length →
      max (fs.vol.inodes desc.ino).size (desc.pos + count) ≤ roomOf (ps ++ qs).length := by
    intro qs granted
    rw [sized qs granted]
    exact le_roomOf (by omega)
  cases ends with
  | noHeap need => exact absurd need noNeed
  | @copied grown qs granted isGrown _ near =>
    have fits := room qs granted
    have sameSize := isGrown.size
    obtain ⟨answer, fds, size', contents⟩ := copyData_contents fd (bufOf addr byte) isGrown.ok
      within (by omega) (by omega)
    have old : grown.contents desc.ino = fs.contents desc.ino := by
      apply Gfs.contents_congr sameSize
      intro x inside
      exact isGrown.byteAt full.toFileOk (Nat.lt_of_lt_of_le inside full.room)
    have copied := (copyData_spec fd (bufOf addr byte) isGrown.ok within).1
    rw [answer] at calls
    refine ⟨_, qs, calls, by rw [granted, Nat.min_eq_left free], ?_⟩
    constructor
    · exact isGrown.copied copied (copyData_word fd _ isGrown.ok within).1
    · rw [sized qs granted, size', sameSize]
    · rw [contents, old]
    · rw [fds, isGrown.fds, List.length_map, List.length_range]
    · rw [copied.bitmaps]
      exact isGrown.clear
  | @padded grown base qs granted isGrown _ short pads inode baseFds =>
    have fits := room qs granted
    have sameSize := isGrown.size
    have baseSize : (base.vol.inodes desc.ino).size = desc.pos := by rw [inode]
    have grew : Grew fs base desc.ino ps qs := isGrown.copied pads (by
      rw [baseSize]
      exact word)
    obtain ⟨answer, fds, size', contents⟩ := copyData_contents fd (bufOf addr byte) grew.ok
      within (by omega) (by omega)
    -- The gap holds zeros.
    have old : base.contents desc.ino = fs.contents desc.ino ++
        List.replicate (desc.pos - (fs.contents desc.ino).length) 0 := by
      have bytes := pads.byteAt isGrown.ok (by rw [baseSize]; exact word)
      apply List.ext_getElem?
      intro k
      rw [Gfs.getElem?_contents, baseSize, List.getElem?_append, Gfs.getElem?_contents,
        Gfs.length_contents, List.getElem?_replicate, bytes]
      by_cases before : k < (fs.vol.inodes desc.ino).size
      · rw [if_pos (by omega), if_pos before, if_pos before, if_neg (by omega),
          isGrown.byteAt full.toFileOk (Nat.lt_of_lt_of_le before full.room)]
      · rw [if_neg before]
        by_cases gap : k < desc.pos
        · rw [if_pos gap, if_pos (by omega), if_pos (by omega)]
          cases grown.byteAt desc.ino k <;> rfl
        · rw [if_neg gap, if_neg (by omega)]
    have copied := (copyData_spec fd (bufOf addr byte) grew.ok within).1
    rw [answer] at calls
    refine ⟨_, qs, calls, by rw [granted, Nat.min_eq_left free], ?_⟩
    constructor
    · exact grew.copied copied (copyData_word fd _ grew.ok within).1
    · rw [sized qs granted, size', baseSize]
      congr 1
      omega
    · rw [contents, old, splice_fill]
    · rw [fds, baseFds, List.length_map, List.length_range]
    · rw [copied.bitmaps, pads.bitmaps]
      exact isGrown.clear
  | @gap grown base qs _ granted isGrown _ short beyond pads inode baseFds =>
    have fits := room qs granted
    omega

end GlucOS
