import GlucOS.Gfs.BitmapLaws
import GlucOS.Gfs.TreeLaws
import GlucOS.Gfs.WriteLaws

/-! Files as their users see them: their bytes, and what growing and copying do to these. -/

namespace GlucOS

/-! ## Well-formed files -/

/-- A file whose pointers, data and index blocks together, are these. -/
structure FileOk (fs : Gfs) (ino : Nat) (ps : List Nat) : Prop where
  /-- There is such an inode. -/
  exists_ : ino < fs.vol.inodeNum
  /-- The size is a 32-bit number. -/
  word : (fs.vol.inodes ino).size ≤ uint32Max
  /-- The pointers are filled in one after the other. -/
  tree : FileTree (fs.vol.inodes ino) fs.vol.blocks ps
  /-- No block is used twice. -/
  nodup : ps.Nodup
  /-- Blocks of the file are allocated. -/
  held : ∀ p ∈ ps, ∃ b < blockBitmap.bits,
    blockBitmap.isSet fs.bitmaps.cache b = true ∧ p = b + gfsDatalocBlock

namespace FileOk

variable {fs next : Gfs} {ino : Nat} {ps : List Nat}

/-- Pointers of a file are valid. -/
theorem valid (ok : FileOk fs ino ps) : ∀ p ∈ ps, p ≠ inodeInvalidPtr := by
  intro p mem
  obtain ⟨b, -, -, rfl⟩ := ok.held p mem
  simp only [gfsDatalocBlock, secPerBlock, blockSize, sectorSize, inodeInvalidPtr]
  omega

end FileOk

/-- So many blocks the bitmap is for. -/
theorem blockBitmap_bits : blockBitmap.bits = 262144 := by decide

/-- Blocks that bits of the bitmap stand for are few, and none has number 0. -/
theorem blocks_of_bits {ps : List Nat} (nodup : ps.Nodup)
    (bits : ∀ p ∈ ps, ∃ b < blockBitmap.bits, p = b + gfsDatalocBlock) :
    ps.length ≤ maxPtrs ∧ (∀ p ∈ ps, p ≠ inodeInvalidPtr) ∧ ∀ p ∈ ps, p < 2 ^ 32 := by
  have first : gfsDatalocBlock = 457 := by decide
  rw [blockBitmap_bits, first] at bits
  refine ⟨?_, ?_, ?_⟩
  · have within : ps ⊆ List.range (262144 + 457) := by
      intro p mem
      obtain ⟨b, small, rfl⟩ := bits p mem
      exact List.mem_range.mpr (Nat.add_lt_add_right small _)
    have few := (nodup.subperm within).length_le
    rw [List.length_range] at few
    have many : maxPtrs = 1050636 := by decide
    omega
  · intro p mem
    obtain ⟨b, -, rfl⟩ := bits p mem
    exact Nat.succ_ne_zero _
  · intro p mem
    obtain ⟨b, small, rfl⟩ := bits p mem
    omega

/-! ## The bytes of a file -/

/-- The pointer to the block of a file that has the byte at a position. -/
def Gfs.ptrAt (fs : Gfs) (ino pos : Nat) : Nat :=
  (filePtrs (fs.vol.inodes ino) fs.vol.blocks).getD (pos / blockSize) inodeInvalidPtr

/-- The byte of a file at a position, where there is a block for it. -/
def Gfs.byteAt (fs : Gfs) (ino pos : Nat) : Option UInt8 :=
  if fs.ptrAt ino pos = inodeInvalidPtr then none
  else some (fs.vol.blocks (fs.ptrAt ino pos) ⟨pos % blockSize, Nat.mod_lt _ (by decide)⟩)

/-- The byte of a file at a position lies in a block that is allocated. -/
def Gfs.HasBlock (fs : Gfs) (ino pos : Nat) : Prop :=
  ∃ b, blockBitmap.isSet fs.bitmaps.cache b = true ∧ fs.ptrAt ino pos = b + gfsDatalocBlock

/-- Bytes for which a file with so many pointers has blocks. -/
def roomOf (n : Nat) : Nat := dataCount n * blockSize

/-- A byte for which there is a block. -/
theorem FileOk.byteAt_some {fs : Gfs} {ino : Nat} {ps : List Nat} (ok : FileOk fs ino ps)
    {pos : Nat} (inside : pos / blockSize < (dataPtrs ps).length) :
    fs.byteAt ino pos = some (fs.vol.blocks (dataPtrs ps)[pos / blockSize]
      ⟨pos % blockSize, Nat.mod_lt _ (by decide)⟩) := by
  have found : fs.ptrAt ino pos = (dataPtrs ps)[pos / blockSize] := by
    rw [Gfs.ptrAt, (ok.tree.starts ok.valid).getD_eq, List.getD_eq_getElem _ _ inside]
  have valid := ok.valid _ ((dataPtrs_sublist ps).subset (List.getElem_mem inside))
  unfold Gfs.byteAt
  simp only [found]
  simp only [if_neg valid]

/-- A byte for which there is none. -/
theorem FileOk.byteAt_none {fs : Gfs} {ino : Nat} {ps : List Nat} (ok : FileOk fs ino ps)
    {pos : Nat} (beyond : (dataPtrs ps).length ≤ pos / blockSize) :
    fs.byteAt ino pos = none := by
  have found : fs.ptrAt ino pos = inodeInvalidPtr := by
    rw [Gfs.ptrAt, (ok.tree.starts ok.valid).getD_eq, List.getD_eq_default _ _ beyond]
  unfold Gfs.byteAt
  simp only [found]
  exact if_pos trivial

/-- The blocks of a file are for the bytes from its start on. -/
theorem lt_roomOf {ps : List Nat} {pos : Nat} :
    pos < roomOf ps.length ↔ pos / blockSize < (dataPtrs ps).length := by
  rw [roomOf, dataPtrs_length, Nat.div_lt_iff_lt_mul (by decide)]

/-- Which bytes have a block. -/
theorem FileOk.hasBlock_iff {fs : Gfs} {ino : Nat} {ps : List Nat} (ok : FileOk fs ino ps)
    (pos : Nat) : fs.HasBlock ino pos ↔ pos < roomOf ps.length := by
  rw [lt_roomOf, Gfs.HasBlock, Gfs.ptrAt, (ok.tree.starts ok.valid).getD_eq]
  constructor
  · intro has
    obtain ⟨b, -, isB⟩ := has
    by_contra beyond
    rw [List.getD_eq_default _ _ (Nat.le_of_not_lt beyond)] at isB
    cases isB
  · intro inside
    obtain ⟨b, -, isSet, isB⟩ :=
      ok.held _ ((dataPtrs_sublist ps).subset (List.getElem_mem inside))
    rw [List.getD_eq_getElem _ _ inside]
    exact ⟨b, isSet, isB⟩

/-- A byte that is there has a block. -/
theorem FileOk.lt_of_byteAt {fs : Gfs} {ino : Nat} {ps : List Nat} (ok : FileOk fs ino ps)
    {pos : Nat} {v : UInt8} (byte : fs.byteAt ino pos = some v) : pos < roomOf ps.length := by
  rw [lt_roomOf]
  by_contra beyond
  rw [ok.byteAt_none (Nat.le_of_not_lt beyond)] at byte
  cases byte

/-! ## Growing -/

/-- Filling in no pointers changes nothing. -/
theorem fillInode_nil (inode : GfsInode) (blocks : Nat → Block) :
    fillInode inode blocks [] = (inode, blocks) := by
  have none_ : ∀ parr, fillPtrs parr [] = (parr, []) := by
    intro parr
    cases parr <;> rfl
  have direct : fillDirect inode [] = (inode, []) := by
    unfold fillDirect
    simp only [none_]
    rfl
  rw [fillInode, direct]
  rfl

/-- The file has grown by these pointers. -/
structure Grown (fs next : Gfs) (ino : Nat) (ps qs : List Nat) : Prop where
  /-- The file has the new pointers too. -/
  ok : FileOk next ino (ps ++ qs)
  /-- Its size stays. -/
  size : (next.vol.inodes ino).size = (fs.vol.inodes ino).size
  /-- So do the other inodes. -/
  others : ∀ other, other ≠ ino → next.vol.inodes other = fs.vol.inodes other
  /-- There are as many inodes. -/
  inodeNum : next.vol.inodeNum = fs.vol.inodeNum
  /-- Blocks of other files stay. -/
  outside : ∀ p, p ∉ ps ++ qs → next.vol.blocks p = fs.vol.blocks p
  /-- The data that there were stay. -/
  data : ∀ p ∈ dataPtrs ps, next.vol.blocks p = fs.vol.blocks p
  /-- So do open files. -/
  fds : next.fds = fs.fds
  /-- Only the blocks of the new pointers are taken. -/
  bits : ∀ b, blockBitmap.isSet next.bitmaps.cache b =
    (blockBitmap.isSet fs.bitmaps.cache b || decide (b + gfsDatalocBlock ∈ qs))
  /-- They were free before. -/
  free : ∀ q ∈ qs, ∃ b, q = b + gfsDatalocBlock ∧ blockBitmap.isSet fs.bitmaps.cache b = false
  /-- Without new pointers nothing happens to the inode. -/
  nothing : qs = [] → next.vol.inodes ino = fs.vol.inodes ino

/-- The pointers to the blocks that the stage of `do_write` is granted. -/
def Gfs.granted (fs : Gfs) (n : Nat) : List Nat :=
  (gfsAllocInBitmap n blockBitmap fs.bitmaps).2.map fun ptr => ptr + gfsDatalocBlock

/-- The stage of `do_write` that allocates gives the file the blocks that it is granted. -/
theorem extend_grows {fs : Gfs} {ino : Nat} {ps : List Nat} (ok : FileOk fs ino ps) (n : Nat) :
    Grown fs (fs.extend ino n) ino ps (fs.granted n) := by
  unfold Gfs.granted
  have takes := gfsAllocInBitmap_takes blockBitmap n fs.bitmaps
  unfold Gfs.extend
  generalize gfsAllocInBitmap n blockBitmap fs.bitmaps = taken at takes ⊢
  obtain ⟨bitmaps, aptr⟩ := taken
  dsimp only at takes ⊢
  generalize isQs : aptr.map (fun ptr => ptr + gfsDatalocBlock) = qs
  have clear : ∀ b ∈ aptr, b < blockBitmap.bits ∧
      blockBitmap.isSet fs.bitmaps.cache b = false := by
    intro b mem
    rw [takes.least] at mem
    simpa [SecRange.clear] using List.mem_of_mem_take mem
  have bitOf : ∀ q ∈ qs, ∃ b ∈ aptr, q = b + gfsDatalocBlock := by
    intro q mem
    rw [← isQs] at mem
    obtain ⟨b, inside, rfl⟩ := List.mem_map.mp mem
    exact ⟨b, inside, rfl⟩
  have bitsOf : ∀ p ∈ ps ++ qs, ∃ b < blockBitmap.bits, p = b + gfsDatalocBlock := by
    intro p mem
    rcases List.mem_append.mp mem with old | new
    · obtain ⟨b, small, -, isB⟩ := ok.held p old
      exact ⟨b, small, isB⟩
    · obtain ⟨b, inside, isB⟩ := bitOf p new
      exact ⟨b, (clear b inside).1, isB⟩
  have nodup : (ps ++ qs).Nodup := by
    rw [List.nodup_append]
    refine ⟨ok.nodup, ?_, ?_⟩
    · rw [← isQs, takes.least]
      apply List.Nodup.map fun _ _ same => Nat.add_right_cancel same
      exact (List.nodup_range.filter _).sublist (List.take_sublist _ _)
    · -- Blocks of the file have their bits set, new ones had not.
      rintro p old q new rfl
      obtain ⟨b, -, isSet, isB⟩ := ok.held p old
      obtain ⟨b', inside, isB'⟩ := bitOf p new
      obtain rfl : b = b' := by omega
      rw [(clear b inside).2] at isSet
      cases isSet
  obtain ⟨few, valid, small⟩ := blocks_of_bits nodup bitsOf
  obtain ⟨dptr, idptr, diptr, blocks, filled, tree, others⟩ :=
    fillInode_spec nodup valid small ok.tree few
  have marked : ∀ b, blockBitmap.isSet bitmaps.cache b =
      (blockBitmap.isSet fs.bitmaps.cache b || decide (b + gfsDatalocBlock ∈ qs)) := by
    intro b
    rw [takes.sets, ← isQs]
    congr 2
    simp only [List.mem_map, Nat.add_right_cancel_iff, exists_eq_right]
  simp only [filled, Gfs.putInode, Gfs.putBlocks]
  constructor
  · constructor
    · exact ok.exists_
    · dsimp only
      rw [Function.update_self]
      exact ok.word
    · dsimp only
      rw [Function.update_self]
      exact tree
    · exact nodup
    · intro p mem
      rcases List.mem_append.mp mem with old | new
      · obtain ⟨b, low, isSet, isB⟩ := ok.held p old
        exact ⟨b, low, by rw [marked, isSet, Bool.true_or], isB⟩
      · obtain ⟨b, inside, isB⟩ := bitOf p new
        refine ⟨b, (clear b inside).1, ?_, isB⟩
        rw [marked, decide_eq_true (isB ▸ new), Bool.or_true]
  · dsimp only
    rw [Function.update_self]
  · intro other apart
    exact Function.update_of_ne apart _ _
  · rfl
  · intro p unused
    apply others
    intro index
    exact unused ((dataPtrs_perm _).mem_iff.mp (List.mem_append_right _ index))
  · intro p mem
    apply others
    apply dataPtrs_apart nodup
    exact (dataPtrs_initial ps qs).subset mem
  · rfl
  · exact marked
  · intro q mem
    obtain ⟨b, inside, isB⟩ := bitOf q mem
    exact ⟨b, isB, (clear b inside).2⟩
  · rintro rfl
    dsimp only
    rw [Function.update_self]
    rw [fillInode_nil] at filled
    exact (congrArg Prod.fst filled).symm

/-- It is as many blocks as are asked for, or as there are. -/
theorem extend_grown {fs : Gfs} {ino : Nat} {ps : List Nat} (ok : FileOk fs ino ps) (n : Nat) :
    ∃ qs, qs.length = min n (blockBitmap.clear fs.bitmaps).length ∧
      Grown fs (fs.extend ino n) ino ps qs := by
  refine ⟨fs.granted n, ?_, extend_grows ok n⟩
  rw [Gfs.granted, List.length_map, (gfsAllocInBitmap_takes blockBitmap n fs.bitmaps).least,
    List.length_take]

/-- A file that has not grown. -/
theorem Grown.refl {fs : Gfs} {ino : Nat} {ps : List Nat} (ok : FileOk fs ino ps) :
    Grown fs fs ino ps [] where
  ok := by rwa [List.append_nil]
  size := rfl
  others := fun _ _ => rfl
  inodeNum := rfl
  outside := fun _ _ => rfl
  data := fun _ _ => rfl
  fds := rfl
  bits := by simp
  free := by simp
  nothing := fun _ => rfl

/-- Bytes that there were stay when a file grows. -/
theorem Grown.byteAt {fs next : Gfs} {ino : Nat} {ps qs : List Nat} (grown : Grown fs next ino ps qs)
    (ok : FileOk fs ino ps) {pos : Nat} (inside : pos < roomOf ps.length) :
    next.byteAt ino pos = fs.byteAt ino pos := by
  have low := lt_roomOf.mp inside
  have more := dataPtrs_initial ps qs
  have longer : pos / blockSize < (dataPtrs (ps ++ qs)).length :=
    Nat.lt_of_lt_of_le low more.length_le
  have same : (dataPtrs (ps ++ qs))[pos / blockSize] = (dataPtrs ps)[pos / blockSize] :=
    (more.getElem low).symm
  rw [ok.byteAt_some low, grown.ok.byteAt_some longer]
  simp only [same, grown.data _ (List.getElem_mem low)]

/-! ## Copying -/

/-- The pointers of a file are found where they were when its index blocks stay. -/
theorem FileTree.congr {inode next : GfsInode} {blocks blocks' : Nat → Block} {ps : List Nat}
    (tree : FileTree inode blocks ps) (dptr : next.dptr = inode.dptr)
    (idptr : next.idptr = inode.idptr) (diptr : next.diptr = inode.diptr)
    (same : ∀ p ∈ indexPtrs ps, blocks' p = blocks p) : FileTree next blocks' ps where
  direct := by rw [dptr, tree.direct]
  indirect := by
    rw [idptr]
    apply tree.indirect.congr
    intro p mem
    exact same p (List.mem_append_left _ (List.mem_append_left _ mem))
  double := by
    rw [diptr]
    apply tree.double.congr
    intro p mem
    apply same
    rw [indexPtrs, List.append_assoc]
    apply List.mem_append_right
    rwa [List.drop_drop] at mem

/-- Data were copied to the blocks of a file, and its size may have changed. -/
structure Copied (fs next : Gfs) (ino : Nat) (ps : List Nat) (lo hi : Nat) (buf : Nat → UInt8) :
    Prop where
  /-- What was written. -/
  wrote : Wrote 0 (dataPtrs ps) lo hi buf fs.vol.blocks next.vol.blocks
  /-- Direct pointers stay. -/
  dptr : (next.vol.inodes ino).dptr = (fs.vol.inodes ino).dptr
  /-- The indirect pointer stays. -/
  idptr : (next.vol.inodes ino).idptr = (fs.vol.inodes ino).idptr
  /-- The double indirect pointer stays. -/
  diptr : (next.vol.inodes ino).diptr = (fs.vol.inodes ino).diptr
  /-- So do the bitmaps. -/
  bitmaps : next.bitmaps = fs.bitmaps
  /-- There are as many inodes. -/
  inodeNum : next.vol.inodeNum = fs.vol.inodeNum
  /-- The other inodes stay. -/
  others : ∀ other, other ≠ ino → next.vol.inodes other = fs.vol.inodes other

namespace Copied

variable {fs next : Gfs} {ino : Nat} {ps : List Nat} {lo hi : Nat} {buf : Nat → UInt8}

/-- The file stays well-formed. -/
theorem ok (copied : Copied fs next ino ps lo hi buf) (ok : FileOk fs ino ps)
    (word : (next.vol.inodes ino).size ≤ uint32Max) : FileOk next ino ps where
  exists_ := by
    rw [copied.inodeNum]
    exact ok.exists_
  word := word
  tree := by
    apply ok.tree.congr copied.dptr copied.idptr copied.diptr
    intro p index
    apply copied.wrote.others
    intro data
    exact dataPtrs_apart ok.nodup data index
  nodup := ok.nodup
  held := by
    rw [copied.bitmaps]
    exact ok.held

/-- The bytes of the range are the new ones, as far as there are blocks; the others stay. -/
theorem byteAt (copied : Copied fs next ino ps lo hi buf) (ok : FileOk fs ino ps)
    (word : (next.vol.inodes ino).size ≤ uint32Max) (x : Nat) :
    next.byteAt ino x =
      if lo ≤ x ∧ x < hi then (fs.byteAt ino x).map fun _ => buf x else fs.byteAt ino x := by
  have nextOk := copied.ok ok word
  rcases Nat.lt_or_ge (x / blockSize) (dataPtrs ps).length with inside | beyond
  · rw [nextOk.byteAt_some inside, ok.byteAt_some inside, copied.wrote.bytes _ inside]
    have whole : (0 + x / blockSize) * blockSize + x % blockSize = x := by
      rw [Nat.zero_add, Nat.div_add_mod']
    simp only [whole]
    split <;> rfl
  · rw [nextOk.byteAt_none beyond, ok.byteAt_none beyond]
    split <;> rfl

end Copied

section WriteInode

variable (fs : Gfs) (ino : Nat) (inode : GfsInode)

@[simp] theorem Gfs.writeInode_bitmaps : (fs.writeInode ino inode).bitmaps = fs.bitmaps := by
  unfold Gfs.writeInode
  split <;> rfl

@[simp] theorem Gfs.writeInode_fds : (fs.writeInode ino inode).fds = fs.fds := by
  unfold Gfs.writeInode
  split <;> rfl

@[simp] theorem Gfs.writeInode_blocks :
    (fs.writeInode ino inode).vol.blocks = fs.vol.blocks := by
  unfold Gfs.writeInode
  split <;> rfl

@[simp] theorem Gfs.writeInode_inodeNum :
    (fs.writeInode ino inode).vol.inodeNum = fs.vol.inodeNum := by
  unfold Gfs.writeInode
  split <;> rfl

/-- An inode that there is becomes the one written. -/
theorem Gfs.writeInode_inodes (inside : ino < fs.vol.inodeNum) :
    (fs.writeInode ino inode).vol.inodes = Function.update fs.vol.inodes ino inode := by
  unfold Gfs.writeInode
  rw [if_neg (Nat.not_le.mpr inside)]

end WriteInode

/-- What the end of `do_write` does. -/
theorem copyData_spec {fs : Gfs} {desc : FileDesc} {ps : List Nat} {len : Nat} (fd : Int)
    (buf : Nat → UInt8) (ok : FileOk fs desc.ino ps) (word : desc.pos + len ≤ uint32Max) :
    let result := copyEnd ps.length (roomOf ps.length) desc.pos len
    Copied fs (fs.copyData fd desc len buf).2 desc.ino ps desc.pos (desc.pos + len)
        (fun x => buf (x - desc.pos)) ∧
      (∀ code, result = .error code →
        (fs.copyData fd desc len buf).1 = code ∧ (fs.copyData fd desc len buf).2.fds = fs.fds ∧
        (fs.copyData fd desc len buf).2.vol.inodes = fs.vol.inodes) ∧
      ∀ w, result = .ok w →
        (fs.copyData fd desc len buf).1 = w ∧
        (fs.copyData fd desc len buf).2.fds =
          Function.update fs.fds fd.toNat (some { desc with pos := desc.pos + len }) ∧
        (fs.copyData fd desc len buf).2.vol.inodes desc.ino =
          { fs.vol.inodes desc.ino with
            size := max (fs.vol.inodes desc.ino).size (desc.pos + len) } := by
  intro result
  obtain ⟨isEnd, wrote⟩ := writeData_spec buf ok.tree ok.nodup ok.valid word
  rw [dataPtrs_length] at isEnd
  change (writeData (fs.vol.inodes desc.ino) desc.pos len buf fs.vol.blocks).2 = result at isEnd
  unfold Gfs.copyData
  dsimp only
  generalize writeData (fs.vol.inodes desc.ino) desc.pos len buf fs.vol.blocks = written
    at isEnd wrote ⊢
  obtain ⟨blocks, written⟩ := written
  dsimp only at isEnd wrote
  subst isEnd
  cases result with
  | error code =>
    refine ⟨⟨wrote, rfl, rfl, rfl, rfl, rfl, fun _ _ => rfl⟩, ?_, ?_⟩
    · intro code' same
      cases same
      exact ⟨rfl, rfl, rfl⟩
    · intro w same
      cases same
  | ok w =>
    have larger : (if (fs.vol.inodes desc.ino).size < desc.pos + len then desc.pos + len
        else (fs.vol.inodes desc.ino).size) = max (fs.vol.inodes desc.ino).size (desc.pos + len) := by
      split <;> omega
    have isInode := Gfs.writeInode_inodes ((fs.putBlocks blocks).putPos fd desc (desc.pos + len))
      desc.ino { fs.vol.inodes desc.ino with
        size := max (fs.vol.inodes desc.ino).size (desc.pos + len) } ok.exists_
    have self := congrFun isInode desc.ino
    rw [Function.update_self] at self
    dsimp only
    rw [larger]
    refine ⟨⟨?_, ?_, ?_, ?_, ?_, ?_, ?_⟩, ?_, ?_⟩
    · rw [Gfs.writeInode_blocks]
      exact wrote
    · rw [self]
    · rw [self]
    · rw [self]
    · rw [Gfs.writeInode_bitmaps]
      rfl
    · rw [Gfs.writeInode_inodeNum]
      rfl
    · intro other apart
      rw [isInode, Function.update_of_ne apart]
      rfl
    · intro code same
      cases same
    · intro w' same
      cases same
      refine ⟨rfl, ?_, self⟩
      rw [Gfs.writeInode_fds]
      rfl

end GlucOS
