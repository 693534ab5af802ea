import GlucOS.Gfs.FileLaws
import GlucOS.Volume.Remove

/-! Which blocks are free again after a file was removed. -/

namespace GlucOS

/-! ## Giving blocks back -/

/-- Some blocks were given back, and nothing else has changed. -/
structure Cleared (fs next : Gfs) (qs : List Nat) : Prop where
  /-- Exactly their bits are cleared. -/
  bits : ∀ b, blockBitmap.isSet next.bitmaps.cache b =
    (blockBitmap.isSet fs.bitmaps.cache b && !decide (b + gfsDatalocBlock ∈ qs))
  /-- No other bitmap changes. -/
  others : ∀ sidx, ¬ blockBitmap.has sidx → next.bitmaps.cache sidx = fs.bitmaps.cache sidx ∧
    next.bitmaps.disk sidx = fs.bitmaps.disk sidx
  /-- Inodes and blocks stay. -/
  vol : next.vol = fs.vol
  /-- So do the inodes on the disk. -/
  inodesOnDisk : next.inodesOnDisk = fs.inodesOnDisk
  /-- So do open files. -/
  fds : next.fds = fs.fds

section Clearing

variable {fs mid next : Gfs} {ps qs : List Nat}

/-- Nothing is given back. -/
theorem Cleared.refl (fs : Gfs) : Cleared fs fs [] where
  bits := by simp
  others := fun _ _ => ⟨rfl, rfl⟩
  vol := rfl
  inodesOnDisk := rfl
  fds := rfl

/-- Blocks are given back one after the other. -/
theorem Cleared.trans (first : Cleared fs mid ps) (second : Cleared mid next qs) :
    Cleared fs next (ps ++ qs) where
  bits := by
    -- A bit is cleared when it is in one of the lists.
    intro b
    rw [second.bits, first.bits, Bool.and_assoc]
    simp [Bool.decide_or]
  others := by
    intro sidx outside
    rw [(second.others sidx outside).1, (second.others sidx outside).2]
    exact first.others sidx outside
  vol := second.vol.trans first.vol
  inodesOnDisk := second.inodesOnDisk.trans first.inodesOnDisk
  fds := second.fds.trans first.fds

/-- In which order blocks are given back does not matter. -/
theorem Cleared.perm (cleared : Cleared fs next ps) (perm : ps.Perm qs) :
    Cleared fs next qs := by
  -- The same blocks are in both lists.
  obtain ⟨bits, others, vol, inodesOnDisk, fds⟩ := cleared
  refine ⟨?_, others, vol, inodesOnDisk, fds⟩
  intro b
  rw [bits, decide_eq_decide.mpr perm.mem_iff]

/-- A block of the volume. -/
def IsBlock (ptr : Nat) : Prop := ∃ b < blockBitmap.bits, ptr = b + gfsDatalocBlock

/-- It is not the invalid pointer. -/
theorem IsBlock.valid {ptr : Nat} (isBlock : IsBlock ptr) : ptr ≠ inodeInvalidPtr := by
  -- The invalid pointer lies in front of all of them.
  obtain ⟨b, -, rfl⟩ := isBlock
  rw [inodeInvalidPtr]
  exact Nat.ne_of_gt (Nat.lt_of_lt_of_le (by decide) (Nat.le_add_left gfsDatalocBlock b))

variable {r : Removal}

/-- A block of the volume can be given back. -/
theorem freeBlock_clears (r : Removal) {ptr : Nat} (isBlock : IsBlock ptr) :
    ∃ next, r.freeBlock ptr = (0, { r with fs := next }) ∧ Cleared r.fs next [ptr] := by
  -- The index in the bitmap does not wrap around.
  obtain ⟨b, inside, rfl⟩ := isBlock
  have index : u32Sub (b + gfsDatalocBlock) gfsDatalocBlock = b := by
    rw [u32Sub_of_le (Nat.le_add_left _ _), Nat.add_sub_cancel]
  rcases gfsFreeInBitmap_frees blockBitmap b r.fs.bitmaps with ⟨beyond, -⟩ | ⟨-, code, frees⟩
  · omega
  · refine ⟨{ r.fs with bitmaps := (gfsFreeInBitmap b blockBitmap r.fs.bitmaps).1 }, ?_, ?_⟩
    · unfold Removal.freeBlock
      rw [index, ← code]
    · refine ⟨?_, frees.outside, rfl, rfl, rfl⟩
      intro other
      refine (frees.clears other).trans ?_
      simp

/-- The blocks of an array are given back one by one. -/
theorem freePtrs_clears (parr : List Nat) (r : Removal) {ds : List Nat}
    (are : (parr.filter fun ptr => ptr ≠ inodeInvalidPtr) = ds) (blocks : ∀ p ∈ ds, IsBlock p) :
    ∃ next, freePtrs parr r = (0, { r with fs := next }) ∧ Cleared r.fs next ds := by
  -- Pointers to no block are passed over.
  induction parr generalizing r ds with
  | nil =>
    subst are
    exact ⟨r.fs, rfl, .refl r.fs⟩
  | cons ptr parr ih =>
    rw [freePtrs]
    by_cases invalid : ptr = inodeInvalidPtr
    · rw [if_pos invalid]
      rw [List.filter_cons_of_neg (by simpa using invalid)] at are
      exact ih r are blocks
    · rw [List.filter_cons_of_pos (by simpa using invalid)] at are
      subst are
      obtain ⟨mid, first, cleared⟩ := freeBlock_clears r (blocks ptr List.mem_cons_self)
      obtain ⟨next, rest, cleared'⟩ := ih { r with fs := mid } rfl fun p mem =>
        blocks p (List.mem_cons_of_mem _ mem)
      rw [if_neg invalid, first]
      exact ⟨next, rest, cleared.trans cleared'⟩

/-- Pointers to blocks are those of a padded array. -/
theorem filter_blocks {ds : List Nat} (n : Nat) (blocks : ∀ p ∈ ds, IsBlock p) :
    ((padded ds n).filter fun ptr => ptr ≠ inodeInvalidPtr) = ds := by
  -- What fills the array up leads nowhere.
  rw [padded, List.filter_append, List.filter_eq_self.mpr, List.filter_eq_nil_iff.mpr,
    List.append_nil]
  · intro ptr mem
    rw [List.eq_of_mem_replicate mem]
    simp
  · intro p mem
    exact decide_eq_true (blocks p mem).valid

/-- So an index block leads to its blocks only. -/
theorem filter_index {blocks : Nat → Block} {q : Nat} {ps : List Nat}
    (holds : (blocks q).ptrs = padded (ps.take ptrPerBlock) ptrPerBlock)
    (are : ∀ p ∈ ps, IsBlock p) :
    ((blocks q).ptrs.filter fun ptr => ptr ≠ inodeInvalidPtr) = ps.take ptrPerBlock := by
  rw [holds]
  exact filter_blocks _ fun p mem => are p (List.mem_of_mem_take mem)

end Clearing

/-! ## The blocks of a file -/

section Files

variable {r : Removal} {inode : GfsInode} {ps : List Nat}

/-- There is room on the heap. -/
theorem Removal.kmalloc_room (room : r.heap = []) : r.kmalloc = (true, r) := by
  unfold Removal.kmalloc
  rw [room]

/-- A group below the double indirect block is given back. -/
theorem freeGroup_clears (idbbuf : Bool) (r : Removal) {q : Nat} {ps : List Nat}
    (isBlock : IsBlock q)
    (holds : (r.fs.vol.blocks q).ptrs = padded (ps.take ptrPerBlock) ptrPerBlock)
    (later : ∀ p ∈ ps, IsBlock p) (room : r.heap = []) :
    ∃ next, freeGroup q idbbuf r = (0, { r with fs := next }) ∧
      Cleared r.fs next (ps.take ptrPerBlock ++ [q]) := by
  -- The blocks that the index block leads to come first.
  have buffer : (if idbbuf then (true, r) else r.kmalloc) = (true, r) := by
    cases idbbuf with
    | true => rfl
    | false => exact Removal.kmalloc_room room
  obtain ⟨next1, frees1, cleared1⟩ := freePtrs_clears (r.fs.vol.blocks q).ptrs r
    (filter_index holds later) fun p mem => later p (List.mem_of_mem_take mem)
  obtain ⟨next2, frees2, cleared2⟩ := freeBlock_clears { r with fs := next1 } isBlock
  unfold freeGroup
  rw [buffer]
  simp only [frees1, frees2]
  exact ⟨next2, rfl, cleared1.trans cleared2⟩

/-- The groups below the double indirect block are given back. -/
theorem freeGroups_clears (dib : List Nat) (idbbuf : Bool) (r : Removal) {ps : List Nat}
    (groups : Groups r.fs.vol.blocks dib ps) (blocks : ∀ p ∈ ps, IsBlock p)
    (room : r.heap = []) :
    ∃ next, freeGroups dib idbbuf r = (0, { r with fs := next }) ∧ Cleared r.fs next ps := by
  -- Each group is one index block with the blocks that it leads to.
  induction dib generalizing idbbuf r ps with
  | nil =>
    have none_ : ps = [] := groups
    subst none_
    rw [freeGroups]
    exact ⟨r.fs, rfl, .refl r.fs⟩
  | cons ptr dib ih =>
    rw [freeGroups]
    cases ps with
    | nil =>
      obtain ⟨invalid, rest⟩ := groups
      rw [if_pos invalid]
      exact ih idbbuf r rest blocks room
    | cons q ps =>
      obtain ⟨rfl, holds, rest⟩ := groups
      have isBlock := blocks ptr List.mem_cons_self
      have later : ∀ p ∈ ps, IsBlock p := fun p mem => blocks p (List.mem_cons_of_mem _ mem)
      obtain ⟨next2, frees2, cleared2⟩ := freeGroup_clears idbbuf r isBlock holds later room
      have kept : Groups next2.vol.blocks dib (ps.drop ptrPerBlock) := by
        rw [cleared2.vol]
        exact rest
      obtain ⟨next3, frees3, cleared3⟩ := ih true { r with fs := next2 } kept
        (fun p mem => later p (List.mem_of_mem_drop mem)) room
      rw [if_neg isBlock.valid]
      simp only [frees2, frees3]
      refine ⟨next3, rfl, (cleared2.trans cleared3).perm ?_⟩
      -- The index block comes behind its blocks here, and before them in the file.
      have parts := (@List.perm_append_comm _ (ps.take ptrPerBlock) [ptr]).append_right
        (ps.drop ptrPerBlock)
      rw [List.append_assoc [ptr], List.take_append_drop] at parts
      exact parts

/-- What the indirect pointer leads to is given back. -/
theorem freeIndirect_clears (r : Removal) {rs : List Nat}
    (indirect : Indirect r.fs.vol.blocks inode.idptr rs) (blocks : ∀ p ∈ rs, IsBlock p)
    (room : r.heap = []) :
    ∃ next, freeIndirect inode r = (0, { r with fs := next }) ∧
      Cleared r.fs next (rs.take (ptrPerBlock + 1)) := by
  -- Without an indirect block there is nothing to do.
  unfold freeIndirect
  cases rs with
  | nil =>
    have gone : inode.idptr = inodeInvalidPtr := indirect
    rw [if_pos gone]
    exact ⟨r.fs, rfl, .refl r.fs⟩
  | cons q rs =>
    obtain ⟨isIndex, holds⟩ := indirect
    have isBlock := blocks q List.mem_cons_self
    have later : ∀ p ∈ rs, IsBlock p := fun p mem => blocks p (List.mem_cons_of_mem _ mem)
    have valid : inode.idptr ≠ inodeInvalidPtr := by
      rw [isIndex]
      exact isBlock.valid
    obtain ⟨next1, frees1, cleared1⟩ := freePtrs_clears (r.fs.vol.blocks q).ptrs r
      (filter_index holds later) fun p mem => later p (List.mem_of_mem_take mem)
    obtain ⟨next2, frees2, cleared2⟩ := freeBlock_clears { r with fs := next1 } isBlock
    rw [if_neg valid, Removal.kmalloc_room room, isIndex]
    dsimp only
    simp only [frees1, frees2]
    refine ⟨next2, rfl, (cleared1.trans cleared2).perm ?_⟩
    exact List.perm_append_comm

/-- What the double indirect pointer leads to is given back. -/
theorem freeDouble_clears (r : Removal) {rs : List Nat}
    (double : Double r.fs.vol.blocks inode.diptr rs) (blocks : ∀ p ∈ rs, IsBlock p)
    (room : r.heap = []) :
    ∃ next, freeDouble inode r = (0, { r with fs := next }) ∧ Cleared r.fs next rs := by
  -- The double indirect block comes last.
  unfold freeDouble
  cases rs with
  | nil =>
    have gone : inode.diptr = inodeInvalidPtr := double
    rw [if_pos gone]
    exact ⟨r.fs, rfl, .refl r.fs⟩
  | cons q rs =>
    obtain ⟨isIndex, dib, holds, groups⟩ := double
    have isBlock := blocks q List.mem_cons_self
    have later : ∀ p ∈ rs, IsBlock p := fun p mem => blocks p (List.mem_cons_of_mem _ mem)
    have valid : inode.diptr ≠ inodeInvalidPtr := by
      rw [isIndex]
      exact isBlock.valid
    obtain ⟨next1, frees1, cleared1⟩ := freeGroups_clears dib
      (inode.idptr ≠ inodeInvalidPtr) r groups later room
    obtain ⟨next2, frees2, cleared2⟩ := freeBlock_clears { r with fs := next1 } isBlock
    rw [if_neg valid, Removal.kmalloc_room room, isIndex]
    dsimp only
    simp only [holds, frees1, frees2]
    refine ⟨next2, rfl, (cleared1.trans cleared2).perm ?_⟩
    exact List.perm_append_comm

/-- The pointers of a file are those in the inode, and those that each of the others leads to. -/
theorem ptrs_parts (ps : List Nat) : ps.take inodeNdptr ++
    ((ps.drop directPtrs).take (ptrPerBlock + 1) ++ ps.drop indirectPtrs) = ps := by
  have behind : ps.drop indirectPtrs = (ps.drop directPtrs).drop (ptrPerBlock + 1) := by
    rw [List.drop_drop]
    congr 1
  rw [behind, List.take_append_drop]
  exact List.take_append_drop _ _

/-- A file that has one link gives all its blocks back, and its inode. -/
theorem removeFile_clears {ino : Nat} (tree : FileTree inode r.fs.vol.blocks ps)
    (blocks : ∀ p ∈ ps, IsBlock p) (room : r.heap = []) (last : inode.nlink < 2) :
    ∃ next, removeFile ino inode r = (0, { r with fs := next.freeInode ino }) ∧
      Cleared r.fs next ps := by
  -- The direct pointers come first, then the others with what they lead to.
  obtain ⟨next1, frees1, cleared1⟩ := freePtrs_clears inode.dptr.toList r
    (by
      rw [tree.direct]
      exact filter_blocks _ fun p mem => blocks p (List.mem_of_mem_take mem))
    fun p mem => blocks p (List.mem_of_mem_take mem)
  have indirect : Indirect next1.vol.blocks inode.idptr (ps.drop directPtrs) := by
    rw [cleared1.vol]
    exact tree.indirect
  obtain ⟨next2, frees2, cleared2⟩ := freeIndirect_clears { r with fs := next1 } indirect
    (fun p mem => blocks p (List.mem_of_mem_drop mem)) room
  have double : Double next2.vol.blocks inode.diptr (ps.drop indirectPtrs) := by
    rw [cleared2.vol, cleared1.vol]
    exact tree.double
  obtain ⟨next3, frees3, cleared3⟩ := freeDouble_clears { r with fs := next2 } double
    (fun p mem => blocks p (List.mem_of_mem_drop mem)) room
  unfold removeFile
  rw [if_neg (Nat.not_le.mpr last)]
  simp only [frees1, frees2, frees3]
  refine ⟨next3, rfl, ?_⟩
  have cleared := cleared1.trans (cleared2.trans cleared3)
  rwa [ptrs_parts] at cleared

end Files

end GlucOS
