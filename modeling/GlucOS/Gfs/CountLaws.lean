import GlucOS.Gfs.FileLaws

/-! How many blocks a file needs, and how a growing file gets exactly these. -/

namespace GlucOS

/-! ## Counting -/

/-- The data blocks that hold so many bytes. -/
def dataBlocks (size : Nat) : Nat := (size + (blockSize - 1)) / blockSize

/-- The index blocks that lead to so many data blocks. -/
def indexBlocks (data : Nat) : Nat :=
  -- One for the indirect pointer, one for the double indirect one, and one for each of its groups.
  (if inodeNdptr < data then 1 else 0) + (if inodeNdptr + ptrPerBlock < data then 1 else 0) +
    (data - (inodeNdptr + ptrPerBlock) + (ptrPerBlock - 1)) / ptrPerBlock

/-- The sums that `GFS_nbytes2blocks` forms, in unbounded arithmetic. -/
def blockSums (size : Nat) : List Nat :=
  if size ≤ directBytes then [size + (blockSize - 1)]
  else
    let size := size - directBytes
    let nblk := inodeNdptr + 1
    if size ≤ groupBytes then [size + (blockSize - 1), nblk + (size + (blockSize - 1)) / blockSize]
    else
      let size := size - groupBytes
      let nblk := nblk + (1 + ptrPerBlock)
      [size + (blockSize - 1), nblk + (size + (blockSize - 1)) / blockSize,
        size + (groupBytes - 1),
        nblk + (size + (blockSize - 1)) / blockSize + (size + (groupBytes - 1)) / groupBytes]

/-- No sum is too large for 32 bits. -/
theorem blockSums_word {size : Nat} (word : size ≤ uint32Max) :
    ∀ sum ∈ blockSums size, sum ≤ uint32Max := by
  have bound : uint32Max = 4294967295 := rfl
  have direct : directBytes = 40960 := rfl
  have group : groupBytes = 4194304 := rfl
  have pointers : ptrPerBlock = 1024 := rfl
  have block : blockSize = 4096 := rfl
  intro sum mem
  unfold blockSums at mem
  simp only [direct, group, pointers, inodeNdptr, block] at mem
  split at mem
  · simp only [List.mem_cons, List.not_mem_nil, or_false] at mem
    omega
  · split at mem <;> simp only [List.mem_cons, List.not_mem_nil, or_false] at mem <;> omega

/-- `GFS_nbytes2blocks` counts the data blocks and the index blocks. -/
theorem gfsNbytes2blocks_eq {size : Nat} (word : size ≤ uint32Max) :
    gfsNbytes2blocks size = dataBlocks size + indexBlocks (dataBlocks size) := by
  have bound : uint32Max = 4294967295 := rfl
  have pointers : ptrPerBlock = 1024 := rfl
  have block : blockSize = 4096 := rfl
  unfold gfsNbytes2blocks udiv u32 dataBlocks indexBlocks
  simp only [pointers, inodeNdptr, block]
  -- The three regimes are those of the formula, since no sum is cut to 32 bits.
  split
  · rw [if_neg (by omega), if_neg (by omega)]
    omega
  · split
    · rw [if_pos (by omega), if_neg (by omega)]
      omega
    · rw [if_pos (by omega), if_pos (by omega)]
      omega

/-- Direct pointers need no index block. -/
theorem indexBlocks_direct {data : Nat} (few : data ≤ 10) : indexBlocks data = 0 := by
  have pointers : ptrPerBlock = 1024 := rfl
  have direct : inodeNdptr = 10 := rfl
  unfold indexBlocks
  rw [if_neg (by omega), if_neg (by omega), pointers, direct]
  omega

/-- The indirect pointer needs one. -/
theorem indexBlocks_indirect {data : Nat} (more : 10 < data) (few : data ≤ 1034) :
    indexBlocks data = 1 := by
  have pointers : ptrPerBlock = 1024 := rfl
  have direct : inodeNdptr = 10 := rfl
  unfold indexBlocks
  rw [if_pos (by omega), if_neg (by omega), pointers, direct]
  omega

/-- The double indirect pointer needs one, and one more for each group. -/
theorem indexBlocks_double {data : Nat} (many : 1034 < data) :
    indexBlocks data = 2 + (data - 1034 + 1023) / 1024 := by
  have pointers : ptrPerBlock = 1024 := rfl
  have direct : inodeNdptr = 10 := rfl
  unfold indexBlocks
  rw [if_pos (by omega), if_pos (by omega), pointers, direct]

/-- More data blocks never need fewer index blocks. -/
theorem indexBlocks_mono {data data' : Nat} (le : data ≤ data') :
    indexBlocks data ≤ indexBlocks data' := by
  have first : (if inodeNdptr < data then 1 else 0) ≤ if inodeNdptr < data' then 1 else 0 := by
    split
    · rw [if_pos (by omega)]
    · exact Nat.zero_le _
  have second : (if inodeNdptr + ptrPerBlock < data then 1 else 0) ≤
      if inodeNdptr + ptrPerBlock < data' then 1 else 0 := by
    split
    · rw [if_pos (by omega)]
    · exact Nat.zero_le _
  apply Nat.add_le_add (Nat.add_le_add first second)
  apply Nat.div_le_div_right
  omega

/-- A larger file never needs fewer blocks. -/
theorem gfsNbytes2blocks_mono {size size' : Nat} (le : size ≤ size') (word : size' ≤ uint32Max) :
    gfsNbytes2blocks size ≤ gfsNbytes2blocks size' := by
  rw [gfsNbytes2blocks_eq word, gfsNbytes2blocks_eq (Nat.le_trans le word)]
  have data : dataBlocks size ≤ dataBlocks size' := Nat.div_le_div_right (by omega)
  have index := indexBlocks_mono data
  omega

/-! ## The tree of a file of some size -/

/-- Further pointers leave the groups in their places. -/
theorem groupIndex_initial (ps qs : List Nat) : groupIndex ps <+: groupIndex (ps ++ qs) := by
  fun_induction groupIndex ps with
  | case1 => exact List.nil_prefix
  | case2 q ps ih =>
    rw [List.cons_append, groupIndex, List.drop_append]
    apply List.cons_prefix_cons.mpr
    refine ⟨rfl, ?_⟩
    rcases Nat.lt_or_ge ps.length ptrPerBlock with partly | full
    · rw [List.drop_of_length_le (Nat.le_of_lt partly), groupIndex]
      exact List.nil_prefix
    · rw [Nat.sub_eq_zero_of_le full, List.drop_zero]
      exact ih

/-- Further pointers leave the index blocks in their places. -/
theorem indexPtrs_initial (ps qs : List Nat) : indexPtrs ps <+: indexPtrs (ps ++ qs) := by
  simp only [indexPtrs, List.append_assoc]
  rcases Nat.lt_or_ge directPtrs ps.length with some_ | none_
  swap
  · -- A file with direct pointers only has no index blocks.
    have empty : ∀ n, directPtrs ≤ n → ps.drop n = [] := by
      intro n large
      exact List.drop_of_length_le (by omega)
    rw [empty _ (Nat.le_refl _), empty indirectPtrs (by decide),
      empty (indirectPtrs + 1) (by decide), groupIndex]
    exact List.nil_prefix
  have one : ∀ n, n < ps.length → ((ps ++ qs).drop n).take 1 = (ps.drop n).take 1 := by
    intro n inside
    rw [List.drop_append, List.take_append]
    have left : 1 - (ps.drop n).length = 0 := by
      rw [List.length_drop]
      omega
    rw [left, List.take_zero, List.append_nil]
  rw [one _ some_]
  apply List.prefix_append_right_inj _ |>.mpr
  rcases Nat.lt_or_ge indirectPtrs ps.length with more | few
  · rw [one _ more, List.drop_append]
    apply List.prefix_append_right_inj _ |>.mpr
    have behind : indirectPtrs + 1 - ps.length = 0 := by omega
    rw [behind, List.drop_zero]
    exact groupIndex_initial _ _
  · rw [List.drop_of_length_le few, List.drop_of_length_le (Nat.le_succ_of_le few), groupIndex]
    exact List.nil_prefix

/-- As many pointers as a size needs are as many data blocks as it needs. -/
theorem dataCount_nbytes2blocks {size : Nat} (word : size ≤ uint32Max) :
    dataCount (gfsNbytes2blocks size) = dataBlocks size := by
  have bound : uint32Max = 4294967295 := rfl
  have pointers : ptrPerBlock = 1024 := rfl
  have few : dataBlocks size ≤ 1048576 := by
    have block : blockSize = 4096 := rfl
    unfold dataBlocks
    rw [block]
    omega
  rw [gfsNbytes2blocks_eq word]
  generalize dataBlocks size = data at few
  simp only [dataCount, directPtrs, indirectPtrs, pointers, inodeNdptr]
  by_cases direct : data ≤ 10
  · rw [indexBlocks_direct direct]
    omega
  by_cases indirect : data ≤ 1034
  · rw [indexBlocks_indirect (by omega) indirect]
    omega
  · -- A group of 1024 data blocks takes 1025 pointers.
    rw [indexBlocks_double (by omega)]
    omega

/-- The pointer tree of a file of a size: no gap, and no pointer more or less than needed. -/
structure SizedTree (fs : Gfs) (ino : Nat) (ps : List Nat) (size : Nat) : Prop where
  /-- The pointers are filled in one after the other. -/
  tree : FileTree (fs.vol.inodes ino) fs.vol.blocks ps
  /-- There are as many as `GFS_nbytes2blocks` says. -/
  count : ps.length = gfsNbytes2blocks size
  /-- The data blocks hold the file. -/
  data : (dataPtrs ps).length = dataBlocks size
  /-- The other blocks are the index blocks that these need. -/
  index : (indexPtrs ps).length = indexBlocks (dataBlocks size)
  /-- Each pointer is in one place. -/
  once : (dataPtrs ps ++ indexPtrs ps).Perm ps ∧ ps.Nodup

/-- A well-formed file with as many pointers as a size needs has the tree of that size. -/
theorem FileOk.sized {fs : Gfs} {ino size : Nat} {ps : List Nat} (ok : FileOk fs ino ps)
    (word : size ≤ uint32Max) (count : ps.length = gfsNbytes2blocks size) :
    SizedTree fs ino ps size := by
  have data : (dataPtrs ps).length = dataBlocks size := by
    rw [dataPtrs_length, count, dataCount_nbytes2blocks word]
  refine ⟨ok.tree, count, data, ?_, dataPtrs_perm ps, ok.nodup⟩
  -- What is no data block is an index block.
  have both := (dataPtrs_perm ps).length_eq
  rw [List.length_append, data, count, gfsNbytes2blocks_eq word] at both
  omega

/-! ## Growing -/

/-- What the filling stage makes of a file that grows from one size to another. -/
structure FillsUp (fs next : Gfs) (ino : Nat) (ps granted : List Nat) (size : Nat) : Prop where
  /-- The tree of the new size, in which each granted pointer is used once. -/
  sized : SizedTree next ino (ps ++ granted) size
  /-- Old data pointers are in their places. -/
  data : dataPtrs ps <+: dataPtrs (ps ++ granted)
  /-- Old index pointers are in their places. -/
  index : indexPtrs ps <+: indexPtrs (ps ++ granted)
  /-- The data that there were stay. -/
  kept : ∀ p ∈ dataPtrs ps, next.vol.blocks p = fs.vol.blocks p
  /-- No block of another file changes. -/
  others : ∀ p, p ∉ ps ++ granted → next.vol.blocks p = fs.vol.blocks p

/--
`GFS_nbytes2blocks` counts the data and index blocks of a file exactly, without overflow and
monotonically, and when all blocks that the growing file lacks are granted, the filling stage makes
the pointer tree of the new size from that of the old one, with every granted pointer in one place.
-/
theorem file_blocks_account :
    (∀ size ≤ uint32Max,
      gfsNbytes2blocks size = dataBlocks size + indexBlocks (dataBlocks size) ∧
        ∀ sum ∈ blockSums size, sum ≤ uint32Max) ∧
    (∀ size size', size ≤ size' → size' ≤ uint32Max →
      gfsNbytes2blocks size ≤ gfsNbytes2blocks size') ∧
    ∀ (fs : Gfs) (ino size size' : Nat) (ps : List Nat), FileOk fs ino ps → size ≤ size' →
      size' ≤ uint32Max → SizedTree fs ino ps size →
      (fs.granted (gfsNbytes2blocks size' - gfsNbytes2blocks size)).length =
        gfsNbytes2blocks size' - gfsNbytes2blocks size →
      FillsUp fs (fs.extend ino (gfsNbytes2blocks size' - gfsNbytes2blocks size)) ino ps
        (fs.granted (gfsNbytes2blocks size' - gfsNbytes2blocks size)) size' := by
  refine ⟨?_, ?_, ?_⟩
  · intro size word
    exact ⟨gfsNbytes2blocks_eq word, blockSums_word word⟩
  · intro size size' le word
    exact gfsNbytes2blocks_mono le word
  · intro fs ino size size' ps ok le word sized all
    have grows := extend_grows ok (gfsNbytes2blocks size' - gfsNbytes2blocks size)
    have more := gfsNbytes2blocks_mono le word
    constructor
    · apply grows.ok.sized word
      rw [List.length_append, sized.count, all]
      omega
    · exact dataPtrs_initial _ _
    · exact indexPtrs_initial _ _
    · exact grows.data
    · exact grows.outside

end GlucOS
