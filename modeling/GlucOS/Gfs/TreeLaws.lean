import GlucOS.Gfs.FillLaws
import Mathlib.Data.List.Perm.Basic

/-! The pointers of a file: which of them are data blocks, how many, and how a byte is found. -/

namespace GlucOS

/-! ## Data blocks and index blocks -/

/-- Data blocks among so many pointers. -/
def dataCount (n : Nat) : Nat :=
  min n inodeNdptr + min (n - (directPtrs + 1)) ptrPerBlock +
    (n - (indirectPtrs + 1) - (n - (indirectPtrs + 1) + ptrPerBlock) / (ptrPerBlock + 1))

/-- How many data blocks there are below a double indirect one. -/
theorem groupData_length (ps : List Nat) :
    (groupData ps).length = ps.length - (ps.length + ptrPerBlock) / (ptrPerBlock + 1) := by
  have pointers : ptrPerBlock = 1024 := rfl
  fun_induction groupData ps with
  | case1 => rfl
  | case2 q ps ih =>
    rw [List.length_append, ih, List.length_take, List.length_drop, List.length_cons]
    simp only [pointers]
    omega

/-- How many data blocks a file has. -/
theorem dataPtrs_length (ps : List Nat) : (dataPtrs ps).length = dataCount ps.length := by
  simp only [dataPtrs, dataCount, List.length_append, List.length_take, List.length_drop,
    groupData_length]
  rw [Nat.min_comm inodeNdptr, Nat.min_comm ptrPerBlock]

/-- Each block below a double indirect one holds data or pointers, and not both. -/
theorem groupData_perm (ps : List Nat) : (groupData ps ++ groupIndex ps).Perm ps := by
  fun_induction groupData ps with
  | case1 => simp [groupIndex]
  | case2 q ps ih =>
    rw [groupIndex]
    apply List.perm_middle.trans
    apply List.Perm.cons
    rw [List.append_assoc]
    have rest := ih.append_left (ps.take ptrPerBlock)
    rw [List.take_append_drop] at rest
    exact rest

/-- A list in five parts. -/
theorem parts_of (ps : List Nat) :
    ps = ps.take inodeNdptr ++ ((ps.drop directPtrs).take 1 ++ ((ps.drop (directPtrs + 1)).take
      ptrPerBlock ++ ((ps.drop indirectPtrs).take 1 ++ ps.drop (indirectPtrs + 1)))) := by
  have joined : ∀ m n, (ps.drop m).take n ++ ps.drop (m + n) = ps.drop m := by
    intro m n
    rw [← List.drop_drop, List.take_append_drop]
  have ends : indirectPtrs = directPtrs + 1 + ptrPerBlock := rfl
  have third := joined (directPtrs + 1) ptrPerBlock
  rw [← ends] at third
  rw [joined indirectPtrs 1, third, joined directPtrs 1, directPtrs, List.take_append_drop]

/-- Each block of a file holds data or pointers, and not both. -/
theorem dataPtrs_perm (ps : List Nat) : (dataPtrs ps ++ indexPtrs ps).Perm ps := by
  rw [List.perm_iff_count]
  intro p
  have groups := (groupData_perm (ps.drop (indirectPtrs + 1))).count_eq p
  have parts := congrArg (List.count p) (parts_of ps)
  rw [List.count_append] at groups
  simp only [List.count_append] at parts
  simp only [dataPtrs, indexPtrs, List.count_append]
  omega

/-- No data block is an index block. -/
theorem dataPtrs_apart {ps : List Nat} (nodup : ps.Nodup) {p : Nat} (data : p ∈ dataPtrs ps) :
    p ∉ indexPtrs ps := by
  intro index
  have apart := List.nodup_append.mp ((dataPtrs_perm ps).nodup_iff.mpr nodup)
  exact apart.2.2 p data p index rfl

/-! ## More pointers -/

/-- Further pointers leave the data blocks below a double indirect one in their places. -/
theorem groupData_initial (ps qs : List Nat) : groupData ps <+: groupData (ps ++ qs) := by
  fun_induction groupData ps with
  | case1 => exact List.nil_prefix
  | case2 q ps ih =>
    rw [List.cons_append, groupData, List.take_append, List.append_assoc, List.drop_append]
    apply List.prefix_append_right_inj _ |>.mpr
    rcases Nat.lt_or_ge ps.length ptrPerBlock with partly | full
    · -- The last group is not full, and nothing comes behind it.
      rw [List.drop_of_length_le (Nat.le_of_lt partly), groupData]
      exact List.nil_prefix
    · rw [Nat.sub_eq_zero_of_le full, List.take_zero, List.drop_zero, List.nil_append]
      exact ih

/-- Further pointers leave the data blocks in their places. -/
theorem dataPtrs_initial (ps qs : List Nat) : dataPtrs ps <+: dataPtrs (ps ++ qs) := by
  simp only [dataPtrs, List.append_assoc]
  rw [List.take_append, List.append_assoc]
  apply List.prefix_append_right_inj _ |>.mpr
  rcases Nat.lt_or_ge ps.length (directPtrs + 1) with few | more
  · have empty : ∀ n, directPtrs + 1 ≤ n → ps.drop n = [] := by
      intro n large
      exact List.drop_of_length_le (by omega)
    rw [empty _ (Nat.le_refl _), empty (indirectPtrs + 1) (by decide), List.take_nil, groupData]
    exact List.nil_prefix
  · have full : inodeNdptr ≤ ps.length := by
      rw [directPtrs] at more
      omega
    rw [Nat.sub_eq_zero_of_le full, List.take_zero, List.nil_append, List.drop_append,
      Nat.sub_eq_zero_of_le more, List.drop_zero, List.take_append, List.append_assoc]
    apply List.prefix_append_right_inj _ |>.mpr
    rcases Nat.lt_or_ge ps.length (indirectPtrs + 1) with fewer | many
    · rw [List.drop_of_length_le (Nat.le_of_lt fewer), groupData]
      exact List.nil_prefix
    · have full : ptrPerBlock ≤ (ps.drop (directPtrs + 1)).length := by
        rw [List.length_drop]
        have ends : indirectPtrs = directPtrs + 1 + ptrPerBlock := rfl
        omega
      rw [Nat.sub_eq_zero_of_le full, List.take_zero, List.nil_append, List.drop_append,
        Nat.sub_eq_zero_of_le many, List.drop_zero]
      exact groupData_initial _ _

/-! ## Finding a block -/

/-- The pointers that a pointer to an index block leads to, none of them when it is not valid. -/
def pointersOf (blocks : Nat → Block) (ptr : Nat) : List Nat :=
  if ptr = inodeInvalidPtr then List.replicate ptrPerBlock inodeInvalidPtr else (blocks ptr).ptrs

/-- The pointers of all the places that a file has for data blocks. -/
def filePtrs (inode : GfsInode) (blocks : Nat → Block) : List Nat :=
  inode.dptr.toList ++ (pointersOf blocks inode.idptr ++
    (pointersOf blocks inode.diptr).flatMap (pointersOf blocks))

/-- An array starts with these pointers, and the rest of it holds none. -/
def StartsWith (parr ps : List Nat) : Prop :=
  ∃ n, parr = ps ++ List.replicate n inodeInvalidPtr

namespace StartsWith

variable {parr parr' ps ps' : List Nat}

/-- A padded array. -/
theorem padded (ps : List Nat) (n : Nat) : StartsWith (padded ps n) ps := ⟨_, rfl⟩

/-- Arrays one behind the other, the first of which is full when the second is not empty. -/
theorem append (first : StartsWith parr ps) (second : StartsWith parr' ps')
    (full : parr.length ≤ ps.length ∨ ps' = []) : StartsWith (parr ++ parr') (ps ++ ps') := by
  obtain ⟨m, rfl⟩ := first
  obtain ⟨n, rfl⟩ := second
  rcases full with full | rfl
  · rw [List.length_append, List.length_replicate] at full
    obtain rfl : m = 0 := by omega
    exact ⟨n, by simp⟩
  · exact ⟨m + n, by rw [List.append_nil, List.nil_append, List.append_assoc,
      List.replicate_append_replicate]⟩

/-- Behind them no pointer is found. -/
theorem getD_eq (starts : StartsWith parr ps) (d : Nat) :
    parr.getD d inodeInvalidPtr = ps.getD d inodeInvalidPtr := by
  obtain ⟨n, rfl⟩ := starts
  rcases Nat.lt_or_ge d ps.length with inside | beyond
  · rw [List.getD_append _ _ _ _ inside]
  · rw [List.getD_append_right _ _ _ _ beyond, List.getD_eq_default _ _ beyond]
    simp only [List.getD_eq_getElem?_getD, List.getElem?_replicate]
    split <;> rfl

end StartsWith

/-- Where no pointer leads. -/
theorem pointersOf_invalid (blocks : Nat → Block) :
    StartsWith (pointersOf blocks inodeInvalidPtr) [] := ⟨ptrPerBlock, if_pos rfl⟩

/-- Where a pointer to a block of pointers leads. -/
theorem pointersOf_valid {blocks : Nat → Block} {ptr : Nat} {ps : List Nat}
    (valid : ptr ≠ inodeInvalidPtr)
    (holds : (blocks ptr).ptrs = padded (ps.take ptrPerBlock) ptrPerBlock) :
    StartsWith (pointersOf blocks ptr) (ps.take ptrPerBlock) := by
  rw [pointersOf, if_neg valid, holds]
  exact StartsWith.padded _ _

/-- So many pointers there are behind any pointer. -/
theorem pointersOf_length (blocks : Nat → Block) (ptr : Nat) :
    (pointersOf blocks ptr).length = ptrPerBlock := by
  unfold pointersOf
  split
  · exact List.length_replicate
  · rw [Block.ptrs, List.length_map, List.length_range]

/-- The data blocks below a double indirect one are found in their order. -/
theorem Groups.starts {blocks : Nat → Block} (dib ps : List Nat) (groups : Groups blocks dib ps)
    (valid : ∀ p ∈ ps, p ≠ inodeInvalidPtr) :
    StartsWith (dib.flatMap (pointersOf blocks)) (groupData ps) := by
  induction dib generalizing ps with
  | nil =>
    rw [show ps = [] from groups, groupData]
    exact ⟨0, rfl⟩
  | cons ptr dib ih =>
    rw [List.flatMap_cons]
    cases ps with
    | nil =>
      have rest := ih [] groups.2 valid
      rw [groups.1, ← List.nil_append (groupData [])]
      apply (pointersOf_invalid blocks).append rest
      right
      rw [groupData]
    | cons q ps =>
      have rest := ih (ps.drop ptrPerBlock) groups.2.2 fun p mem =>
        valid p (List.mem_cons_of_mem _ (List.mem_of_mem_drop mem))
      rw [groups.1, groupData]
      apply (pointersOf_valid (valid q List.mem_cons_self) groups.2.1).append rest
      rcases Nat.lt_or_ge ps.length ptrPerBlock with partly | full
      · right
        rw [List.drop_of_length_le (Nat.le_of_lt partly), groupData]
      · left
        rw [pointersOf_length, List.length_take, Nat.min_eq_left full]

/-- The data blocks of a file are found in their order, and nothing behind them. -/
theorem FileTree.starts {inode : GfsInode} {blocks : Nat → Block} {ps : List Nat}
    (tree : FileTree inode blocks ps) (valid : ∀ p ∈ ps, p ≠ inodeInvalidPtr) :
    StartsWith (filePtrs inode blocks) (dataPtrs ps) := by
  have direct : StartsWith inode.dptr.toList (ps.take inodeNdptr) := by
    rw [tree.direct]
    exact StartsWith.padded _ _
  have indirect : StartsWith (pointersOf blocks inode.idptr)
      ((ps.drop (directPtrs + 1)).take ptrPerBlock) := by
    have holds := tree.indirect
    cases behind : ps.drop directPtrs with
    | nil =>
      rw [behind] at holds
      rw [← List.drop_drop, behind, show inode.idptr = inodeInvalidPtr from holds]
      exact pointersOf_invalid blocks
    | cons q qs =>
      rw [behind] at holds
      have isValid := valid q (List.mem_of_mem_drop (behind ▸ List.mem_cons_self))
      rw [← List.drop_drop, behind, List.drop_one, List.tail_cons, holds.1]
      exact pointersOf_valid isValid holds.2
  have double : StartsWith ((pointersOf blocks inode.diptr).flatMap (pointersOf blocks))
      (groupData (ps.drop (indirectPtrs + 1))) := by
    have holds := tree.double
    cases behind : ps.drop indirectPtrs with
    | nil =>
      rw [behind] at holds
      rw [← List.drop_drop, behind, List.drop_nil, show inode.diptr = inodeInvalidPtr from holds,
        pointersOf, if_pos rfl]
      exact Groups.starts _ _ (Groups.replicate blocks ptrPerBlock) (by simp)
    | cons q qs =>
      rw [behind] at holds
      obtain ⟨same, dib, isDib, groups⟩ := holds
      have mem : ∀ p ∈ q :: qs, p ∈ ps := fun p mem => List.mem_of_mem_drop (behind ▸ mem)
      rw [← List.drop_drop, behind, List.drop_one, List.tail_cons, same, pointersOf,
        if_neg (valid q (mem q List.mem_cons_self)), isDib]
      exact Groups.starts _ _ groups fun p inside => valid p (mem p (List.mem_cons_of_mem _ inside))
  rw [filePtrs, dataPtrs, List.append_assoc]
  apply direct.append (indirect.append double _) _
  · -- The indirect block is full when there is anything below the double indirect one.
    rcases Nat.lt_or_ge ps.length (indirectPtrs + 1) with few | many
    · right
      rw [List.drop_of_length_le (Nat.le_of_lt few), groupData]
    · left
      have ends : indirectPtrs = directPtrs + 1 + ptrPerBlock := rfl
      rw [pointersOf_length, List.length_take, List.length_drop]
      omega
  · rcases Nat.lt_or_ge ps.length (directPtrs + 1) with few | many
    · right
      have fewer : ps.length < indirectPtrs + 1 := Nat.lt_trans few (by decide)
      rw [List.drop_of_length_le (Nat.le_of_lt few), List.drop_of_length_le (Nat.le_of_lt fewer),
        groupData]
      rfl
    · left
      rw [Vector.length_toList, List.length_take]
      rw [directPtrs] at many
      omega

end GlucOS
