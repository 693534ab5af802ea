import GlucOS.Gfs.File

/-! The pointers of a file without gaps, and what filling in more of them does. -/

namespace GlucOS

/-! ## Blocks of pointers -/

/-- Pointers of 32 bits are read back as they were written. -/
theorem Block.ptrs_ofPtrs {parr : List Nat} (length : parr.length = ptrPerBlock)
    (small : ∀ ptr ∈ parr, ptr < 2 ^ 32) : (Block.ofPtrs parr).ptrs = parr := by
  apply List.ext_getElem
  · simp [Block.ptrs, length]
  · intro i inside here
    have word : parr[i] < 2 ^ 32 := small _ (List.getElem_mem here)
    have few : i < 1024 := by
      rw [length] at here
      exact here
    have bound : 4 * i + 3 < blockSize := by
      simp only [blockSize]
      omega
    have parts : ∀ k < 4, (Block.ofPtrs parr).byte (4 * i + k) =
        UInt8.ofNat (parr[i] / 256 ^ k) := by
      intro k few
      have index : (4 * i + k) / 4 = i := by omega
      have part : (4 * i + k) % 4 = k := by omega
      simp only [Block.byte, Block.ofPtrs, dif_pos (show 4 * i + k < blockSize by omega), index,
        part, List.getD_eq_getElem?_getD, List.getElem?_eq_getElem here, Option.getD_some]
    have first := parts 0 (by decide)
    rw [Nat.add_zero] at first
    simp only [Block.ptrs, List.getElem_map, List.getElem_range, Block.word, first,
      parts 1 (by decide), parts 2 (by decide), parts 3 (by decide), UInt8.toNat_ofNat']
    omega

/-- A block holds the pointers that are read from it. -/
theorem Block.ofPtrs_ptrs (block : Block) : Block.ofPtrs block.ptrs = block := by
  funext byte
  have bound := byte.isLt
  simp only [blockSize] at bound
  have index : byte.val / 4 < ptrPerBlock := by
    simp only [ptrPerBlock, blockSize]
    omega
  have parts : ∀ k < 4, byte.val % 4 = k → block.byte (4 * (byte.val / 4) + k) = block byte := by
    intro k few is
    have here : 4 * (byte.val / 4) + k = byte.val := by omega
    rw [here]
    exact dif_pos byte.isLt
  have low := fun k => (block.byte (4 * (byte.val / 4) + k)).toNat_lt
  simp only [Block.ofPtrs, Block.ptrs, List.getD_eq_getElem?_getD, List.getElem?_map,
    List.getElem?_range index, Option.map_some, Option.getD_some, Block.word]
  apply UInt8.toNat_inj.mp
  rw [UInt8.toNat_ofNat']
  have l0 := low 0
  have l1 := low 1
  have l2 := low 2
  have l3 := low 3
  rw [Nat.add_zero] at l0
  -- Which of the four bytes it is.
  rcases (by omega : byte.val % 4 = 0 ∨ byte.val % 4 = 1 ∨ byte.val % 4 = 2 ∨ byte.val % 4 = 3)
    with is | is | is | is
  · have same := parts 0 (by decide) is
    rw [Nat.add_zero] at same
    rw [is, ← same]
    omega
  · rw [is, ← parts 1 (by decide) is]
    omega
  · rw [is, ← parts 2 (by decide) is]
    omega
  · rw [is, ← parts 3 (by decide) is]
    omega

/-! ## Files without gaps -/

/-- An array of pointers that ends without any. -/
def padded (parr : List Nat) (n : Nat) : List Nat :=
  parr ++ List.replicate (n - parr.length) inodeInvalidPtr

/-- The pointers of a double indirect block lead to these pointers, in the order of the file. -/
def Groups (blocks : Nat → Block) : List Nat → List Nat → Prop
  | [], ps => ps = []
  | ptr :: dib, [] => ptr = inodeInvalidPtr ∧ Groups blocks dib []
  | ptr :: dib, q :: ps =>
    ptr = q ∧ (blocks q).ptrs = padded (ps.take ptrPerBlock) ptrPerBlock ∧
      Groups blocks dib (ps.drop ptrPerBlock)

/-- An indirect pointer and what it leads to. -/
def Indirect (blocks : Nat → Block) (ptr : Nat) : List Nat → Prop
  | [] => ptr = inodeInvalidPtr
  | q :: ps => ptr = q ∧ (blocks q).ptrs = padded (ps.take ptrPerBlock) ptrPerBlock

/-- A double indirect pointer and what it leads to. -/
def Double (blocks : Nat → Block) (ptr : Nat) : List Nat → Prop
  | [] => ptr = inodeInvalidPtr
  | q :: ps => ptr = q ∧ ∃ dib, (blocks q).ptrs = dib ∧ Groups blocks dib ps

/-- The indirect pointer comes behind so many pointers. -/
def directPtrs : Nat := inodeNdptr

/-- The double indirect pointer comes behind so many pointers. -/
def indirectPtrs : Nat := inodeNdptr + 1 + ptrPerBlock

/-- So many pointers a file has at most. -/
def maxPtrs : Nat := indirectPtrs + 1 + ptrPerBlock * (1 + ptrPerBlock)

/-- The pointers of a file, index blocks among them, in the order in which they are filled in. -/
structure FileTree (inode : GfsInode) (blocks : Nat → Block) (ps : List Nat) : Prop where
  /-- Direct pointers. -/
  direct : inode.dptr.toList = padded (ps.take inodeNdptr) inodeNdptr
  /-- The indirect pointer. -/
  indirect : Indirect blocks inode.idptr (ps.drop directPtrs)
  /-- The double indirect pointer. -/
  double : Double blocks inode.diptr (ps.drop indirectPtrs)

/-- The index blocks below a double indirect one. -/
def groupIndex : List Nat → List Nat
  | [] => []
  | q :: ps => q :: groupIndex (ps.drop ptrPerBlock)
termination_by ps => ps.length
decreasing_by simp only [List.length_drop, List.length_cons]; omega

/-- The data blocks below a double indirect one. -/
def groupData : List Nat → List Nat
  | [] => []
  | _ :: ps => ps.take ptrPerBlock ++ groupData (ps.drop ptrPerBlock)
termination_by ps => ps.length
decreasing_by simp only [List.length_drop, List.length_cons]; omega

/-- The index blocks of a file. -/
def indexPtrs (ps : List Nat) : List Nat :=
  (ps.drop directPtrs).take 1 ++ (ps.drop indirectPtrs).take 1 ++
    groupIndex (ps.drop (indirectPtrs + 1))

/-- The data blocks of a file. -/
def dataPtrs (ps : List Nat) : List Nat :=
  ps.take inodeNdptr ++ (ps.drop (directPtrs + 1)).take ptrPerBlock ++
    groupData (ps.drop (indirectPtrs + 1))

/-- Index blocks are blocks of the file. -/
theorem groupIndex_subset (ps : List Nat) : groupIndex ps ⊆ ps := by
  fun_induction groupIndex ps with
  | case1 => exact List.Subset.refl _
  | case2 q ps ih =>
    apply List.cons_subset_cons
    exact List.Subset.trans ih (List.drop_subset _ _)

/-- Data blocks are blocks of the file, in the same order. -/
theorem groupData_sublist (ps : List Nat) : (groupData ps).Sublist ps := by
  fun_induction groupData ps with
  | case1 => exact List.Sublist.refl _
  | case2 q ps ih =>
    apply List.Sublist.cons
    have parts := List.Sublist.append_left ih (ps.take ptrPerBlock)
    rw [List.take_append_drop] at parts
    exact parts

/-- Data blocks are blocks of the file, in the same order. -/
theorem dataPtrs_sublist (ps : List Nat) : (dataPtrs ps).Sublist ps := by
  have last : (groupData (ps.drop (indirectPtrs + 1))).Sublist
      ((ps.drop (directPtrs + 1)).drop ptrPerBlock) := by
    apply (groupData_sublist _).trans
    rw [List.drop_drop]
    exact List.drop_sublist_drop_left _ (Nat.le_succ _)
  have second := List.Sublist.append_left last ((ps.drop (directPtrs + 1)).take ptrPerBlock)
  rw [List.take_append_drop] at second
  have behind : (ps.drop (directPtrs + 1)).Sublist (ps.drop inodeNdptr) :=
    List.drop_sublist_drop_left _ (Nat.le_succ _)
  have first := List.Sublist.append_left (second.trans behind) (ps.take inodeNdptr)
  rw [List.take_append_drop] at first
  rw [dataPtrs, List.append_assoc]
  exact first

/-- Only index blocks matter. -/
theorem Groups.congr {blocks blocks' : Nat → Block} (dib ps : List Nat)
    (groups : Groups blocks dib ps) (same : ∀ ptr ∈ groupIndex ps, blocks' ptr = blocks ptr) :
    Groups blocks' dib ps := by
  induction dib generalizing ps with
  | nil => exact groups
  | cons ptr dib ih =>
    cases ps with
    | nil => exact ⟨groups.1, ih [] groups.2 same⟩
    | cons q ps =>
      rw [groupIndex] at same
      refine ⟨groups.1, ?_, ih _ groups.2.2 fun ptr mem => same ptr (List.mem_cons_of_mem _ mem)⟩
      rw [same q List.mem_cons_self]
      exact groups.2.1

/-- A double indirect block without pointers. -/
theorem Groups.replicate (blocks : Nat → Block) (n : Nat) :
    Groups blocks (List.replicate n inodeInvalidPtr) [] := by
  induction n with
  | zero => rfl
  | succ n ih => exact ⟨rfl, ih⟩

/-! ## Filling in pointers -/

/-- An array without pointers takes as many as it has places. -/
theorem fillPtrs_replicate (n : Nat) (qs : List Nat) :
    fillPtrs (List.replicate n inodeInvalidPtr) qs = (padded (qs.take n) n, qs.drop n) := by
  induction n generalizing qs with
  | zero => cases qs <;> simp [fillPtrs, padded]
  | succ n ih =>
    cases qs with
    | nil => simp [fillPtrs, padded, List.replicate_succ]
    | cons q qs =>
      rw [List.replicate_succ, fillPtrs, if_pos rfl, ih]
      simp [padded]

/-- An array takes the pointers behind those it has. -/
theorem fillPtrs_padded (parr : List Nat) (n : Nat) (qs : List Nat) (fits : parr.length ≤ n)
    (valid : ∀ ptr ∈ parr, ptr ≠ inodeInvalidPtr) :
    fillPtrs (padded parr n) qs =
      (padded ((parr ++ qs).take n) n, qs.drop (n - parr.length)) := by
  induction parr generalizing n with
  | nil => simpa [padded] using fillPtrs_replicate n qs
  | cons ptr parr ih =>
    obtain ⟨n, rfl⟩ : ∃ less, n = less + 1 := ⟨n - 1, by simp at fits; omega⟩
    have more : padded (ptr :: parr) (n + 1) = ptr :: padded parr n := by simp [padded]
    have rest := ih n (by simpa using fits) fun other mem =>
      valid other (List.mem_cons_of_mem _ mem)
    rw [more]
    cases qs with
    | nil =>
      have short : parr.length ≤ n := by simpa using fits
      simp [fillPtrs, List.take_of_length_le short, padded]
    | cons q qs =>
      rw [fillPtrs, if_neg (valid ptr List.mem_cons_self), rest]
      simp [padded]

/-- A new array takes pointers as one without any. -/
theorem freshPtrs_eq (qs : List Nat) :
    freshPtrs qs = (padded (qs.take ptrPerBlock) ptrPerBlock, qs.drop ptrPerBlock) := by
  have same : ptrPerBlock - (qs.take ptrPerBlock).length = ptrPerBlock - qs.length := by
    rw [List.length_take]
    omega
  simp only [freshPtrs, padded, same]

/-- A padded array has its length. -/
theorem padded_length {parr : List Nat} {n : Nat} (fits : parr.length ≤ n) :
    (padded parr n).length = n := by
  rw [padded, List.length_append, List.length_replicate]
  omega

/-- A padded array of pointers is read back from a block. -/
theorem ptrs_padded {parr : List Nat} (small : ∀ ptr ∈ parr, ptr < 2 ^ 32) :
    (Block.ofPtrs (padded (parr.take ptrPerBlock) ptrPerBlock)).ptrs =
      padded (parr.take ptrPerBlock) ptrPerBlock := by
  apply Block.ptrs_ofPtrs
  · exact padded_length (List.length_take_le _ _)
  · intro ptr mem
    rcases List.mem_append.mp mem with taken | none_
    · exact small ptr (List.mem_of_mem_take taken)
    · rw [List.eq_of_mem_replicate none_]
      exact Nat.two_pow_pos 32

/-- Filling in the block of an indirect pointer. -/
theorem fillBlock_spec {ptr : Nat} {blocks : Nat → Block} {ps : List Nat} (qs : List Nat)
    (holds : (blocks ptr).ptrs = padded (ps.take ptrPerBlock) ptrPerBlock)
    (valid : ∀ p ∈ ps ++ qs, p ≠ inodeInvalidPtr) (small : ∀ p ∈ ps ++ qs, p < 2 ^ 32) :
    (fillBlock ptr blocks qs).2 = qs.drop (ptrPerBlock - ps.length) ∧
      ((fillBlock ptr blocks qs).1 ptr).ptrs =
        padded ((ps ++ qs).take ptrPerBlock) ptrPerBlock ∧
      ∀ other, other ≠ ptr → (fillBlock ptr blocks qs).1 other = blocks other := by
  have taken : (ps.take ptrPerBlock ++ qs).take ptrPerBlock = (ps ++ qs).take ptrPerBlock := by
    have fewer : ptrPerBlock - min ptrPerBlock ps.length = ptrPerBlock - ps.length := by omega
    rw [List.take_append, List.take_append, List.take_take, Nat.min_self, List.length_take, fewer]
  have fewer : ptrPerBlock - (ps.take ptrPerBlock).length = ptrPerBlock - ps.length := by
    rw [List.length_take]
    omega
  have filled := fillPtrs_padded (ps.take ptrPerBlock) ptrPerBlock qs (List.length_take_le _ _)
    fun p mem => valid p (List.mem_append_left _ (List.mem_of_mem_take mem))
  rw [taken, fewer] at filled
  unfold fillBlock
  rw [holds, filled]
  refine ⟨rfl, ?_, ?_⟩
  · dsimp only
    split
    · rw [Function.update_self, ptrs_padded small]
    · -- None was taken, so the block is full or there was nothing to take.
      rename_i unchanged
      rw [holds]
      apply congrArg fun parr => padded parr ptrPerBlock
      rw [List.length_drop] at unchanged
      by_cases none_ : qs = []
      · rw [none_, List.append_nil]
      · have some_ : 0 < qs.length := List.length_pos_iff.mpr none_
        rw [List.take_append_of_le_length (by omega)]
  · intro other apart
    dsimp only
    split
    · exact Function.update_of_ne apart _ _
    · rfl

/-- What is left after the first block, in two parts. -/
theorem drop_append_block (ps qs : List Nat) (n : Nat) :
    (ps ++ qs).drop n = ps.drop n ++ qs.drop (n - ps.length) := List.drop_append

/-- Filling in a double indirect block. -/
theorem fillGroups_spec (dib : List Nat) (blocks : Nat → Block) (ps qs : List Nat)
    (groups : Groups blocks dib ps) (nodup : (ps ++ qs).Nodup)
    (valid : ∀ p ∈ ps ++ qs, p ≠ inodeInvalidPtr) (small : ∀ p ∈ ps ++ qs, p < 2 ^ 32)
    (room : ps.length + qs.length ≤ dib.length * (1 + ptrPerBlock)) :
    (fillGroups dib blocks qs).1.length = dib.length ∧
      Groups (fillGroups dib blocks qs).2.1 (fillGroups dib blocks qs).1 (ps ++ qs) ∧
      ∀ p, p ∉ groupIndex (ps ++ qs) → (fillGroups dib blocks qs).2.1 p = blocks p := by
  induction dib generalizing blocks ps qs with
  | nil =>
    have none_ : ps = [] := groups
    have nothing : qs = [] := by
      rw [List.length_nil, Nat.zero_mul] at room
      exact List.eq_nil_of_length_eq_zero (by omega)
    rw [none_, nothing]
    exact ⟨rfl, rfl, fun _ _ => rfl⟩
  | cons ptr dib ih =>
    rw [List.length_cons, Nat.add_mul, Nat.one_mul] at room
    cases qs with
    | nil =>
      rw [List.append_nil, fillGroups.eq_def]
      exact ⟨rfl, groups, fun _ _ => rfl⟩
    | cons q qs =>
      cases ps with
      | nil =>
        -- A new index block.
        obtain ⟨invalid, groups⟩ := groups
        rw [List.nil_append] at nodup valid small ⊢
        have rest := List.nodup_cons.mp nodup
        have validRest : ∀ p ∈ qs.drop ptrPerBlock, p ≠ inodeInvalidPtr := fun p mem =>
          valid p (List.mem_cons_of_mem _ (List.mem_of_mem_drop mem))
        have smallRest : ∀ p ∈ qs, p < 2 ^ 32 := fun p mem => small p (List.mem_cons_of_mem _ mem)
        have fresh : q ∉ groupIndex (qs.drop ptrPerBlock) := fun mem =>
          rest.1 (List.mem_of_mem_drop (groupIndex_subset _ mem))
        obtain ⟨length, filled, others⟩ := ih
          (Function.update blocks q (Block.ofPtrs (padded (qs.take ptrPerBlock) ptrPerBlock)))
          [] (qs.drop ptrPerBlock) (groups.congr _ _ (by simp [groupIndex]))
          (rest.2.sublist (List.drop_sublist _ _)) validRest
          (fun p mem => smallRest p (List.mem_of_mem_drop mem))
          (by simp only [List.length_nil, List.length_drop, List.length_cons] at *; omega)
        rw [List.nil_append] at filled others
        rw [fillGroups, if_pos invalid, freshPtrs_eq]
        dsimp only
        refine ⟨by rw [List.length_cons, List.length_cons, length], ⟨rfl, ?_, filled⟩, ?_⟩
        · rw [others q fresh, Function.update_self, ptrs_padded smallRest]
        · intro p outside
          rw [groupIndex] at outside
          rw [others p fun mem => outside (List.mem_cons_of_mem _ mem)]
          apply Function.update_of_ne
          rintro rfl
          exact outside List.mem_cons_self
      | cons r ps =>
        -- The index block is there, and may have room.
        obtain ⟨rfl, holds, groups⟩ := groups
        have rest : ptr ∉ ps ++ q :: qs ∧ (ps ++ q :: qs).Nodup := List.nodup_cons.mp nodup
        have validRest : ∀ p ∈ ps ++ q :: qs, p ≠ inodeInvalidPtr := fun p mem =>
          valid p (List.mem_cons_of_mem _ mem)
        have smallRest : ∀ p ∈ ps ++ q :: qs, p < 2 ^ 32 := fun p mem =>
          small p (List.mem_cons_of_mem _ mem)
        obtain ⟨left, block, apart⟩ := fillBlock_spec (q :: qs) holds validRest smallRest
        have split := drop_append_block ps (q :: qs) ptrPerBlock
        have fresh : ptr ∉ groupIndex ((ps ++ q :: qs).drop ptrPerBlock) := fun mem =>
          rest.1 (List.mem_of_mem_drop (groupIndex_subset _ mem))
        have within : ∀ p ∈ ps.drop ptrPerBlock ++ (q :: qs).drop (ptrPerBlock - ps.length),
            p ∈ ps ++ q :: qs := by
          intro p mem
          rw [← split] at mem
          exact List.mem_of_mem_drop mem
        obtain ⟨length, filled, others⟩ := ih (fillBlock ptr blocks (q :: qs)).1
          (ps.drop ptrPerBlock) ((q :: qs).drop (ptrPerBlock - ps.length))
          (groups.congr _ _ (by
            intro p mem
            apply apart
            intro same
            exact rest.1 (List.mem_append_left _
              (List.mem_of_mem_drop (groupIndex_subset _ (same ▸ mem))))))
          (by rw [← split]; exact rest.2.sublist (List.drop_sublist _ _))
          (fun p mem => validRest p (within p mem)) (fun p mem => smallRest p (within p mem))
          (by simp only [List.length_drop, List.length_cons] at *; omega)
        rw [← split] at filled others
        rw [fillGroups, if_neg (valid ptr List.mem_cons_self)]
        dsimp only
        rw [left]
        refine ⟨by rw [List.length_cons, List.length_cons, length], ⟨rfl, ?_, filled⟩, ?_⟩
        · rw [others ptr fresh, block]
          rfl
        · intro p outside
          rw [List.cons_append, groupIndex] at outside
          rw [others p fun mem => outside (List.mem_cons_of_mem _ mem)]
          apply apart
          rintro rfl
          exact outside List.mem_cons_self

/-- A double indirect block holds index blocks, or nothing. -/
theorem Groups.mem {blocks : Nat → Block} (dib ps : List Nat) (groups : Groups blocks dib ps) :
    ∀ ptr ∈ dib, ptr = inodeInvalidPtr ∨ ptr ∈ ps := by
  induction dib generalizing ps with
  | nil =>
    intro ptr mem
    cases mem
  | cons first dib ih =>
    intro ptr mem
    cases ps with
    | nil =>
      rcases List.mem_cons.mp mem with rfl | later
      · exact .inl groups.1
      · exact ih [] groups.2 ptr later
    | cons q ps =>
      rcases List.mem_cons.mp mem with rfl | later
      · exact .inr (groups.1 ▸ List.mem_cons_self)
      · rcases ih _ groups.2.2 ptr later with none_ | inside
        · exact .inl none_
        · exact .inr (List.mem_cons_of_mem _ (List.mem_of_mem_drop inside))

section Stages

variable {inode : GfsInode} {blocks : Nat → Block} {ps qs : List Nat}

/-- Only the indirect block matters. -/
theorem Indirect.congr {blocks' : Nat → Block} {ptr : Nat} (indirect : Indirect blocks ptr ps)
    (same : ∀ q ∈ ps.take 1, blocks' q = blocks q) : Indirect blocks' ptr ps := by
  cases ps with
  | nil => exact indirect
  | cons q ps =>
    refine ⟨indirect.1, ?_⟩
    rw [same q (by simp)]
    exact indirect.2

/-- Only index blocks matter. -/
theorem Double.congr {blocks' : Nat → Block} {ptr : Nat} (double : Double blocks ptr ps)
    (same : ∀ q ∈ ps.take 1 ++ groupIndex (ps.drop 1), blocks' q = blocks q) :
    Double blocks' ptr ps := by
  cases ps with
  | nil => exact double
  | cons q ps =>
    obtain ⟨is, dib, isDib, groups⟩ := double
    refine ⟨is, dib, ?_, groups.congr _ _ fun p mem => same p (List.mem_append_right _ mem)⟩
    rw [same q (by simp), isDib]

variable (nodup : (ps ++ qs).Nodup) (valid : ∀ p ∈ ps ++ qs, p ≠ inodeInvalidPtr)
  (small : ∀ p ∈ ps ++ qs, p < 2 ^ 32)

include nodup valid small

/-- Filling in the indirect pointer and its block. -/
theorem fillIndirect_spec (indirect : Indirect blocks inode.idptr ps) :
    ∃ idptr blocks' left,
      fillIndirect inode blocks qs = ({ inode with idptr }, blocks', left) ∧
      Indirect blocks' idptr (ps ++ qs) ∧
      (ps ++ qs).drop (1 + ptrPerBlock) = ps.drop (1 + ptrPerBlock) ++ left ∧
      ∀ p, p ∉ (ps ++ qs).take 1 → blocks' p = blocks p := by
  cases qs with
  | nil => exact ⟨inode.idptr, blocks, [], rfl, by simpa using indirect, by simp, fun _ _ => rfl⟩
  | cons q qs =>
    rw [Nat.add_comm 1]
    cases ps with
    | nil =>
      have smallRest : ∀ p ∈ qs, p < 2 ^ 32 := fun p mem => small p (List.mem_cons_of_mem _ mem)
      have invalid : inode.idptr = inodeInvalidPtr := indirect
      rw [fillIndirect, if_pos invalid, freshPtrs_eq]
      refine ⟨_, _, _, rfl, ⟨rfl, ?_⟩, rfl, ?_⟩
      · rw [Function.update_self, ptrs_padded smallRest]
      · intro p outside
        apply Function.update_of_ne
        rintro rfl
        exact outside (by simp)
    | cons r ps =>
      obtain ⟨is, holds⟩ := indirect
      have invalid : inode.idptr ≠ inodeInvalidPtr := is ▸ valid r List.mem_cons_self
      obtain ⟨left, block, apart⟩ := fillBlock_spec (q :: qs) holds
        (fun p mem => valid p (List.mem_cons_of_mem _ mem))
        fun p mem => small p (List.mem_cons_of_mem _ mem)
      rw [fillIndirect, if_neg invalid, is]
      refine ⟨r, _, (fillBlock r blocks (q :: qs)).2, ?_, ⟨rfl, block⟩, ?_, ?_⟩
      · dsimp only
        rw [← is]
      · rw [left, List.cons_append, List.drop_succ_cons, List.drop_succ_cons, drop_append_block]
      · intro p outside
        apply apart
        rintro rfl
        exact outside (by simp)

/-- Filling in the double indirect pointer and its blocks. -/
theorem fillDouble_spec (double : Double blocks inode.diptr ps)
    (room : (ps ++ qs).length ≤ 1 + ptrPerBlock * (1 + ptrPerBlock)) :
    ∃ diptr blocks', fillDouble inode blocks qs = ({ inode with diptr }, blocks') ∧
      Double blocks' diptr (ps ++ qs) ∧
      ∀ p, p ∉ (ps ++ qs).take 1 ++ groupIndex ((ps ++ qs).drop 1) → blocks' p = blocks p := by
  rw [List.length_append] at room
  cases qs with
  | nil => exact ⟨inode.diptr, blocks, rfl, by simpa using double, fun _ _ => rfl⟩
  | cons q qs =>
    cases ps with
    | nil =>
      rw [List.nil_append] at nodup valid small ⊢
      have rest := List.nodup_cons.mp nodup
      obtain ⟨length, filled, others⟩ := fillGroups_spec
        (List.replicate ptrPerBlock inodeInvalidPtr) blocks [] qs (Groups.replicate _ _) rest.2
        (fun p mem => valid p (List.mem_cons_of_mem _ mem))
        (fun p mem => small p (List.mem_cons_of_mem _ mem))
        (by simp only [List.length_replicate, List.length_nil, List.length_cons] at *; omega)
      rw [List.nil_append] at filled others
      rw [List.length_replicate] at length
      have smallDib : ∀ ptr ∈ (fillGroups (List.replicate ptrPerBlock inodeInvalidPtr) blocks qs).1,
          ptr < 2 ^ 32 := by
        intro ptr mem
        rcases filled.mem _ _ ptr mem with none_ | inside
        · rw [none_]
          exact Nat.two_pow_pos 32
        · exact small ptr (List.mem_cons_of_mem _ inside)
      have invalid : inode.diptr = inodeInvalidPtr := double
      rw [fillDouble, if_pos invalid]
      refine ⟨_, _, rfl, ⟨rfl, _, ?_, filled.congr _ _ ?_⟩, ?_⟩
      · rw [Function.update_self, Block.ptrs_ofPtrs length smallDib]
      · intro p mem
        apply Function.update_of_ne
        rintro rfl
        exact rest.1 (groupIndex_subset _ mem)
      · intro p outside
        have apart : p ≠ q := by
          rintro rfl
          exact outside (by simp)
        rw [Function.update_of_ne apart, others p fun mem => outside (List.mem_append_right _ mem)]
    | cons r ps =>
      obtain ⟨is, dib, isDib, groups⟩ := double
      have invalid : inode.diptr ≠ inodeInvalidPtr := is ▸ valid r List.mem_cons_self
      have rest : r ∉ ps ++ q :: qs ∧ (ps ++ q :: qs).Nodup := List.nodup_cons.mp nodup
      have size : dib.length = ptrPerBlock := by simp [← isDib, Block.ptrs]
      subst is
      rw [fillDouble, if_neg invalid]
      dsimp only
      rw [isDib]
      obtain ⟨length, filled, others⟩ := fillGroups_spec dib blocks ps (q :: qs)
        groups rest.2 (fun p mem => valid p (List.mem_cons_of_mem _ mem))
        (fun p mem => small p (List.mem_cons_of_mem _ mem))
        (by rw [size]; simp only [List.length_cons] at *; omega)
      rw [size] at length
      have fresh : inode.diptr ∉ groupIndex (ps ++ q :: qs) := fun mem => rest.1 (groupIndex_subset _ mem)
      have smallDib : ∀ ptr ∈ (fillGroups dib blocks (q :: qs)).1, ptr < 2 ^ 32 := by
        intro ptr mem
        rcases filled.mem _ _ ptr mem with none_ | inside
        · rw [none_]
          exact Nat.two_pow_pos 32
        · exact small ptr (List.mem_cons_of_mem _ inside)
      by_cases same : (fillGroups dib blocks (q :: qs)).1 = dib
      · -- No index block was added.
        rw [if_pos same]
        refine ⟨inode.diptr, _, rfl, ⟨rfl, _, ?_, filled⟩, ?_⟩
        · rw [others _ fresh, isDib, same]
        · intro p outside
          exact others p fun mem => outside (List.mem_append_right _ mem)
      · rw [if_neg same]
        refine ⟨inode.diptr, _, rfl, ⟨rfl, _, ?_, filled.congr _ _ ?_⟩, ?_⟩
        · rw [Function.update_self, Block.ptrs_ofPtrs length smallDib]
        · intro p mem
          apply Function.update_of_ne
          rintro rfl
          exact fresh mem
        · intro p outside
          have apart : p ≠ inode.diptr := by
            rintro rfl
            exact outside (by simp)
          rw [Function.update_of_ne apart]
          exact others p fun mem => outside (List.mem_append_right _ mem)

/-- Filling in pointers appends them to those of the file. -/
theorem fillInode_spec (tree : FileTree inode blocks ps) (room : (ps ++ qs).length ≤ maxPtrs) :
    ∃ dptr idptr diptr blocks',
      fillInode inode blocks qs = ({ inode with dptr, idptr, diptr }, blocks') ∧
      FileTree { inode with dptr, idptr, diptr } blocks' (ps ++ qs) ∧
      ∀ p, p ∉ indexPtrs (ps ++ qs) → blocks' p = blocks p := by
  have filled := fillPtrs_padded (ps.take inodeNdptr) inodeNdptr qs (List.length_take_le _ _)
    fun p mem => valid p (List.mem_append_left _ (List.mem_of_mem_take mem))
  have taken : (ps.take inodeNdptr ++ qs).take inodeNdptr = (ps ++ qs).take inodeNdptr := by
    have fewer : inodeNdptr - min inodeNdptr ps.length = inodeNdptr - ps.length := by omega
    rw [List.take_append, List.take_append, List.take_take, Nat.min_self, List.length_take, fewer]
  have fewer : inodeNdptr - (ps.take inodeNdptr).length = directPtrs - ps.length := by
    rw [List.length_take, directPtrs]
    omega
  rw [taken, fewer, ← tree.direct] at filled
  -- The pointers behind the direct ones.
  have second : (ps ++ qs).drop directPtrs =
      ps.drop directPtrs ++ qs.drop (directPtrs - ps.length) := List.drop_append
  have nodup2 := nodup.sublist (List.drop_sublist directPtrs _)
  rw [second] at nodup2
  have within2 : ∀ p ∈ ps.drop directPtrs ++ qs.drop (directPtrs - ps.length), p ∈ ps ++ qs := by
    intro p mem
    rw [← second] at mem
    exact List.mem_of_mem_drop mem
  obtain ⟨dptr, direct, isDirect⟩ : ∃ dptr left, fillDirect inode qs = ({ inode with dptr }, left) ∧
      dptr.toList = padded ((ps ++ qs).take inodeNdptr) inodeNdptr ∧
      left = qs.drop (directPtrs - ps.length) := by
    refine ⟨_, _, rfl, ?_, ?_⟩
    · simp [filled]
    · rw [filled]
  obtain ⟨isDirect, first, rfl⟩ := isDirect
  obtain ⟨idptr, blocks1, left, isIndirect, indirect, third, others1⟩ :=
    @fillIndirect_spec { inode with dptr } blocks _ _ nodup2 (fun p mem => valid p (within2 p mem))
      (fun p mem => small p (within2 p mem)) tree.indirect
  rw [← second] at indirect third others1
  -- The pointers behind the first index block and its data.
  have total : directPtrs + (1 + ptrPerBlock) = indirectPtrs := by
    simp only [directPtrs, indirectPtrs]
    omega
  rw [List.drop_drop, List.drop_drop, total] at third
  have nodup3 := nodup.sublist (List.drop_sublist indirectPtrs _)
  rw [third] at nodup3
  have within3 : ∀ p ∈ ps.drop indirectPtrs ++ left, p ∈ ps ++ qs := by
    intro p mem
    rw [← third] at mem
    exact List.mem_of_mem_drop mem
  have headFresh : ∀ q ∈ ((ps ++ qs).drop directPtrs).take 1,
      q ∉ (ps ++ qs).drop indirectPtrs := by
    intro q mem inside
    have parts := nodup.sublist (List.drop_sublist directPtrs _)
    rw [← total, ← List.drop_drop] at inside
    rw [← List.take_append_drop (1 + ptrPerBlock) ((ps ++ qs).drop directPtrs),
      List.nodup_append] at parts
    apply parts.2.2 q _ q inside rfl
    exact List.take_subset_take_left _ (by omega) mem
  have double : Double blocks1 inode.diptr (ps.drop indirectPtrs) := by
    apply tree.double.congr
    intro q mem
    apply others1
    intro head
    apply headFresh q head
    rw [third]
    apply List.mem_append_left
    rcases List.mem_append.mp mem with top | below
    · exact List.mem_of_mem_take top
    · exact List.mem_of_mem_drop (groupIndex_subset _ below)
  obtain ⟨diptr, blocks2, isDouble, double, others2⟩ :=
    @fillDouble_spec { inode with dptr, idptr } blocks1 _ _ nodup3
      (fun p mem => valid p (within3 p mem)) (fun p mem => small p (within3 p mem)) double (by
        rw [← third, List.length_drop]
        simp only [maxPtrs] at room
        omega)
  rw [← third] at double others2
  have behind : ((ps ++ qs).drop indirectPtrs).drop 1 = (ps ++ qs).drop (indirectPtrs + 1) :=
    List.drop_drop
  rw [behind] at others2
  refine ⟨dptr, idptr, diptr, blocks2, ?_, ⟨first, ?_, double⟩, ?_⟩
  · rw [fillInode, isDirect]
    dsimp only
    rw [isIndirect]
    exact isDouble
  · apply indirect.congr
    intro q mem
    apply others2
    intro lower
    apply headFresh q mem
    rcases List.mem_append.mp lower with top | below
    · exact List.mem_of_mem_take top
    · rw [← behind] at below
      exact List.mem_of_mem_drop (groupIndex_subset _ below)
  · intro p outside
    simp only [indexPtrs, List.mem_append, not_or] at outside
    rw [others2 p (by simp only [List.mem_append, not_or]; exact ⟨outside.1.2, outside.2⟩),
      others1 p outside.1.1]

end Stages

end GlucOS
