import GlucOS.Volume.AddLaws
import GlucOS.Volume.Tree

/-! How many blocks a directory takes for an entry. -/

namespace GlucOS

section Room

variable {fs : Gfs} {inode : GfsInode} {ps : List Nat}

/-- A block does not hold more entries than there is room for. -/
theorem Block.used_length (block : Block) : block.used.length ≤ dentPerBlock := by
  rw [Block.used_eq]
  refine (List.length_filterMap_le _ _).trans ?_
  rw [List.length_range]

/-- A block with room holds fewer. -/
theorem Block.used_less {block : Block} {j : Nat} (free : block.freeDent = some j) :
    block.used.length < dentPerBlock := by
  -- The entry that is not used is missing among those that are.
  have length : block.dents.length = dentPerBlock := by
    rw [Block.dents, List.length_map, List.length_range]
  rw [← length, Block.used, List.length_filter_lt_length_iff_exists]
  obtain ⟨inside, is, -⟩ := List.findIdx?_eq_some_iff_getElem.mp free
  exact ⟨_, List.getElem_mem inside, by simpa using is⟩

/-- A directory in which some block has room. -/
theorem DirOk.entries_less (ok : DirOk fs inode ps) {ptr j : Nat} (mem : ptr ∈ dataPtrs ps)
    (free : (fs.vol.blocks ptr).freeDent = some j) :
    (fs.vol.entries inode).length < dataCount ps.length * dentPerBlock := by
  have less : ((dataPtrs ps).map fun p => ((fs.vol.blocks p).used).length).sum <
      ((dataPtrs ps).map fun _ => dentPerBlock).sum := by
    apply List.sum_lt_sum
    · exact fun p _ => Block.used_length _
    · exact ⟨ptr, mem, Block.used_less free⟩
  rw [List.map_const', List.sum_replicate, smul_eq_mul, dataPtrs_length] at less
  rw [ok.entries_eq, List.length_flatMap]
  exact less

/-- A directory in which no block has. -/
theorem DirOk.entries_full (ok : DirOk fs inode ps)
    (full : ∀ p ∈ dataPtrs ps, (fs.vol.blocks p).freeDent = none) :
    (fs.vol.entries inode).length = dataCount ps.length * dentPerBlock := by
  have each : (dataPtrs ps).map (fun p => ((fs.vol.blocks p).used).length) =
      (dataPtrs ps).map fun _ => dentPerBlock :=
    List.map_congr_left fun p mem => Block.freeDent_none (full p mem)
  rw [ok.entries_eq, List.length_flatMap, each, List.map_const', List.sum_replicate,
    smul_eq_mul, dataPtrs_length]

/-- A block that is taken is not free any more. -/
theorem takeBlock_clear (fs : Gfs) :
    (fs.takeBlock.1 = none → (blockBitmap.clear fs.bitmaps).length = 0) ∧
      (fs.takeBlock.1.isSome → (blockBitmap.clear fs.takeBlock.2.bitmaps).length + 1 =
        (blockBitmap.clear fs.bitmaps).length) := by
  have takes := gfsAllocInBitmap_takes blockBitmap 1 fs.bitmaps
  have least := takes.least
  have left := takes.left
  unfold Gfs.takeBlock
  generalize gfsAllocInBitmap 1 blockBitmap fs.bitmaps = taken at *
  dsimp only
  cases clear : blockBitmap.clear fs.bitmaps with
  | nil =>
    rw [clear] at least
    rw [least]
    exact ⟨fun _ => rfl, fun some_ => (by cases some_)⟩
  | cons b rest =>
    rw [clear] at least left
    rw [left, least]
    exact ⟨fun none_ => (by cases none_), fun _ => rfl⟩

end Room

/-- What adding an entry costs a directory: so many blocks, or there are not so many. -/
def Costs (fs : Gfs) (cost : Nat) (answer : Int) (next : Gfs) : Prop :=
  (answer = 0 → (blockBitmap.clear next.bitmaps).length + cost =
    (blockBitmap.clear fs.bitmaps).length) ∧
  (answer = 2 → (blockBitmap.clear fs.bitmaps).length < cost)

section Adding

variable {fs : Gfs} {inode : GfsInode} {ps : List Nat}

/-- The branch for the indirect block. -/
theorem addDentryIndirect_costs (ok : DirOk fs inode ps) (many : directPtrs < ps.length)
    (full : ∀ p ∈ ps.take inodeNdptr, (fs.vol.blocks p).freeDent = none) (fname : CharBuf)
    (ino : Nat) (debbuf : Block) :
    Costs fs (if (fs.vol.entries inode).length < dataCount ps.length * dentPerBlock then 0 else 1)
      (addDentryIndirect fs inode fname ino debbuf).1
      (addDentryIndirect fs inode fname ino debbuf).2.2 := by
  have second := ok.tree.indirect
  cases rest : ps.drop directPtrs with
  | nil =>
    have := List.drop_eq_nil_iff.mp rest
    omega
  | cons q rs =>
    rw [rest] at second
    obtain ⟨isIndex, holds⟩ := second
    have behind : ps.drop (directPtrs + 1) = rs := by
      rw [← List.drop_drop, rest]
      rfl
    have data : dataPtrs ps = ps.take inodeNdptr ++ rs := by rw [dataPtrs_few ok.few, behind]
    have size : rs.length ≤ ptrPerBlock := by
      have few := ok.few
      rw [← behind, List.length_drop]
      simp only [directPtrs, indirectPtrs] at *
      omega
    rw [← isIndex, List.take_of_length_le size] at holds
    have inRs : ∀ p ∈ rs, p ∈ dataPtrs ps := fun p mem => by
      rw [data]
      exact List.mem_append_right _ mem
    unfold addDentryIndirect
    rw [holds]
    dsimp only
    rcases scanPlaces_spec fs.vol.blocks rs ptrPerBlock 0 debbuf size
      (fun p mem => ok.valid p ((dataPtrs_sublist ps).subset (inRs p mem))) with
      ⟨k, inside, j, found, ends⟩ | ⟨all, debbuf', ends⟩
    · -- An entry of a block that is there costs nothing.
      rw [ends, if_pos (ok.entries_less (inRs _ (List.getElem_mem inside)) found)]
      exact ⟨fun _ => Nat.add_zero _, fun two => (by cases two)⟩
    · have whole : (fs.vol.entries inode).length = dataCount ps.length * dentPerBlock := by
        apply ok.entries_full
        intro p mem
        rw [data] at mem
        rcases List.mem_append.mp mem with direct | indirect
        · exact full p direct
        · exact all p indirect
      rw [if_neg (Nat.not_lt.mpr (Nat.le_of_eq whole.symm)), ends]
      by_cases more : rs.length < ptrPerBlock
      · obtain ⟨empty, taken⟩ := takeBlock_clear fs
        rw [if_pos more]
        dsimp only
        generalize fs.takeBlock = result at *
        obtain ⟨ptr, next⟩ := result
        cases ptr with
        | none =>
          refine ⟨fun zero => (by cases zero), fun _ => ?_⟩
          rw [empty rfl]
          exact Nat.one_pos
        | some ptr => exact ⟨fun _ => taken rfl, fun two => (by cases two)⟩
      · rw [if_neg more]
        exact ⟨fun zero => (by cases zero), fun two => (by cases two)⟩

/-- `GFS_add_dentry` takes as many blocks as the entry needs. -/
theorem addDentry_costs (ok : DirOk fs inode ps) (fname : CharBuf) (ino : Nat) (debbuf : Block) :
    Costs fs (entryCost (fs.vol.entries inode).length ps.length)
      (addDentry fs inode fname ino debbuf).1 (addDentry fs inode fname ino debbuf).2.2 := by
  unfold addDentry
  rw [if_neg (not_not.mpr ok.type)]
  by_cases large : nDentries ≤ inode.size
  · rw [if_pos large]
    exact ⟨fun zero => (by cases zero), fun two => (by cases two)⟩
  · rw [if_neg large, ok.tree.direct]
    have inData : ∀ p ∈ ps.take inodeNdptr, p ∈ dataPtrs ps := fun p mem => by
      rw [dataPtrs_few ok.few]
      exact List.mem_append_left _ mem
    have size : (ps.take inodeNdptr).length = min inodeNdptr ps.length := List.length_take
    unfold entryCost
    rcases scanPlaces_spec fs.vol.blocks (ps.take inodeNdptr) inodeNdptr 0 debbuf
      (List.length_take_le _ _) (fun p mem => ok.valid p (List.mem_of_mem_take mem)) with
      ⟨k, inside, j, found, ends⟩ | ⟨all, debbuf', ends⟩
    · rw [ends, if_pos (ok.entries_less (inData _ (List.getElem_mem inside)) found)]
      exact ⟨fun _ => Nat.add_zero _, fun two => (by cases two)⟩
    · obtain ⟨empty, taken⟩ := takeBlock_clear fs
      by_cases more : ps.length < inodeNdptr
      · -- A direct pointer is left, and no block has room.
        have whole := ok.entries_full fun p mem => by
          rw [(dataPtrs_direct 0 more).1] at mem
          exact all p (by rwa [List.take_of_length_le (Nat.le_of_lt more)])
        rw [size, Nat.min_eq_right (Nat.le_of_lt more), if_pos more, Nat.zero_add] at ends
        rw [ends, if_neg (Nat.not_lt.mpr (Nat.le_of_eq whole.symm)), if_neg (Nat.ne_of_lt more)]
        dsimp only
        generalize fs.takeBlock = result at *
        obtain ⟨ptr, next⟩ := result
        cases ptr with
        | none =>
          refine ⟨fun zero => (by cases zero), fun _ => ?_⟩
          rw [empty rfl]
          exact Nat.one_pos
        | some ptr => exact ⟨fun _ => taken rfl, fun two => (by cases two)⟩
      · rw [size, Nat.min_eq_left (Nat.le_of_not_lt more), if_neg (Nat.lt_irrefl _)] at ends
        rw [ends]
        dsimp only
        by_cases noIndex : inode.idptr = inodeInvalidPtr
        · -- The index block is new.
          have ten := ok.ten noIndex more
          have whole := ok.entries_full fun p mem => by
            rw [dataPtrs_few ok.few, List.drop_eq_nil_of_le (by
              simp only [directPtrs]
              omega), List.append_nil] at mem
            exact all p mem
          rw [if_pos noIndex, if_neg (Nat.not_lt.mpr (Nat.le_of_eq whole.symm)), if_pos ten]
          have indexed := @DirOk.index _ _ _ ok ten
          generalize fs.takeBlock = result at *
          obtain ⟨ptr, next⟩ := result
          cases ptr with
          | none =>
            refine ⟨fun zero => (by cases zero), fun _ => ?_⟩
            rw [empty rfl]
            exact Nat.two_pos
          | some ptr =>
            obtain ⟨step, kept, same⟩ := @indexed ptr rfl
            have one := taken rfl
            obtain ⟨added, refused⟩ := addDentryIndirect_costs step.ok (by
              rw [List.length_append, List.length_singleton, ten]
              exact Nat.lt_succ_self _) (by
              intro p mem
              rw [List.take_append_of_le_length (by omega)] at mem
              exact (congrArg Block.freeDent (kept p (inData p mem))).trans (all p mem))
              fname ino debbuf'
            have cost : (if ((fs.vol.entries inode).length <
                dataCount (ps ++ [ptr]).length * dentPerBlock) then 0 else 1) = 1 := by
              rw [whole, ← dataPtrs_length, ← dataPtrs_length, dataPtrs_index ptr ten,
                if_neg (Nat.lt_irrefl _)]
            rw [← same] at cost
            rw [cost] at added refused
            dsimp only at one added refused ⊢
            refine ⟨fun zero => ?_, fun two => ?_⟩
            · have left := added zero
              change _ + 1 = (blockBitmap.clear next.bitmaps).length at left
              change _ + 2 = _
              omega
            · have few := refused two
              change (blockBitmap.clear next.bitmaps).length < 1 at few
              omega
        · rw [if_neg noIndex]
          have many : directPtrs < ps.length := by
            by_contra few
            have second := ok.tree.indirect
            rw [List.drop_eq_nil_of_le (Nat.le_of_not_lt few)] at second
            exact noIndex second
          have notTen : ps.length ≠ inodeNdptr := Nat.ne_of_gt many
          rw [if_neg notTen]
          exact addDentryIndirect_costs ok many all fname ino debbuf'

end Adding

end GlucOS
