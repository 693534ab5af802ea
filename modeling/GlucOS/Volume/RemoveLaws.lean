import GlucOS.Volume.DirLaws

/-! Removing the entries that have a name, and counting those that are there. -/

namespace GlucOS

/-- An entry has another name than this one. -/
def GfsDentry.isOther (fname : CharBuf) (dent : GfsDentry) : Bool := !sameFname dent.fname fname

/-! ## One block -/

section Dents

variable {block : Block} {fname : CharBuf}

/-- An entry of the array. -/
theorem Block.getD_dents {j : Nat} (inside : j < dentPerBlock) (dent : GfsDentry) :
    block.dents.getD j dent = ⟨block.str (dentSize * j), block.inoOf j⟩ := by
  rw [List.getD_eq_getElem?_getD, Block.dents, List.getElem?_map, List.getElem?_range inside]
  rfl

/-- The loop over entries gives up those that have the name. -/
theorem removeDents_spec (fname : CharBuf) (js : List Nat) (nodup : js.Nodup)
    (bounds : ∀ j ∈ js, j < dentPerBlock) (block : Block) (ended : block.Ended) :
    (∀ j < dentPerBlock, (removeDents fname block js).1.entry j =
        if j ∈ js then (block.entry j).filter (GfsDentry.isOther fname) else block.entry j) ∧
      (removeDents fname block js).1.Ended ∧
      (removeDents fname block js).2 =
        (js.filterMap block.entry).countP fun dent => sameFname dent.fname fname := by
  -- The entry that comes first is not among the others, so it keeps what it gets.
  induction js generalizing block with
  | nil => exact ⟨fun j _ => (if_neg List.not_mem_nil).symm, ended, rfl⟩
  | cons first rest ih =>
    obtain ⟨apart, nodup⟩ := List.nodup_cons.mp nodup
    have inside := bounds first List.mem_cons_self
    have later : ∀ j ∈ rest, j < dentPerBlock := fun j mem => bounds j (List.mem_cons_of_mem _ mem)
    rw [removeDents]
    dsimp only
    rw [Block.getD_dents inside]
    by_cases same : block.inoOf first ≠ dentryInvalidIno ∧
        sameFname (block.str (dentSize * first)) fname = true
    · -- This entry has the name.
      have isEntry : block.entry first =
          some ⟨block.str (dentSize * first), block.inoOf first⟩ := if_neg same.1
      have changed := Block.setIno_changed inside ended
      obtain ⟨entries, ended', count⟩ := ih nodup later _ changed.ended
      rw [if_pos same]
      refine ⟨?_, ended', ?_⟩
      · intro j inside'
        rw [entries j inside', changed.entries j inside']
        by_cases here : j = first
        · subst here
          rw [Function.update_self, if_neg apart, if_pos List.mem_cons_self, isEntry,
            Option.filter_some, GfsDentry.isOther, same.2]
          rfl
        · rw [Function.update_of_ne here]
          simp only [List.mem_cons, here, false_or]
      · have others : rest.filterMap (block.setIno first dentryInvalidIno).entry =
            rest.filterMap block.entry := by
          apply List.filterMap_congr
          intro j mem
          rw [changed.entries j (later j mem)]
          exact update_apart mem apart none
        rw [count, others, List.filterMap_cons_some isEntry, List.countP_cons]
        dsimp only
        rw [if_pos same.2]
    · -- This entry stays.
      obtain ⟨entries, ended', count⟩ := ih nodup later block ended
      have stays : (block.entry first).filter (GfsDentry.isOther fname) = block.entry first ∧
          (first :: rest).filterMap block.entry =
            (block.entry first).toList ++ rest.filterMap block.entry ∧
          (block.entry first).toList.countP (fun dent => sameFname dent.fname fname) = 0 := by
        cases isEntry : block.entry first with
        | none => exact ⟨rfl, List.filterMap_cons_none isEntry, rfl⟩
        | some dent =>
          have other : sameFname dent.fname fname = false := by
            unfold Block.entry at isEntry
            by_cases unused : block.inoOf first = dentryInvalidIno
            · rw [if_pos unused] at isEntry
              cases isEntry
            · rw [if_neg unused, Option.some_inj] at isEntry
              subst isEntry
              rw [not_and] at same
              simpa using same unused
          refine ⟨?_, List.filterMap_cons_some isEntry, ?_⟩
          · rw [Option.filter_some, GfsDentry.isOther, other]
            rfl
          · simp [other]
      rw [if_neg same]
      refine ⟨?_, ended', ?_⟩
      · intro j inside'
        rw [entries j inside']
        by_cases here : j = first
        · subst here
          rw [if_neg apart, if_pos List.mem_cons_self, stays.1]
        · simp only [List.mem_cons, here, false_or]
      · rw [count, stays.2.1, List.countP_append, stays.2.2, Nat.zero_add]

/-- The loop over a whole block leaves the entries that have other names. -/
theorem removeDents_used (fname : CharBuf) (block : Block) (ended : block.Ended) :
    (removeDents fname block (List.range dentPerBlock)).1.used =
        block.used.filter (GfsDentry.isOther fname) ∧
      (removeDents fname block (List.range dentPerBlock)).1.Ended ∧
      (removeDents fname block (List.range dentPerBlock)).2 =
        block.used.countP fun dent => sameFname dent.fname fname := by
  obtain ⟨entries, ended', count⟩ := removeDents_spec fname (List.range dentPerBlock)
    List.nodup_range (fun j mem => List.mem_range.mp mem) block ended
  refine ⟨?_, ended', by rw [count, Block.used_eq]⟩
  rw [Block.used_eq, Block.used_eq, List.filter_filterMap]
  apply List.filterMap_congr
  intro j mem
  rw [entries j (List.mem_range.mp mem), if_pos mem]

/-- Entries of which none has the name all stay. -/
theorem filter_isOther {dents : List GfsDentry}
    (none_ : dents.countP (fun dent => sameFname dent.fname fname) = 0) :
    dents.filter (GfsDentry.isOther fname) = dents := by
  rw [List.countP_eq_zero] at none_
  apply List.filter_eq_self.mpr
  intro dent mem
  rw [GfsDentry.isOther]
  simpa using none_ dent mem

end Dents

/-! ## An array of pointers -/

section Arrays

variable {fname : CharBuf}

/-- `remove_dentry_on_ptr_arr` leaves the entries that have other names. -/
theorem removeDentryOnPtrArr_spec (fname : CharBuf) (parr ds : List Nat) (blocks : Nat → Block)
    (are : (parr.filter fun ptr => ptr ≠ inodeInvalidPtr) = ds) (nodup : ds.Nodup)
    (ended : ∀ p ∈ ds, (blocks p).Ended) :
    (∀ p, p ∉ ds → (removeDentryOnPtrArr fname blocks parr).1 p = blocks p) ∧
      (∀ p ∈ ds, ((removeDentryOnPtrArr fname blocks parr).1 p).used =
          (blocks p).used.filter (GfsDentry.isOther fname) ∧
        ((removeDentryOnPtrArr fname blocks parr).1 p).Ended) ∧
      (removeDentryOnPtrArr fname blocks parr).2 =
        (ds.flatMap fun p => (blocks p).used).countP fun dent => sameFname dent.fname fname := by
  -- A block that has been dealt with comes up no second time.
  induction parr generalizing ds blocks with
  | nil =>
    subst are
    exact ⟨fun _ _ => rfl, fun _ mem => absurd mem List.not_mem_nil, rfl⟩
  | cons ptr parr ih =>
    rw [removeDentryOnPtrArr]
    by_cases invalid : ptr = inodeInvalidPtr
    · rw [if_pos invalid]
      apply ih ds blocks _ nodup ended
      rw [← are, List.filter_cons_of_neg (by simpa using invalid)]
    · rw [List.filter_cons_of_pos (by simpa using invalid)] at are
      subst are
      obtain ⟨apart, nodup⟩ := List.nodup_cons.mp nodup
      obtain ⟨used, endedHere, count⟩ :=
        removeDents_used fname (blocks ptr) (ended ptr List.mem_cons_self)
      rw [if_neg invalid]
      generalize removeDents fname (blocks ptr) (List.range dentPerBlock) = removed at *
      obtain ⟨block, here⟩ := removed
      dsimp only at *
      -- Where no entry has the name the block is not written.
      generalize isNext : (if 0 < here then Function.update blocks ptr block else blocks) = next
      have others : ∀ p, p ≠ ptr → next p = blocks p := by
        intro p differs
        rw [← isNext]
        split
        · exact Function.update_of_ne differs _ _
        · rfl
      have atPtr : (next ptr).used = (blocks ptr).used.filter (GfsDentry.isOther fname) ∧
          (next ptr).Ended := by
        rw [← isNext]
        by_cases some_ : 0 < here
        · rw [if_pos some_, Function.update_self]
          exact ⟨used, endedHere⟩
        · rw [if_neg some_, filter_isOther (by omega)]
          exact ⟨rfl, ended ptr List.mem_cons_self⟩
      have same : ∀ p ∈ parr.filter (fun ptr => ptr ≠ inodeInvalidPtr), next p = blocks p := by
        intro p mem
        apply others
        intro is
        exact apart (is ▸ mem)
      obtain ⟨outside, inside, total⟩ := ih _ next rfl nodup fun p mem => by
        rw [same p mem]
        exact ended p (List.mem_cons_of_mem _ mem)
      refine ⟨?_, ?_, ?_⟩
      · intro p unused
        rw [List.mem_cons, not_or] at unused
        rw [outside p unused.2, others p unused.1]
      · intro p mem
        rcases List.mem_cons.mp mem with rfl | later
        · rw [outside p apart]
          exact atPtr
        · rw [← same p later]
          exact inside p later
      · have rest : (parr.filter fun ptr => ptr ≠ inodeInvalidPtr).flatMap
            (fun p => (next p).used) =
            (parr.filter fun ptr => ptr ≠ inodeInvalidPtr).flatMap fun p => (blocks p).used := by
          apply List.flatMap_congr
          intro p mem
          rw [same p mem]
        rw [total, rest, List.flatMap_cons, List.countP_append, count]

/-- `scan_dentries_on_ptr_arr` counts the entries that are used. -/
theorem scanDentriesOnPtrArr_eq (blocks : Nat → Block) (parr : List Nat) :
    scanDentriesOnPtrArr blocks parr =
      ((parr.filter fun ptr => ptr ≠ inodeInvalidPtr).flatMap fun ptr =>
        (blocks ptr).used).length := by
  induction parr with
  | nil => rfl
  | cons ptr parr ih =>
    unfold scanDentriesOnPtrArr at *
    rw [List.map_cons, List.sum_cons, ih]
    by_cases invalid : ptr = inodeInvalidPtr
    · rw [if_pos invalid, List.filter_cons_of_neg (by simpa using invalid), Nat.zero_add]
    · rw [if_neg invalid, List.filter_cons_of_pos (by simpa using invalid), List.flatMap_cons,
        List.length_append, Block.used, List.countP_eq_length_filter]

/-- `do_readdir` counts the entries of a directory. -/
theorem readdirInode_eq (vol : GfsVolume) (inode : GfsInode) (isDir : inode.type = .dir) :
    readdirInode vol inode = (vol.entries inode).length := by
  unfold readdirInode GfsVolume.entries
  rw [if_neg (not_not.mpr isDir), scanDentriesOnPtrArr_eq]
  dsimp only
  rw [List.filter_append, List.flatMap_append, List.length_append]
  by_cases none_ : inode.idptr = inodeInvalidPtr
  · rw [if_neg (not_not.mpr none_), if_pos none_]
    rfl
  · rw [if_pos none_, if_neg none_, scanDentriesOnPtrArr_eq]
    rfl

end Arrays

/-! ## A directory -/

section Directories

variable {fs : Gfs} {inode : GfsInode} {ps : List Nat}

/-- The blocks of a directory that hold entries, below its own pointers and below the others. -/
theorem DirOk.halves (ok : DirOk fs inode ps) : ∃ ds rs, dataPtrs ps = ds ++ rs ∧
    (inode.dptr.toList.filter fun ptr => ptr ≠ inodeInvalidPtr) = ds ∧
    (inode.idptr = inodeInvalidPtr → rs = []) ∧
    (inode.idptr ≠ inodeInvalidPtr → inode.idptr ∉ dataPtrs ps ∧
      ((fs.vol.blocks inode.idptr).ptrs.filter fun ptr => ptr ≠ inodeInvalidPtr) = rs) := by
  have valid := ok.valid
  have second := ok.tree.indirect
  refine ⟨ps.take inodeNdptr, ps.drop (directPtrs + 1), dataPtrs_few ok.few, ?_, ?_⟩
  · rw [ok.tree.direct]
    exact filter_padded _ fun p mem => valid p (List.mem_of_mem_take mem)
  · cases rest : ps.drop directPtrs with
    | nil =>
      rw [rest] at second
      have none_ : ps.drop (directPtrs + 1) = [] := by
        rw [← List.drop_drop, rest]
        rfl
      exact ⟨fun _ => none_, fun some_ => absurd second some_⟩
    | cons q rs =>
      rw [rest] at second
      obtain ⟨isIndex, holds⟩ := second
      have behind : ps.drop (directPtrs + 1) = rs := by
        rw [← List.drop_drop, rest]
        rfl
      have size : rs.length ≤ ptrPerBlock := by
        have few := ok.few
        rw [← behind, List.length_drop]
        simp only [directPtrs, indirectPtrs] at *
        omega
      have isPtr : q ≠ inodeInvalidPtr :=
        valid q (List.mem_of_mem_drop (rest ▸ List.mem_cons_self))
      refine ⟨fun none_ => absurd (isIndex ▸ none_) isPtr, fun _ => ⟨?_, ?_⟩⟩
      · intro isData
        apply dataPtrs_apart ok.nodup isData
        rw [indexPtrs, rest]
        simp [isIndex]
      · rw [isIndex, holds, behind, List.take_of_length_le size]
        apply filter_padded
        intro p mem
        exact valid p (List.mem_of_mem_drop (rest ▸ List.mem_cons_of_mem _ mem))

/-- Removing a name leaves a directory with the entries that have other names. -/
theorem removeDentryInDirInode_spec (ok : DirOk fs inode ps) (fname : CharBuf) :
    let result := removeDentryInDirInode fs inode fname
    DirStep fs result.2.2 inode result.2.1 ps [] ∧
      result.2.2.vol.entries result.2.1 =
        (fs.vol.entries inode).filter (GfsDentry.isOther fname) ∧
      result.1 = (fs.vol.entries inode).countP (fun dent => sameFname dent.fname fname) ∧
      result.2.1.size =
        if inode.size < result.1 + 2 then inode.size else inode.size - result.1 := by
  obtain ⟨ds, rs, data, direct, noIndex, index⟩ := ok.halves
  have nodup := ok.nodup.sublist (dataPtrs_sublist ps)
  have ended := ok.ended
  rw [data] at nodup ended
  obtain ⟨nodup1, nodup2, apart⟩ := List.nodup_append.mp nodup
  obtain ⟨outside1, inside1, count1⟩ := removeDentryOnPtrArr_spec fname
    inode.dptr.toList ds fs.vol.blocks direct nodup1 fun p mem =>
      ended p (List.mem_append_left _ mem)
  -- Both arrays together leave these blocks.
  have both : ∃ blocks count, (∀ p, p ∉ dataPtrs ps → blocks p = fs.vol.blocks p) ∧
      (∀ p ∈ dataPtrs ps,
        (blocks p).used = (fs.vol.blocks p).used.filter (GfsDentry.isOther fname) ∧
          (blocks p).Ended) ∧
      count = (fs.vol.entries inode).countP (fun dent => sameFname dent.fname fname) ∧
      removeDentryInDirInode fs inode fname =
        (count, { inode with size :=
          if inode.size < count + 2 then inode.size else inode.size - count },
          fs.putBlocks blocks) := by
    unfold removeDentryInDirInode
    rw [if_neg (not_not.mpr ok.type), ok.entries_eq, data]
    generalize removeDentryOnPtrArr fname fs.vol.blocks inode.dptr.toList = first at *
    obtain ⟨blocks1, direct1⟩ := first
    dsimp only at *
    by_cases none_ : inode.idptr = inodeInvalidPtr
    · rw [if_neg (not_not.mpr none_)]
      have empty := noIndex none_
      subst empty
      rw [List.append_nil]
      exact ⟨blocks1, direct1, outside1, inside1, count1, rfl⟩
    · obtain ⟨indexApart, indirect⟩ := index none_
      rw [data] at indexApart
      have kept : blocks1 inode.idptr = fs.vol.blocks inode.idptr :=
        outside1 _ fun mem => indexApart (List.mem_append_left _ mem)
      have same : ∀ p ∈ rs, blocks1 p = fs.vol.blocks p := fun p mem =>
        outside1 p fun early => apart p early p mem rfl
      rw [if_pos none_, kept]
      obtain ⟨outside2, inside2, count2⟩ := removeDentryOnPtrArr_spec fname
        (fs.vol.blocks inode.idptr).ptrs rs blocks1 indirect nodup2 fun p mem => by
          rw [same p mem]
          exact ended p (List.mem_append_right _ mem)
      generalize removeDentryOnPtrArr fname blocks1 (fs.vol.blocks inode.idptr).ptrs = second at *
      obtain ⟨blocks2, indirect2⟩ := second
      dsimp only at *
      refine ⟨blocks2, direct1 + indirect2, ?_, ?_, ?_, rfl⟩
      · intro p unused
        rw [List.mem_append, not_or] at unused
        rw [outside2 p unused.2, outside1 p unused.1]
      · intro p mem
        rcases List.mem_append.mp mem with early | late
        · rw [outside2 p fun late => apart p early p late rfl]
          exact inside1 p early
        · rw [← same p late]
          exact inside2 p late
      · have rest : rs.flatMap (fun p => (blocks1 p).used) =
            rs.flatMap fun p => (fs.vol.blocks p).used := by
          apply List.flatMap_congr
          intro p mem
          rw [same p mem]
        rw [count1, count2, rest, List.flatMap_append, List.countP_append]
  obtain ⟨blocks, count, outside, inside, isCount, is⟩ := both
  rw [is]
  dsimp only
  have step := ok.rewriteAll outside (fun p mem => (inside p mem).2)
    (if inode.size < count + 2 then inode.size else inode.size - count)
  refine ⟨step, ?_, isCount, rfl⟩
  have entries := step.ok.entries_eq
  rw [List.append_nil] at entries
  rw [entries, ok.entries_eq, List.filter_flatMap]
  apply List.flatMap_congr
  intro p mem
  exact (inside p mem).1

end Directories

end GlucOS
