import GlucOS.Volume.DirLaws

/-! Adding an entry to a directory: where it goes, and when there is no room for it. -/

namespace GlucOS

section Blocks

variable {fs : Gfs} {inode : GfsInode} {ps : List Nat} {ptr : Nat}

/-- One block of the bitmap is taken, or all are in use. -/
theorem takeBlock_spec (fs : Gfs) :
    (fs.takeBlock.1 = none ∧ blockBitmap.clear fs.takeBlock.2.bitmaps = [] ∧
        (∀ b, blockBitmap.isSet fs.takeBlock.2.bitmaps.cache b =
          blockBitmap.isSet fs.bitmaps.cache b) ∧
        ∀ sidx, ¬ blockBitmap.has sidx →
          fs.takeBlock.2.bitmaps.cache sidx = fs.bitmaps.cache sidx ∧
            fs.takeBlock.2.bitmaps.disk sidx = fs.bitmaps.disk sidx) ∨
      ∃ b < blockBitmap.bits, fs.takeBlock.1 = some (b + gfsDatalocBlock) ∧
        blockBitmap.isSet fs.bitmaps.cache b = false ∧
        (∀ b', blockBitmap.isSet fs.takeBlock.2.bitmaps.cache b' =
          (blockBitmap.isSet fs.bitmaps.cache b' || decide (b' = b))) ∧
        ∀ sidx, ¬ blockBitmap.has sidx →
          fs.takeBlock.2.bitmaps.cache sidx = fs.bitmaps.cache sidx ∧
            fs.takeBlock.2.bitmaps.disk sidx = fs.bitmaps.disk sidx := by
  have takes := gfsAllocInBitmap_takes blockBitmap 1 fs.bitmaps
  have least := takes.least
  cases clear : blockBitmap.clear fs.bitmaps with
  | nil =>
    left
    rw [clear] at least
    have none_ : (gfsAllocInBitmap 1 blockBitmap fs.bitmaps).2 = [] := least
    have same : ∀ b, blockBitmap.isSet fs.takeBlock.2.bitmaps.cache b =
        blockBitmap.isSet fs.bitmaps.cache b := by
      intro b
      have sets := takes.sets b
      rw [none_] at sets
      exact sets.trans (by simp)
    refine ⟨?_, ?_, same, takes.outside⟩
    · rw [Gfs.takeBlock]
      dsimp only
      rw [none_]
      rfl
    · rw [← clear, SecRange.clear, SecRange.clear]
      apply List.filter_congr
      intro b _
      rw [same b]
  | cons b rest =>
    right
    rw [clear] at least
    have one : (gfsAllocInBitmap 1 blockBitmap fs.bitmaps).2 = [b] := least
    have member : b ∈ blockBitmap.clear fs.bitmaps := by
      rw [clear]
      exact List.mem_cons_self
    rw [SecRange.clear, List.mem_filter, List.mem_range] at member
    refine ⟨b, member.1, ?_, by simpa using member.2, ?_, takes.outside⟩
    · rw [Gfs.takeBlock]
      dsimp only
      rw [one]
      rfl
    · intro b'
      have sets := takes.sets b'
      rw [one] at sets
      exact sets.trans (by simp)

/-- A block that was free is none of a directory's. -/
theorem DirOk.fresh (ok : DirOk fs inode ps) {b : Nat}
    (free : blockBitmap.isSet fs.bitmaps.cache b = false) : b + gfsDatalocBlock ∉ ps := by
  intro mem
  obtain ⟨b', -, isSet, same⟩ := ok.held _ mem
  obtain rfl : b = b' := by omega
  rw [free] at isSet
  cases isSet

/-- A directory with one block more. -/
theorem DirOk.grow (ok : DirOk fs inode ps) (inode' : GfsInode) (blocks : Nat → Block)
    (taken : fs.takeBlock.1 = some ptr) (type : inode'.type = .dir)
    (tree : ptr ∉ ps → ptr ≠ inodeInvalidPtr → ptr < 2 ^ 32 →
      FileTree inode' blocks (ps ++ [ptr])) (few : ps.length < indirectPtrs)
    (outside : ∀ p, p ∉ ps ++ [ptr] → blocks p = fs.vol.blocks p)
    (ended : ptr ∉ ps → ∀ p ∈ dataPtrs (ps ++ [ptr]), (blocks p).Ended) :
    DirStep fs (fs.takeBlock.2.putBlocks blocks) inode inode' ps [ptr] := by
  rcases takeBlock_spec fs with ⟨none_, -⟩ | ⟨b, inside, isPtr, free, sets, others⟩
  · rw [taken] at none_
    cases none_
  · rw [taken, Option.some_inj] at isPtr
    have fresh : ptr ∉ ps := isPtr ▸ ok.fresh free
    have nodup : (ps ++ [ptr]).Nodup := by
      rw [List.nodup_append]
      refine ⟨ok.nodup, List.nodup_singleton ptr, ?_⟩
      intro p mem q one same
      rw [List.mem_singleton.mp one] at same
      exact fresh (same ▸ mem)
    have held : ∀ p ∈ ps ++ [ptr], ∃ b < blockBitmap.bits,
        blockBitmap.isSet fs.takeBlock.2.bitmaps.cache b = true ∧ p = b + gfsDatalocBlock := by
      intro p mem
      rcases List.mem_append.mp mem with old | new
      · obtain ⟨b', inside', isSet, is⟩ := ok.held p old
        exact ⟨b', inside', by rw [sets, isSet, Bool.true_or], is⟩
      · rw [List.mem_singleton.mp new, isPtr]
        exact ⟨b, inside, by simp [sets], rfl⟩
    obtain ⟨-, valid, words⟩ := blocks_of_bits nodup fun p mem => by
      obtain ⟨b', inside', -, is⟩ := held p mem
      exact ⟨b', inside', is⟩
    have last : ptr ∈ ps ++ [ptr] := List.mem_append_right _ List.mem_cons_self
    constructor
    · constructor
      · exact type
      · exact tree fresh (valid ptr last) (words ptr last)
      · rw [List.length_append, List.length_singleton]
        omega
      · exact nodup
      · exact held
      · exact ended fresh
    · exact outside
    · intro b'
      show blockBitmap.isSet fs.takeBlock.2.bitmaps.cache b' = _
      rw [sets, isPtr]
      congr 1
      simp
    · intro q mem
      rw [List.mem_singleton.mp mem]
      exact ⟨b, isPtr, free⟩
    · exact ⟨rfl, rfl, rfl⟩
    · exact others
    · rfl

/-- No block is left, so that nothing happens but that the bitmap was searched. -/
theorem DirOk.noBlock (ok : DirOk fs inode ps) (none_ : fs.takeBlock.1 = none) :
    DirStep fs fs.takeBlock.2 inode inode ps [] ∧
      blockBitmap.clear fs.takeBlock.2.bitmaps = [] := by
  rcases takeBlock_spec fs with ⟨-, clear, same, others⟩ | ⟨b, -, isPtr, -⟩
  · refine ⟨?_, clear⟩
    constructor
    · rw [List.append_nil]
      constructor
      · exact ok.type
      · exact ok.tree
      · exact ok.few
      · exact ok.nodup
      · intro p mem
        obtain ⟨b, inside, isSet, is⟩ := ok.held p mem
        exact ⟨b, inside, by rw [same, isSet], is⟩
      · exact ok.ended
    · exact fun _ _ => rfl
    · simp [same]
    · simp
    · exact ⟨rfl, rfl, rfl⟩
    · exact others
    · rfl
  · rw [none_] at isPtr
    cases isPtr

end Blocks

/-! ## How adding may end -/

/-- How adding an entry ends for a directory, with an answer. -/
inductive Added (fs next : Gfs) (inode inode' : GfsInode) (new : GfsDentry) : Int → Prop
  /-- The entry is there, among those that were there before. -/
  | done {front back : List GfsDentry} :
      fs.vol.entries inode = front ++ back → next.vol.entries inode' = front ++ new :: back →
      inode'.size = inode.size + 1 → Added fs next inode inode' new 0
  /-- The directory is full. -/
  | full : nDentries ≤ inode.size → next = fs → inode' = inode →
      Added fs next inode inode' new 1
  /-- There is no block for it. -/
  | noBlock : next.vol.entries inode' = fs.vol.entries inode → inode'.size = inode.size →
      blockBitmap.clear next.bitmaps = [] → Added fs next inode inode' new 2

/-- Before that the directory may have got a block that holds no entries. -/
theorem Added.behind {fs mid next : Gfs} {inode inode' inode'' : GfsInode} {new : GfsDentry}
    {answer : Int} (added : Added mid next inode' inode'' new answer)
    (same : mid.vol.entries inode' = fs.vol.entries inode) (size : inode'.size = inode.size)
    (room : ¬ nDentries ≤ inode.size) : Added fs next inode inode'' new answer := by
  cases added with
  | done old entries grown => exact .done (same.symm.trans old) entries (by rw [grown, size])
  | full large => exact absurd (size ▸ large) room
  | noBlock old sameSize none_ => exact .noBlock (old.trans same) (sameSize.trans size) none_

section Adding

variable {fs : Gfs} {inode : GfsInode} {ps : List Nat} {fname : CharBuf} {ino : Nat}

/-- An entry that is not used gets the new one. -/
theorem DirOk.slot (ok : DirOk fs inode ps) {ptr j : Nat} (mem : ptr ∈ dataPtrs ps)
    (free : (fs.vol.blocks ptr).freeDent = some j) (clean : ∀ c ∈ fname, c ≠ 0)
    (valid : ino < dentryInvalidIno) :
    DirStep fs (fs.putBlock ptr ((fs.vol.blocks ptr).setDent j fname ino)) inode
        { inode with size := inode.size + 1 } ps [] ∧
      Added fs (fs.putBlock ptr ((fs.vol.blocks ptr).setDent j fname ino)) inode
        { inode with size := inode.size + 1 } ⟨fname.take fnLen, ino⟩ 0 := by
  obtain ⟨inside, unused⟩ := Block.freeDent_some free
  have changed := Block.setDent_changed inside (ok.ended ptr mem) clean valid
  refine ⟨ok.rewrite mem changed.ended _, ?_⟩
  obtain ⟨front, back, old, new⟩ := ok.entries_rewrite mem changed.ended (inode.size + 1)
  obtain ⟨before, after, olds, news⟩ := changed.used inside
  rw [unused] at olds
  have was : fs.vol.entries inode = (front ++ before) ++ (after ++ back) := by
    rw [old, olds]
    simp
  apply Added.done was _ rfl
  rw [new, news]
  simp

/-- A new block with one entry comes behind the others. -/
theorem DirStep.entries_behind {next : Gfs} {inode' : GfsInode} {ptr : Nat}
    (ok : DirOk fs inode ps) (step : DirStep fs next inode inode' ps [ptr])
    (data : dataPtrs (ps ++ [ptr]) = dataPtrs ps ++ [ptr])
    (same : ∀ p ∈ dataPtrs ps, next.vol.blocks p = fs.vol.blocks p)
    (new : (next.vol.blocks ptr).used = [⟨fname.take fnLen, ino⟩])
    (size : inode'.size = inode.size + 1) :
    Added fs next inode inode' ⟨fname.take fnLen, ino⟩ 0 := by
  apply Added.done (List.append_nil (fs.vol.entries inode)).symm _ size
  rw [step.ok.entries_eq, data, List.flatMap_append, ok.entries_eq, List.flatMap_singleton, new]
  congr 1
  apply List.flatMap_congr
  intro p mem
  rw [same p mem]

/-- Behind fewer than ten pointers the next one is a data block. -/
theorem dataPtrs_direct (ptr : Nat) (few : ps.length < inodeNdptr) :
    dataPtrs ps = ps ∧ dataPtrs (ps ++ [ptr]) = ps ++ [ptr] := by
  have bound : inodeNdptr < indirectPtrs := by decide
  have next : directPtrs = inodeNdptr := rfl
  have length : (ps ++ [ptr]).length = ps.length + 1 := by
    rw [List.length_append, List.length_singleton]
  constructor
  · rw [dataPtrs_few (by omega), List.take_of_length_le (by omega),
      List.drop_eq_nil_of_le (by omega), List.append_nil]
  · rw [dataPtrs_few (by omega), List.take_of_length_le (by omega),
      List.drop_eq_nil_of_le (by omega), List.append_nil]

/-- Behind ten pointers the next one is the index block. -/
theorem dataPtrs_index (ptr : Nat) (ten : ps.length = inodeNdptr) :
    dataPtrs (ps ++ [ptr]) = dataPtrs ps := by
  have bound : inodeNdptr < indirectPtrs := by decide
  have next : directPtrs = inodeNdptr := rfl
  have length : (ps ++ [ptr]).length = ps.length + 1 := by
    rw [List.length_append, List.length_singleton]
  rw [dataPtrs_few (by omega), dataPtrs_few (by omega), List.drop_eq_nil_of_le (by omega),
    List.drop_eq_nil_of_le (by omega), List.take_append_of_le_length (by omega)]

/-- Behind the index block there are data blocks again. -/
theorem dataPtrs_indirect (ptr : Nat) (many : directPtrs < ps.length)
    (few : ps.length < indirectPtrs) : dataPtrs (ps ++ [ptr]) = dataPtrs ps ++ [ptr] := by
  have next : directPtrs = inodeNdptr := rfl
  have length : (ps ++ [ptr]).length = ps.length + 1 := by
    rw [List.length_append, List.length_singleton]
  rw [dataPtrs_few (by omega), dataPtrs_few (by omega), List.take_append_of_le_length (by omega),
    List.drop_append_of_le_length (by omega), List.append_assoc]

/-- Ten pointers are those of a directory that has no index block, and no direct pointer left. -/
theorem DirOk.ten (ok : DirOk fs inode ps) (noIndex : inode.idptr = inodeInvalidPtr)
    (many : ¬ ps.length < inodeNdptr) : ps.length = inodeNdptr := by
  -- With more of them the eleventh would be the index block.
  by_contra differ
  have second := ok.tree.indirect
  cases rest : ps.drop directPtrs with
  | nil =>
    have := List.drop_eq_nil_iff.mp rest
    simp only [directPtrs] at this
    omega
  | cons q rs =>
    rw [rest] at second
    exact ok.valid q (List.mem_of_mem_drop (rest ▸ List.mem_cons_self)) (second.1 ▸ noIndex)

/-- Behind ten pointers the index block comes first, which leads nowhere yet. -/
theorem DirOk.index (ok : DirOk fs inode ps) (ten : ps.length = inodeNdptr) {ptr : Nat}
    (taken : fs.takeBlock.1 = some ptr) :
    let next := fs.takeBlock.2.putBlock ptr
      (Block.ofPtrs (List.replicate ptrPerBlock inodeInvalidPtr))
    DirStep fs next inode { inode with idptr := ptr } ps [ptr] ∧
      (∀ p ∈ dataPtrs ps, next.vol.blocks p = fs.vol.blocks p) ∧
      next.vol.entries { inode with idptr := ptr } = fs.vol.entries inode := by
  have few : ps.length < indirectPtrs := by
    rw [ten]
    decide
  intro next
  have isNext : next = fs.takeBlock.2.putBlocks (Function.update fs.vol.blocks ptr
      (Block.ofPtrs (List.replicate ptrPerBlock inodeInvalidPtr))) := rfl
  rw [isNext]
  have data' := dataPtrs_index ptr ten
  have step := ok.grow { inode with idptr := ptr }
    (Function.update fs.vol.blocks ptr
      (Block.ofPtrs (List.replicate ptrPerBlock inodeInvalidPtr))) taken ok.type (by
      intro fresh isPtr word
      constructor
      · rw [List.take_append_of_le_length (by omega)]
        exact ok.tree.direct
      · rw [List.drop_append_of_le_length (by simp only [directPtrs]; omega),
          List.drop_eq_nil_of_le (by simp only [directPtrs]; omega), List.nil_append]
        refine ⟨rfl, ?_⟩
        rw [Function.update_self, List.take_nil, padded, List.nil_append,
          List.length_nil, Nat.sub_zero]
        apply Block.ptrs_ofPtrs
        · exact List.length_replicate
        · intro p mem
          rw [List.eq_of_mem_replicate mem]
          decide
      · have third := ok.tree.double
        rw [List.drop_eq_nil_of_le (by omega)] at third
        rw [List.drop_eq_nil_of_le (by
          rw [List.length_append, List.length_singleton]
          omega)]
        exact third) few (by
      intro p unused
      rw [List.mem_append, not_or, List.mem_singleton] at unused
      exact Function.update_of_ne unused.2 _ _) (by
      intro fresh p mem
      rw [data'] at mem
      rw [update_apart ((dataPtrs_sublist ps).subset mem) fresh]
      exact ok.ended p mem)
  have fresh : ptr ∉ ps := fun mem =>
    (List.nodup_append.mp step.ok.nodup).2.2 ptr mem ptr List.mem_cons_self rfl
  have kept : ∀ p ∈ dataPtrs ps, Function.update fs.vol.blocks ptr
      (Block.ofPtrs (List.replicate ptrPerBlock inodeInvalidPtr)) p =
        fs.vol.blocks p := fun p mem =>
    update_apart ((dataPtrs_sublist ps).subset mem) fresh _
  have same : (fs.takeBlock.2.putBlocks (Function.update fs.vol.blocks ptr
      (Block.ofPtrs (List.replicate ptrPerBlock inodeInvalidPtr)))).vol.entries
        { inode with idptr := ptr } = fs.vol.entries inode := by
    rw [ok.entries_eq]
    refine step.ok.entries_eq.trans ?_
    rw [data']
    apply List.flatMap_congr
    intro p mem
    exact congrArg Block.used (kept p mem)
  exact ⟨step, kept, same⟩

/-- The branch for the indirect block. -/
theorem addDentryIndirect_spec (ok : DirOk fs inode ps) (clean : ∀ c ∈ fname, c ≠ 0)
    (valid : ino < dentryInvalidIno) (many : directPtrs < ps.length)
    (full : ∀ p ∈ ps.take inodeNdptr, (fs.vol.blocks p).freeDent = none)
    (room : (fs.vol.entries inode).length < nDentries) (debbuf : Block) :
    let result := addDentryIndirect fs inode fname ino debbuf
    ∃ qs, DirStep fs result.2.2 inode result.2.1 ps qs ∧
      Added fs result.2.2 inode result.2.1 ⟨fname.take fnLen, ino⟩ result.1 := by
  have second := ok.tree.indirect
  cases rest : ps.drop directPtrs with
  | nil =>
    have := List.drop_eq_nil_iff.mp rest
    omega
  | cons q rs =>
    rw [rest] at second
    obtain ⟨isIndex, holds⟩ := second
    have behind : ps.drop (directPtrs + 1) = rs := by
      rw [← List.drop_drop, rest]
      rfl
    have data : dataPtrs ps = ps.take inodeNdptr ++ rs := by rw [dataPtrs_few ok.few, behind]
    have size : rs.length ≤ ptrPerBlock := by
      have few := ok.few
      rw [← behind, List.length_drop]
      simp only [directPtrs, indirectPtrs] at *
      omega
    have count : ps.length = directPtrs + 1 + rs.length := by
      rw [← behind, List.length_drop]
      omega
    rw [← isIndex, List.take_of_length_le size] at holds
    have inRs : ∀ p ∈ rs, p ∈ dataPtrs ps := fun p mem => by
      rw [data]
      exact List.mem_append_right _ mem
    have inPs : ∀ p ∈ rs, p ∈ ps := fun p mem => (dataPtrs_sublist ps).subset (inRs p mem)
    have indexPs : inode.idptr ∈ ps := by
      rw [isIndex]
      exact List.mem_of_mem_drop (rest ▸ List.mem_cons_self)
    have indexApart : inode.idptr ∉ dataPtrs ps := by
      intro isData
      apply dataPtrs_apart ok.nodup isData
      rw [indexPtrs, rest]
      simp [isIndex]
    unfold addDentryIndirect
    rw [holds]
    dsimp only
    rcases scanPlaces_spec fs.vol.blocks rs ptrPerBlock 0 debbuf size
      (fun p mem => ok.valid p (inPs p mem)) with
      ⟨k, inside, j, found, ends⟩ | ⟨all, debbuf', ends⟩
    · -- An entry of a block that is there.
      rw [ends]
      dsimp only
      have isPtr : (padded rs ptrPerBlock).getD (0 + k) inodeInvalidPtr = rs[k] := by
        rw [Nat.zero_add, padded, List.getD_append _ _ _ _ inside, List.getD_eq_getElem?_getD,
          List.getElem?_eq_getElem inside]
        rfl
      have isData := inRs rs[k] (List.getElem_mem inside)
      have rewritten : (fs.putBlock rs[k] ((fs.vol.blocks rs[k]).setDent j fname ino)).putBlock
          inode.idptr (Block.ofPtrs (padded rs ptrPerBlock)) =
          fs.putBlock rs[k] ((fs.vol.blocks rs[k]).setDent j fname ino) := by
        rw [← holds]
        have kept : Function.update fs.vol.blocks rs[k]
            ((fs.vol.blocks rs[k]).setDent j fname ino) inode.idptr =
              fs.vol.blocks inode.idptr := by
          apply Function.update_of_ne
          intro same
          rw [same] at indexApart
          exact indexApart isData
        unfold Gfs.putBlock Gfs.putBlocks
        dsimp only
        rw [rewrite_index kept]
      rw [isPtr, rewritten]
      exact ⟨[], ok.slot isData found clean valid⟩
    · by_cases more : rs.length < ptrPerBlock
      · rw [if_pos more] at ends
        rw [ends]
        dsimp only
        have few : ps.length < indirectPtrs := by
          simp only [directPtrs, indirectPtrs] at *
          omega
        cases taken : fs.takeBlock.1 with
        | none =>
          obtain ⟨step, none_⟩ := ok.noBlock taken
          have pair : fs.takeBlock = (none, fs.takeBlock.2) := by rw [← taken]
          rw [pair]
          refine ⟨[], step, .noBlock ?_ rfl none_⟩
          rfl
        | some ptr =>
          have pair : fs.takeBlock = (some ptr, fs.takeBlock.2) := by rw [← taken]
          rw [pair]
          dsimp only
          obtain ⟨usedNew, endedNew⟩ := Block.freshDents_used debbuf' clean valid
          -- The index block gets the new pointer, and the new block its entry.
          have blocks : ((fs.takeBlock.2.putBlock ptr (debbuf'.freshDents fname ino)).putBlock
              inode.idptr (Block.ofPtrs ((padded rs ptrPerBlock).set (0 + rs.length) ptr))) =
              fs.takeBlock.2.putBlocks (Function.update (Function.update fs.vol.blocks ptr
                (debbuf'.freshDents fname ino)) inode.idptr
                (Block.ofPtrs (padded (rs ++ [ptr]) ptrPerBlock))) := by
            rw [Nat.zero_add, set_padded ptr more]
            rfl
          rw [blocks]
          have kept : ptr ∉ ps → ∀ p ∈ dataPtrs ps,
              Function.update (Function.update fs.vol.blocks ptr
                (debbuf'.freshDents fname ino)) inode.idptr
                (Block.ofPtrs (padded (rs ++ [ptr]) ptrPerBlock)) p = fs.vol.blocks p := by
            intro fresh p mem
            rw [update_apart mem indexApart,
              update_apart ((dataPtrs_sublist ps).subset mem) fresh]
          have atNew : ptr ∉ ps → Function.update (Function.update fs.vol.blocks ptr
              (debbuf'.freshDents fname ino)) inode.idptr
              (Block.ofPtrs (padded (rs ++ [ptr]) ptrPerBlock)) ptr =
                debbuf'.freshDents fname ino := by
            intro fresh
            have apart : ptr ≠ inode.idptr := by
              intro same
              rw [same] at fresh
              exact fresh indexPs
            rw [Function.update_of_ne apart, Function.update_self]
          have step := ok.grow { inode with size := inode.size + 1 }
            (Function.update (Function.update fs.vol.blocks ptr
              (debbuf'.freshDents fname ino)) inode.idptr
              (Block.ofPtrs (padded (rs ++ [ptr]) ptrPerBlock))) taken ok.type (by
              intro fresh isPtr word
              constructor
              · rw [List.take_append_of_le_length (by
                  simp only [directPtrs] at many
                  omega)]
                exact ok.tree.direct
              · rw [List.drop_append_of_le_length (by omega), rest, List.cons_append]
                refine ⟨isIndex, ?_⟩
                rw [← isIndex, Function.update_self, List.take_of_length_le (by
                  rw [List.length_append, List.length_singleton]
                  omega)]
                apply Block.ptrs_ofPtrs
                · apply padded_length
                  rw [List.length_append, List.length_singleton]
                  omega
                · intro p mem
                  rcases List.mem_append.mp mem with old | zero
                  · rcases List.mem_append.mp old with older | new
                    · obtain ⟨b, inside, -, is⟩ := ok.held p (inPs p older)
                      rw [blockBitmap_bits] at inside
                      have base : gfsDatalocBlock = 457 := rfl
                      omega
                    · rw [List.mem_singleton.mp new]
                      exact word
                  · rw [List.eq_of_mem_replicate zero]
                    decide
              · have third := ok.tree.double
                rw [List.drop_eq_nil_of_le (by omega)] at third
                rw [List.drop_eq_nil_of_le (by
                  rw [List.length_append, List.length_singleton]
                  omega)]
                exact third) few (by
              intro p unused
              rw [List.mem_append, not_or, List.mem_singleton] at unused
              have apart : p ≠ inode.idptr := by
                intro same
                rw [same] at unused
                exact unused.1 indexPs
              rw [Function.update_of_ne apart, Function.update_of_ne unused.2]) (by
              intro fresh p mem
              rw [dataPtrs_indirect ptr many few] at mem
              rcases List.mem_append.mp mem with old | new
              · rw [kept fresh p old]
                exact ok.ended p old
              · rw [List.mem_singleton.mp new, atNew fresh]
                exact endedNew)
          have fresh : ptr ∉ ps := fun mem =>
            (List.nodup_append.mp step.ok.nodup).2.2 ptr mem ptr List.mem_cons_self rfl
          refine ⟨[ptr], step, step.entries_behind ok (dataPtrs_indirect ptr many few)
            (kept fresh) ?_ rfl⟩
          rw [← usedNew]
          exact congrArg Block.used (atNew fresh)
      · -- All blocks are full, which the number of entries excludes.
        exfalso
        have whole : (fs.vol.entries inode).length = (dataPtrs ps).length * dentPerBlock := by
          rw [ok.entries_eq, List.length_flatMap]
          have each : (dataPtrs ps).map (fun p => ((fs.vol.blocks p).used).length) =
              (dataPtrs ps).map fun _ => dentPerBlock := by
            apply List.map_congr_left
            intro p mem
            rw [data] at mem
            rcases List.mem_append.mp mem with direct | indirect
            · exact Block.freeDent_none (full p direct)
            · exact Block.freeDent_none (all p indirect)
          rw [each, List.map_const', List.sum_replicate, smul_eq_mul]
        have length : (dataPtrs ps).length = inodeNdptr + ptrPerBlock := by
          rw [data, List.length_append, List.length_take]
          simp only [directPtrs] at many
          omega
        rw [whole, length, nDentries] at room
        omega

/--
Adding an entry puts it among the others, or says that the directory is full or that no block is
left for it; the directory stays one.
-/
theorem addDentry_spec (ok : DirOk fs inode ps) (clean : ∀ c ∈ fname, c ≠ 0)
    (valid : ino < dentryInvalidIno) (count : inode.size = (fs.vol.entries inode).length)
    (debbuf : Block) :
    let result := addDentry fs inode fname ino debbuf
    ∃ qs, DirStep fs result.2.2 inode result.2.1 ps qs ∧
      Added fs result.2.2 inode result.2.1 ⟨fname.take fnLen, ino⟩ result.1 := by
  unfold addDentry
  rw [if_neg (not_not.mpr ok.type)]
  by_cases large : nDentries ≤ inode.size
  · rw [if_pos large]
    exact ⟨[], .refl ok, .full large rfl rfl⟩
  · rw [if_neg large, ok.tree.direct]
    have room : (fs.vol.entries inode).length < nDentries := by omega
    have inData : ∀ p ∈ ps.take inodeNdptr, p ∈ dataPtrs ps := fun p mem => by
      rw [dataPtrs_few ok.few]
      exact List.mem_append_left _ mem
    have size : (ps.take inodeNdptr).length = min inodeNdptr ps.length := List.length_take
    rcases scanPlaces_spec fs.vol.blocks (ps.take inodeNdptr) inodeNdptr 0 debbuf
      (List.length_take_le _ _) (fun p mem => ok.valid p (List.mem_of_mem_take mem)) with
      ⟨k, inside, j, found, ends⟩ | ⟨all, debbuf', ends⟩
    · rw [ends]
      dsimp only
      have isPtr : (padded (ps.take inodeNdptr) inodeNdptr).getD (0 + k) inodeInvalidPtr =
          (ps.take inodeNdptr)[k] := by
        rw [Nat.zero_add, padded, List.getD_append _ _ _ _ inside, List.getD_eq_getElem?_getD,
          List.getElem?_eq_getElem inside]
        rfl
      rw [isPtr]
      exact ⟨[], ok.slot (inData _ (List.getElem_mem inside)) found clean valid⟩
    · by_cases more : ps.length < inodeNdptr
      · -- A direct pointer is left.
        rw [size, Nat.min_eq_right (Nat.le_of_lt more), if_pos more, Nat.zero_add] at ends
        rw [ends]
        dsimp only
        obtain ⟨data, data'⟩ := dataPtrs_direct (fs.takeBlock.1.getD 0) more
        have few : ps.length < indirectPtrs := Nat.lt_trans more (by decide)
        cases taken : fs.takeBlock.1 with
        | none =>
          obtain ⟨step, none_⟩ := ok.noBlock taken
          have pair : fs.takeBlock = (none, fs.takeBlock.2) := by rw [← taken]
          rw [pair]
          exact ⟨[], step, .noBlock rfl rfl none_⟩
        | some ptr =>
          rw [taken, Option.getD_some] at data'
          have pair : fs.takeBlock = (some ptr, fs.takeBlock.2) := by rw [← taken]
          rw [pair]
          dsimp only
          obtain ⟨usedNew, endedNew⟩ := Block.freshDents_used debbuf' clean valid
          have step := ok.grow { inode with
              dptr := inode.dptr.setIfInBounds ps.length ptr, size := inode.size + 1 }
            (Function.update fs.vol.blocks ptr (debbuf'.freshDents fname ino)) taken
            ok.type (by
              intro fresh isPtr word
              have none_ : ps.drop directPtrs = [] :=
                List.drop_eq_nil_of_le (Nat.le_of_lt more)
              have none' : ps.drop indirectPtrs = [] :=
                List.drop_eq_nil_of_le (Nat.le_of_lt few)
              have length : (ps ++ [ptr]).length = ps.length + 1 := by
                rw [List.length_append, List.length_singleton]
              constructor
              · have direct := ok.tree.direct
                rw [List.take_of_length_le (Nat.le_of_lt more)] at direct
                rw [Vector.toList_setIfInBounds, direct, set_padded ptr more,
                  List.take_of_length_le (by omega)]
              · have second := ok.tree.indirect
                rw [none_] at second
                rw [List.drop_eq_nil_of_le (by
                  rw [length]
                  exact more)]
                exact second
              · have third := ok.tree.double
                rw [none'] at third
                rw [List.drop_eq_nil_of_le (by omega)]
                exact third) few (by
              intro p unused
              rw [List.mem_append, not_or, List.mem_singleton] at unused
              exact Function.update_of_ne unused.2 _ _) (by
              intro fresh p mem
              rw [data'] at mem
              rcases List.mem_append.mp mem with old | new
              · rw [update_apart old fresh]
                exact ok.ended p (by rwa [data])
              · rw [List.mem_singleton.mp new, Function.update_self]
                exact endedNew)
          have fresh : ptr ∉ ps := fun mem =>
            (List.nodup_append.mp step.ok.nodup).2.2 ptr mem ptr List.mem_cons_self rfl
          refine ⟨[ptr], step, step.entries_behind ok (by rw [data', data]) ?_ ?_ rfl⟩
          · intro p mem
            rw [data] at mem
            exact update_apart mem fresh _
          · rw [← usedNew]
            exact congrArg Block.used (Function.update_self ..)
      · rw [size, Nat.min_eq_left (Nat.le_of_not_lt more), if_neg (Nat.lt_irrefl _)] at ends
        rw [ends]
        dsimp only
        by_cases noIndex : inode.idptr = inodeInvalidPtr
        · -- The index block is new.
          rw [if_pos noIndex]
          have ten := ok.ten noIndex more
          cases taken : fs.takeBlock.1 with
          | none =>
            obtain ⟨step, none_⟩ := ok.noBlock taken
            have pair : fs.takeBlock = (none, fs.takeBlock.2) := by rw [← taken]
            rw [pair]
            exact ⟨[], step, .noBlock rfl rfl none_⟩
          | some ptr =>
            have pair : fs.takeBlock = (some ptr, fs.takeBlock.2) := by rw [← taken]
            rw [pair]
            dsimp only
            obtain ⟨step, kept, same⟩ := ok.index ten taken
            obtain ⟨qs, later, added⟩ := addDentryIndirect_spec step.ok clean valid
              (by
                rw [List.length_append, List.length_singleton, ten]
                exact Nat.lt_succ_self _)
              (by
                intro p mem
                rw [List.take_append_of_le_length (by omega)] at mem
                refine (congrArg Block.freeDent (kept p (inData p mem))).trans (all p mem))
              (by
                rw [← same] at room
                exact room) debbuf'
            exact ⟨[ptr] ++ qs, step.trans later, added.behind same rfl large⟩
        · rw [if_neg noIndex]
          apply addDentryIndirect_spec ok clean valid _ all room
          by_contra few
          have second := ok.tree.indirect
          rw [List.drop_eq_nil_of_le (Nat.le_of_not_lt few)] at second
          exact noIndex second

end Adding

end GlucOS
