import GlucOS.Gfs.FileLaws
import GlucOS.Volume.DentLaws

/-! A directory is a list of entries: what adding and removing one does to it. -/

namespace GlucOS

/-! ## Directories -/

/-- A directory whose pointers are filled in one after the other. -/
structure DirOk (fs : Gfs) (inode : GfsInode) (ps : List Nat) : Prop where
  /-- It is one. -/
  type : inode.type = .dir
  /-- Its pointers. -/
  tree : FileTree inode fs.vol.blocks ps
  /-- It has no double indirect block. -/
  few : ps.length ≤ indirectPtrs
  /-- No block is used twice. -/
  nodup : ps.Nodup
  /-- Its blocks are allocated. -/
  held : ∀ p ∈ ps, ∃ b < blockBitmap.bits,
    blockBitmap.isSet fs.bitmaps.cache b = true ∧ p = b + gfsDatalocBlock
  /-- The names in them end. -/
  ended : ∀ p ∈ dataPtrs ps, (fs.vol.blocks p).Ended

section Shape

variable {fs : Gfs} {inode : GfsInode} {ps : List Nat}

/-- Pointers of a directory lead somewhere. -/
theorem DirOk.valid (ok : DirOk fs inode ps) : ∀ p ∈ ps, p ≠ inodeInvalidPtr :=
  (blocks_of_bits ok.nodup fun p mem => by
    obtain ⟨b, inside, -, is⟩ := ok.held p mem
    exact ⟨b, inside, is⟩).2.1

/-- Without a double indirect block the data blocks are those below the other pointers. -/
theorem dataPtrs_few (few : ps.length ≤ indirectPtrs) :
    dataPtrs ps = ps.take inodeNdptr ++ ps.drop (directPtrs + 1) := by
  have none_ : ps.drop (indirectPtrs + 1) = [] := List.drop_eq_nil_of_le (by omega)
  have rest : (ps.drop (directPtrs + 1)).length ≤ ptrPerBlock := by
    rw [List.length_drop]
    simp only [directPtrs, indirectPtrs] at *
    omega
  rw [dataPtrs, none_, groupData, List.append_nil, List.take_of_length_le rest]

/-- Pointers that lead somewhere are those of a padded array. -/
theorem filter_padded {ds : List Nat} (n : Nat) (valid : ∀ p ∈ ds, p ≠ inodeInvalidPtr) :
    ((padded ds n).filter fun ptr => ptr ≠ inodeInvalidPtr) = ds := by
  rw [padded, List.filter_append, List.filter_eq_self.mpr (by simpa using valid),
    List.filter_eq_nil_iff.mpr, List.append_nil]
  intro ptr mem
  rw [List.eq_of_mem_replicate mem]
  simp

/-- The entries of a directory are the used ones of its data blocks. -/
theorem DirOk.entries_eq (ok : DirOk fs inode ps) :
    fs.vol.entries inode = (dataPtrs ps).flatMap fun p => (fs.vol.blocks p).used := by
  have valid := ok.valid
  have second := ok.tree.indirect
  unfold GfsVolume.entries
  dsimp only
  rw [List.filter_append, ok.tree.direct, filter_padded _ fun p mem =>
    valid p (List.mem_of_mem_take mem)]
  rw [dataPtrs_few ok.few]
  cases rest : ps.drop directPtrs with
  | nil =>
    rw [rest] at second
    have none_ : ps.drop (directPtrs + 1) = [] := by
      rw [← List.drop_drop, rest]
      rfl
    have gone : inode.idptr = inodeInvalidPtr := second
    rw [if_pos gone, none_]
    rfl
  | cons q rs =>
    rw [rest] at second
    obtain ⟨rfl, holds⟩ := second
    have behind : ps.drop (directPtrs + 1) = rs := by
      rw [← List.drop_drop, rest]
      rfl
    have isPtr : inode.idptr ≠ inodeInvalidPtr :=
      valid _ (List.mem_of_mem_drop (rest ▸ List.mem_cons_self))
    have size : rs.length ≤ ptrPerBlock := by
      have few := ok.few
      rw [← behind, List.length_drop]
      simp only [directPtrs, indirectPtrs] at *
      omega
    rw [if_neg isPtr, holds, filter_padded _ fun p mem => valid p
      (List.mem_of_mem_drop (rest ▸ List.mem_cons_of_mem _ (List.mem_of_mem_take mem))),
      behind, List.take_of_length_le size]
    rfl

end Shape

/-! ## Looking for room -/

/-- The scan of an array ends at the first block with room, or behind the last block. -/
theorem scanPlaces_spec (blocks : Nat → Block) (ds : List Nat) (n i : Nat) (debbuf : Block)
    (fits : ds.length ≤ n) (valid : ∀ p ∈ ds, p ≠ inodeInvalidPtr) :
    (∃ k, ∃ inside : k < ds.length, ∃ j, (blocks ds[k]).freeDent = some j ∧
        scanPlaces blocks (padded ds n) i debbuf = .slot (i + k) j) ∨
      (∀ p ∈ ds, (blocks p).freeDent = none) ∧ ∃ debbuf',
        scanPlaces blocks (padded ds n) i debbuf =
          if ds.length < n then .fresh (i + ds.length) debbuf' else .full debbuf' := by
  -- The induction follows the blocks that are there.
  induction ds generalizing n i debbuf with
  | nil =>
    right
    refine ⟨fun p mem => (by cases mem), debbuf, ?_⟩
    rw [padded, List.nil_append, List.length_nil, Nat.sub_zero]
    cases n with
    | zero => rfl
    | succ n =>
      rw [List.replicate_succ, scanPlaces, if_pos rfl, if_pos (Nat.succ_pos n)]
      rfl
  | cons ptr ds ih =>
    rw [List.length_cons] at fits
    have parts : padded (ptr :: ds) n = ptr :: padded ds (n - 1) := by
      rw [padded, padded, List.cons_append, List.length_cons]
      congr 3
      omega
    rw [parts, scanPlaces, if_neg (valid ptr List.mem_cons_self)]
    cases free : (blocks ptr).freeDent with
    | some j =>
      left
      exact ⟨0, Nat.succ_pos _, j, free, rfl⟩
    | none =>
      rcases ih (n - 1) (i + 1) (blocks ptr) (by omega)
        (fun p mem => valid p (List.mem_cons_of_mem _ mem)) with
        ⟨k, inside, j, found, ends⟩ | ⟨all, debbuf', ends⟩
      · left
        refine ⟨k + 1, Nat.succ_lt_succ inside, j, found, ?_⟩
        dsimp only
        rw [ends]
        congr 1
        omega
      · right
        refine ⟨?_, debbuf', ?_⟩
        · intro p mem
          rcases List.mem_cons.mp mem with rfl | later
          · exact free
          · exact all p later
        · dsimp only
          rw [ends, List.length_cons]
          by_cases more : ds.length < n - 1
          · rw [if_pos more, if_pos (by omega)]
            congr 1
            omega
          · rw [if_neg more, if_neg (by omega)]

/-- The place behind the pointers of an array gets the next one. -/
theorem set_padded {ds : List Nat} {n : Nat} (ptr : Nat) (fits : ds.length < n) :
    (padded ds n).set ds.length ptr = padded (ds ++ [ptr]) n := by
  rw [padded, padded, List.set_append_right _ _ (Nat.le_refl _), Nat.sub_self, List.append_assoc,
    List.length_append, List.length_singleton, show n - ds.length = (n - (ds.length + 1)) + 1 by
      omega, List.replicate_succ]
  rfl

/-! ## What a call does to a directory -/

/-- A directory may have got new blocks, and no other block has changed. -/
structure DirStep (fs next : Gfs) (inode inode' : GfsInode) (ps qs : List Nat) : Prop where
  /-- The directory. -/
  ok : DirOk next inode' (ps ++ qs)
  /-- Blocks elsewhere. -/
  outside : ∀ p, p ∉ ps ++ qs → next.vol.blocks p = fs.vol.blocks p
  /-- Exactly the new blocks are taken. -/
  bits : ∀ b, blockBitmap.isSet next.bitmaps.cache b =
    (blockBitmap.isSet fs.bitmaps.cache b || decide (b + gfsDatalocBlock ∈ qs))
  /-- They were free. -/
  free : ∀ q ∈ qs, ∃ b, q = b + gfsDatalocBlock ∧ blockBitmap.isSet fs.bitmaps.cache b = false
  /-- The inodes of the volume stay. -/
  inodes : next.vol.inodes = fs.vol.inodes ∧ next.vol.inodeNum = fs.vol.inodeNum ∧
    next.inodesOnDisk = fs.inodesOnDisk
  /-- No other bitmap changes. -/
  others : ∀ sidx, ¬ blockBitmap.has sidx → next.bitmaps.cache sidx = fs.bitmaps.cache sidx ∧
    next.bitmaps.disk sidx = fs.bitmaps.disk sidx
  /-- Open files stay. -/
  fds : next.fds = fs.fds

section Steps

variable {fs mid next : Gfs} {inode inode' inode'' : GfsInode} {ps qs rs : List Nat}

/-- Nothing happens. -/
theorem DirStep.refl (ok : DirOk fs inode ps) : DirStep fs fs inode inode ps [] where
  ok := by rwa [List.append_nil]
  outside := fun _ _ => rfl
  bits := by simp
  free := by simp
  inodes := ⟨rfl, rfl, rfl⟩
  others := fun _ _ => ⟨rfl, rfl⟩
  fds := rfl

/-- One call after the other. -/
theorem DirStep.trans (first : DirStep fs mid inode inode' ps qs)
    (second : DirStep mid next inode' inode'' (ps ++ qs) rs) :
    DirStep fs next inode inode'' ps (qs ++ rs) where
  ok := by
    rw [← List.append_assoc]
    exact second.ok
  outside := by
    intro p unused
    rw [← List.append_assoc] at unused
    rw [second.outside p unused, first.outside p fun mem => unused (List.mem_append_left _ mem)]
  bits := by
    intro b
    rw [second.bits, first.bits, Bool.or_assoc]
    congr 1
    simp [Bool.decide_or]
  free := by
    intro q mem
    rcases List.mem_append.mp mem with old | new
    · exact first.free q old
    · obtain ⟨b, is, clear⟩ := second.free q new
      rw [first.bits, Bool.or_eq_false_iff] at clear
      exact ⟨b, is, clear.1⟩
  inodes := by
    obtain ⟨inodes, inodeNum, onDisk⟩ := second.inodes
    rw [inodes, inodeNum, onDisk]
    exact first.inodes
  others := by
    intro sidx outside
    rw [(second.others sidx outside).1, (second.others sidx outside).2]
    exact first.others sidx outside
  fds := by rw [second.fds, first.fds]

/-- Blocks of the directory rewritten, with names that end. -/
theorem DirOk.rewriteAll (ok : DirOk fs inode ps) {blocks : Nat → Block}
    (outside : ∀ p, p ∉ dataPtrs ps → blocks p = fs.vol.blocks p)
    (ended : ∀ p ∈ dataPtrs ps, (blocks p).Ended) (size : Nat) :
    DirStep fs (fs.putBlocks blocks) inode { inode with size } ps [] := by
  constructor
  · rw [List.append_nil]
    constructor
    · exact ok.type
    · refine ok.tree.congr rfl rfl rfl ?_
      intro p isIndex
      apply outside
      intro isData
      exact dataPtrs_apart ok.nodup isData isIndex
    · exact ok.few
    · exact ok.nodup
    · exact ok.held
    · exact ended
  · intro p unused
    rw [List.append_nil] at unused
    exact outside p fun isData => unused ((dataPtrs_sublist ps).subset isData)
  · simp [Gfs.putBlocks]
  · simp
  · exact ⟨rfl, rfl, rfl⟩
  · exact fun _ _ => ⟨rfl, rfl⟩
  · rfl

/-- One block of them. -/
theorem DirOk.rewrite (ok : DirOk fs inode ps) {ptr : Nat} (mem : ptr ∈ dataPtrs ps)
    {block : Block} (ended : block.Ended) (size : Nat) :
    DirStep fs (fs.putBlock ptr block) inode { inode with size } ps [] := by
  apply ok.rewriteAll
  · intro p unused
    apply Function.update_of_ne
    intro same
    rw [same] at unused
    exact unused mem
  · intro p isData
    by_cases here : p = ptr
    · rw [here, Function.update_self]
      exact ended
    · rw [Function.update_of_ne here]
      exact ok.ended p isData

/-- The entries around those of a rewritten block. -/
theorem DirOk.entries_rewrite (ok : DirOk fs inode ps) {ptr : Nat} (mem : ptr ∈ dataPtrs ps)
    {block : Block} (ended : block.Ended) (size : Nat) :
    ∃ front back, fs.vol.entries inode = front ++ ((fs.vol.blocks ptr).used ++ back) ∧
      (fs.putBlock ptr block).vol.entries { inode with size } =
        front ++ (block.used ++ back) := by
  have step := (ok.rewrite mem ended size).ok
  rw [List.append_nil] at step
  obtain ⟨front, back, old, new⟩ := flatMap_update
    (ok.nodup.sublist (dataPtrs_sublist ps)) mem (fun p => (fs.vol.blocks p).used) block.used
  refine ⟨front, back, by rw [ok.entries_eq, old], ?_⟩
  rw [step.entries_eq, ← new]
  apply List.flatMap_congr
  intro p _
  by_cases here : p = ptr
  · subst here
    rw [Function.update_self, Gfs.putBlock, Gfs.putBlocks]
    dsimp only
    rw [Function.update_self]
  · rw [Function.update_of_ne here, Gfs.putBlock, Gfs.putBlocks]
    dsimp only
    rw [Function.update_of_ne here]

end Steps

end GlucOS
