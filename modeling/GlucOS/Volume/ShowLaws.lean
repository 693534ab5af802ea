import GlucOS.Gfs.CountLaws
import GlucOS.Volume.DirLaws
import GlucOS.Volume.StoreLaws
import GlucOS.Volume.Tree

/-! When the inodes and blocks of a volume show a tree, and how one node of it changes. -/

namespace GlucOS

/-! ## Nodes -/

/-- An inode with these blocks shows a node. -/
inductive ShowsNode (fs : Gfs) (ino : Nat) (ps : List Nat) : FsNode → Prop
  /-- A file holds its bytes. -/
  | file {bytes : List UInt8} {nlink : Nat} : FileFull fs ino ps →
    (fs.vol.inodes ino).type = .file → (fs.vol.inodes ino).nlink = nlink →
    fs.contents ino = bytes → ShowsNode fs ino ps (.file bytes nlink)
  /-- A directory holds its entries. -/
  | dir {dents : List GfsDentry} {nblk : Nat} : DirOk fs (fs.vol.inodes ino) ps →
    (fs.vol.inodes ino).size = dents.length → fs.vol.entries (fs.vol.inodes ino) = dents →
    ps.length = nblk → ShowsNode fs ino ps (.dir dents nblk)

section Nodes

variable {fs next : Gfs} {ino : Nat} {ps : List Nat} {node : FsNode}

/-- Blocks of a node are allocated. -/
theorem ShowsNode.held (shows_ : ShowsNode fs ino ps node) : ∀ p ∈ ps, ∃ b < blockBitmap.bits,
    blockBitmap.isSet fs.bitmaps.cache b = true ∧ p = b + gfsDatalocBlock := by
  cases shows_ with
  | file full => exact full.held
  | dir ok => exact ok.held

/-- None is used twice. -/
theorem ShowsNode.nodup (shows_ : ShowsNode fs ino ps node) : ps.Nodup := by
  cases shows_ with
  | file full => exact full.nodup
  | dir ok => exact ok.nodup

/-- There are as many as the node needs. -/
theorem ShowsNode.length (shows_ : ShowsNode fs ino ps node) : ps.length = node.blocks := by
  cases shows_ with
  | file full _ _ holds =>
    rw [full.count, gfsNbytes2blocks_eq full.word, FsNode.blocks, sizeBlocks, ← holds,
      Gfs.length_contents]
  | dir _ _ _ count => exact count

/-- The inode has the type of the node. -/
theorem ShowsNode.type (shows_ : ShowsNode fs ino ps node) :
    (fs.vol.inodes ino).type = .dir ↔ ∃ dents nblk, node = .dir dents nblk := by
  cases shows_ with
  | @file bytes nlink _ isFile =>
    rw [isFile]
    constructor
    · intro isDir
      cases isDir
    · intro isDir
      obtain ⟨dents, nblk, is⟩ := isDir
      cases is
  | @dir dents nblk ok =>
    rw [ok.type]
    exact ⟨fun _ => ⟨dents, nblk, rfl⟩, fun _ => rfl⟩

/-- Changes elsewhere leave a node as it was. -/
theorem ShowsNode.congr (shows_ : ShowsNode fs ino ps node)
    (inode : next.vol.inodes ino = fs.vol.inodes ino)
    (inodeNum : next.vol.inodeNum = fs.vol.inodeNum)
    (blocks : ∀ p ∈ ps, next.vol.blocks p = fs.vol.blocks p)
    (bits : ∀ p ∈ ps, ∀ b, p = b + gfsDatalocBlock →
      blockBitmap.isSet fs.bitmaps.cache b = true → blockBitmap.isSet next.bitmaps.cache b = true) :
    ShowsNode next ino ps node := by
  have index : ∀ p ∈ indexPtrs ps, next.vol.blocks p = fs.vol.blocks p := by
    intro p mem
    apply blocks
    exact (dataPtrs_perm ps).subset (List.mem_append_right _ mem)
  have stillHeld : ∀ p ∈ ps, ∃ b < blockBitmap.bits,
      blockBitmap.isSet next.bitmaps.cache b = true ∧ p = b + gfsDatalocBlock := by
    intro p mem
    obtain ⟨b, inside, isSet, is⟩ := shows_.held p mem
    exact ⟨b, inside, bits p mem b is isSet, is⟩
  cases shows_ with
  | file full isFile links holds =>
    have ok : FileOk next ino ps := by
      refine ⟨by rw [inodeNum]; exact full.exists_, by rw [inode]; exact full.word, ?_, full.nodup,
        stillHeld⟩
      rw [inode]
      exact full.tree.congr rfl rfl rfl index
    refine .file ⟨ok, by rw [inode]; exact full.count⟩ (by rw [inode]; exact isFile)
      (by rw [inode]; exact links) ?_
    rw [← holds]
    apply Gfs.contents_congr (congrArg GfsInode.size inode)
    intro x inside
    have room := Nat.lt_of_lt_of_le inside full.room
    rw [ok.byteAt_block room, full.byteAt_block room, blockByte, blockByte]
    have place := lt_roomOf.mp room
    rw [List.getD_eq_getElem?_getD, List.getElem?_eq_getElem place, Option.getD_some,
      blocks _ ((dataPtrs_sublist ps).subset (List.getElem_mem place))]
  | dir ok size entries count =>
    have ok' : DirOk next (next.vol.inodes ino) ps := by
      rw [inode]
      refine ⟨ok.type, ok.tree.congr rfl rfl rfl index, ok.few, ok.nodup, stillHeld, ?_⟩
      intro p mem
      rw [blocks p ((dataPtrs_sublist ps).subset mem)]
      exact ok.ended p mem
    refine .dir ok' (by rw [inode]; exact size) ?_ count
    rw [ok'.entries_eq, ← entries, ok.entries_eq]
    apply List.flatMap_congr
    intro p mem
    rw [blocks p ((dataPtrs_sublist ps).subset mem)]

end Nodes

/-! ## Volumes -/

/-- The inodes of a volume show these nodes, each with its blocks. -/
structure ShowsNodes (fs : Gfs) (node : Nat → Option FsNode) (owned : Nat → List Nat) : Prop where
  /-- Each of them is shown. -/
  shown : ∀ ino n, node ino = some n → ShowsNode fs ino (owned ino) n
  /-- Other inodes have no blocks. -/
  unused : ∀ ino, node ino = none → owned ino = []
  /-- No block belongs to two nodes. -/
  apart : ∀ ino ino', ino ≠ ino' → ∀ p ∈ owned ino, p ∉ owned ino'
  /-- No block in use is lost. -/
  found : ∀ b < blockBitmap.bits, blockBitmap.isSet fs.bitmaps.cache b = true →
    ∃ ino, b + gfsDatalocBlock ∈ owned ino
  /-- There are as many inodes as bits in their bitmap. -/
  inodeNum : fs.vol.inodeNum = inodeBitmap.bits
  /-- Nodes have inodes of the volume. -/
  inside : ∀ ino, (node ino).isSome → ino < inodeBitmap.bits

/-- An inode is marked as used exactly when it has a node. -/
def ShowsInodes (fs : Gfs) (node : Nat → Option FsNode) : Prop :=
  ∀ ino < inodeBitmap.bits, inodeBitmap.isSet fs.bitmaps.cache ino = (node ino).isSome

section Volumes

variable {fs next : Gfs} {node : Nat → Option FsNode} {owned : Nat → List Nat}

/-- Blocks of a volume that are in use are allocated. -/
theorem ShowsNodes.held (shows_ : ShowsNodes fs node owned) {ino : Nat} : ∀ p ∈ owned ino,
    ∃ b < blockBitmap.bits, blockBitmap.isSet fs.bitmaps.cache b = true ∧
      p = b + gfsDatalocBlock := by
  intro p mem
  cases is : node ino with
  | none =>
    rw [shows_.unused ino is] at mem
    cases mem
  | some n => exact (shows_.shown ino n is).held p mem

/-- A block that is free belongs to no node. -/
theorem ShowsNodes.free_unused (shows_ : ShowsNodes fs node owned) {b : Nat}
    (free : blockBitmap.isSet fs.bitmaps.cache b = false) (ino : Nat) :
    b + gfsDatalocBlock ∉ owned ino := by
  intro mem
  obtain ⟨b', -, isSet, same⟩ := shows_.held _ mem
  obtain rfl : b = b' := Nat.add_right_cancel same
  rw [free] at isSet
  cases isSet

/-- Only one node changes, with the blocks that it takes and gives back. -/
theorem ShowsNodes.change (shows_ : ShowsNodes fs node owned) (d : Nat) {n : Option FsNode}
    {ps : List Nat} (valid : d < inodeBitmap.bits)
    (new : ∀ n', n = some n' → ShowsNode next d ps n') (gone : n = none → ps = [])
    (inodes : ∀ ino, ino ≠ d → (node ino).isSome → next.vol.inodes ino = fs.vol.inodes ino)
    (inodeNum : next.vol.inodeNum = fs.vol.inodeNum)
    (blocks : ∀ p, p ∉ ps → p ∉ owned d → next.vol.blocks p = fs.vol.blocks p)
    (bits : ∀ b < blockBitmap.bits, blockBitmap.isSet next.bitmaps.cache b = true ↔
      b + gfsDatalocBlock ∈ ps ∨
        blockBitmap.isSet fs.bitmaps.cache b = true ∧ b + gfsDatalocBlock ∉ owned d)
    (fresh : ∀ p ∈ ps, p ∈ owned d ∨
      ∃ b, p = b + gfsDatalocBlock ∧ blockBitmap.isSet fs.bitmaps.cache b = false) :
    ShowsNodes next (Function.update node d n) (Function.update owned d ps) := by
  -- The blocks of the node are none of another one's, before and after.
  have alone : ∀ ino, ino ≠ d → ∀ p ∈ owned ino, p ∉ ps := by
    intro ino other p mem mem'
    rcases fresh p mem' with old | ⟨b, rfl, free⟩
    · exact shows_.apart ino d other p mem old
    · exact shows_.free_unused free ino mem
  constructor
  · intro ino n' is
    by_cases here : ino = d
    · subst here
      rw [Function.update_self] at is ⊢
      exact new n' is
    · rw [Function.update_of_ne here] at is ⊢
      have old := shows_.shown ino n' is
      apply old.congr (inodes ino here (by rw [is]; rfl)) inodeNum
      · intro p mem
        exact blocks p (alone ino here p mem) (shows_.apart ino d here p mem)
      · intro p mem b isP isSet
        obtain ⟨b', inside, -, same⟩ := old.held p mem
        obtain rfl : b = b' := Nat.add_right_cancel (isP.symm.trans same)
        rw [bits b inside]
        right
        exact ⟨isSet, isP ▸ shows_.apart ino d here p mem⟩
  · intro ino is
    by_cases here : ino = d
    · subst here
      rw [Function.update_self] at is ⊢
      exact gone is
    · rw [Function.update_of_ne here] at is ⊢
      exact shows_.unused ino is
  · intro ino ino' differ p mem mem'
    by_cases here : ino = d
    · subst here
      rw [Function.update_self] at mem
      rw [Function.update_of_ne (Ne.symm differ)] at mem'
      exact alone ino' (Ne.symm differ) p mem' mem
    · rw [Function.update_of_ne here] at mem
      by_cases here' : ino' = d
      · subst here'
        rw [Function.update_self] at mem'
        exact alone ino here p mem mem'
      · rw [Function.update_of_ne here'] at mem'
        exact shows_.apart ino ino' differ p mem mem'
  · intro b inside isSet
    rcases (bits b inside).mp isSet with mem | ⟨wasSet, unowned⟩
    · exact ⟨d, by rw [Function.update_self]; exact mem⟩
    · obtain ⟨ino, mem⟩ := shows_.found b inside wasSet
      refine ⟨ino, ?_⟩
      rw [Function.update_of_ne]
      · exact mem
      · intro here
        rw [here] at mem
        exact unowned mem
  · rw [inodeNum, shows_.inodeNum]
  · intro ino is
    by_cases here : ino = d
    · rw [here]
      exact valid
    · rw [Function.update_of_ne here] at is
      exact shows_.inside ino is

/-- The blocks in use are those of the nodes. -/
theorem ShowsNodes.used (shows_ : ShowsNodes fs node owned) :
    (((List.range blockBitmap.bits).filter fun b => blockBitmap.isSet fs.bitmaps.cache b).map
      (· + gfsDatalocBlock)).Perm ((List.range inodeBitmap.bits).flatMap owned) := by
  -- Neither list has a block twice, and both have the same blocks.
  rw [List.perm_ext_iff_of_nodup]
  · intro p
    simp only [List.mem_map, List.mem_filter, List.mem_range, List.mem_flatMap]
    constructor
    · intro isUsed
      obtain ⟨b, ⟨inside, isSet⟩, rfl⟩ := isUsed
      obtain ⟨ino, mem⟩ := shows_.found b inside isSet
      refine ⟨ino, ?_, mem⟩
      apply shows_.inside
      rw [Option.isSome_iff_ne_none]
      intro none_
      rw [shows_.unused ino none_] at mem
      cases mem
    · intro isOwned
      obtain ⟨ino, -, mem⟩ := isOwned
      obtain ⟨b, inside, isSet, is⟩ := shows_.held p mem
      exact ⟨b, ⟨inside, isSet⟩, is.symm⟩
  · apply List.Nodup.map
    · intro a b same
      exact Nat.add_right_cancel same
    · exact List.nodup_range.filter _
  · rw [List.nodup_flatMap]
    constructor
    · intro ino _
      cases is : node ino with
      | none =>
        rw [shows_.unused ino is]
        exact List.nodup_nil
      | some n => exact (shows_.shown ino n is).nodup
    · apply List.nodup_range.imp
      intro ino ino' differ p mem mem'
      exact shows_.apart ino ino' differ p mem mem'

/-- So the free blocks are those that no node needs. -/
theorem ShowsNodes.free {tree : TreeStore} (shows_ : ShowsNodes fs tree.node owned) :
    (blockBitmap.clear fs.bitmaps).length = tree.free := by
  have count := shows_.used.length_eq
  have total := SecRange.clear_add_ones blockBitmap fs.bitmaps
  rw [List.length_map, List.length_flatMap, ← List.countP_eq_length_filter] at count
  have each : (List.range inodeBitmap.bits).map (fun ino => (owned ino).length) =
      (List.range inodeBitmap.bits).map fun ino =>
        ((tree.node ino).map FsNode.blocks).getD 0 := by
    apply List.map_congr_left
    intro ino _
    cases is : tree.node ino with
    | none =>
      rw [shows_.unused ino is]
      rfl
    | some n =>
      rw [(shows_.shown ino n is).length]
      rfl
  rw [each] at count
  unfold TreeStore.free TreeStore.blocks
  rw [← count]
  unfold SecRange.ones at total
  omega

end Volumes

end GlucOS
