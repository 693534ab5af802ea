import GlucOS.Volume.ReachLaws

/-! `GFS_init`, and the runs that begin with it. -/

namespace GlucOS

/-! ## `GFS_init` -/

/-- `SECTOR_SIZE / sizeof(GFS_dentry_t)`. -/
def dentPerSec : Nat := sectorSize / dentSize

/-- The block of "/": each of its sectors has the same names, and the first two entries are used. -/
def rootBlock : Block := fun byte =>
  let j := byte.val / dentSize
  let k := byte.val % dentSize
  if k < fnLen + 1 then
    -- The names stay in the buffer when the other sectors are written.
    if j % dentPerSec = 0 then selfName.getD k 0
    else if j % dentPerSec = 1 then parentName.getD k 0
    else 0
  -- Both entries name the inode 0, and the others `DENTRY_INVALID_INO`.
  else if j < 2 then 0 else 255

/-- Sectors from `INODE_BITMAP_LOC` to `INODE_LOC`, cleared. -/
def clearSectors (sectors : Nat → SectorBuf) : Nat → SectorBuf := fun sidx =>
  if inodeBitmap.start ≤ sidx ∧ sidx < blockBitmap.stop then fun _ => 0 else sectors sidx

/-- There are direct pointers. -/
theorem inodeNdptr_pos : 0 < inodeNdptr := by decide

/-- The inode of "/". -/
def rootInode (ptr : Nat) : GfsInode :=
  { freshInode .dir with size := 2, dptr := (freshInode .dir).dptr.set 0 ptr inodeNdptr_pos }

/-- GFS with its bitmaps cleared, after `GFS_mount` has loaded what is on the disk. -/
def GfsSystem.formatted (sys : GfsSystem) (blocks : Nat → Block) : Gfs :=
  { sys.blank with
    vol := { sys.vol with inodeNum := inodeBitmap.bits, inodes := sys.inodesOnDisk, blocks }
    bitmaps := ⟨clearSectors sys.bitmaps.cache, clearSectors sys.bitmaps.disk⟩ }

/-- The new superblock knows how many inodes there are. -/
def OpenFiles.counted (files : OpenFiles) : OpenFiles := { files with inodeNum := inodeBitmap.bits }

/-- `GFS_init` on a disk with these blocks, with nothing when it panics. -/
def gfsInit (sys : GfsSystem) (blocks : Nat → Block) : Option (Int × GfsSystem) :=
  if sys.files.flist ≠ [] then some (1, sys)
  else
    -- "/" must get the first inode, and any block.
    let (ino, fs) := (sys.formatted blocks).takeInode
    if ino ≠ some 0 then none
    else
      let (ptr, fs) := fs.takeBlock
      ptr.map fun ptr =>
        (0, { sys.withGfs ((fs.putBlock ptr rootBlock).writeInode 0 (rootInode ptr)) with
          files := sys.files.counted })

/-- What "/" has in it at first. -/
def rootDents : List GfsDentry := [⟨selfName, 0⟩, ⟨parentName, 0⟩]

/-- "/" alone. -/
def rootTree (files : OpenFiles) : TreeStore where
  node := Function.update (fun _ => none) 0 (some (.dir rootDents 1))
  files := files

/-! ## What it makes -/

section Root

variable {files : OpenFiles}

/-- The block has these entries. -/
theorem rootBlock_used : rootBlock.used = rootDents := by
  decide +kernel

/-- Its names end. -/
theorem rootBlock_ended : rootBlock.Ended := by
  unfold Block.Ended
  decide +kernel

/-- "/" is there. -/
@[simp]
theorem rootTree_root (files : OpenFiles) :
    (rootTree files).node 0 = some (.dir rootDents 1) := by
  unfold rootTree
  dsimp only
  rw [Function.update_self]

/-- Nothing else is. -/
theorem rootTree_none (files : OpenFiles) {ino : Nat} (other : ino ≠ 0) :
    (rootTree files).node ino = none := by
  unfold rootTree
  dsimp only
  rw [Function.update_of_ne other]

/-- The names in "/". -/
theorem rootTree_dents (files : OpenFiles) (d : Nat) :
    (rootTree files).dents d = if d = 0 then rootDents else [] := by
  by_cases isRoot : d = 0
  · subst isRoot
    rw [if_pos rfl]
    exact TreeStore.dents_dir (rootTree_root files)
  · rw [if_neg isRoot, TreeStore.dents, rootTree_none files isRoot]

/-- It is the only directory. -/
theorem rootTree_isDir (files : OpenFiles) (d : Nat) : (rootTree files).IsDir d ↔ d = 0 := by
  constructor
  · intro isDir
    by_contra other
    obtain ⟨dents, nblk, is⟩ := isDir
    rw [rootTree_none files other] at is
    cases is
  · intro isRoot
    subst isRoot
    exact ⟨rootDents, 1, rootTree_root files⟩

/-- Nothing is in it. -/
theorem rootTree_children (files : OpenFiles) (d : Nat) : (rootTree files).children d = [] := by
  rw [← childInos_children, rootTree_dents]
  split
  · decide
  · rfl

/-- "/" alone is a tree. -/
theorem rootTree_sound (files : OpenFiles) : (rootTree files).Sound fun _ => 0 := by
  have names : ∀ ino, (rootTree files).names ino = 0 := by
    intro ino
    rw [TreeStore.names]
    apply Finset.sum_eq_zero
    intro d _
    rw [rootTree_children, List.count_nil]
  have find : ∀ fname, (rootTree files).find 0 fname =
      (keyed GfsDentry.fname rootDents fname).map GfsDentry.ino := by
    intro fname
    rw [TreeStore.find, rootTree_dents, if_pos rfl]
  constructor
  · exact (rootTree_isDir files 0).mpr rfl
  · rw [find]
    decide
  · -- "/" alone is a node.
    intro ino used
    by_cases isRoot : ino = 0
    · rw [isRoot]
      decide
    · rw [rootTree_none files isRoot] at used
      cases used
  · intro ino
    rw [rootTree_dents]
    split
    · decide
    · exact List.nodup_nil
  · intro d isDir
    rw [rootTree_isDir] at isDir
    subst isDir
    rw [find]
    decide
  · intro d c mem
    rw [rootTree_children] at mem
    cases mem
  · intro ino bytes nlink is
    by_cases isRoot : ino = 0
    · subst isRoot
      rw [rootTree_root] at is
      cases is
    · rw [rootTree_none files isRoot] at is
      cases is
  · intro d isDir
    rw [rootTree_isDir] at isDir
    rw [names, if_pos isDir]

/-- Tasks in "/" that have nothing open use nothing else. -/
def OpenFiles.Idle (files : OpenFiles) : Prop :=
  files.flist = [] ∧ ∀ task ∈ files.tasks, task = ⟨0, List.replicate ofileMax none⟩

/-- How many inodes there are does not matter for what they use. -/
theorem OpenFiles.Idle.counted (idle : files.Idle) : files.counted.Idle := idle

/-- What they use is in the list, which is empty. -/
theorem OpenFiles.Idle.listed (idle : files.Idle) : files.Listed := by
  -- Each task refers to "/" alone, which is not in the list.
  have refs : ∀ ref ∈ files.plain.refs, ref.1 = 0 := by
    intro ref mem
    have all : ∀ task ∈ files.plain.tasks, ∀ ref ∈ task.refs, ref.1 = 0 := by
      intro task isTask ref isRef
      obtain ⟨task, mem, rfl⟩ := List.mem_map.mp isTask
      rw [idle.2 task mem] at isRef
      have only : FileTask.refs (FileTask.plain ⟨0, List.replicate ofileMax none⟩) =
          {(0, false)} := by
        decide
      rw [only, Multiset.mem_singleton] at isRef
      rw [isRef]
    unfold OpenFiles.refs at mem
    generalize files.plain.tasks = tasks at mem all
    induction tasks with
    | nil => exact absurd mem (Multiset.notMem_zero ref)
    | cons task rest ih =>
      rw [List.map_cons, List.sum_cons, Multiset.mem_add] at mem
      rcases mem with first | later
      · exact all task List.mem_cons_self ref first
      · exact ih later fun task isTask => all task (List.mem_cons_of_mem _ isTask)
  have empty : files.plain.flist = [] := by
    rw [OpenFiles.plain]
    dsimp only
    rw [idle.1]
    rfl
  constructor
  · rw [empty]
    exact List.nodup_nil
  · rw [empty]
    intro node mem
    cases mem
  · rw [empty]
    intro node mem
    cases mem
  · intro ino other inUse
    obtain ⟨ref, mem, is⟩ := Multiset.countP_pos.mp inUse
    exact absurd ((refs ref mem).symm.trans is).symm other

/-- Nothing else is used. -/
theorem rootTree_live (idle : files.Idle) : (rootTree files).Live where
  opened := by
    intro task mem
    rw [idle.2 task mem]
    refine ⟨List.length_replicate, ?_⟩
    intro desc inside
    cases List.eq_of_mem_replicate inside
  listed := idle.listed
  homes := by
    intro task mem
    rw [rootTree_isDir, idle.2 task mem]

end Root

section Making

variable {sys : GfsSystem}

/-- In a sector that was cleared no bit is set. -/
theorem clearSectors_isSet (sectors : Nat → SectorBuf) (range : SecRange) {i : Nat}
    (inside : inodeBitmap.start ≤ range.start + i / secBits ∧
      range.start + i / secBits < blockBitmap.stop) :
    range.isSet (clearSectors sectors) i = false := by
  unfold SecRange.isSet clearSectors
  rw [if_pos inside]
  simp [SectorBuf.bit]

/-- Cleared bitmaps have no bits set. -/
theorem clearSectors_clear (sectors : Nat → SectorBuf) :
    (∀ ino < inodeBitmap.bits, inodeBitmap.isSet (clearSectors sectors) ino = false) ∧
      ∀ b < blockBitmap.bits, blockBitmap.isSet (clearSectors sectors) b = false := by
  -- The bitmaps are 7 and 64 sectors, one behind the other.
  have inodes : inodeBitmap.bits = 7 * secBits := rfl
  have blocks : blockBitmap.bits = 64 * secBits := rfl
  constructor
  · intro ino inside
    have sector : ino / secBits < 7 := Nat.div_lt_of_lt_mul (by rw [Nat.mul_comm]; omega)
    apply clearSectors_isSet
    change 1 ≤ 1 + ino / secBits ∧ 1 + ino / secBits < 72
    generalize ino / secBits = sidx at *
    omega
  · intro b inside
    have sector : b / secBits < 64 := Nat.div_lt_of_lt_mul (by rw [Nat.mul_comm]; omega)
    apply clearSectors_isSet
    change 1 ≤ 8 + b / secBits ∧ 8 + b / secBits < 72
    generalize b / secBits = sidx at *
    omega

/-- The first inode is the first that is taken. -/
theorem vacant_first (files : OpenFiles) :
    (⟨fun _ => none, files⟩ : TreeStore).vacant = some 0 := by
  have bits : inodeBitmap.bits = 28671 + 1 := rfl
  rw [TreeStore.vacant, bits, List.range_succ_eq_map]
  rfl

/-- Nothing is there before "/" is made. -/
theorem formatted_shows (sys : GfsSystem) (blocks : Nat → Block) :
    ShowsInodes (sys.formatted blocks) (fun _ => none) ∧
      ShowsNodes (sys.formatted blocks) (fun _ => none) fun _ => [] := by
  obtain ⟨noInodes, noBlocks⟩ := clearSectors_clear sys.bitmaps.cache
  refine ⟨noInodes, ?_, fun _ _ => rfl, ?_, ?_, rfl, ?_⟩
  · intro ino n is
    cases is
  · intro ino ino' _ p mem
    cases mem
  · intro b inside isSet
    have clear : blockBitmap.isSet (clearSectors sys.bitmaps.cache) b = true := isSet
    rw [noBlocks b inside] at clear
    cases clear
  · intro ino used
    cases used

/-- The inode of "/" has one block. -/
theorem rootInode_tree (ptr : Nat) (blocks : Nat → Block) :
    FileTree (rootInode ptr) blocks [ptr] where
  direct := rfl
  indirect := rfl
  double := rfl

/-- A block with the entries of "/", and an inode that leads to it. -/
theorem rootInode_shows {fs : Gfs} {b : Nat} (inside : b < blockBitmap.bits)
    (held : blockBitmap.isSet fs.bitmaps.cache b = true)
    (is : fs.vol.inodes 0 = rootInode (b + gfsDatalocBlock))
    (holds : fs.vol.blocks (b + gfsDatalocBlock) = rootBlock) :
    ShowsNode fs 0 [b + gfsDatalocBlock] (.dir rootDents 1) := by
  have few : [b + gfsDatalocBlock].length ≤ indirectPtrs := by
    rw [List.length_singleton]
    decide
  have data : dataPtrs [b + gfsDatalocBlock] = [b + gfsDatalocBlock] := by
    rw [dataPtrs_few few]
    rfl
  have ok : DirOk fs (fs.vol.inodes 0) [b + gfsDatalocBlock] := by
    rw [is]
    refine ⟨rfl, rootInode_tree _ _, few, List.nodup_singleton _, ?_, ?_⟩
    · intro p mem
      rw [List.mem_singleton] at mem
      exact ⟨b, inside, held, mem⟩
    · intro p mem
      rw [data, List.mem_singleton] at mem
      rw [mem, holds]
      exact rootBlock_ended
  refine .dir ok ?_ ?_ rfl
  · rw [is]
    rfl
  · rw [ok.entries_eq, data, List.flatMap_singleton, holds]
    exact rootBlock_used

/-- With the first block that is used, "/" is the only node. -/
theorem rootNodes_shows {fs next : Gfs} {files : OpenFiles} {b : Nat}
    (nodes : ShowsNodes fs (fun _ => none) fun _ => []) (inside : b < blockBitmap.bits)
    (count : next.vol.inodeNum = inodeBitmap.bits)
    (here : next.vol.inodes 0 = rootInode (b + gfsDatalocBlock))
    (block : next.vol.blocks (b + gfsDatalocBlock) = rootBlock)
    (marks : ∀ b', blockBitmap.isSet next.bitmaps.cache b' =
      (blockBitmap.isSet fs.bitmaps.cache b' || decide (b' = b))) :
    ShowsNodes next (rootTree files).node
      (Function.update (fun _ => []) 0 [b + gfsDatalocBlock]) := by
  have other : ∀ ino, ino ≠ 0 → Function.update (fun _ => []) 0 [b + gfsDatalocBlock] ino = [] :=
    fun ino isOther => Function.update_of_ne isOther ..
  constructor
  · -- Only "/" has to be shown.
    intro ino n is
    by_cases isRoot : ino = 0
    · subst isRoot
      rw [rootTree_root, Option.some_inj] at is
      rw [← is, Function.update_self]
      exact rootInode_shows inside (by simp [marks]) here block
    · rw [rootTree_none files isRoot] at is
      cases is
  · intro ino none_
    by_cases isRoot : ino = 0
    · rw [isRoot, rootTree_root] at none_
      cases none_
    · exact other ino isRoot
  · intro ino ino' differ p mem mem'
    by_cases isRoot : ino = 0
    · rw [other ino' fun is => differ (isRoot.trans is.symm)] at mem'
      cases mem'
    · rw [other ino isRoot] at mem
      cases mem
  · -- A block that is marked was marked before, which none was, or is that of "/".
    intro b' valid isSet
    rw [marks, Bool.or_eq_true, decide_eq_true_eq] at isSet
    rcases isSet with old | new
    · obtain ⟨ino, mem⟩ := nodes.found b' valid old
      cases mem
    · refine ⟨0, ?_⟩
      rw [Function.update_self, new]
      exact List.mem_singleton_self _
  · exact count
  · intro ino used
    by_cases isRoot : ino = 0
    · rw [isRoot]
      decide
    · rw [rootTree_none files isRoot] at used
      cases used

/-- What is written for "/": its block, and its inode. -/
theorem writeRoot_vol {fs next : Gfs} {ptr : Nat} (count : fs.vol.inodeNum = inodeBitmap.bits)
    (written : (fs.putBlock ptr rootBlock).writeInode 0 (rootInode ptr) = next) :
    next.vol.inodeNum = inodeBitmap.bits ∧ next.vol.inodes 0 = rootInode ptr ∧
      next.vol.blocks ptr = rootBlock ∧ next.bitmaps = fs.bitmaps := by
  have inside : 0 < (fs.putBlock ptr rootBlock).vol.inodeNum := by
    change 0 < fs.vol.inodeNum
    rw [count]
    decide
  obtain ⟨vol, bitmaps⟩ := writeInode_vol (rootInode ptr) inside
  rw [written] at vol bitmaps
  refine ⟨?_, ?_, ?_, bitmaps⟩
  · rw [vol]
    exact count
  · rw [vol]
    exact Function.update_self 0 (rootInode ptr) fs.vol.inodes
  · rw [vol]
    exact Function.update_self ptr rootBlock fs.vol.blocks

/-- `GFS_init` makes "/", when nothing is open. -/
theorem gfsInit_shows (idle : sys.files.Idle) (blocks : Nat → Block) :
    ∃ next, gfsInit sys blocks = some (0, next) ∧
      ShowsGfs next (rootTree sys.files.counted) := by
  obtain ⟨inodes, nodes⟩ := formatted_shows sys blocks
  unfold gfsInit
  rw [if_neg (not_not.mpr idle.1)]
  generalize sys.formatted blocks = fs at *
  -- Without nodes the first inode is free.
  obtain ⟨first, vol, same, marked⟩ :=
    @takeInode_shown fs ⟨fun _ => none, sys.files⟩ inodes
  generalize fs.takeInode = taken at *
  obtain ⟨tino, mid⟩ := taken
  rw [vacant_first] at first marked
  dsimp only at first vol same marked ⊢
  rw [if_neg (not_not.mpr first)]
  -- The bitmap of blocks is as empty as before.
  have free : ∀ b < blockBitmap.bits, blockBitmap.isSet mid.bitmaps.cache b = false := by
    intro b inside
    rw [same, ← Bool.not_eq_true]
    intro isSet
    obtain ⟨ino, mem⟩ := nodes.found b inside isSet
    cases mem
  have count : mid.takeBlock.2.vol.inodeNum = inodeBitmap.bits := by
    change mid.vol.inodeNum = _
    rw [vol, nodes.inodeNum]
  rcases takeBlock_spec mid with ⟨-, full, bits, -⟩ | ⟨b, inside, ptr, -, bits, others⟩
  · -- Some block is left: the first one is.
    have one : 0 ∈ blockBitmap.clear mid.takeBlock.2.bitmaps := by
      rw [SecRange.clear, List.mem_filter, bits, free 0 (by decide)]
      exact ⟨List.mem_range.mpr (by decide), rfl⟩
    rw [full] at one
    cases one
  · -- A block is taken, and written before the inode that leads to it.
    generalize mid.takeBlock = taken at *
    obtain ⟨bidx, done⟩ := taken
    dsimp only at ptr bits others count ⊢
    rw [ptr, Option.map_some]
    refine ⟨_, rfl, Function.update (fun _ => []) 0 [b + gfsDatalocBlock], fun _ => 0, ?_,
      rootTree_sound _, rootTree_live idle.counted⟩
    generalize written : (done.putBlock (b + gfsDatalocBlock) rootBlock).writeInode 0
      (rootInode (b + gfsDatalocBlock)) = next
    obtain ⟨count', here, block, kept⟩ := writeRoot_vol count written
    have marks : ∀ b', blockBitmap.isSet next.bitmaps.cache b' =
        (blockBitmap.isSet fs.bitmaps.cache b' || decide (b' = b)) := by
      intro b'
      rw [kept, bits, same]
    constructor
    · exact (rootNodes_shows nodes inside count' here block marks).rebits rfl fun _ => rfl
    · -- The block is not in the bitmap of inodes, where the first bit alone is set.
      intro ino valid
      change inodeBitmap.isSet next.bitmaps.cache ino = _
      rw [kept, isSet_inode valid fun sidx outside => (others sidx outside).1, marked,
        inodes ino valid]
      by_cases isRoot : ino = 0
      · subst isRoot
        rw [rootTree_root]
        rfl
      · rw [rootTree_none _ isRoot, decide_eq_false fun is => isRoot (Option.some_inj.mp is).symm]
        rfl
    · rfl

end Making

/-! ## Every run from the start -/

section Runs

variable {sys : GfsSystem}

/-- "/" takes one block. -/
theorem rootTree_blocks (files : OpenFiles) : (rootTree files).blocks = 1 := by
  have bits : inodeBitmap.bits = 28671 + 1 := rfl
  -- The inodes after the first one have no nodes.
  rw [TreeStore.blocks, bits, List.range_succ_eq_map, List.map_cons, List.sum_cons,
    rootTree_root, List.map_map, List.sum_eq_zero]
  · rfl
  · intro n mem
    obtain ⟨ino, -, rfl⟩ := List.mem_map.mp mem
    rw [Function.comp_apply, rootTree_none files (Nat.succ_ne_zero ino)]
    rfl

/-- A directory may be made in "/". -/
theorem rootTree_room (files : OpenFiles) {tname : CharBuf} (fits : Fits tname)
    (debbuf debbuf' debbuf'' : Block) :
    (TreeEvent.doMkdir (some 0) tname debbuf debbuf' debbuf'').Legal (rootTree files) := by
  intro pino is
  cases is
  refine ⟨by rw [rootTree_root]; rfl, fits, ?_⟩
  rw [TreeStore.costOf, rootTree_root, TreeStore.free, rootTree_blocks]
  decide

/-- A system that has started. -/
def bootSystem : GfsSystem where
  vol := ⟨0, fun _ => freshInode .file, fun _ _ => 0⟩
  inodesOnDisk _ := freshInode .file
  bitmaps := ⟨fun _ _ => 0, fun _ _ => 0⟩
  files := mountedFiles 0

/-- Nothing is open in it. -/
theorem bootSystem_idle : bootSystem.files.Idle :=
  ⟨rfl, fun _ mem => List.eq_of_mem_replicate mem⟩

/-- Its first call makes a directory. -/
def firstMkdir : List TreeEvent :=
  [.doMkdir (some 0) [97] (fun _ => 0) (fun _ => 0) (fun _ => 0)]

/-- It may. -/
theorem firstMkdir_legal (files : OpenFiles) :
    LegalTrace TreeStep TreeEvent.Legal (rootTree files) firstMkdir := by
  have fits : Fits [97] := by
    constructor
    · intro c mem
      rw [List.mem_singleton] at mem
      rw [mem]
      decide
    · rw [List.length_singleton]
      decide
  exact ⟨rootTree_room files fits _ _ _, fun _ _ _ => trivial⟩

end Runs

end GlucOS
