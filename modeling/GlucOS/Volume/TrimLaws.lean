import GlucOS.Volume.FreeLaws
import GlucOS.Volume.MakeLaws
import GlucOS.Volume.RemoveLaws

/-! Removing files and directories, one inode after the other. -/

namespace GlucOS

/-! ## What is gone -/

/-- A node that is not left when these inodes were removed, each so often as it is listed. -/
def TreeStore.Gone (tree : TreeStore) (gone : List Nat) (ino : Nat) : Prop :=
  (tree.node ino).isSome ∧ (tree.without gone).node ino = none

/-- An inode that lost so many links, but for the last. -/
def GfsInode.lessLinks (inode : GfsInode) (count : Nat) : GfsInode :=
  if inode.type = .file then { inode with nlink := inode.nlink - min count (inode.nlink - 1) }
  else inode

section Gone

variable {tree : TreeStore} {gone : List Nat} {ino d : Nat}

/-- A directory is gone when it was removed. -/
theorem TreeStore.gone_dir {dents : List GfsDentry} {nblk : Nat}
    (is : tree.node ino = some (.dir dents nblk)) : tree.Gone gone ino ↔ ino ∈ gone := by
  unfold TreeStore.Gone TreeStore.without
  dsimp only
  rw [is]
  dsimp only
  by_cases mem : ino ∈ gone
  · simp [mem]
  · simp [mem]

/-- A file is gone when it was removed as often as it has names. -/
theorem TreeStore.gone_file {bytes : List UInt8} {nlink : Nat}
    (is : tree.node ino = some (.file bytes nlink)) :
    tree.Gone gone ino ↔ 0 < gone.count ino ∧ nlink ≤ gone.count ino := by
  unfold TreeStore.Gone TreeStore.without
  dsimp only
  rw [is]
  dsimp only
  split
  · rename_i both
    simp [both]
  · rename_i not_both
    simp only [Option.isSome_some, true_and, reduceCtorEq, false_iff]
    exact not_both

/-- One removal more does not count for others. -/
theorem count_snoc_other (other : ino ≠ d) : (gone ++ [d]).count ino = gone.count ino := by
  have none_ : [d].count ino = 0 := List.count_eq_zero_of_not_mem (by simpa using other)
  rw [List.count_append, none_, Nat.add_zero]

/-- It counts for its own inode. -/
theorem count_snoc_self : (gone ++ [d]).count d = gone.count d + 1 := by
  rw [List.count_append, List.count_singleton_self]

/-- One removal more concerns its own inode only. -/
theorem TreeStore.gone_snoc : tree.Gone (gone ++ [d]) ino ↔
    tree.Gone gone ino ∨ ino = d ∧ tree.Gone (gone ++ [d]) d := by
  by_cases here : ino = d
  · subst here
    simp only [true_and]
    constructor
    · exact .inr
    · intro either
      rcases either with before | now
      · -- What is gone stays so.
        cases is : tree.node ino with
        | none =>
          unfold TreeStore.Gone at before
          rw [is] at before
          cases before.1
        | some n =>
          cases n with
          | dir dents nblk =>
            rw [TreeStore.gone_dir is] at before ⊢
            exact List.mem_append_left _ before
          | file bytes nlink =>
            rw [TreeStore.gone_file is] at before ⊢
            rw [count_snoc_self]
            omega
      · exact now
  · simp only [here, false_and, or_false]
    have count := @count_snoc_other gone ino d here
    have member : ino ∈ gone ++ [d] ↔ ino ∈ gone := by simp [here]
    unfold TreeStore.Gone TreeStore.without
    dsimp only
    rw [count]
    simp only [member]

end Gone

/-! ## A volume on the way -/

/--
What is left of a volume when these inodes were removed, and some blocks besides.

Blocks keep what they hold, so that all directories can still be read.
-/
structure Trimmed (fs next : Gfs) (tree : TreeStore) (owned : Nat → List Nat)
    (part gone : List Nat) : Prop where
  /-- Blocks of what is gone are free, and those besides. -/
  bits : ∀ b < blockBitmap.bits, blockBitmap.isSet next.bitmaps.cache b = true ↔
    blockBitmap.isSet fs.bitmaps.cache b = true ∧ b + gfsDatalocBlock ∉ part ∧
      ∀ ino, tree.Gone gone ino → b + gfsDatalocBlock ∉ owned ino
  /-- So are the inodes. -/
  inodeBits : ∀ ino < inodeBitmap.bits, inodeBitmap.isSet next.bitmaps.cache ino = true ↔
    inodeBitmap.isSet fs.bitmaps.cache ino = true ∧ ¬ tree.Gone gone ino
  /-- The blocks. -/
  blocks : next.vol.blocks = fs.vol.blocks
  /-- The number of inodes. -/
  inodeNum : next.vol.inodeNum = fs.vol.inodeNum
  /-- Files lost links. -/
  inodes : ∀ ino, next.vol.inodes ino = (fs.vol.inodes ino).lessLinks (gone.count ino)

section Trimming

variable {fs mid next : Gfs} {tree : TreeStore} {owned : Nat → List Nat} {part qs gone : List Nat}

/-- Nothing was removed. -/
theorem Trimmed.refl (fs : Gfs) (tree : TreeStore) (owned : Nat → List Nat) :
    Trimmed fs fs tree owned [] [] := by
  have none_ : ∀ ino, ¬ tree.Gone [] ino := by
    intro ino isGone
    cases is : tree.node ino with
    | none =>
      unfold TreeStore.Gone at isGone
      rw [is] at isGone
      cases isGone.1
    | some n =>
      cases n with
      | dir dents nblk =>
        rw [TreeStore.gone_dir is] at isGone
        cases isGone
      | file bytes nlink =>
        rw [TreeStore.gone_file is] at isGone
        exact absurd isGone.1 (by simp)
  refine ⟨?_, ?_, rfl, rfl, ?_⟩
  · intro b _
    simp [none_]
  · intro ino _
    simp [none_]
  · intro ino
    unfold GfsInode.lessLinks
    simp

/-- Blocks are given back. -/
theorem Trimmed.freed (trimmed : Trimmed fs mid tree owned part gone)
    (cleared : Cleared mid next qs) : Trimmed fs next tree owned (part ++ qs) gone where
  bits := by
    intro b inside
    rw [cleared.bits, Bool.and_eq_true, trimmed.bits b inside, Bool.not_eq_true',
      decide_eq_false_iff_not, List.mem_append, not_or]
    tauto
  inodeBits := by
    intro ino inside
    rw [isSet_inode inside fun sidx outside => (cleared.others sidx outside).1]
    exact trimmed.inodeBits ino inside
  blocks := by rw [cleared.vol, trimmed.blocks]
  inodeNum := by rw [cleared.vol, trimmed.inodeNum]
  inodes := by rw [cleared.vol]; exact trimmed.inodes

/-- An inode is given back, whose blocks were given back before. -/
theorem Trimmed.dropped {d : Nat} (trimmed : Trimmed fs mid tree owned (part ++ qs) gone)
    (valid : d < inodeBitmap.bits) (all : ∀ p, p ∈ qs ↔ p ∈ owned d)
    (isGone : tree.Gone (gone ++ [d]) d)
    (inode : (fs.vol.inodes d).lessLinks (gone.count d + 1) =
      (fs.vol.inodes d).lessLinks (gone.count d)) :
    Trimmed fs (mid.freeInode d) tree owned part (gone ++ [d]) := by
  -- The blocks given back besides become blocks of what is gone.
  obtain ⟨vol, same, frees⟩ := freeInode_frees mid valid
  constructor
  · intro b inside
    rw [same, trimmed.bits b inside, List.mem_append, not_or, all]
    constructor
    · intro is
      obtain ⟨isSet, ⟨notPart, notMine⟩, others⟩ := is
      refine ⟨isSet, notPart, ?_⟩
      intro ino goneNow
      rcases TreeStore.gone_snoc.mp goneNow with before | ⟨rfl, -⟩
      · exact others ino before
      · exact notMine
    · intro is
      obtain ⟨isSet, notPart, others⟩ := is
      refine ⟨isSet, ⟨notPart, others d isGone⟩, ?_⟩
      intro ino before
      exact others ino (TreeStore.gone_snoc.mpr (.inl before))
  · intro ino inside
    rw [frees, Bool.and_eq_true, trimmed.inodeBits ino inside, TreeStore.gone_snoc,
      Bool.not_eq_true', decide_eq_false_iff_not]
    constructor
    · intro is
      obtain ⟨⟨isSet, notBefore⟩, other⟩ := is
      exact ⟨isSet, fun either => either.elim notBefore fun now => other now.1⟩
    · intro is
      obtain ⟨isSet, neither⟩ := is
      exact ⟨⟨isSet, fun before => neither (.inl before)⟩,
        fun here => neither (.inr ⟨here, isGone⟩)⟩
  · rw [vol, trimmed.blocks]
  · rw [vol, trimmed.inodeNum]
  · intro ino
    rw [vol, trimmed.inodes]
    by_cases here : ino = d
    · rw [here, count_snoc_self, inode]
    · rw [count_snoc_other here]

/-- A file loses a link, and has others. -/
theorem Trimmed.unlinked {d nlink : Nat} {bytes : List UInt8}
    (trimmed : Trimmed fs mid tree owned part gone) (is : tree.node d = some (.file bytes nlink))
    (isFile : (fs.vol.inodes d).type = .file) (links : (fs.vol.inodes d).nlink = nlink)
    (valid : d < mid.vol.inodeNum) (more : gone.count d + 1 < nlink) :
    Trimmed fs (mid.writeInode d { mid.vol.inodes d with nlink := (mid.vol.inodes d).nlink - 1 })
      tree owned part (gone ++ [d]) := by
  obtain ⟨vol, bitmaps⟩ := @writeInode_vol mid d
    { mid.vol.inodes d with nlink := (mid.vol.inodes d).nlink - 1 } valid
  -- The file is still there.
  have same : ∀ ino, tree.Gone (gone ++ [d]) ino ↔ tree.Gone gone ino := by
    intro ino
    rw [TreeStore.gone_snoc]
    constructor
    · intro either
      rcases either with before | ⟨-, now⟩
      · exact before
      · rw [TreeStore.gone_file is, count_snoc_self] at now
        omega
    · exact .inl
  constructor
  · intro b inside
    rw [bitmaps, trimmed.bits b inside]
    simp only [same]
  · intro ino inside
    rw [bitmaps, trimmed.inodeBits ino inside, same]
  · rw [vol]
    exact trimmed.blocks
  · rw [vol]
    exact trimmed.inodeNum
  · intro ino
    rw [vol]
    by_cases here : ino = d
    · subst here
      refine (Function.update_self ..).trans ?_
      rw [trimmed.inodes, count_snoc_self]
      unfold GfsInode.lessLinks
      rw [if_pos isFile, if_pos isFile, links]
      dsimp only
      congr 1
      omega
    · refine (Function.update_of_ne here _ _).trans ?_
      rw [count_snoc_other here]
      exact trimmed.inodes ino

end Trimming

/-! ## Files -/

section Removing

variable {fs mid : Gfs} {tree : TreeStore} {owned : Nat → List Nat} {part gone : List Nat}

/-- Blocks of a node are blocks of the volume. -/
theorem ShowsNodes.isBlock {node : Nat → Option FsNode} (shows_ : ShowsNodes fs node owned)
    {ino : Nat} : ∀ p ∈ owned ino, IsBlock p := by
  intro p mem
  obtain ⟨b, inside, -, is⟩ := shows_.held p mem
  exact ⟨b, inside, is⟩

/-- The branch of `GFS_remove_file_or_dir` for files. -/
theorem removeFile_trims {d nlink : Nat} {bytes : List UInt8}
    (shows_ : ShowsNodes fs tree.node owned) (is : tree.node d = some (.file bytes nlink))
    (trimmed : Trimmed fs mid tree owned part gone) :
    ∃ code next, removeFile d (mid.vol.inodes d) ⟨mid, []⟩ = (code, ⟨next, []⟩) ∧
      (code = 0 ∨ code = 1) ∧ Trimmed fs next tree owned part (gone ++ [d]) := by
  have valid := shows_.inside d (by rw [is]; rfl)
  have number : mid.vol.inodeNum = inodeBitmap.bits := by rw [trimmed.inodeNum, shows_.inodeNum]
  cases shows_.shown d _ is with
  | file full isFile links holds =>
    have left := trimmed.inodes d
    have nlinkLeft : (mid.vol.inodes d).nlink = nlink - min (gone.count d) (nlink - 1) := by
      rw [left, GfsInode.lessLinks, if_pos isFile, links]
    by_cases more : 2 ≤ (mid.vol.inodes d).nlink
    · -- Other names are left.
      unfold removeFile
      rw [if_pos more]
      exact ⟨1, _, rfl, .inr rfl, trimmed.unlinked is isFile links (by rwa [number]) (by omega)⟩
    · -- It was the last one.
      have last : (mid.vol.inodes d).nlink < 2 := Nat.lt_of_not_le more
      have pointers : (mid.vol.inodes d).dptr = (fs.vol.inodes d).dptr ∧
          (mid.vol.inodes d).idptr = (fs.vol.inodes d).idptr ∧
          (mid.vol.inodes d).diptr = (fs.vol.inodes d).diptr := by
        rw [left, GfsInode.lessLinks, if_pos isFile]
        exact ⟨rfl, rfl, rfl⟩
      have tree' : FileTree (mid.vol.inodes d) mid.vol.blocks (owned d) :=
        full.tree.congr pointers.1 pointers.2.1 pointers.2.2 fun p _ => by rw [trimmed.blocks]
      obtain ⟨next, removes, cleared⟩ := @removeFile_clears ⟨mid, []⟩ _ _ d tree'
        shows_.isBlock rfl last
      refine ⟨0, _, removes, .inl rfl, ?_⟩
      apply (trimmed.freed cleared).dropped valid (fun p => Iff.rfl)
      · rw [TreeStore.gone_file is, count_snoc_self]
        omega
      · unfold GfsInode.lessLinks
        rw [if_pos isFile, if_pos isFile, links]
        congr 1
        omega

/-! ## Directories -/

/-- What a call removes, when there is stack enough for it. -/
def TreeStore.visits (tree : TreeStore) (depth ino : Nat) : List Nat :=
  (tree.below depth ino).getD []

/-- The inodes that entries name, but for "." and "..". -/
def childInos (dents : List GfsDentry) : List Nat :=
  (dents.filter GfsDentry.isChild).map GfsDentry.ino

/-- A function removes inodes, each with what is listed for it. -/
def Removes (fs : Gfs) (tree : TreeStore) (owned : Nat → List Nat)
    (remove : Nat → Removal → Option (Int × Removal)) (visits : Nat → List Nat) (ino : Nat) :
    Prop :=
  ∀ part gone mid, Trimmed fs mid tree owned part gone →
    ∃ code next, remove ino ⟨mid, []⟩ = some (code, ⟨next, []⟩) ∧ (code = 0 ∨ code = 1) ∧
      Trimmed fs next tree owned part (gone ++ visits ino)

/-- An entry that names something comes first. -/
theorem childInos_child {dent : GfsDentry} (dents : List GfsDentry) (child : dent.isChild = true) :
    childInos (dent :: dents) = dent.ino :: childInos dents := by
  rw [childInos, List.filter_cons_of_pos child, List.map_cons, childInos]

/-- "." and ".." are left out. -/
theorem childInos_other {dent : GfsDentry} (dents : List GfsDentry)
    (other : ¬ dent.isChild = true) : childInos (dent :: dents) = childInos dents := by
  rw [childInos, List.filter_cons_of_neg other, childInos]

/-- Entries one after the other. -/
theorem childInos_append (dents dents' : List GfsDentry) :
    childInos (dents ++ dents') = childInos dents ++ childInos dents' := by
  rw [childInos, List.filter_append, List.map_append, childInos, childInos]

/-- Which entries are removed. -/
theorem GfsDentry.isChild_iff (dent : GfsDentry) :
    dent.isChild = true ↔ dent.fname ≠ selfName ∧ dent.fname ≠ parentName := by
  rw [GfsDentry.isChild, decide_eq_true_eq]

/-- An entry that is not used. -/
theorem Block.inoOf_none {block : Block} {j : Nat} (none_ : block.entry j = none) :
    block.inoOf j = dentryInvalidIno := by
  by_contra used
  rw [Block.entry, if_neg used] at none_
  cases none_

/-- An entry that is. -/
theorem Block.inoOf_some {block : Block} {j : Nat} {dent : GfsDentry}
    (isEntry : block.entry j = some dent) :
    block.inoOf j ≠ dentryInvalidIno ∧ ⟨block.str (dentSize * j), block.inoOf j⟩ = dent := by
  by_cases unused : block.inoOf j = dentryInvalidIno
  · rw [Block.entry, if_pos unused] at isEntry
    cases isEntry
  · rw [Block.entry, if_neg unused, Option.some_inj] at isEntry
    exact ⟨unused, isEntry⟩

variable {remove : Nat → Removal → Option (Int × Removal)} {visits : Nat → List Nat}

/-- The loop over the entries of a block removes what they name. -/
theorem rmDents_trims (block : Block) (js : List Nat) (nodup : js.Nodup)
    (bounds : ∀ j ∈ js, j < dentPerBlock) (debbuf : Block) (ended : debbuf.Ended)
    (same : ∀ j ∈ js, debbuf.entry j = block.entry j)
    (each : ∀ ino ∈ childInos (js.filterMap block.entry),
      Removes fs tree owned remove visits ino)
    (trimmed : Trimmed fs mid tree owned part gone) :
    ∃ debbuf' next, rmDents remove js debbuf ⟨mid, []⟩ =
        some (⟨debbuf', false, (childInos (js.filterMap block.entry)).length, false⟩, ⟨next, []⟩) ∧
      Trimmed fs next tree owned part
        (gone ++ (childInos (js.filterMap block.entry)).flatMap visits) := by
  -- An entry that was given up is not among those that come later.
  induction js generalizing debbuf mid gone with
  | nil =>
    refine ⟨debbuf, mid, rfl, ?_⟩
    rwa [List.filterMap_nil, childInos, List.filter_nil, List.map_nil, List.flatMap_nil,
      List.append_nil]
  | cons first rest ih =>
    obtain ⟨apart, nodup⟩ := List.nodup_cons.mp nodup
    have inside := bounds first List.mem_cons_self
    have later : ∀ j ∈ rest, j < dentPerBlock := fun j mem => bounds j (List.mem_cons_of_mem _ mem)
    have sameLater : ∀ j ∈ rest, debbuf.entry j = block.entry j := fun j mem =>
      same j (List.mem_cons_of_mem _ mem)
    have here := same first List.mem_cons_self
    rw [rmDents]
    dsimp only
    rw [Block.getD_dents inside]
    cases isEntry : block.entry first with
    | none =>
      -- Nothing is named here.
      rw [List.filterMap_cons_none isEntry] at each ⊢
      rw [if_pos (.inl (Block.inoOf_none (here.trans isEntry)))]
      exact ih nodup later debbuf ended sameLater each trimmed
    | some dent =>
      obtain ⟨used, is⟩ := Block.inoOf_some (here.trans isEntry)
      have isName := congrArg GfsDentry.fname is
      have isIno := congrArg GfsDentry.ino is
      dsimp only at isName isIno
      rw [List.filterMap_cons_some isEntry] at each ⊢
      rw [isName]
      by_cases child : dent.isChild = true
      · -- What it names is removed.
        obtain ⟨notSelf, notParent⟩ := (GfsDentry.isChild_iff dent).mp child
        rw [childInos_child _ child] at each ⊢
        have changed := Block.setIno_changed inside ended
        obtain ⟨code, next, removed, answer, trimmed'⟩ :=
          each _ List.mem_cons_self part gone mid trimmed
        obtain ⟨debbuf', last, removes, trimmed''⟩ := ih nodup later _ changed.ended (by
          intro j mem
          rw [changed.entries j (later j mem), update_apart mem apart none]
          exact sameLater j mem) (fun ino mem => each ino (List.mem_cons_of_mem _ mem)) trimmed'
        refine ⟨debbuf', last, ?_, ?_⟩
        · rw [if_neg (not_or.mpr ⟨used, not_or.mpr ⟨notSelf, notParent⟩⟩), isIno, removed,
            Option.bind_some]
          dsimp only
          rw [if_pos answer, removes, Option.map_some, List.length_cons]
        · rwa [List.flatMap_cons, ← List.append_assoc]
      · -- The names that every directory has are passed over.
        have names : debbuf.inoOf first = dentryInvalidIno ∨ dent.fname = selfName ∨
            dent.fname = parentName := by
          by_contra neither
          rw [not_or, not_or] at neither
          exact child ((GfsDentry.isChild_iff dent).mpr neither.2)
        rw [childInos_other _ child] at each ⊢
        rw [if_pos names]
        exact ih nodup later debbuf ended sameLater each trimmed

/-- The loop over the blocks of an array removes what their entries name, and the blocks. -/
theorem rmBlocks_trims (parr ds : List Nat)
    (are : (parr.filter fun ptr => ptr ≠ inodeInvalidPtr) = ds) (blocks : ∀ p ∈ ds, IsBlock p)
    (ended : ∀ p ∈ ds, (fs.vol.blocks p).Ended)
    (each : ∀ ino ∈ childInos (ds.flatMap fun p => (fs.vol.blocks p).used),
      Removes fs tree owned remove visits ino)
    (trimmed : Trimmed fs mid tree owned part gone) :
    ∃ parr' next, rmBlocks remove parr ⟨mid, []⟩ =
        some ((parr', (childInos (ds.flatMap fun p => (fs.vol.blocks p).used)).length),
          ⟨next, []⟩) ∧
      (∀ p ∈ parr', p = inodeInvalidPtr) ∧
      Trimmed fs next tree owned (part ++ ds)
        (gone ++ (childInos (ds.flatMap fun p => (fs.vol.blocks p).used)).flatMap visits) := by
  -- A block is given back when nothing is left in it.
  induction parr generalizing ds mid part gone with
  | nil =>
    subst are
    refine ⟨[], mid, rfl, by simp, ?_⟩
    rw [List.filter_nil, List.flatMap_nil, childInos, List.filter_nil, List.map_nil,
      List.flatMap_nil, List.append_nil, List.append_nil]
    exact trimmed
  | cons ptr parr ih =>
    rw [rmBlocks]
    by_cases invalid : ptr = inodeInvalidPtr
    · -- No block is here.
      rw [if_pos invalid]
      rw [List.filter_cons_of_neg (by simpa using invalid)] at are
      obtain ⟨parr', next, removes, all, trimmed'⟩ := ih ds are blocks ended each trimmed
      refine ⟨ptr :: parr', next, ?_, ?_, trimmed'⟩
      · rw [removes]
        rfl
      · intro p mem
        rcases List.mem_cons.mp mem with rfl | later
        · exact invalid
        · exact all p later
    · -- What the block names goes first, then the block, then the rest of the array.
      rw [if_neg invalid]
      rw [List.filter_cons_of_pos (by simpa using invalid)] at are
      subst are
      rw [List.flatMap_cons, childInos_append, Block.used_eq] at each ⊢
      obtain ⟨debbuf, next1, removes1, trimmed1⟩ := rmDents_trims (fs.vol.blocks ptr)
        (List.range dentPerBlock) List.nodup_range (fun j mem => List.mem_range.mp mem)
        (fs.vol.blocks ptr) (ended ptr List.mem_cons_self) (fun _ _ => rfl)
        (fun ino mem => each ino (List.mem_append_left _ mem)) trimmed
      obtain ⟨next2, frees, cleared⟩ := freeBlock_clears ⟨next1, []⟩
        (blocks ptr List.mem_cons_self)
      obtain ⟨parr', next3, removes3, all, trimmed3⟩ := ih _ rfl
        (fun p mem => blocks p (List.mem_cons_of_mem _ mem))
        (fun p mem => ended p (List.mem_cons_of_mem _ mem))
        (fun ino mem => each ino (List.mem_append_right _ mem)) (trimmed1.freed cleared)
      refine ⟨inodeInvalidPtr :: parr', next3, ?_, ?_, ?_⟩
      · dsimp only
        rw [trimmed.blocks, removes1, Option.bind_some]
        dsimp only
        rw [if_neg Bool.false_ne_true, if_neg Bool.false_ne_true, frees]
        simp only [removes3, Option.map_some, List.length_append]
      · intro p mem
        rcases List.mem_cons.mp mem with rfl | later
        · rfl
        · exact all p later
      · rw [List.flatMap_append, ← List.append_assoc]
        rwa [List.append_assoc part] at trimmed3

/-- "." and ".." are two entries at most. -/
theorem childInos_length {dents : List GfsDentry} (distinct : (dents.map GfsDentry.fname).Nodup) :
    dents.length ≤ (childInos dents).length + 2 := by
  -- The other entries have one of two names.
  have parts := List.length_eq_length_filter_add (l := dents) GfsDentry.isChild
  have others : (dents.filter fun dent => !dent.isChild).length ≤ 2 := by
    have names : ((dents.filter fun dent => !dent.isChild).map GfsDentry.fname).Subperm
        [selfName, parentName] := by
      apply List.Nodup.subperm (distinct.sublist (List.filter_sublist.map _))
      intro fname mem
      obtain ⟨dent, isDent, is⟩ := List.mem_map.mp mem
      have other := (List.mem_filter.mp isDent).2
      rw [Bool.not_eq_true', ← Bool.not_eq_true, GfsDentry.isChild_iff, is] at other
      by_contra neither
      simp only [List.mem_cons, List.not_mem_nil, or_false, not_or] at neither
      exact other neither
    have few := names.length_le
    rwa [List.length_map] at few
  have children : (childInos dents).length = (dents.filter GfsDentry.isChild).length :=
    List.length_map _
  omega

/-- The end of the branch for directories. -/
theorem finishDir_empty {d removed : Nat} {inode : GfsInode} {r : Removal}
    (all : removed ≤ inode.size) (few : inode.size ≤ removed + 2) :
    finishDir d inode removed r = (0, { r with fs := r.fs.freeInode d }) := by
  unfold finishDir
  dsimp only
  rw [u32Sub_of_le all, if_neg (by omega)]

/-- The branch of `GFS_remove_file_or_dir` for directories. -/
theorem removeDir_trims {d nblk : Nat} {dents : List GfsDentry}
    (shows_ : ShowsNodes fs tree.node owned) (is : tree.node d = some (.dir dents nblk))
    (distinct : (dents.map GfsDentry.fname).Nodup)
    (each : ∀ ino ∈ childInos dents, Removes fs tree owned remove visits ino)
    (trimmed : Trimmed fs mid tree owned part gone) :
    ∃ next, removeDir remove d (mid.vol.inodes d) ⟨mid, []⟩ = some (0, ⟨next, []⟩) ∧
      Trimmed fs next tree owned part (gone ++ ((childInos dents).flatMap visits ++ [d])) := by
  have valid := shows_.inside d (by rw [is]; rfl)
  have blocks := @ShowsNodes.isBlock _ _ _ shows_ d
  cases shows_.shown d _ is with
  | dir ok size entries count =>
    have notFile : (fs.vol.inodes d).type ≠ .file := by
      rw [ok.type]
      decide
    have inode : mid.vol.inodes d = fs.vol.inodes d := by
      rw [trimmed.inodes, GfsInode.lessLinks, if_neg notFile]
    -- The size counts "." and "..", which are not removed one by one.
    have all : (childInos dents).length ≤ (fs.vol.inodes d).size := by
      rw [size, childInos, List.length_map]
      exact List.length_filter_le _ _
    have few : (fs.vol.inodes d).size ≤ (childInos dents).length + 2 := by
      rw [size]
      exact childInos_length distinct
    have second := ok.tree.indirect
    have direct : ((fs.vol.inodes d).dptr.toList.filter fun ptr => ptr ≠ inodeInvalidPtr) =
        (owned d).take inodeNdptr := by
      rw [ok.tree.direct]
      exact filter_blocks _ fun p mem => blocks p (List.mem_of_mem_take mem)
    have data := ok.entries_eq
    rw [entries, dataPtrs_few ok.few, List.flatMap_append] at data
    have isData : ∀ p, p ∈ (owned d).take inodeNdptr ∨ p ∈ (owned d).drop (directPtrs + 1) →
        (fs.vol.blocks p).Ended := by
      intro p mem
      apply ok.ended
      rw [dataPtrs_few ok.few]
      exact List.mem_append.mpr mem
    have parts := List.take_append_drop directPtrs (owned d)
    -- The inode is given back when all blocks are.
    have finish : ∀ {next qs}, Trimmed fs next tree owned (part ++ qs)
        (gone ++ (childInos dents).flatMap visits) → (∀ p, p ∈ qs ↔ p ∈ owned d) →
        Trimmed fs (next.freeInode d) tree owned part
          (gone ++ ((childInos dents).flatMap visits ++ [d])) := by
      intro next qs trimmed' same
      rw [← List.append_assoc]
      apply trimmed'.dropped valid same
      · rw [TreeStore.gone_dir is]
        exact List.mem_append_right _ List.mem_cons_self
      · unfold GfsInode.lessLinks
        rw [if_neg notFile, if_neg notFile]
    -- The entries below direct pointers come first.
    rw [data, childInos_append] at each all few finish ⊢
    obtain ⟨parr, next1, removes1, -, trimmed1⟩ := rmBlocks_trims _ _ direct
      (fun p mem => blocks p (List.mem_of_mem_take mem)) (fun p mem => isData p (.inl mem))
      (fun ino mem => each ino (List.mem_append_left _ mem)) trimmed
    unfold removeDir rmDentriesOnPtrArr
    rw [inode, Removal.kmalloc_room rfl]
    dsimp only
    rw [removes1, Option.bind_some]
    dsimp only
    cases rest : (owned d).drop directPtrs with
    | nil =>
      -- Without an index block that is all.
      rw [rest] at second
      have gone_ : (fs.vol.inodes d).idptr = inodeInvalidPtr := second
      have none_ : (owned d).drop (directPtrs + 1) = [] := by
        rw [← List.drop_drop, rest]
        rfl
      rw [rest, List.append_nil] at parts
      have nothing : childInos [] = [] := rfl
      rw [none_, List.flatMap_nil, nothing, List.append_nil] at all few finish ⊢
      rw [if_pos gone_]
      refine ⟨_, congrArg some (finishDir_empty all few), finish trimmed1 ?_⟩
      intro p
      exact (congrArg (p ∈ ·) parts).to_iff
    | cons q rs =>
      -- Below the index block it is the same, and the index block goes last.
      rw [rest] at second parts
      obtain ⟨isIndex, holds⟩ := second
      have behind : (owned d).drop (directPtrs + 1) = rs := by
        rw [← List.drop_drop, rest]
        rfl
      have isOwned : ∀ p, p ∈ owned d ↔ p ∈ (owned d).take inodeNdptr ∨ p = q ∨ p ∈ rs := by
        intro p
        conv_lhs => rw [← parts]
        rw [List.mem_append, List.mem_cons]
        rfl
      have size' : rs.length ≤ ptrPerBlock := by
        have room := ok.few
        rw [← behind, List.length_drop]
        simp only [directPtrs, indirectPtrs] at *
        omega
      have last : ∀ p, p ∈ (owned d).take inodeNdptr ++ (rs ++ [q]) ↔ p ∈ owned d := by
        intro p
        rw [isOwned, List.mem_append, List.mem_append, List.mem_singleton, @or_comm (p = q)]
      have isBlock := blocks q ((isOwned q).mpr (.inr (.inl rfl)))
      rw [List.take_of_length_le size'] at holds
      have indirect : ((fs.vol.blocks q).ptrs.filter fun ptr => ptr ≠ inodeInvalidPtr) = rs := by
        rw [holds]
        exact filter_blocks _ fun p mem => blocks p ((isOwned p).mpr (.inr (.inr mem)))
      rw [behind] at each all few finish ⊢
      obtain ⟨idb, next2, removes2, empty, trimmed2⟩ := rmBlocks_trims _ _ indirect
        (fun p mem => blocks p ((isOwned p).mpr (.inr (.inr mem))))
        (fun p mem => isData p (.inr (by rwa [behind])))
        (fun ino mem => each ino (List.mem_append_right _ mem)) trimmed1
      obtain ⟨next3, frees, cleared⟩ := freeBlock_clears ⟨next2, []⟩ isBlock
      have noneLeft : ¬ (idb.any fun ptr => ptr ≠ inodeInvalidPtr) = true := by
        intro some_
        obtain ⟨ptr, mem, valid'⟩ := List.any_eq_true.mp some_
        exact of_decide_eq_true valid' (empty ptr mem)
      have isPtr : (fs.vol.inodes d).idptr ≠ inodeInvalidPtr := by
        rw [isIndex]
        exact isBlock.valid
      rw [if_neg isPtr, Removal.kmalloc_room rfl]
      dsimp only
      rw [Removal.kmalloc_room rfl, trimmed1.blocks, isIndex]
      dsimp only
      rw [removes2, Option.bind_some]
      dsimp only
      rw [if_neg noneLeft, frees]
      simp only
      rw [List.length_append] at all few
      have cleared' := trimmed2.freed cleared
      rw [List.append_assoc gone, ← List.flatMap_append, List.append_assoc,
        List.append_assoc] at cleared'
      exact ⟨_, congrArg some (finishDir_empty all few), finish cleared' last⟩

/-! ## Trees -/

/-- When all calls of a list answer, the list of the answers is that of each call's. -/
theorem mapM_flatten {α β : Type} (f : α → Option (List β)) (xs : List α) :
    ∀ parts, xs.mapM f = some parts →
      parts.flatten = xs.flatMap (fun x => (f x).getD []) ∧ ∀ x ∈ xs, (f x).isSome := by
  induction xs with
  | nil =>
    intro parts are
    obtain rfl : [] = parts := Option.some_inj.mp are
    exact ⟨rfl, by simp⟩
  | cons x xs ih =>
    intro parts are
    rw [List.mapM_cons] at are
    obtain ⟨part, isPart, rest⟩ := Option.bind_eq_some_iff.mp are
    obtain ⟨parts', areRest, same⟩ := Option.bind_eq_some_iff.mp rest
    obtain rfl : part :: parts' = parts := Option.some_inj.mp same
    obtain ⟨flat, each⟩ := ih parts' areRest
    constructor
    · rw [List.flatten_cons, List.flatMap_cons, isPart, flat]
      rfl
    · intro y mem
      rcases List.mem_cons.mp mem with rfl | later
      · rw [isPart]
        rfl
      · exact each y later

/-- What is below an inode is what is below its children, and the inode. -/
theorem TreeStore.below_some {depth ino : Nat} {all : List Nat}
    (isBelow : tree.below (depth + 1) ino = some all) :
    (tree.node ino).isSome ∧
      all = (tree.children ino).flatMap (tree.visits depth) ++ [ino] ∧
      ∀ child ∈ tree.children ino, ∃ gone, tree.below depth child = some gone ∧
        ∀ x ∈ gone, x ∈ all := by
  rw [TreeStore.below] at isBelow
  cases used : (tree.node ino).isNone with
  | true =>
    -- Nothing is below what is not there.
    rw [if_pos used] at isBelow
    cases isBelow
  | false =>
    rw [if_neg (by rw [used]; exact Bool.false_ne_true), Option.map_eq_some_iff] at isBelow
    obtain ⟨parts, are, rfl⟩ := isBelow
    obtain ⟨flat, each⟩ := mapM_flatten _ _ _ are
    refine ⟨by rw [← Option.not_isNone, used]; rfl, by rw [flat]; rfl, ?_⟩
    intro child mem
    obtain ⟨gone, isGone⟩ := Option.isSome_iff_exists.mp (each child mem)
    refine ⟨gone, isGone, ?_⟩
    intro x inside
    rw [flat]
    apply List.mem_append_left
    exact List.mem_flatMap.mpr ⟨child, mem, by rwa [isGone]⟩

/-- The names of a directory. -/
theorem TreeStore.dents_dir {ino nblk : Nat} {dents : List GfsDentry}
    (is : tree.node ino = some (.dir dents nblk)) : tree.dents ino = dents := by
  rw [TreeStore.dents, is]

/-- A file has none. -/
theorem TreeStore.dents_file {ino nlink : Nat} {bytes : List UInt8}
    (is : tree.node ino = some (.file bytes nlink)) : tree.dents ino = [] := by
  rw [TreeStore.dents, is]

/-- The children of an inode are what its entries name. -/
theorem childInos_children (tree : TreeStore) (ino : Nat) :
    childInos (tree.dents ino) = tree.children ino := rfl

/-- `GFS_remove_file_or_dir`: all that is below an inode is removed, when none of it is open. -/
theorem gfsRemoveFileOrDir_removes {flist : List FlistNode}
    (shows_ : ShowsNodes fs tree.node owned)
    (distinct : ∀ ino, ((tree.dents ino).map GfsDentry.fname).Nodup) (depth : Nat) :
    ∀ ino all, tree.below depth ino = some all → (∀ x ∈ all, flistSearch flist x = false) →
      Removes fs tree owned (gfsRemoveFileOrDir flist depth) (tree.visits depth) ino := by
  -- A call for each child comes before the inode is given back.
  induction depth with
  | zero =>
    intro ino all isBelow
    cases isBelow
  | succ depth ih =>
    intro ino all isBelow idle part before mid trimmed
    have visits : tree.visits (depth + 1) ino = all := by
      rw [TreeStore.visits, isBelow]
      rfl
    obtain ⟨used, parts, each⟩ := TreeStore.below_some isBelow
    have valid := shows_.inside ino used
    have closed : flistSearch flist ino = false := by
      apply idle
      rw [parts]
      exact List.mem_append_right _ List.mem_cons_self
    have read : mid.vol.readInode ino = some (mid.vol.inodes ino) := by
      rw [GfsVolume.readInode, if_neg]
      rw [trimmed.inodeNum, shows_.inodeNum]
      exact Nat.not_le.mpr valid
    have type : (mid.vol.inodes ino).type = (fs.vol.inodes ino).type := by
      rw [trimmed.inodes, GfsInode.lessLinks]
      split
      · rfl
      · rfl
    rw [visits, gfsRemoveFileOrDir, if_neg (by rw [closed]; exact Bool.false_ne_true)]
    dsimp only
    rw [read]
    dsimp only
    rw [type]
    obtain ⟨n, is⟩ := Option.isSome_iff_exists.mp used
    have children := childInos_children tree ino
    rw [← children] at parts each
    cases n with
    | file bytes nlink =>
      -- Nothing is below a file.
      have none_ : childInos (tree.dents ino) = [] := by
        rw [TreeStore.dents_file is]
        rfl
      rw [none_, List.flatMap_nil, List.nil_append] at parts
      cases shows_.shown ino _ is with
      | file full isFile =>
        obtain ⟨code, next, removed, answer, trimmed'⟩ := removeFile_trims shows_ is trimmed
        rw [isFile, parts]
        exact ⟨code, next, congrArg some removed, answer, trimmed'⟩
    | dir dents nblk =>
      -- The calls for children have less stack.
      rw [TreeStore.dents_dir is] at parts each
      have names := distinct ino
      rw [TreeStore.dents_dir is] at names
      cases shows_.shown ino _ is with
      | dir ok =>
        obtain ⟨next, removed, trimmed'⟩ := removeDir_trims shows_ is names (by
          intro child mem
          obtain ⟨gone, isGone, inside⟩ := each child mem
          exact ih child gone isGone fun x mem' => idle x (inside x mem')) trimmed
        rw [ok.type, parts]
        exact ⟨0, next, removed, .inl rfl, trimmed'⟩

end Removing

end GlucOS
