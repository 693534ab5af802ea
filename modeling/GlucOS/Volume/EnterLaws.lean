import GlucOS.Volume.CostLaws
import GlucOS.Volume.ShowLaws

/-! How a directory gets an entry, and a file or directory its inode, on a volume with a tree. -/

namespace GlucOS

/-! ## The two bitmaps -/

section Bitmaps

variable {mem next : SecMem}

/-- Sectors of inodes are none of blocks. -/
theorem isSet_inode {ino : Nat} (inside : ino < inodeBitmap.bits)
    (others : ∀ sidx, ¬ blockBitmap.has sidx → next.cache sidx = mem.cache sidx) :
    inodeBitmap.isSet next.cache ino = inodeBitmap.isSet mem.cache ino := by
  have bits : inodeBitmap.bits = 7 * secBits := rfl
  have sector : ino / secBits < 7 := Nat.div_lt_of_lt_mul (by rw [Nat.mul_comm]; omega)
  unfold SecRange.isSet
  rw [others]
  intro has
  have first : blockBitmap.start ≤ inodeBitmap.start + ino / secBits := has.1
  change 8 ≤ 1 + ino / secBits at first
  omega

/-- Sectors of blocks are none of inodes. -/
theorem isSet_block
    (outside : ∀ sidx, ¬ inodeBitmap.has sidx → next.cache sidx = mem.cache sidx) (b : Nat) :
    blockBitmap.isSet next.cache b = blockBitmap.isSet mem.cache b := by
  unfold SecRange.isSet
  rw [outside]
  intro has
  have last : blockBitmap.start + b / secBits < inodeBitmap.stop := has.2
  change 8 + b / secBits < 8 at last
  exact absurd last (Nat.not_lt.mpr (Nat.le_add_right _ _))

end Bitmaps

section Volumes

variable {fs mid next : Gfs} {node : Nat → Option FsNode} {owned : Nat → List Nat}

/-- Neither the inode bitmap nor descriptors matter for the nodes. -/
theorem ShowsNodes.rebits (shows_ : ShowsNodes fs node owned) (vol : next.vol = fs.vol)
    (bits : ∀ b, blockBitmap.isSet next.bitmaps.cache b =
      blockBitmap.isSet fs.bitmaps.cache b) : ShowsNodes next node owned where
  shown := by
    intro ino n is
    apply (shows_.shown ino n is).congr (by rw [vol]) (by rw [vol])
    · intro p _
      rw [vol]
    · intro p _ b _ isSet
      rw [bits]
      exact isSet
  unused := shows_.unused
  apart := shows_.apart
  found := by
    intro b inside isSet
    rw [bits] at isSet
    exact shows_.found b inside isSet
  inodeNum := by rw [vol, shows_.inodeNum]
  inside := shows_.inside

/-- A call on a directory leaves the inode bitmap. -/
theorem ShowsInodes.stepped {inode inode' : GfsInode} {ps qs : List Nat}
    (shows_ : ShowsInodes fs node) (step : DirStep fs next inode inode' ps qs) :
    ShowsInodes next node := by
  intro ino inside
  rw [isSet_inode inside fun sidx outside => (step.others sidx outside).1]
  exact shows_ ino inside

/-- Exactly the blocks that a directory takes are not free any more. -/
theorem DirStep.taken {inode inode' : GfsInode} {ps qs : List Nat}
    (step : DirStep fs next inode inode' ps qs) :
    (blockBitmap.clear next.bitmaps).length + qs.length =
      (blockBitmap.clear fs.bitmaps).length := by
  apply clear_taken step.bits _ (List.nodup_append.mp step.ok.nodup).2.1
  intro q mem
  obtain ⟨b, is, free⟩ := step.free q mem
  obtain ⟨b', inside, -, is'⟩ := step.ok.held q (List.mem_append_right _ mem)
  obtain rfl : b = b' := Nat.add_right_cancel (is.symm.trans is')
  exact ⟨b, inside, is, free⟩

/-- A directory after a call, whose inode is written, is shown with its entries. -/
theorem ShowsNodes.stepped (shows_ : ShowsNodes fs node owned) {d : Nat} {inode inode' : GfsInode}
    {qs : List Nat} {dents : List GfsDentry} (valid : d < inodeBitmap.bits)
    (step : DirStep fs mid inode inode' (owned d) qs) (size : inode'.size = dents.length)
    (entries : mid.vol.entries inode' = dents) :
    ShowsNodes (mid.putInode d inode')
      (Function.update node d (some (.dir dents (owned d ++ qs).length)))
      (Function.update owned d (owned d ++ qs)) := by
  have self : (mid.putInode d inode').vol.inodes d = inode' := Function.update_self ..
  apply shows_.change d valid
  · intro n' is
    rw [Option.some_inj] at is
    subst is
    have ok := step.ok
    refine .dir ?_ (by rw [self]; exact size) ?_ rfl
    · rw [self]
      exact ⟨ok.type, ok.tree, ok.few, ok.nodup, ok.held, ok.ended⟩
    · rw [self, ← entries]
      rfl
  · intro none_
    cases none_
  · intro ino other _
    refine (Function.update_of_ne other _ _).trans ?_
    rw [step.inodes.1]
  · exact step.inodes.2.1
  · intro p notNew notOld
    apply step.outside
    exact notNew
  · intro b inside
    have isSet : blockBitmap.isSet (mid.putInode d inode').bitmaps.cache b = true ↔
        blockBitmap.isSet fs.bitmaps.cache b = true ∨ b + gfsDatalocBlock ∈ qs := by
      refine (congrArg (· = true) (step.bits b)).to_iff.trans ?_
      rw [Bool.or_eq_true, decide_eq_true_eq]
    rw [isSet, List.mem_append]
    constructor
    · intro is
      rcases is with old | new
      · by_cases mine : b + gfsDatalocBlock ∈ owned d
        · exact .inl (.inl mine)
        · exact .inr ⟨old, mine⟩
      · exact .inl (.inr new)
    · intro is
      rcases is with (mine | new) | ⟨old, -⟩
      · obtain ⟨b', -, old, same⟩ := shows_.held _ mine
        obtain rfl : b = b' := Nat.add_right_cancel same
        exact .inl old
      · exact .inr new
      · exact .inl old
  · intro p mem
    rcases List.mem_append.mp mem with old | new
    · exact .inl old
    · exact .inr (step.free p new)

/-! ## Inodes -/

variable {tree : TreeStore}

/-- The inode that is taken is the first that has no node. -/
theorem takeInode_shown (shows_ : ShowsInodes fs tree.node) :
    fs.takeInode.1 = tree.vacant ∧ fs.takeInode.2.vol = fs.vol ∧
      (∀ b, blockBitmap.isSet fs.takeInode.2.bitmaps.cache b =
        blockBitmap.isSet fs.bitmaps.cache b) ∧
      ∀ ino, inodeBitmap.isSet fs.takeInode.2.bitmaps.cache ino =
        (inodeBitmap.isSet fs.bitmaps.cache ino || decide (tree.vacant = some ino)) := by
  have takes := gfsAllocInBitmap_takes inodeBitmap 1 fs.bitmaps
  unfold Gfs.takeInode
  generalize gfsAllocInBitmap 1 inodeBitmap fs.bitmaps = taken at *
  obtain ⟨bitmaps, iarr⟩ := taken
  dsimp only at takes ⊢
  have first : iarr.head? = tree.vacant := by
    rw [takes.least, List.head?_take, if_neg Nat.one_ne_zero, SecRange.clear, List.head?_filter,
      TreeStore.vacant]
    -- Clear bits are those of inodes without a node.
    apply List.find?_congr
    intro ino mem
    rw [shows_ ino (List.mem_range.mp mem), Option.not_isSome]
  have few : iarr.length ≤ 1 := by
    rw [takes.least]
    exact List.length_take_le 1 _
  refine ⟨first, rfl, isSet_block fun sidx outside => (takes.outside sidx outside).1, ?_⟩
  intro ino
  have same : decide (ino ∈ iarr) = decide (tree.vacant = some ino) := by
    rw [← first]
    cases iarr with
    | nil => simp
    | cons tino rest =>
      rw [List.length_cons] at few
      have alone : rest = [] := List.length_eq_zero_iff.mp (by omega)
      rw [alone]
      simp [eq_comm]
  rw [takes.sets, same]

/-- The inode that a new node gets has none yet. -/
theorem TreeStore.vacant_spec {tino : Nat} (vacant : tree.vacant = some tino) :
    tino < inodeBitmap.bits ∧ tree.node tino = none := by
  unfold TreeStore.vacant at vacant
  have isNone := List.find?_some vacant
  exact ⟨List.mem_range.mp (List.mem_of_find?_eq_some vacant), Option.isNone_iff_eq_none.mp isNone⟩

/-- A directory is a node. -/
theorem TreeStore.IsDir.used {d : Nat} (isDir : tree.IsDir d) : (tree.node d).isSome := by
  obtain ⟨dents, nblk, is⟩ := isDir
  rw [is]
  rfl

/-- A file is no directory. -/
theorem TreeStore.notDir_of_file {ino nlink : Nat} {bytes : List UInt8}
    (is : tree.node ino = some (.file bytes nlink)) : ¬ tree.IsDir ino := by
  intro isDir
  obtain ⟨dents, nblk, isDents⟩ := isDir
  rw [is] at isDents
  cases isDents

/-- An inode without a node is not that of any node. -/
theorem TreeStore.apart_of_none {ino other : Nat} (none_ : tree.node ino = none)
    (used : (tree.node other).isSome) : ino ≠ other := by
  intro same
  rw [← same, none_] at used
  cases used

/-- An inode that is given back. -/
theorem freeInode_frees (fs : Gfs) {ino : Nat} (valid : ino < inodeBitmap.bits) :
    (fs.freeInode ino).vol = fs.vol ∧
      (∀ b, blockBitmap.isSet (fs.freeInode ino).bitmaps.cache b =
        blockBitmap.isSet fs.bitmaps.cache b) ∧
      ∀ other, inodeBitmap.isSet (fs.freeInode ino).bitmaps.cache other =
        (inodeBitmap.isSet fs.bitmaps.cache other && !decide (other = ino)) := by
  rcases gfsFreeInBitmap_frees inodeBitmap ino fs.bitmaps with ⟨beyond, -⟩ | ⟨-, -, frees⟩
  · omega
  · exact ⟨rfl, isSet_block fun sidx outside => (frees.outside sidx outside).1, frees.clears⟩

/-! ## Names -/

/-- Inodes of nodes can be read. -/
theorem ShowsNodes.readInode (shows_ : ShowsNodes fs node owned) {ino : Nat}
    (used : (node ino).isSome) : fs.vol.readInode ino = some (fs.vol.inodes ino) := by
  unfold GfsVolume.readInode
  rw [if_neg]
  rw [shows_.inodeNum]
  exact Nat.not_le.mpr (shows_.inside ino used)

/-- A name is found as in the tree. -/
theorem ShowsNodes.search (shows_ : ShowsNodes fs tree.node owned) {ino : Nat}
    (used : (tree.node ino).isSome) (fname : CharBuf) :
    fs.vol.searchDentryInDirInode (fs.vol.inodes ino) fname = tree.find ino fname := by
  obtain ⟨n, is⟩ := Option.isSome_iff_exists.mp used
  rw [GfsVolume.searchDentryInDirInode_eq]
  unfold TreeStore.find TreeStore.dents
  rw [is]
  cases shows_.shown ino n is with
  | file _ isFile =>
    rw [isFile, if_neg (by decide)]
    rfl
  | dir ok _ entries =>
    rw [if_pos ok.type, entries]
    rfl

/-- Adding an entry puts it among the names of a directory, when there are blocks for it. -/
theorem enter_shown {pino ino : Nat} {tname : CharBuf} (shows_ : ShowsNodes fs tree.node owned)
    (isDir : tree.IsDir pino) (fits : Fits tname) (valid : ino < dentryInvalidIno)
    (room : tree.costOf pino ≤ tree.free) (debbuf : Block) :
    (nDentries ≤ (tree.dents pino).length ∧
      addDentry fs (fs.vol.inodes pino) tname ino debbuf = (1, fs.vol.inodes pino, fs)) ∨
    ((tree.dents pino).length < nDentries ∧ ∃ inode next tree' qs,
      addDentry fs (fs.vol.inodes pino) tname ino debbuf = (0, inode, next) ∧
        NameEntered tree pino ⟨tname, ino⟩ tree' ∧
        ShowsNodes (next.putInode pino inode) tree'.node
          (Function.update owned pino (owned pino ++ qs)) ∧
        DirStep fs next (fs.vol.inodes pino) inode (owned pino) qs ∧
        tree'.free + tree.costOf pino = tree.free) := by
  obtain ⟨dents, nblk, is⟩ := isDir
  have inside := shows_.inside pino (by rw [is]; rfl)
  have names : tree.dents pino = dents := by rw [TreeStore.dents, is]
  have cost : tree.costOf pino = entryCost dents.length nblk := by rw [TreeStore.costOf, is]
  have free := shows_.free
  rw [names]
  cases shows_.shown pino _ is with
  | dir ok size entries count =>
    by_cases large : nDentries ≤ dents.length
    · left
      refine ⟨large, ?_⟩
      unfold addDentry
      rw [if_neg (not_not.mpr ok.type), if_pos (by rwa [size])]
    · right
      have fewer := Nat.lt_of_not_le large
      obtain ⟨qs, step, added⟩ :=
        addDentry_spec ok fits.1 valid (size.trans (by rw [entries])) debbuf
      have costs := addDentry_costs ok tname ino debbuf
      have taken := step.taken
      rw [entries, count] at costs
      generalize addDentry fs (fs.vol.inodes pino) tname ino debbuf = result at *
      obtain ⟨answer, inode, next⟩ := result
      dsimp only at *
      rw [List.take_of_length_le fits.2] at added
      cases added with
      | @done front back old new grown =>
        rw [entries] at old
        have exactly : qs.length = entryCost dents.length nblk := by
          have := costs.1 rfl
          omega
        have shown := shows_.stepped inside step (by
          rw [grown, size, old]
          simp only [List.length_append, List.length_cons]
          omega) new
        rw [List.length_append, count, exactly, old] at shown
        refine ⟨fewer, inode, next, _, qs, rfl, .intro (by rw [is, old]) (old ▸ fewer), shown, step,
          ?_⟩
        have left := @ShowsNodes.free _ _ (tree.put pino _) shown
        rw [← left, cost, ← exactly, ← free]
        exact taken
      | full large' => exact absurd (size ▸ large') large
      | noBlock old same none_ =>
        have := costs.2 rfl
        omega

end Volumes

end GlucOS
