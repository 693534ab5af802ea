import GlucOS.Volume.EnterLaws

/-! What `do_mkdir`, `do_open` with `O_CREAT`, and `do_hlink` do to the tree of a volume. -/

namespace GlucOS

/-! ## Nodes that come and change -/

section Nodes

variable {fs next : Gfs} {node : Nat → Option FsNode} {owned : Nat → List Nat} {tree : TreeStore}

/-- A fresh inode leads nowhere. -/
theorem freshInode_tree (type : InodeType) (blocks : Nat → Block) :
    FileTree (freshInode type) blocks [] where
  direct := by
    rw [List.take_nil, padded, List.nil_append, List.length_nil, Nat.sub_zero]
    exact Vector.toList_replicate
  indirect := rfl
  double := rfl

/-- A fresh inode for a directory is one. -/
theorem freshInode_dirOk (fs : Gfs) : DirOk fs (freshInode .dir) [] where
  type := rfl
  tree := freshInode_tree .dir _
  few := Nat.zero_le _
  nodup := List.nodup_nil
  held := by simp
  ended := by simp [dataPtrs, groupData]

/-- It has no entries. -/
theorem freshInode_entries (fs : Gfs) : fs.vol.entries (freshInode .dir) = [] := by
  rw [(freshInode_dirOk fs).entries_eq]
  simp [dataPtrs, groupData]

/-- An inode written is an inode put into the cache, as far as the volume is concerned. -/
theorem writeInode_vol {ino : Nat} (inode : GfsInode) (inside : ino < fs.vol.inodeNum) :
    (fs.writeInode ino inode).vol = (fs.putInode ino inode).vol ∧
      (fs.writeInode ino inode).bitmaps = fs.bitmaps := by
  unfold Gfs.writeInode
  rw [if_neg (Nat.not_le.mpr inside)]
  exact ⟨rfl, rfl⟩

/-- So are two of them, one after the other. -/
theorem writeInodes_vol {a b : Nat} (x y : GfsInode) (inside : a < fs.vol.inodeNum)
    (inside' : b < fs.vol.inodeNum) :
    ((fs.writeInode a x).writeInode b y).vol = ((fs.putInode a x).putInode b y).vol ∧
      ((fs.writeInode a x).writeInode b y).bitmaps = fs.bitmaps := by
  obtain ⟨vol, bitmaps⟩ := writeInode_vol x inside
  obtain ⟨vol', bitmaps'⟩ := @writeInode_vol (fs.writeInode a x) b y (by
    rw [vol]
    exact inside')
  refine ⟨?_, bitmaps'.trans bitmaps⟩
  rw [vol']
  unfold Gfs.putInode
  rw [vol]
  rfl

/-- A node whose inode alone changes. -/
theorem ShowsNodes.putInode (shows_ : ShowsNodes fs node owned) {d : Nat} {inode : GfsInode}
    {n : FsNode} (valid : d < inodeBitmap.bits)
    (new : ShowsNode (fs.putInode d inode) d (owned d) n) :
    ShowsNodes (fs.putInode d inode) (Function.update node d (some n)) owned := by
  have changed := @ShowsNodes.change fs (fs.putInode d inode) node owned shows_ d (some n)
    (owned d) valid
    (fun n' is => by
      rw [Option.some_inj] at is
      rwa [← is])
    (fun none_ => by cases none_)
    (fun ino other _ => Function.update_of_ne other _ _) rfl (fun _ _ _ => rfl)
    (fun b _ => by
      constructor
      · intro isSet
        by_cases mine : b + gfsDatalocBlock ∈ owned d
        · exact .inl mine
        · exact .inr ⟨isSet, mine⟩
      · intro is
        rcases is with mine | ⟨isSet, -⟩
        · obtain ⟨b', -, isSet, same⟩ := shows_.held _ mine
          obtain rfl : b = b' := Nat.add_right_cancel same
          exact isSet
        · exact isSet)
    (fun p mem => .inl mem)
  rwa [Function.update_eq_self] at changed

/-- An empty file is created. -/
theorem ShowsNodes.born (shows_ : ShowsNodes fs node owned) {tino : Nat}
    (valid : tino < inodeBitmap.bits) (none_ : node tino = none) :
    ShowsNodes (fs.putInode tino (freshInode .file))
      (Function.update node tino (some (.file [] 1))) owned := by
  have self : (fs.putInode tino (freshInode .file)).vol.inodes tino = freshInode .file :=
    Function.update_self ..
  have number : (fs.putInode tino (freshInode .file)).vol.inodeNum = inodeBitmap.bits :=
    shows_.inodeNum
  apply shows_.putInode valid
  rw [shows_.unused tino none_]
  have ok : FileOk (fs.putInode tino (freshInode .file)) tino [] := by
    refine ⟨by rw [number]; exact valid, ?_, ?_, List.nodup_nil, by simp⟩
    · rw [self]
      exact Nat.zero_le _
    · rw [self]
      exact freshInode_tree .file _
  refine .file ⟨ok, ?_⟩ (by rw [self]; rfl) (by rw [self]; rfl) ?_
  · rw [self]
    decide
  · rw [Gfs.contents, self]
    rfl

/-- A file gets another number of links. -/
theorem ShowsNodes.relinked (shows_ : ShowsNodes fs node owned) {sino nlink : Nat}
    {bytes : List UInt8} (is : node sino = some (.file bytes nlink)) (links : Nat) :
    ShowsNodes (fs.putInode sino { fs.vol.inodes sino with nlink := links })
      (Function.update node sino (some (.file bytes links))) owned := by
  have self : (fs.putInode sino { fs.vol.inodes sino with nlink := links }).vol.inodes sino =
      { fs.vol.inodes sino with nlink := links } := Function.update_self ..
  apply shows_.putInode (shows_.inside sino (by rw [is]; rfl))
  cases shows_.shown sino _ is with
  | file full isFile _ holds =>
    have ok : FileOk (fs.putInode sino { fs.vol.inodes sino with nlink := links }) sino
        (owned sino) := by
      refine ⟨full.exists_, by rw [self]; exact full.word, ?_, full.nodup, full.held⟩
      rw [self]
      exact full.tree.congr rfl rfl rfl fun _ _ => rfl
    refine .file ⟨ok, by rw [self]; exact full.count⟩ (by rw [self]; exact isFile)
      (by rw [self]) ?_
    rw [← holds]
    apply Gfs.contents_congr (by rw [self])
    intro x inside
    have room := Nat.lt_of_lt_of_le inside full.room
    rw [ok.byteAt_block room, full.byteAt_block room]
    rfl

/-- A directory step does not mind what another inode is. -/
theorem DirStep.putInode {inode inode' : GfsInode} {ps qs : List Nat}
    (step : DirStep fs next inode inode' ps qs) (d : Nat) (other : GfsInode) :
    DirStep (fs.putInode d other) (next.putInode d other) inode inode' ps qs where
  ok := ⟨step.ok.type, step.ok.tree, step.ok.few, step.ok.nodup, step.ok.held, step.ok.ended⟩
  outside := step.outside
  bits := step.bits
  free := step.free
  inodes := by
    refine ⟨?_, step.inodes.2.1, step.inodes.2.2⟩
    show Function.update next.vol.inodes d other = Function.update fs.vol.inodes d other
    rw [step.inodes.1]
  others := step.others
  fds := step.fds

/-- The inode of a new node is marked. -/
theorem ShowsInodes.marked (shows_ : ShowsInodes fs tree.node) {tino : Nat} {n : FsNode}
    {mid : TreeStore} (vacant : tree.vacant = some tino)
    (same : ∀ ino, (mid.node ino).isSome = (tree.node ino).isSome)
    (bits : ∀ ino < inodeBitmap.bits, inodeBitmap.isSet next.bitmaps.cache ino =
      (inodeBitmap.isSet fs.bitmaps.cache ino || decide (tree.vacant = some ino))) :
    ShowsInodes next (mid.put tino n).node := by
  intro ino inside
  rw [bits ino inside, shows_ ino inside, vacant]
  by_cases here : ino = tino
  · subst here
    have self : (mid.put ino n).node ino = some n := Function.update_self ..
    rw [self]
    simp
  · have other : (mid.put tino n).node ino = mid.node ino := Function.update_of_ne here _ _
    rw [other, same]
    simp [Ne.symm here]

end Nodes

/-- Adding a name does not make or remove nodes. -/
theorem NameEntered.isSome {tree next : TreeStore} {pino : Nat} {new : GfsDentry}
    (entered : NameEntered tree pino new next) (ino : Nat) :
    (next.node ino).isSome = (tree.node ino).isSome := by
  cases entered with
  | intro is _ =>
    by_cases here : ino = pino
    · subst here
      rw [TreeStore.put, is]
      dsimp only
      rw [Function.update_self]
      rfl
    · exact congrArg Option.isSome (Function.update_of_ne here _ _)

/-- It leaves other nodes. -/
theorem NameEntered.other {tree next : TreeStore} {pino ino : Nat} {new : GfsDentry}
    (entered : NameEntered tree pino new next) (other : ino ≠ pino) :
    next.node ino = tree.node ino := by
  cases entered with
  | intro is _ => exact Function.update_of_ne other _ _

/-- It leaves what is open. -/
theorem NameEntered.files {tree next : TreeStore} {pino : Nat} {new : GfsDentry}
    (entered : NameEntered tree pino new next) : next.files = tree.files := by
  cases entered with
  | intro is _ => rfl

/-! ## The calls -/

section Calls

variable {fs : Gfs} {tree : TreeStore} {owned : Nat → List Nat}

/-- Nodes stay when a call writes an inode as well. -/
theorem ShowsNodes.writeInode {node : Nat → Option FsNode} {ino : Nat} {inode : GfsInode}
    (shows_ : ShowsNodes (fs.putInode ino inode) node owned) (valid : ino < inodeBitmap.bits) :
    ShowsNodes (fs.writeInode ino inode) node owned := by
  have number : fs.vol.inodeNum = inodeBitmap.bits := shows_.inodeNum
  obtain ⟨vol, bitmaps⟩ := @writeInode_vol fs ino inode (by rwa [number])
  apply shows_.rebits vol
  intro b
  rw [bitmaps]
  rfl

/-- The names of a directory that was just made. -/
theorem fillNewDir_shown {pino tino : Nat} {inode : GfsInode}
    (shows_ : ShowsNodes (fs.putInode pino inode) tree.node owned)
    (valid : tino < inodeBitmap.bits) (none_ : tree.node tino = none)
    (parent : (tree.node pino).isSome) (room : 1 ≤ tree.free) (debbuf debbuf' : Block) :
    ∃ next dents qs, fillNewDir fs pino tino inode debbuf debbuf' = (0, next) ∧
      dents.Perm [⟨parentName, pino⟩, ⟨selfName, tino⟩] ∧
      ShowsNodes next (tree.put tino (.dir dents 1)).node (Function.update owned tino qs) ∧
      ∀ sidx, ¬ blockBitmap.has sidx → next.bitmaps.cache sidx = fs.bitmaps.cache sidx := by
  have inos : inodeBitmap.bits < dentryInvalidIno := by decide
  have clean : ∀ c ∈ selfName, c ≠ 0 := by simp [selfName]
  have clean' : ∀ c ∈ parentName, c ≠ 0 := by simp [parentName]
  have pvalid := shows_.inside pino parent
  have empty := freshInode_entries fs
  have free : (blockBitmap.clear fs.bitmaps).length = tree.free := shows_.free
  -- The first entry takes a block.
  obtain ⟨qs, step, added⟩ := addDentry_spec (freshInode_dirOk fs) clean
    (Nat.lt_trans valid inos) (by rw [empty]; rfl) debbuf
  have costs := addDentry_costs (freshInode_dirOk fs) selfName tino debbuf
  have taken := step.taken
  rw [empty, List.length_nil, List.length_nil] at costs
  have one : entryCost 0 0 = 1 := by decide
  rw [one] at costs
  unfold fillNewDir
  generalize addDentry fs (freshInode .dir) selfName tino debbuf = result at *
  obtain ⟨answer, tinode, mid⟩ := result
  dsimp only at step added costs taken ⊢
  rw [List.take_of_length_le (show selfName.length ≤ fnLen by decide)] at added
  cases added with
  | full large => exact absurd large (by decide)
  | noBlock =>
    -- There is a block, as the tree has counted.
    have := costs.2 rfl
    omega
  | @done front back old new grown =>
    rw [empty] at old
    obtain ⟨rfl, rfl⟩ := List.append_eq_nil_iff.mp old.symm
    have size : tinode.size = 1 := grown
    rw [List.nil_append] at new
    have oneBlock : qs.length = 1 := by
      have := costs.1 rfl
      omega
    -- The second entry finds room in the block of the first one.
    obtain ⟨rs, step', added'⟩ := addDentry_spec step.ok clean'
      (Nat.lt_trans pvalid inos) (by rw [size, new]; rfl) debbuf'
    have costs' := addDentry_costs step.ok parentName pino debbuf'
    have taken' := step'.taken
    have noCost : entryCost 1 1 = 0 := by decide
    rw [new, List.length_singleton, List.nil_append, oneBlock, noCost] at costs'
    simp only
    generalize addDentry mid tinode parentName pino debbuf' = result at *
    obtain ⟨answer', tinode', last⟩ := result
    dsimp only at step' added' costs' taken' ⊢
    rw [List.take_of_length_le (show parentName.length ≤ fnLen by decide)] at added'
    cases added' with
    | full large =>
      rw [size] at large
      exact absurd large (by decide)
    | noBlock => exact absurd (costs'.2 rfl) (Nat.not_lt_zero _)
    | @done front back old' new' grown' =>
      have noMore : rs = [] := by
        have := costs'.1 rfl
        exact List.length_eq_zero_iff.mp (by omega)
      have whole := step.trans step'
      rw [noMore, List.append_nil] at whole
      have unowned := shows_.unused tino none_
      have moved := whole.putInode pino inode
      rw [← unowned] at moved
      have perm : (front ++ ⟨parentName, pino⟩ :: back).Perm
          [⟨parentName, pino⟩, ⟨selfName, tino⟩] := by
        rw [new] at old'
        rw [old']
        exact List.perm_middle
      have shown := shows_.stepped valid moved (by
        rw [grown', size, perm.length_eq]
        rfl) new'
      rw [unowned, List.nil_append, oneBlock] at shown
      -- Both inodes are written at the end.
      have number : last.vol.inodeNum = inodeBitmap.bits := shown.inodeNum
      obtain ⟨vol, bitmaps⟩ := @writeInodes_vol last pino tino inode tinode' (by rwa [number])
        (by rwa [number])
      have number' : (last.writeInode pino inode).vol.inodeNum = inodeBitmap.bits := by
        rw [(writeInode_vol inode (by rwa [number])).1]
        exact number
      refine ⟨(last.writeInode pino inode).writeInode tino tinode', _, qs, ?_, perm, ?_, ?_⟩
      · simp only
        rw [number', if_neg (Nat.not_le.mpr valid)]
      · apply shown.rebits vol
        intro b
        rw [bitmaps]
        rfl
      · intro sidx outside
        rw [bitmaps]
        exact (whole.others sidx outside).1

/-- `do_mkdir`. -/
theorem doMkdir_shown (shows_ : ShowsNodes fs tree.node owned)
    (inodes : ShowsInodes fs tree.node) {ppino : Option Nat} {tname : CharBuf}
    (legal : ∀ pino, ppino = some pino →
      (tree.node pino).isSome ∧ Fits tname ∧ tree.costOf pino + 1 ≤ tree.free)
    (debbuf debbuf' debbuf'' : Block) :
    ∃ code next tree' owned', doMkdir fs ppino tname debbuf debbuf' debbuf'' = (code, next) ∧
      MkdirStep tree tname ppino code tree' ∧ ShowsNodes next tree'.node owned' ∧
      ShowsInodes next tree'.node := by
  unfold doMkdir
  cases ppino with
  | none => exact ⟨1, fs, tree, owned, rfl, .noParent, shows_, inodes⟩
  | some pino =>
    obtain ⟨used, fits, room⟩ := legal pino rfl
    dsimp only
    by_cases noName : tname = []
    · rw [if_pos noName]
      exact ⟨2, fs, tree, owned, rfl, .noName noName, shows_, inodes⟩
    · rw [if_neg noName, shows_.readInode used]
      dsimp only
      rw [shows_.search used]
      obtain ⟨n, is⟩ := Option.isSome_iff_exists.mp used
      have shown := shows_.shown pino n is
      cases n with
      | file bytes nlink =>
        cases shown with
        | file _ isFile =>
          rw [if_pos (by rw [isFile]; decide)]
          exact ⟨1, fs, tree, owned, rfl, .notDir is, shows_, inodes⟩
      | dir dents nblk =>
        have names : tree.dents pino = dents := by rw [TreeStore.dents, is]
        cases shown with
        | dir ok size entries count =>
          rw [if_neg (not_not.mpr ok.type), size]
          by_cases large : nDentries ≤ dents.length
          · rw [if_pos large]
            exact ⟨3, fs, tree, owned, rfl, .full (by rwa [names]), shows_, inodes⟩
          · rw [if_neg large]
            by_cases taken : (tree.find pino tname).isSome
            · rw [if_pos taken]
              exact ⟨4, fs, tree, owned, rfl, .taken taken, shows_, inodes⟩
            · rw [if_neg taken]
              obtain ⟨first, vol, same, bits⟩ := takeInode_shown inodes
              generalize fs.takeInode = result at *
              obtain ⟨tino, fs1⟩ := result
              dsimp only at first vol same bits
              have shows1 := shows_.rebits vol same
              cases tino with
              | none =>
                -- The scan of a full bitmap changes nothing.
                refine ⟨5, fs1, tree, owned, rfl, .noInode first.symm, shows1, ?_⟩
                intro ino inside
                rw [bits, inodes ino inside, ← first]
                simp
              | some tino =>
                -- The parent gets the name first, and the new directory its two names then.
                obtain ⟨valid, none_⟩ := TreeStore.vacant_spec first.symm
                dsimp only
                rw [← vol]
                rcases enter_shown shows1 ⟨dents, nblk, is⟩ fits
                  (Nat.lt_trans valid (by decide)) (by omega) debbuf with
                  ⟨large', -⟩ | ⟨-, inode, next, mid, qs, added, entered, shows2, step, left⟩
                · -- That it is full was found before.
                  rw [names] at large'
                  exact absurd large' large
                · rw [added]
                  simp only
                  have apart := TreeStore.apart_of_none none_ used
                  obtain ⟨last, dents', qs', filled, perm, shows3, others⟩ :=
                    fillNewDir_shown shows2 valid (by rw [entered.other apart]; exact none_)
                      (by rw [entered.isSome]; exact used) (by omega) debbuf' debbuf''
                  rw [filled]
                  refine ⟨0, last, _, _, rfl,
                    .made noName (by simpa using taken) first.symm entered perm, shows3, ?_⟩
                  apply inodes.marked first.symm entered.isSome
                  intro ino inside
                  rw [← bits]
                  exact isSet_inode inside fun sidx outside =>
                    (others sidx outside).trans (step.others sidx outside).1

/-- The part of `do_open` that creates an empty file. -/
theorem createFile_shown {pino : Nat} {tname : CharBuf} (shows_ : ShowsNodes fs tree.node owned)
    (inodes : ShowsInodes fs tree.node) (isDir : tree.IsDir pino) (fits : Fits tname)
    (room : tree.costOf pino ≤ tree.free) (debbuf : Block) :
    (∃ next, createFile fs pino (fs.vol.inodes pino) tname debbuf = (.refused (-4), next) ∧
      (tree.vacant = none ∨ nDentries ≤ (tree.dents pino).length) ∧
      ShowsNodes next tree.node owned ∧ ShowsInodes next tree.node) ∨
    ∃ tino mid next owned',
      createFile fs pino (fs.vol.inodes pino) tname debbuf = (.found tino, next) ∧
      tree.vacant = some tino ∧ NameEntered tree pino ⟨tname, tino⟩ mid ∧
      ShowsNodes next (mid.put tino (.file [] 1)).node owned' ∧
      ShowsInodes next (mid.put tino (.file [] 1)).node := by
  have used := isDir.used
  have pvalid := shows_.inside pino used
  unfold createFile
  obtain ⟨first, vol, same, bits⟩ := takeInode_shown inodes
  generalize fs.takeInode = result at *
  obtain ⟨tino, fs1⟩ := result
  dsimp only at first vol same bits
  have shows1 := shows_.rebits vol same
  cases tino with
  | none =>
    refine .inl ⟨fs1, rfl, .inl first.symm, shows1, ?_⟩
    intro ino inside
    rw [bits, inodes ino inside, ← first]
    simp
  | some tino =>
    obtain ⟨valid, none_⟩ := TreeStore.vacant_spec first.symm
    dsimp only
    rw [← vol]
    rcases enter_shown shows1 isDir fits (Nat.lt_trans valid (by decide)) room debbuf with
      ⟨large, refused⟩ | ⟨-, inode, next, mid, qs, added, entered, shows2, step, -⟩
    · -- The inode that was taken is given back.
      rw [refused]
      simp only
      obtain ⟨vol', same', frees⟩ := freeInode_frees fs1 valid
      refine .inl ⟨_, rfl, .inr large, shows1.rebits vol' same', ?_⟩
      intro ino inside
      rw [frees, bits, inodes ino inside, ← first]
      by_cases here : ino = tino
      · rw [here, none_]
        simp
      · simp [here, Ne.symm here]
    · -- The name is there by now; the inodes are written then, that of the parent last.
      rw [added]
      simp only
      have apart := TreeStore.apart_of_none none_ used
      have shows3 := shows2.born valid (by rw [entered.other apart]; exact none_)
      have number : next.vol.inodeNum = inodeBitmap.bits := shows3.inodeNum
      obtain ⟨vol', bitmaps⟩ := @writeInodes_vol next tino pino (freshInode .file) inode
        (by rwa [number]) (by rwa [number])
      refine .inr ⟨tino, mid, _, _, rfl, first.symm, entered, shows3.rebits ?_ ?_, ?_⟩
      · rw [vol']
        unfold Gfs.putInode
        dsimp only
        rw [Function.update_comm apart]
      · intro b
        rw [bitmaps]
        rfl
      · apply inodes.marked first.symm entered.isSome
        intro ino inside
        rw [← bits, bitmaps]
        exact isSet_inode inside fun sidx outside => (step.others sidx outside).1

/-- `do_hlink`. -/
theorem doHlink_shown (shows_ : ShowsNodes fs tree.node owned)
    (inodes : ShowsInodes fs tree.node) {sino pino : Option Nat} {tname : CharBuf}
    (legal : ∀ s, sino = some s → (tree.node s).isSome ∧
      ∀ p, pino = some p → tree.IsDir p ∧ Fits tname ∧ tree.costOf p ≤ tree.free)
    (debbuf : Block) :
    ∃ code next tree' owned', doHlink fs sino pino tname debbuf = (code, next) ∧
      HlinkStep tree tname sino pino code tree' ∧ ShowsNodes next tree'.node owned' ∧
      ShowsInodes next tree'.node := by
  unfold doHlink
  cases sino with
  | none => exact ⟨-1, fs, tree, owned, rfl, .noSource, shows_, inodes⟩
  | some sino =>
    obtain ⟨used, parent⟩ := legal sino rfl
    obtain ⟨n, is⟩ := Option.isSome_iff_exists.mp used
    have svalid := shows_.inside sino used
    have shown := shows_.shown sino n is
    dsimp only
    cases n with
    | dir dents nblk =>
      cases shown with
      | dir ok =>
        rw [if_pos ok.type]
        exact ⟨-2, fs, tree, owned, rfl, .isDir is, shows_, inodes⟩
    | file bytes nlink =>
      cases shown with
      | file full isFile links holds =>
        have notDir : (fs.vol.inodes sino).type ≠ .dir := by
          rw [isFile]
          decide
        rw [if_neg notDir, links]
        by_cases many : nlinkMax ≤ nlink
        · rw [if_pos many]
          exact ⟨-3, fs, tree, owned, rfl, .many is many, shows_, inodes⟩
        · rw [if_neg many]
          cases pino with
          | none => exact ⟨-4, fs, tree, owned, rfl, .noParent, shows_, inodes⟩
          | some pino =>
            obtain ⟨isDir, fits, room⟩ := parent pino rfl
            have pused := isDir.used
            have pvalid := shows_.inside pino pused
            dsimp only
            rw [shows_.readInode pused]
            dsimp only
            by_cases noName : tname = []
            · rw [if_pos noName]
              exact ⟨-5, fs, tree, owned, rfl, .noName noName, shows_, inodes⟩
            · rw [if_neg noName, shows_.search pused]
              by_cases taken : (tree.find pino tname).isSome
              · rw [if_pos taken]
                exact ⟨-6, fs, tree, owned, rfl, .taken taken, shows_, inodes⟩
              · rw [if_neg taken]
                rcases enter_shown shows_ isDir fits (Nat.lt_trans svalid (by decide)) room
                  debbuf with
                  ⟨large, refused⟩ | ⟨-, inode, next, mid, qs, added, entered, shows2, step, -⟩
                · -- A directory that is full refuses the name before anything is written.
                  rw [refused]
                  exact ⟨-7, fs, tree, owned, rfl, .full large, shows_, inodes⟩
                · -- The file has a link more, and the parent a name more.
                  rw [added]
                  simp only
                  have apart : sino ≠ pino := by
                    intro here
                    exact TreeStore.notDir_of_file is (here ▸ isDir)
                  have still : (next.putInode pino inode).vol.inodes sino =
                      fs.vol.inodes sino := by
                    refine (Function.update_of_ne apart _ _).trans ?_
                    rw [step.inodes.1]
                  have shows3 := shows2.relinked (by rw [entered.other apart]; exact is) (nlink + 1)
                  rw [still] at shows3
                  have number : next.vol.inodeNum = inodeBitmap.bits := shows3.inodeNum
                  obtain ⟨vol', bitmaps⟩ := @writeInodes_vol next sino pino
                    { fs.vol.inodes sino with nlink := nlink + 1 } inode
                    (by rwa [number]) (by rwa [number])
                  refine ⟨0, _, _, _, rfl,
                    .linked is (Nat.lt_of_not_le many) noName (by simpa using taken) entered,
                    shows3.rebits ?_ ?_, ?_⟩
                  · rw [vol']
                    unfold Gfs.putInode
                    dsimp only
                    rw [Function.update_comm apart]
                  · intro b
                    rw [bitmaps]
                    rfl
                  · intro ino inside
                    rw [bitmaps, isSet_inode inside fun sidx outside =>
                      (step.others sidx outside).1, inodes ino inside, ← entered.isSome]
                    by_cases here : ino = sino
                    · subst here
                      rw [entered.other apart, is, TreeStore.put]
                      dsimp only
                      rw [Function.update_self]
                      rfl
                    · exact congrArg Option.isSome (Function.update_of_ne here _ _).symm

end Calls

end GlucOS
