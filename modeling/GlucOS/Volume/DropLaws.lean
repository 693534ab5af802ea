import GlucOS.Volume.NamesLaws
import GlucOS.Volume.TrimLaws

/-! What `do_remove` does to the tree of a volume. -/

namespace GlucOS

/-! ## What is left -/

section Left

variable {fs next : Gfs} {tree : TreeStore} {owned : Nat → List Nat} {gone : List Nat}

/-- A node that is left was there before, and only files change. -/
theorem TreeStore.left_of_without {ino : Nat} {n : FsNode}
    (left : (tree.without gone).node ino = some n) :
    (∃ dents nblk, tree.node ino = some (.dir dents nblk) ∧ n = .dir dents nblk) ∨
      ∃ bytes nlink, tree.node ino = some (.file bytes nlink) ∧
        (gone.count ino = 0 ∨ gone.count ino < nlink) ∧
        n = .file bytes (nlink - gone.count ino) := by
  unfold TreeStore.without at left
  dsimp only at left
  cases is : tree.node ino with
  | none =>
    rw [is] at left
    cases left
  | some n' =>
    rw [is] at left
    cases n' with
    | dir dents nblk =>
      left
      dsimp only at left
      split at left
      · cases left
      · exact ⟨dents, nblk, rfl, (Option.some_inj.mp left).symm⟩
    | file bytes nlink =>
      right
      dsimp only at left
      split at left
      · cases left
      · rename_i stays
        refine ⟨bytes, nlink, rfl, by omega, (Option.some_inj.mp left).symm⟩

/-- So it was in use. -/
theorem TreeStore.used_of_left {ino : Nat} (left : ((tree.without gone).node ino).isSome) :
    (tree.node ino).isSome := by
  obtain ⟨n, is⟩ := Option.isSome_iff_exists.mp left
  rcases TreeStore.left_of_without is with ⟨dents, nblk, was, -⟩ | ⟨bytes, nlink, was, -⟩
  · rw [was]
    rfl
  · rw [was]
    rfl

/-- What is left is not gone. -/
theorem TreeStore.not_gone {ino : Nat} {n : FsNode}
    (left : (tree.without gone).node ino = some n) : ¬ tree.Gone gone ino := by
  intro isGone
  rw [isGone.2] at left
  cases left

/-- Inodes that were removed have no blocks any more. -/
def TreeStore.leftOwned (tree : TreeStore) (owned : Nat → List Nat) (gone : List Nat) (ino : Nat) :
    List Nat :=
  if ((tree.without gone).node ino).isSome then owned ino else []

/-- Blocks belong to what is left. -/
theorem TreeStore.mem_leftOwned {ino p : Nat} : p ∈ tree.leftOwned owned gone ino ↔
    p ∈ owned ino ∧ ((tree.without gone).node ino).isSome := by
  unfold TreeStore.leftOwned
  split
  · rename_i left
    exact ⟨fun mem => ⟨mem, left⟩, And.left⟩
  · rename_i left
    constructor
    · intro mem
      cases mem
    · intro both
      exact absurd both.2 left

/-- When calls have removed inodes, the volume shows what is left of the tree. -/
theorem Trimmed.shown (trimmed : Trimmed fs next tree owned [] gone)
    (shows_ : ShowsNodes fs tree.node owned) :
    ShowsNodes next (tree.without gone).node (tree.leftOwned owned gone) := by
  -- Blocks of a node that is left stay allocated.
  have held : ∀ {ino n}, (tree.without gone).node ino = some n → ∀ p ∈ owned ino, ∀ b,
      p = b + gfsDatalocBlock → blockBitmap.isSet fs.bitmaps.cache b = true →
      blockBitmap.isSet next.bitmaps.cache b = true := by
    intro ino n left p mem b is isSet
    obtain ⟨b', inside, -, is'⟩ := shows_.held p mem
    obtain rfl : b = b' := Nat.add_right_cancel (is.symm.trans is')
    rw [trimmed.bits b inside]
    refine ⟨isSet, List.not_mem_nil, ?_⟩
    intro other isGone mem'
    rw [is] at mem
    have apart : ino ≠ other := by
      intro same
      subst same
      exact TreeStore.not_gone left isGone
    exact shows_.apart ino other apart _ mem mem'
  constructor
  · intro ino n left
    have mine : tree.leftOwned owned gone ino = owned ino := by
      rw [TreeStore.leftOwned, left]
      rfl
    rw [mine]
    rcases TreeStore.left_of_without left with
      ⟨dents, nblk, is, rfl⟩ | ⟨bytes, nlink, is, more, rfl⟩
    · -- A directory is as it was.
      have old := shows_.shown ino _ is
      apply old.congr _ trimmed.inodeNum (fun p _ => by rw [trimmed.blocks]) (held left)
      have notFile : (fs.vol.inodes ino).type ≠ .file := by
        rw [old.type.mpr ⟨dents, nblk, rfl⟩]
        decide
      rw [trimmed.inodes, GfsInode.lessLinks, if_neg notFile]
    · -- A file has lost links, and nothing else.
      have new := (shows_.relinked is (nlink - gone.count ino)).shown ino _
        (Function.update_self ..)
      apply new.congr _ trimmed.inodeNum (fun p _ => by rw [trimmed.blocks]; rfl) (held left)
      have self : (fs.putInode ino { fs.vol.inodes ino with
          nlink := nlink - gone.count ino }).vol.inodes ino =
          { fs.vol.inodes ino with nlink := nlink - gone.count ino } := Function.update_self ..
      rw [self]
      cases shows_.shown ino _ is with
      | file _ isFile links =>
        rw [trimmed.inodes, GfsInode.lessLinks, if_pos isFile, links]
        congr 1
        omega
  · intro ino none_
    rw [TreeStore.leftOwned, none_]
    rfl
  · intro ino ino' differ p mem mem'
    rw [TreeStore.mem_leftOwned] at mem mem'
    exact shows_.apart ino ino' differ p mem.1 mem'.1
  · intro b inside isSet
    rw [trimmed.bits b inside] at isSet
    obtain ⟨wasSet, -, others⟩ := isSet
    obtain ⟨ino, mem⟩ := shows_.found b inside wasSet
    refine ⟨ino, TreeStore.mem_leftOwned.mpr ⟨mem, ?_⟩⟩
    -- It has blocks, so it was there, and it is not gone.
    rw [Option.isSome_iff_ne_none]
    intro none_
    apply others ino _ mem
    refine ⟨?_, none_⟩
    rw [Option.isSome_iff_ne_none]
    intro never
    rw [shows_.unused ino never] at mem
    cases mem
  · rw [trimmed.inodeNum, shows_.inodeNum]
  · intro ino left
    exact shows_.inside ino (TreeStore.used_of_left left)

/-- Its inode bitmap marks what is left. -/
theorem Trimmed.shownInodes (trimmed : Trimmed fs next tree owned [] gone)
    (shows_ : ShowsInodes fs tree.node) : ShowsInodes next (tree.without gone).node := by
  intro ino inside
  rw [Bool.eq_iff_iff, trimmed.inodeBits ino inside, shows_ ino inside]
  constructor
  · intro is
    obtain ⟨used, stays⟩ := is
    rw [Option.isSome_iff_ne_none]
    intro none_
    exact stays ⟨used, none_⟩
  · intro left
    obtain ⟨n, is⟩ := Option.isSome_iff_exists.mp left
    exact ⟨TreeStore.used_of_left left, TreeStore.not_gone is⟩

end Left

/-! ## The call -/

section Calls

variable {fs : Gfs} {tree : TreeStore} {owned : Nat → List Nat}

/-- A directory loses a name that it had once. -/
theorem drop_shown {pino tino nblk : Nat} {dents : List GfsDentry} {tname : CharBuf}
    (shows_ : ShowsNodes fs tree.node owned) (inodes : ShowsInodes fs tree.node)
    (is : tree.node pino = some (.dir dents nblk)) (distinct : (dents.map GfsDentry.fname).Nodup)
    (found : tree.find pino tname = some tino) (many : 3 ≤ dents.length) :
    ∃ inode next owned', removeDentryInDirInode fs (fs.vol.inodes pino) tname =
        (1, inode, next) ∧
      ShowsNodes (next.writeInode pino inode) (tree.dropName pino tname).node owned' ∧
      ShowsInodes (next.writeInode pino inode) (tree.dropName pino tname).node := by
  have valid := shows_.inside pino (by rw [is]; rfl)
  rw [TreeStore.find, TreeStore.dents_dir is, Option.map_eq_some_iff] at found
  obtain ⟨dent, isDent, rfl⟩ := found
  cases shows_.shown pino _ is with
  | dir ok size entries count =>
    obtain ⟨step, left, removed, size'⟩ := removeDentryInDirInode_spec ok tname
    -- The source compares `FNLEN` characters of each name, and removes all that are the same.
    -- Names that fit are compared as a whole.
    have named : dent.fname = tname := by
      simpa using List.find?_some isDent
    have fits : tname.length ≤ fnLen := by
      rw [← named]
      apply ok.short
      rw [entries]
      exact List.mem_of_find?_eq_some isDent
    have whole : ∀ other ∈ dents, sameFname other.fname tname = decide (other.fname = tname) := by
      intro other mem
      rw [sameFname, List.take_of_length_le fits,
        List.take_of_length_le (ok.short other (entries ▸ mem))]
    have filtered : dents.filter (GfsDentry.isOther tname) =
        dents.filter fun other => other.fname ≠ tname := by
      apply List.filter_congr
      intro other mem
      rw [GfsDentry.isOther, whole other mem, decide_not]
    have counted : (dents.countP fun other => sameFname other.fname tname) =
        dents.countP fun other => other.fname = tname := by
      apply List.countP_congr
      intro other mem
      rw [whole other mem]
    rw [entries] at left removed
    rw [filtered] at left
    rw [counted, countP_keyed distinct tname, isDent] at removed
    have fewer := length_filter_keyed distinct tname
    rw [isDent] at fewer
    generalize removeDentryInDirInode fs (fs.vol.inodes pino) tname = result at *
    obtain ⟨rYmr, inode, next⟩ := result
    dsimp only at step left removed size'
    have one : rYmr = 1 := removed
    subst one
    have less : (dents.filter fun other => decide (other.fname ≠ tname)).length + 1 =
        dents.length := fewer
    have shown := shows_.stepped valid step (by
      rw [size', size, if_neg (by omega)]
      omega) left
    have number : next.vol.inodeNum = inodeBitmap.bits := shown.inodeNum
    obtain ⟨vol, bitmaps⟩ := @writeInode_vol next pino inode (by rwa [number])
    have dropped : (tree.dropName pino tname).node = Function.update tree.node pino
        (some (.dir (dents.filter fun other => other.fname ≠ tname)
          (owned pino ++ []).length)) := by
      rw [List.append_nil, count, TreeStore.dropName, is]
      rfl
    refine ⟨inode, next, Function.update owned pino (owned pino ++ []), rfl, ?_, ?_⟩
    · rw [dropped]
      exact shown.writeInode valid
    · intro ino inside
      rw [bitmaps, inodes.stepped step ino inside, dropped]
      by_cases here : ino = pino
      · subst here
        rw [Function.update_self, is]
        rfl
      · rw [Function.update_of_ne here]

/-- `do_remove`. -/
theorem doRemove_shown (shows_ : ShowsNodes fs tree.node owned)
    (inodes : ShowsInodes fs tree.node) {depth : Nat} {ppino : Option Nat} {tname : CharBuf}
    (distinct : ∀ ino, ((tree.dents ino).map GfsDentry.fname).Nodup)
    (many : ∀ pino tino, tname ≠ selfName → tname ≠ parentName →
      tree.find pino tname = some tino → 3 ≤ (tree.dents pino).length)
    (outside : ∀ pino tino gone, tname ≠ selfName → tname ≠ parentName →
      tree.find pino tname = some tino → tree.below depth tino = some gone → pino ∉ gone)
    (deep : 0 < depth) (legal : ∀ pino, ppino = some pino → (tree.node pino).isSome ∧
      ∀ tino, tname ≠ selfName → tname ≠ parentName → tree.find pino tname = some tino →
        tree.busy tino ∨ ∃ gone, tree.below depth tino = some gone ∧
          ∀ ino ∈ gone, tree.busy ino = false) :
    ∃ code next tree' owned',
      doRemove tree.files.flist depth [] fs ppino tname = some (code, next) ∧
      RemoveStep tree depth tname ppino code tree' ∧ ShowsNodes next tree'.node owned' ∧
      ShowsInodes next tree'.node := by
  unfold doRemove
  cases ppino with
  | none =>
    refine ⟨1, fs, tree, owned, rfl, .missed ?_, shows_, inodes⟩
    intro pino is
    cases is
  | some pino =>
    obtain ⟨used, found⟩ := legal pino rfl
    dsimp only
    by_cases noName : tname = [] ∨ tname = selfName ∨ tname = parentName
    · rw [if_pos noName]
      refine ⟨1, fs, tree, owned, rfl, .missed ?_, shows_, inodes⟩
      intro pino' _
      tauto
    · rw [if_neg noName, shows_.readInode used]
      obtain ⟨notEmpty, notSelf, notParent⟩ : tname ≠ [] ∧ tname ≠ selfName ∧
        tname ≠ parentName := by tauto
      dsimp only
      rw [shows_.search used]
      cases isThere : tree.find pino tname with
      | none =>
        refine ⟨1, fs, tree, owned, rfl, .missed ?_, shows_, inodes⟩
        intro pino' same
        rw [Option.some_inj] at same
        subst same
        exact .inr (.inr (.inr isThere))
      | some tino =>
        dsimp only
        cases busy : tree.busy tino with
        | true =>
          -- What is open is refused before anything is removed.
          obtain ⟨less, rfl⟩ := Nat.exists_eq_succ_of_ne_zero (Nat.ne_of_gt deep)
          have refused : gfsRemoveFileOrDir tree.files.flist (less + 1) tino ⟨fs, []⟩ =
              some (2, ⟨fs, []⟩) := by
            rw [gfsRemoveFileOrDir, if_pos (by exact busy)]
          rw [refused]
          exact ⟨2, fs, tree, owned, rfl, .busy isThere busy, shows_, inodes⟩
        | false =>
          -- All that is below the name goes first, and the name then.
          obtain ⟨gone, isBelow, idle⟩ := (found tino notSelf notParent isThere).resolve_left
            (by rw [busy]; exact Bool.false_ne_true)
          obtain ⟨code, next, removed, answer, trimmed⟩ :=
            gfsRemoveFileOrDir_removes shows_ distinct depth tino gone isBelow idle [] [] fs
              (.refl fs tree owned)
          have visits : tree.visits depth tino = gone := by
            rw [TreeStore.visits, isBelow]
            rfl
          rw [List.nil_append, visits] at trimmed
          rw [removed, Option.map_some]
          dsimp only
          rw [if_pos answer]
          -- The parent is left, with the name in it.
          have stays := outside pino tino gone notSelf notParent isThere isBelow
          have isDir : ∃ dents nblk, tree.node pino = some (.dir dents nblk) := by
            obtain ⟨n, is⟩ := Option.isSome_iff_exists.mp used
            cases n with
            | dir dents nblk => exact ⟨dents, nblk, is⟩
            | file bytes nlink =>
              rw [TreeStore.find, TreeStore.dents_file is] at isThere
              cases isThere
          obtain ⟨dents, nblk, is⟩ := isDir
          have is' : (tree.without gone).node pino = some (.dir dents nblk) := by
            unfold TreeStore.without
            dsimp only
            rw [is]
            dsimp only
            rw [if_neg stays]
          have names : (tree.without gone).dents pino = tree.dents pino := by
            rw [TreeStore.dents_dir is', TreeStore.dents_dir is]
          have inode : next.vol.inodes pino = fs.vol.inodes pino := by
            have type : (fs.vol.inodes pino).type = .dir :=
              (shows_.shown pino _ is).type.mpr ⟨dents, nblk, rfl⟩
            rw [trimmed.inodes, GfsInode.lessLinks, if_neg (by rw [type]; decide)]
          have distinct' := distinct pino
          have many' := many pino tino notSelf notParent isThere
          rw [TreeStore.dents_dir is] at distinct' many'
          obtain ⟨inode', last, owned', dropped, shows', inodes'⟩ :=
            drop_shown (trimmed.shown shows_) (trimmed.shownInodes inodes) is' distinct'
              (by rw [TreeStore.find, names]; exact isThere) many'
          rw [← inode, dropped]
          dsimp only
          rw [if_neg (by decide)]
          exact ⟨0, _, _, owned', rfl,
            .removed notEmpty notSelf notParent isThere isBelow idle, shows', inodes'⟩

end Calls

end GlucOS
