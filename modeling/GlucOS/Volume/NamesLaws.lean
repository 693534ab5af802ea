import GlucOS.Lib.Keyed
import GlucOS.Lib.Simulation
import GlucOS.Volume.AddLaws
import GlucOS.Volume.Names
import GlucOS.Volume.RemoveLaws

/-! A directory is a finite map from names to inodes, through every run of the calls on it. -/

namespace GlucOS

/-! ## The map that a directory shows -/

/-- A directory with these pointers shows these names. -/
structure ShowsNames (dir : DirState) (ps : List Nat) (names : NameMap) : Prop where
  /-- It is one. -/
  ok : DirOk dir.fs dir.inode ps
  /-- Its size is the number of its entries. -/
  size : dir.inode.size = (dir.fs.vol.entries dir.inode).length
  /-- Its entries have different names. -/
  distinct : ((dir.fs.vol.entries dir.inode).map GfsDentry.fname).Nodup
  /-- It is in itself, and so is its parent. -/
  self : ∀ fname, fname = selfName ∨ fname = parentName → (names.ino fname).isSome
  /-- These are the inodes. -/
  ino : ∀ fname, names.ino fname =
    (keyed GfsDentry.fname (dir.fs.vol.entries dir.inode) fname).map GfsDentry.ino
  /-- This is their number. -/
  count : names.count = (dir.fs.vol.entries dir.inode).length
  /-- These blocks are free. -/
  free : names.free = (blockBitmap.clear dir.fs.bitmaps).length

section Facts

variable {dir : DirState} {ps : List Nat} {names : NameMap}

/-- Names that end in their entries are not longer than they may be. -/
theorem Block.used_short {block : Block} (ended : block.Ended) :
    ∀ dent ∈ block.used, dent.fname.length ≤ fnLen := by
  intro dent mem
  rw [Block.used_eq, List.mem_filterMap] at mem
  obtain ⟨j, inside, isEntry⟩ := mem
  have bound := List.mem_range.mp inside
  unfold Block.entry at isEntry
  by_cases unused : block.inoOf j = dentryInvalidIno
  · rw [if_pos unused] at isEntry
    cases isEntry
  · rw [if_neg unused, Option.some_inj] at isEntry
    subst isEntry
    have ends := ended j bound unused
    -- The byte that ends the name is not part of it.
    have shorter : ((block.nameBytes j).takeWhile fun c => c ≠ 0).length <
        (block.nameBytes j).length := by
      apply Nat.lt_of_le_of_ne (List.takeWhile_sublist _).length_le
      intro same
      have whole := (List.takeWhile_sublist fun c => decide (c ≠ 0)).eq_of_length same
      have := List.mem_takeWhile_imp (whole.symm ▸ ends)
      simp at this
    have length : (block.nameBytes j).length = fnLen + 1 := by
      rw [Block.nameBytes, List.length_map, List.length_range]
    dsimp only
    rw [Block.str_eq bound ends]
    omega

/-- So are those of a directory. -/
theorem DirOk.short {fs : Gfs} {inode : GfsInode} (ok : DirOk fs inode ps) :
    ∀ dent ∈ fs.vol.entries inode, dent.fname.length ≤ fnLen := by
  intro dent mem
  rw [ok.entries_eq, List.mem_flatMap] at mem
  obtain ⟨p, isData, inBlock⟩ := mem
  exact Block.used_short (ok.ended p isData) dent inBlock

/-- Searching gives the inode. -/
theorem ShowsNames.search (shows_ : ShowsNames dir ps names) (fname : CharBuf) :
    dir.fs.vol.searchDentryInDirInode dir.inode fname = names.ino fname := by
  rw [GfsVolume.searchDentryInDirInode_eq, if_pos shows_.ok.type, shows_.ino]
  rfl

/-- Blocks that a directory takes are not free any more. -/
theorem DirStep.clear {fs next : Gfs} {inode inode' : GfsInode} {qs : List Nat}
    (step : DirStep fs next inode inode' ps qs) :
    (blockBitmap.clear next.bitmaps).length ≤ (blockBitmap.clear fs.bitmaps).length := by
  apply List.Sublist.length_le
  have left : blockBitmap.clear next.bitmaps =
      (blockBitmap.clear fs.bitmaps).filter fun b => !decide (b + gfsDatalocBlock ∈ qs) := by
    rw [SecRange.clear, SecRange.clear, List.filter_filter]
    apply List.filter_congr
    intro b _
    rw [step.bits, Bool.not_or, Bool.and_comm]
  rw [left]
  exact List.filter_sublist

/-- A call that takes no blocks leaves as many free. -/
theorem DirStep.clear_same {fs next : Gfs} {inode inode' : GfsInode}
    (step : DirStep fs next inode inode' ps []) :
    blockBitmap.clear next.bitmaps = blockBitmap.clear fs.bitmaps := by
  rw [SecRange.clear, SecRange.clear]
  apply List.filter_congr
  intro b _
  rw [step.bits]
  simp

end Facts

/-! ## One call -/

section Steps

variable {dir : DirState} {ps : List Nat} {names : NameMap}

/-- `GFS_add_dentry`. -/
theorem add_step {fname : CharBuf} {ino : Nat} {debbuf : Block}
    (shows_ : ShowsNames dir ps names) (legal : (DirEvent.add fname ino debbuf).Legal dir) :
    ∃ out next names' qs, dirStep dir (.add fname ino debbuf) = some (out, next) ∧
      NameStep names (.add fname ino debbuf) out names' ∧ ShowsNames next (ps ++ qs) names' ∧
      DirStep dir.fs next.fs dir.inode next.inode ps qs := by
  obtain ⟨clean, fits, valid, absent⟩ := legal
  rw [shows_.search] at absent
  have isIno := shows_.ino
  have distinct := shows_.distinct
  have isCount := shows_.count
  have isSize := shows_.size
  by_cases large : nDentries ≤ dir.inode.size
  · -- The directory is full.
    have refused : addDentry dir.fs dir.inode fname ino debbuf = (1, dir.inode, dir.fs) := by
      unfold addDentry
      rw [if_neg (not_not.mpr shows_.ok.type), if_pos large]
    refine ⟨1, dir, names, [], by rw [dirStep, refused], .full (by omega), ?_, .refl shows_.ok⟩
    rwa [List.append_nil]
  · have room : names.count < nDentries := by omega
    obtain ⟨qs, step, added⟩ := addDentry_spec shows_.ok clean valid isSize debbuf
    have fewer := step.clear
    unfold dirStep
    dsimp only
    generalize addDentry dir.fs dir.inode fname ino debbuf = result at step added fewer
    obtain ⟨adrt, inode, fs⟩ := result
    dsimp only at step added fewer ⊢
    rw [List.take_of_length_le fits] at added
    refine ⟨adrt, ⟨fs, inode⟩, ?_⟩
    cases added with
    | @done front back old new size =>
      -- The entry is the only one with its name.
      have fresh : keyed GfsDentry.fname (front ++ back) fname = none := by
        have none_ := isIno fname
        rw [absent, old] at none_
        exact Option.map_eq_none_iff.mp none_.symm
      rw [old] at isIno distinct isCount isSize
      refine ⟨⟨Function.update names.ino fname (some ino), names.count + 1,
        (blockBitmap.clear fs.bitmaps).length⟩, qs, rfl, ?_, ?_, step⟩
      · apply NameStep.added room
        rw [shows_.free]
        exact fewer
      · constructor
        · exact step.ok
        · dsimp only
          rw [size, new, isSize]
          simp only [List.length_append, List.length_cons]
          omega
        · dsimp only
          rw [new, List.map_append, List.map_cons, List.nodup_middle, ← List.map_append]
          refine List.nodup_cons.mpr ⟨?_, distinct⟩
          intro mem
          obtain ⟨dent, inside, is⟩ := List.mem_map.mp mem
          exact keyed_eq_none.mp fresh dent inside is
        · intro name isSelf
          dsimp only
          by_cases here : name = fname
          · rw [here, Function.update_self]
            rfl
          · rw [Function.update_of_ne here]
            exact shows_.self name isSelf
        · intro name
          dsimp only
          rw [new, @keyed_insert _ _ _ GfsDentry.fname front back ⟨fname, ino⟩ fresh]
          by_cases here : name = fname
          · rw [here, Function.update_self, Function.update_self]
            rfl
          · rw [Function.update_of_ne here, Function.update_of_ne here, isIno]
        · dsimp only
          rw [new, isCount]
          simp only [List.length_append, List.length_cons]
          omega
        · dsimp only
    | full large' => exact absurd large' large
    | noBlock old size none_ =>
      refine ⟨{ names with free := 0 }, qs, rfl, .noBlock room, ?_, step⟩
      constructor
      · exact step.ok
      · dsimp only
        rw [size, old, isSize]
      · dsimp only
        rwa [old]
      · exact shows_.self
      · dsimp only
        rwa [old]
      · dsimp only
        rw [old]
        exact isCount
      · dsimp only
        rw [none_, List.length_nil]

/-- `remove_dentry_in_dir_inode`. -/
theorem remove_step {fname : CharBuf} (shows_ : ShowsNames dir ps names)
    (legal : (DirEvent.remove fname).Legal dir) :
    ∃ out next names' qs, dirStep dir (.remove fname) = some (out, next) ∧
      NameStep names (.remove fname) out names' ∧ ShowsNames next (ps ++ qs) names' ∧
      DirStep dir.fs next.fs dir.inode next.inode ps qs := by
  obtain ⟨fits, notSelf, notParent⟩ := legal
  have isIno := shows_.ino
  have isCount := shows_.count
  have isSize := shows_.size
  obtain ⟨step, entries, count, size⟩ := removeDentryInDirInode_spec shows_.ok fname
  -- Names that fit are compared as a whole.
  have whole : ∀ dent ∈ dir.fs.vol.entries dir.inode,
      sameFname dent.fname fname = decide (dent.fname = fname) := by
    intro dent mem
    rw [sameFname, List.take_of_length_le fits, List.take_of_length_le (shows_.ok.short dent mem)]
  have filtered : (dir.fs.vol.entries dir.inode).filter (GfsDentry.isOther fname) =
      (dir.fs.vol.entries dir.inode).filter fun dent => dent.fname ≠ fname := by
    apply List.filter_congr
    intro dent mem
    rw [GfsDentry.isOther, whole dent mem, decide_not]
  have counted : (dir.fs.vol.entries dir.inode).countP
      (fun dent => sameFname dent.fname fname) =
        (dir.fs.vol.entries dir.inode).countP fun dent => dent.fname = fname := by
    apply List.countP_congr
    intro dent mem
    rw [whole dent mem]
  rw [filtered] at entries
  rw [counted, countP_keyed shows_.distinct fname] at count
  have fewer := length_filter_keyed shows_.distinct fname
  have same := step.clear_same
  unfold dirStep
  dsimp only at *
  generalize removeDentryInDirInode dir.fs dir.inode fname = result at *
  obtain ⟨rYmr, inode, fs⟩ := result
  dsimp only at *
  have behind : ∀ name, names.ino name = none ↔
      keyed GfsDentry.fname (dir.fs.vol.entries dir.inode) name = none := by
    intro name
    rw [isIno, Option.map_eq_none_iff]
  have shorter := (List.filter_sublist (p := fun dent : GfsDentry => decide (dent.fname ≠ fname))
    (l := dir.fs.vol.entries dir.inode)).map GfsDentry.fname
  -- The names other than the one that goes stay.
  have shows' : ∀ names' : NameMap, names'.ino = Function.update names.ino fname none →
      names'.count = (fs.vol.entries inode).length → names'.free = names.free →
      inode.size = (fs.vol.entries inode).length →
      ShowsNames ⟨fs, inode⟩ (ps ++ []) names' := by
    intro names' isIno' isCount' isFree' isSize'
    constructor
    · exact step.ok
    · exact isSize'
    · dsimp only
      rw [entries]
      exact shows_.distinct.sublist shorter
    · intro name isSelf
      rw [isIno', Function.update_of_ne]
      · exact shows_.self name isSelf
      · intro here
        subst here
        rcases isSelf with is | is
        · exact notSelf is
        · exact notParent is
    · intro name
      dsimp only
      rw [entries, keyed_filter, isIno']
      by_cases here : name = fname
      · rw [here, Function.update_self, Function.update_self]
        rfl
      · rw [Function.update_of_ne here, Function.update_of_ne here, isIno]
    · exact isCount'
    · dsimp only
      rw [isFree', same, shows_.free]
  refine ⟨rYmr, ⟨fs, inode⟩, ?_⟩
  cases found : names.ino fname with
  | none =>
    have absent := (behind fname).mp found
    rw [absent] at count fewer
    simp only [Option.isSome_none, Bool.false_eq_true, if_false] at count fewer
    subst count
    have isSize' : inode.size = (fs.vol.entries inode).length := by
      rw [entries]
      split at size <;> omega
    refine ⟨names, [], rfl, .missed found, shows' names ?_ ?_ rfl isSize', step⟩
    · rw [← found, Function.update_eq_self]
    · rw [entries, isCount]
      omega
  | some ino =>
    have present : (keyed GfsDentry.fname (dir.fs.vol.entries dir.inode) fname).isSome := by
      rw [Option.isSome_iff_ne_none]
      intro absent
      rw [(behind fname).mpr absent] at found
      cases found
    rw [if_pos present] at count fewer
    subst count
    -- With "." and ".." there are three names at least.
    have three : 3 ≤ (dir.fs.vol.entries dir.inode).length := by
      have held : ∀ name ∈ [selfName, parentName, fname],
          name ∈ (dir.fs.vol.entries dir.inode).map GfsDentry.fname := by
        intro name mem
        have isSome : names.ino name ≠ none := by
          simp only [List.mem_cons, List.not_mem_nil, or_false] at mem
          rcases mem with is | is | is
          · exact Option.isSome_iff_ne_none.mp (shows_.self name (.inl is))
          · exact Option.isSome_iff_ne_none.mp (shows_.self name (.inr is))
          · rw [is, found]
            exact Option.some_ne_none ino
        by_contra absent
        apply isSome
        rw [behind, keyed_eq_none]
        intro dent inside is
        exact absent (is ▸ List.mem_map_of_mem inside)
      have different : [selfName, parentName, fname].Nodup := by
        have apart : selfName ≠ parentName := by decide
        simp [apart, Ne.symm notSelf, Ne.symm notParent]
      have := (different.subperm held).length_le
      rwa [List.length_map] at this
    rw [if_neg (by omega)] at size
    have isSize' : inode.size = (fs.vol.entries inode).length := by
      rw [entries, size]
      omega
    refine ⟨⟨Function.update names.ino fname none, names.count - 1, names.free⟩, [], rfl,
      .removed found, shows' _ rfl ?_ rfl isSize', step⟩
    dsimp only
    rw [entries, isCount]
    omega

/-- Every call on a directory does on its names what it is for. -/
theorem dir_step {event : DirEvent} (shows_ : ShowsNames dir ps names)
    (legal : event.Legal dir) :
    ∃ out next names' qs, dirStep dir event = some (out, next) ∧
      NameStep names event out names' ∧ ShowsNames next (ps ++ qs) names' ∧
      DirStep dir.fs next.fs dir.inode next.inode ps qs := by
  cases event with
  | add fname ino debbuf => exact add_step shows_ legal
  | remove fname => exact remove_step shows_ legal
  | search fname =>
    refine ⟨_, dir, names, [], rfl, ?_, ?_, .refl shows_.ok⟩
    · rw [shows_.search]
      exact .found
    · rwa [List.append_nil]
  | readdir =>
    refine ⟨_, dir, names, [], rfl, ?_, ?_, .refl shows_.ok⟩
    · rw [readdirInode_eq _ _ shows_.ok.type, ← shows_.count]
      exact .counted
    · rwa [List.append_nil]

end Steps

/-! ## Every run -/

/-- A block with the entries that every directory has. -/
def newDents : Block :=
  let debbuf := Block.freshDents (fun _ => 0) selfName 1
  debbuf.setDent (debbuf.freeDent.getD 0) parentName 0

/-- Its inode. -/
def newDirInode : GfsInode :=
  { nlink := 1, type := .dir, size := 2, dptr := (Vector.replicate _ 0).set 0 gfsDatalocBlock
    idptr := 0, diptr := 0 }

/-- A directory with these entries, on a disk without free blocks. -/
def newDir : DirState where
  fs :=
    { vol := { inodeNum := 2, inodes := fun _ => newDirInode, blocks := fun _ => newDents }
      inodesOnDisk := fun _ => newDirInode
      bitmaps := ⟨fun _ _ => BitVec.allOnes 64, fun _ _ => BitVec.allOnes 64⟩
      fds := fun _ => none }
  inode := newDirInode

/-- These are its entries, in some order. -/
theorem newDents_used : newDents.Ended ∧ ∃ front back, front ++ back = [⟨selfName, 1⟩] ∧
    newDents.used = front ++ ⟨parentName, 0⟩ :: back := by
  have clean : ∀ c ∈ selfName, c ≠ 0 := by simp [selfName]
  have clean' : ∀ c ∈ parentName, c ≠ 0 := by simp [parentName]
  have valid : 1 < dentryInvalidIno := by
    rw [dentryInvalidIno, uint32Max]
    omega
  obtain ⟨used, ended⟩ := Block.freshDents_used (fun _ => 0) clean valid
  unfold newDents
  dsimp only
  generalize Block.freshDents (fun _ => 0) selfName 1 = debbuf at *
  -- The block of one entry has room.
  cases free : debbuf.freeDent with
  | none =>
    have full := Block.freeDent_none free
    rw [used] at full
    cases full
  | some j =>
    obtain ⟨inside, unused⟩ := Block.freeDent_some free
    have changed := Block.setDent_changed inside ended clean' (Nat.lt_trans Nat.zero_lt_one valid)
    obtain ⟨front, back, old, new⟩ := changed.used inside
    rw [unused, used] at old
    exact ⟨changed.ended, front, back, old.symm, new⟩

/-- A new directory shows two names. -/
theorem newDir_shows : ShowsNames newDir [gfsDatalocBlock]
    ⟨fun fname => newDir.fs.vol.searchDentryInDirInode newDir.inode fname, 2,
      (blockBitmap.clear newDir.fs.bitmaps).length⟩ := by
  obtain ⟨ended, front, back, parts, used⟩ := newDents_used
  have ok : DirOk newDir.fs newDir.inode [gfsDatalocBlock] := by
    constructor
    · rfl
    · exact ⟨by decide, rfl, rfl⟩
    · decide
    · exact List.nodup_singleton _
    · intro p mem
      rw [List.mem_singleton.mp mem]
      refine ⟨0, by rw [blockBitmap_bits]; decide, ?_, (Nat.zero_add _).symm⟩
      change (BitVec.allOnes 64).getMsbD (0 % secBits % 64) = true
      rw [BitVec.getMsbD_allOnes, decide_eq_true (Nat.mod_lt _ (by decide))]
    · intro p mem
      exact ended
  have entries : newDir.fs.vol.entries newDir.inode = front ++ ⟨parentName, 0⟩ :: back := by
    rw [ok.entries_eq]
    have data : dataPtrs [gfsDatalocBlock] = [gfsDatalocBlock] := by
      rw [dataPtrs_few (by decide)]
      rfl
    rw [data, List.flatMap_singleton]
    exact used
  have perm : (newDir.fs.vol.entries newDir.inode).Perm [⟨parentName, 0⟩, ⟨selfName, 1⟩] := by
    rw [entries, ← parts]
    exact List.perm_middle
  have ino : ∀ fname, newDir.fs.vol.searchDentryInDirInode newDir.inode fname =
      (keyed GfsDentry.fname (newDir.fs.vol.entries newDir.inode) fname).map GfsDentry.ino := by
    intro fname
    rw [GfsVolume.searchDentryInDirInode_eq, if_pos ok.type]
    rfl
  constructor
  · exact ok
  · rw [perm.length_eq]
    rfl
  · rw [(perm.map GfsDentry.fname).nodup_iff]
    decide
  · intro fname isSelf
    dsimp only
    rw [ino, Option.isSome_map, Option.isSome_iff_ne_none]
    intro absent
    have none_ := keyed_eq_none.mp absent
    rcases isSelf with is | is
    · exact none_ ⟨selfName, 1⟩ (perm.mem_iff.mpr (by simp)) is.symm
    · exact none_ ⟨parentName, 0⟩ (perm.mem_iff.mpr (by simp)) is.symm
  · exact ino
  · have two := perm.length_eq
    exact two.symm
  · dsimp only

end GlucOS
