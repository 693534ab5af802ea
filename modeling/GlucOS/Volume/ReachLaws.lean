import GlucOS.Gfs.PathLaws
import GlucOS.Volume.VolumeLaws

/-! Names lead to every inode that is in use, and to no other one. -/

namespace GlucOS

/-- The inode that names lead to in a tree, one after another. -/
def TreeStore.follow (tree : TreeStore) : Nat → List CharBuf → Option Nat
  | ino, [] => some ino
  | ino, name :: names => (tree.find ino name).bind fun next => tree.follow next names

section Trees

variable {tree : TreeStore} {level : Nat → Nat}

/-- Names are followed in two parts. -/
theorem TreeStore.follow_append (first second : List CharBuf) (ino : Nat) :
    tree.follow ino (first ++ second) =
      (tree.follow ino first).bind fun next => tree.follow next second := by
  induction first generalizing ino with
  | nil => rfl
  | cons name first ih =>
    rw [List.cons_append, TreeStore.follow, TreeStore.follow, Option.bind_assoc]
    congr 1
    funext next
    exact ih next

/-- A child has a name. -/
theorem TreeStore.Sound.find_child (sound : tree.Sound level) {d c : Nat}
    (mem : c ∈ tree.children d) : ∃ fname, tree.find d fname = some c := by
  obtain ⟨dent, isDent, rfl⟩ := List.mem_map.mp mem
  refine ⟨dent.fname, ?_⟩
  rw [TreeStore.find, keyed_of_mem (sound.distinct d) (List.mem_of_mem_filter isDent)]
  rfl

/-- Names that are followed from a node lead to nodes. -/
theorem TreeStore.Sound.follow_used (sound : tree.Sound level) {names : List CharBuf} {d c : Nat}
    (used : (tree.node d).isSome) (leads : tree.follow d names = some c) :
    (tree.node c).isSome := by
  induction names generalizing d with
  | nil =>
    rw [TreeStore.follow, Option.some_inj] at leads
    rwa [← leads]
  | cons name names ih =>
    rw [TreeStore.follow, Option.bind_eq_some_iff] at leads
    obtain ⟨next, found, rest⟩ := leads
    exact ih (sound.used found) rest

/-- A name more leads from a directory to what it names. -/
theorem TreeStore.Sound.follow_child (sound : tree.Sound level) {d c : Nat} {names : List CharBuf}
    (leads : tree.follow 0 names = some d) (mem : c ∈ tree.children d) :
    ∃ names', tree.follow 0 names' = some c := by
  obtain ⟨fname, found⟩ := sound.find_child mem
  refine ⟨names ++ [fname], ?_⟩
  rw [TreeStore.follow_append, leads, Option.bind_some, TreeStore.follow, found]
  rfl

/-- Names lead from "/" to every directory. -/
theorem TreeStore.Sound.follow_dir (sound : tree.Sound level) {d : Nat} (isDir : tree.IsDir d) :
    ∃ names, tree.follow 0 names = some d := by
  -- The induction goes down from "/": a parent is one level above.
  induction above : level d using Nat.strong_induction_on generalizing d with
  | _ n ih =>
    by_cases isRoot : d = 0
    · -- No name is needed for "/".
      exact ⟨[], by rw [isRoot]; rfl⟩
    · -- Any other directory has one name, which is in its parent.
      have one := sound.once d isDir
      rw [if_neg isRoot] at one
      obtain ⟨p, mem⟩ := (TreeStore.names_pos sound.inside).mp (by rw [one]; exact Nat.one_pos)
      have below := ((sound.child p d mem).2 isDir).2
      obtain ⟨names, leads⟩ := ih (level p) (by omega) (TreeStore.isDir_of_child mem) rfl
      exact sound.follow_child leads mem

/-- A node is in use exactly when names lead to it from "/". -/
theorem TreeStore.Sound.reached (sound : tree.Sound level) (ino : Nat) :
    (tree.node ino).isSome ↔ ∃ names, tree.follow 0 names = some ino := by
  constructor
  · intro used
    obtain ⟨n, is⟩ := Option.isSome_iff_exists.mp used
    cases n with
    | dir dents nblk => exact sound.follow_dir ⟨dents, nblk, is⟩
    | file bytes nlink =>
      -- A file has a name at least, which is in a directory.
      obtain ⟨names, pos⟩ := sound.links ino bytes nlink is
      obtain ⟨p, mem⟩ := (TreeStore.names_pos sound.inside).mp (by rw [names]; exact pos)
      obtain ⟨path, leads⟩ := sound.follow_dir (TreeStore.isDir_of_child mem)
      exact sound.follow_child leads mem
  · intro reached
    obtain ⟨names, leads⟩ := reached
    exact sound.follow_used sound.root.used leads

end Trees

section Volumes

variable {fs : Gfs} {tree : TreeStore} {owned : Nat → List Nat} {level : Nat → Nat}

/-- A directory of the volume has the names of the tree. -/
theorem ShowsNodes.lookup (shows_ : ShowsNodes fs tree.node owned) {ino : Nat}
    (used : (tree.node ino).isSome) (name : CharBuf) :
    fs.vol.lookup ino name = tree.find ino name := by
  have inside : ino < fs.vol.inodeNum := by
    rw [shows_.inodeNum]
    exact shows_.inside ino used
  rw [← shows_.search used, GfsVolume.searchDentryInDirInode_eq, GfsVolume.lookup]
  by_cases isDir : (fs.vol.inodes ino).type = .dir
  · rw [if_pos ⟨inside, isDir⟩, if_pos isDir]
  · rw [if_neg fun both => isDir both.2, if_neg isDir]

/-- Names lead to the same inode in both. -/
theorem ShowsNodes.resolve (shows_ : ShowsNodes fs tree.node owned) (sound : tree.Sound level)
    (names : List CharBuf) {ino : Nat} (used : (tree.node ino).isSome) :
    fs.vol.resolve ino names = tree.follow ino names := by
  -- The induction is on the names; each of them leads to a node, where the next one is looked up.
  induction names generalizing ino with
  | nil => rfl
  | cons name names ih =>
    rw [GfsVolume.resolve, TreeStore.follow, shows_.lookup used]
    cases found : tree.find ino name with
    | none => rfl
    | some next => exact ih (sound.used found)

/-- A directory is one in both. -/
theorem ShowsNodes.isDir_iff (shows_ : ShowsNodes fs tree.node owned) {ino : Nat}
    (used : (tree.node ino).isSome) : tree.IsDir ino ↔ (fs.vol.inodes ino).type = .dir := by
  obtain ⟨n, is⟩ := Option.isSome_iff_exists.mp used
  rw [(shows_.shown ino n is).type, TreeStore.IsDir, is]
  simp only [Option.some_inj]

/-- So is a file. -/
theorem ShowsNodes.file (shows_ : ShowsNodes fs tree.node owned) {ino nlink : Nat}
    {bytes : List UInt8} (is : tree.node ino = some (.file bytes nlink)) :
    (fs.vol.inodes ino).type = .file ∧ (fs.vol.inodes ino).nlink = nlink := by
  cases shows_.shown ino _ is with
  | file _ type links => exact ⟨type, links⟩

/-- What is in a directory is what its entries name. -/
theorem ShowsNodes.children (shows_ : ShowsNodes fs tree.node owned) {d : Nat}
    (isDir : tree.IsDir d) : tree.children d = childInos (fs.vol.entries (fs.vol.inodes d)) := by
  obtain ⟨dents, nblk, is⟩ := isDir
  rw [← childInos_children, TreeStore.dents_dir is]
  cases shows_.shown d _ is with
  | dir _ _ entries => rw [entries]

/-- The blocks of a node are those below the pointers of its inode. -/
theorem ShowsNode.fileTree {ino : Nat} {ps : List Nat} {n : FsNode}
    (shows_ : ShowsNode fs ino ps n) : FileTree (fs.vol.inodes ino) fs.vol.blocks ps := by
  cases shows_ with
  | file full => exact full.tree
  | dir ok => exact ok.tree

end Volumes

section Systems

variable {sys : GfsSystem} {tree : TreeStore} {owned : Nat → List Nat} {level : Nat → Nat}

/-- Paths lead from "/" to the inodes that are in use. -/
theorem ShowsTree.reached (shows_ : ShowsTree sys tree owned) (sound : tree.Sound level)
    (ino : Nat) : (tree.node ino).isSome ↔ ∃ names, sys.vol.resolve 0 names = some ino := by
  have same : ∀ names, sys.vol.resolve 0 names = tree.follow 0 names :=
    fun names => shows_.nodes.resolve sound names sound.root.used
  simp only [same]
  exact sound.reached ino

/-- How often the directories of a volume name an inode. -/
def GfsSystem.namedBy (sys : GfsSystem) (ino : Nat) : Nat :=
  ∑ d ∈ Finset.range inodeBitmap.bits,
    if inodeBitmap.isSet sys.bitmaps.cache d = true ∧ (sys.vol.inodes d).type = .dir then
      (childInos (sys.vol.entries (sys.vol.inodes d))).count ino
    else 0

/-- They do so as often as in the tree. -/
theorem ShowsTree.names (shows_ : ShowsTree sys tree owned) (ino : Nat) :
    tree.names ino = sys.namedBy ino := by
  rw [TreeStore.names, GfsSystem.namedBy]
  apply Finset.sum_congr rfl
  intro d mem
  have marked : inodeBitmap.isSet sys.bitmaps.cache d = (tree.node d).isSome :=
    shows_.inodes d (Finset.mem_range.mp mem)
  by_cases isDir : tree.IsDir d
  · have type : (sys.vol.inodes d).type = .dir := (shows_.nodes.isDir_iff isDir.used).mp isDir
    rw [marked, if_pos ⟨isDir.used, type⟩, shows_.nodes.children isDir]
    rfl
  · -- Nothing is in what is no directory.
    have notBoth : ¬ (inodeBitmap.isSet sys.bitmaps.cache d = true ∧
        (sys.vol.inodes d).type = .dir) := by
      intro both
      rw [marked] at both
      exact isDir ((shows_.nodes.isDir_iff both.1).mpr both.2)
    rw [if_neg notBoth, ← childInos_children, TreeStore.dents_other isDir]
    rfl

end Systems

end GlucOS
