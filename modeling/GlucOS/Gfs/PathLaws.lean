import GlucOS.Gfs.SplitLaws
import GlucOS.Gfs.Volume

/-! The two path analysers against following a path through the directories. -/

namespace GlucOS

namespace GfsVolume

/-! ## Directories -/

/-- The entries in use of a directory, in the order of its blocks. -/
def entries (vol : GfsVolume) (inode : GfsInode) : List GfsDentry :=
  let ptrs := inode.dptr.toList ++
    if inode.idptr = inodeInvalidPtr then [] else (vol.blocks inode.idptr).ptrs
  (ptrs.filter fun ptr => ptr ≠ inodeInvalidPtr).flatMap fun ptr =>
    (vol.blocks ptr).dents.filter fun dent => dent.ino ≠ dentryInvalidIno

/-- The inode that a directory has under a name. -/
def lookup (vol : GfsVolume) (ino : Nat) (name : CharBuf) : Option Nat :=
  if ino < vol.inodeNum ∧ (vol.inodes ino).type = .dir then
    ((vol.entries (vol.inodes ino)).find? fun dent => dent.fname = name).map GfsDentry.ino
  else none

/-- The inode that names lead to, one after another. -/
def resolve (vol : GfsVolume) : Nat → List CharBuf → Option Nat
  | ino, [] => some ino
  | ino, name :: names => (vol.lookup ino name).bind fun next => vol.resolve next names

/-- A used entry with the name is found among the entries of a block. -/
theorem findSome_dents (dents : List GfsDentry) (fname : CharBuf) :
    (dents.findSome? fun dent =>
      if dent.ino ≠ dentryInvalidIno ∧ dent.fname = fname then some dent.ino else none) =
    ((dents.filter fun dent => dent.ino ≠ dentryInvalidIno).find? fun dent =>
      dent.fname = fname).map GfsDentry.ino := by
  induction dents with
  | nil => rfl
  | cons dent dents ih =>
    by_cases used : dent.ino ≠ dentryInvalidIno
    · by_cases same : dent.fname = fname
      · simp [used, same]
      · simp only [List.findSome?_cons, same, and_false, if_false]
        rw [ih, List.filter_cons_of_pos (by simpa using used), List.find?_cons_of_neg (by simpa)]
    · simp only [List.findSome?_cons, used, false_and, if_false]
      rw [ih, List.filter_cons_of_neg (by simpa using used)]

/-- An array of pointers is searched block by block. -/
theorem searchDentryOnPtrArr_eq (vol : GfsVolume) (parr : List Nat) (fname : CharBuf) :
    vol.searchDentryOnPtrArr parr fname =
      (((parr.filter fun ptr => ptr ≠ inodeInvalidPtr).flatMap fun ptr =>
        (vol.blocks ptr).dents.filter fun dent => dent.ino ≠ dentryInvalidIno).find? fun dent =>
          dent.fname = fname).map GfsDentry.ino := by
  induction parr with
  | nil => rfl
  | cons ptr parr ih =>
    rw [searchDentryOnPtrArr, List.findSome?_cons]
    by_cases invalid : ptr = inodeInvalidPtr
    · rw [if_pos invalid, List.filter_cons_of_neg (by simp [invalid])]
      exact ih
    · rw [if_neg invalid, List.filter_cons_of_pos (by simpa using invalid), List.flatMap_cons,
        List.find?_append, findSome_dents]
      cases found : ((vol.blocks ptr).dents.filter fun dent =>
        dent.ino ≠ dentryInvalidIno).find? fun dent => dent.fname = fname with
      | some dent => simp
      | none =>
        simp only [Option.map_none, Option.none_or]
        exact ih

/-- A directory is searched through all its entries. -/
theorem searchDentryInDirInode_eq (vol : GfsVolume) (inode : GfsInode) (fname : CharBuf) :
    vol.searchDentryInDirInode inode fname =
      if inode.type = .dir then
        ((vol.entries inode).find? fun dent => dent.fname = fname).map GfsDentry.ino
      else none := by
  unfold searchDentryInDirInode entries
  by_cases isDir : inode.type = .dir
  · rw [if_neg (by simpa using isDir), if_pos isDir, searchDentryOnPtrArr_eq]
    simp only [List.filter_append, List.flatMap_append, List.find?_append]
    cases found : ((inode.dptr.toList.filter fun ptr => ptr ≠ inodeInvalidPtr).flatMap fun ptr =>
      (vol.blocks ptr).dents.filter fun dent => dent.ino ≠ dentryInvalidIno).find? fun dent =>
        dent.fname = fname with
    | some dent => simp
    | none =>
      by_cases invalid : inode.idptr = inodeInvalidPtr
      · simp [invalid]
      · simp [invalid, searchDentryOnPtrArr_eq]
  · rw [if_pos (by simpa using isDir), if_neg isDir]

/-- Names are followed in two parts. -/
theorem resolve_append (vol : GfsVolume) (first second : List CharBuf) :
    ∀ ino, vol.resolve ino (first ++ second) =
      (vol.resolve ino first).bind fun next => vol.resolve next second := by
  induction first with
  | nil => intro ino; rfl
  | cons name first ih =>
    intro ino
    rw [List.cons_append, resolve, resolve, Option.bind_assoc]
    congr 1
    funext next
    exact ih next

end GfsVolume

/-! ## Trees -/

/-- Directories whose entries name inodes, with names that are not empty. -/
structure GfsTree extends GfsVolume where
  /-- There is a root. -/
  root : 0 < inodeNum
  /-- Entries name inodes. -/
  legal : ∀ ino name next, toGfsVolume.lookup ino name = some next → next < inodeNum
  /-- No entry has an empty name. -/
  named : ∀ ino, toGfsVolume.lookup ino [] = none

namespace GfsTree

/-- Following names from an inode leads to inodes only. -/
theorem resolve_lt (tree : GfsTree) (names : List CharBuf) :
    ∀ {ino next}, ino < tree.inodeNum → tree.resolve ino names = some next →
      next < tree.inodeNum := by
  induction names with
  | nil =>
    intro ino next inside found
    cases found
    exact inside
  | cons name names ih =>
    intro ino next inside found
    obtain ⟨mid, looked, rest⟩ := Option.bind_eq_some_iff.mp found
    exact ih (tree.legal _ _ _ looked) rest

/-- The loop of `path_anal` follows the names. -/
theorem pathFollow_eq (tree : GfsTree) (path : CharBuf) (fnames : List Nat) :
    ∀ {ino}, ino < tree.inodeNum →
      tree.pathFollow path fnames ino = tree.resolve ino (fnames.map (cstr path)) := by
  induction fnames with
  | nil =>
    intro ino inside
    rw [GfsVolume.pathFollow, if_neg (by omega)]
    rfl
  | cons p fnames ih =>
    intro ino inside
    have step : tree.lookup ino (cstr path p) =
        tree.searchDentryInDirInode (tree.inodes ino) (cstr path p) := by
      rw [GfsVolume.searchDentryInDirInode_eq, GfsVolume.lookup]
      simp [inside]
    rw [GfsVolume.pathFollow, GfsVolume.readInode, if_neg (by omega), List.map_cons,
      GfsVolume.resolve]
    simp only [Option.bind_eq_bind, Option.bind_some]
    by_cases isDir : (tree.inodes ino).type = .dir
    · rw [if_neg (by simpa using isDir), ← step]
      cases looked : tree.lookup ino (cstr path p) with
      | none => rfl
      | some next =>
        rw [Option.bind_some, Option.bind_some]
        exact ih (tree.legal _ _ _ looked)
    · rw [if_pos (by simpa using isDir), GfsVolume.lookup, if_neg (by simp [isDir])]
      rfl

end GfsTree

/-! ## Following a whole path -/

/-- Where a path starts, and what follows its leading slash. -/
def startOf (curIno : Nat) (path : CharBuf) : Nat × CharBuf :=
  if path.head? = some slash then (0, path.tail) else (curIno, path)

/-- The components of an absolute or relative path. -/
def pathNames (path : CharBuf) : List CharBuf := components (startOf 0 path).2

/-- The inode that all components of a path lead to. -/
def GfsTree.follow (tree : GfsTree) (curIno : Nat) (path : CharBuf) : Option Nat :=
  tree.resolve (startOf curIno path).1 (pathNames path)

/-- What follows a leading slash does not depend on the current directory. -/
theorem startOf_snd (curIno : Nat) (path : CharBuf) :
    (startOf curIno path).2 = (startOf 0 path).2 := by
  unfold startOf
  split <;> rfl

/-- A path starts at an inode. -/
theorem GfsTree.startOf_lt (tree : GfsTree) {curIno : Nat} (inside : curIno < tree.inodeNum)
    (path : CharBuf) : (startOf curIno path).1 < tree.inodeNum := by
  unfold startOf
  split
  · exact tree.root
  · exact inside

/-- `path_anal` follows the first sixteen components. -/
theorem GfsTree.pathAnal_eq (tree : GfsTree) {curIno : Nat} (inside : curIno < tree.inodeNum)
    {path : CharBuf} (string : ∀ c ∈ path, c ≠ 0) (fits : path.length ≤ pathLen) :
    tree.pathAnal curIno path = tree.resolve (startOf curIno path).1
      ((pathNames path).take GfsVolume.analMax) := by
  have start : (if (path ++ [0]).head? = some slash then (0, (path ++ [0]).tail)
      else (curIno, path ++ [0])) = ((startOf curIno path).1, (startOf curIno path).2 ++ [0]) := by
    cases path with
    | nil => rfl
    | cons c path =>
      by_cases isSlash : c = slash <;> simp [startOf, isSlash]
  have clean : ∀ c ∈ (startOf curIno path).2, c ≠ 0 := by
    intro c member
    apply string c
    unfold startOf at member
    split at member
    · exact List.mem_of_mem_tail member
    · exact member
  have found := split_components clean [] (show 0 < GfsVolume.analMax by decide)
  rw [GfsVolume.pathAnal, if_neg (by omega)]
  simp only [start] at found ⊢
  rw [tree.pathFollow_eq _ _ (tree.startOf_lt inside path), found, startOf_snd]
  rfl

/--
When `path_anal` follows a path to its end.

Its components fit, or the first sixteen lead nowhere, or the others lead back from where these
lead to.
-/
def GfsTree.Follows (tree : GfsTree) (curIno : Nat) (path : CharBuf) : Prop :=
  let start := (startOf curIno path).1
  let first := (pathNames path).take GfsVolume.analMax
  (pathNames path).length ≤ GfsVolume.analMax ∨ tree.resolve start first = none ∨
    ∃ ino, tree.resolve start first = some ino ∧
      tree.resolve ino ((pathNames path).drop GfsVolume.analMax) = some ino

/-- `path_anal` finds the inode that all components lead to exactly where it follows them. -/
theorem path_anal_follows (tree : GfsTree) {curIno : Nat} (inside : curIno < tree.inodeNum)
    {path : CharBuf} (string : ∀ c ∈ path, c ≠ 0) (fits : path.length ≤ pathLen) :
    tree.pathAnal curIno path = tree.follow curIno path ↔ tree.Follows curIno path := by
  rw [tree.pathAnal_eq inside string fits, GfsTree.follow, GfsTree.Follows]
  by_cases few : (pathNames path).length ≤ GfsVolume.analMax
  · simp [few, List.take_of_length_le few]
  · have whole := tree.resolve_append ((pathNames path).take GfsVolume.analMax)
      ((pathNames path).drop GfsVolume.analMax) (startOf curIno path).1
    rw [List.take_append_drop] at whole
    rw [whole]
    cases first : tree.resolve (startOf curIno path).1
      ((pathNames path).take GfsVolume.analMax) with
    | none => simp
    | some ino =>
      simp only [Option.bind_some, few, false_or, reduceCtorEq, Option.some.injEq,
        exists_eq_left']
      exact eq_comm

/-! ## A small tree -/

/-- A block with one entry: the name of one dot, and inode 0. The others are unused. -/
def dotBlock : Block := fun at_ => if at_.val = 0 then 46 else if at_.val < dentSize then 0 else 255

/-- A directory of the block 1. -/
def dotInode : GfsInode :=
  ⟨1, .dir, 1, #v[1, 0, 0, 0, 0, 0, 0, 0, 0, 0], inodeInvalidPtr, inodeInvalidPtr⟩

/-- A root in which `.` is the root itself, and which has no other entry. -/
def dotVolume : GfsVolume := ⟨1, fun _ => dotInode, fun _ => dotBlock⟩

/-- The entries of the small tree. -/
theorem dotVolume_entries : dotVolume.entries dotInode = [⟨dotName, 0⟩] := by
  decide +kernel

/-- In the small tree, `.` is found in the root, and nothing else anywhere. -/
theorem dotVolume_lookup (ino : Nat) (name : CharBuf) :
    dotVolume.lookup ino name = if ino = 0 ∧ name = dotName then some 0 else none := by
  have isDir : (dotVolume.inodes ino).type = .dir := rfl
  have same : dotVolume.inodes ino = dotInode := rfl
  have one : dotVolume.inodeNum = 1 := rfl
  rw [GfsVolume.lookup, same, dotVolume_entries, one]
  by_cases isRoot : ino = 0
  · by_cases isDot : name = dotName
    · subst isRoot isDot
      rfl
    · have other : dotName ≠ name := fun equal => isDot equal.symm
      simp [isRoot, isDot, other]
  · have outside : ¬ ino < 1 := by omega
    simp [isRoot]

/-- The small tree. -/
def dotTree : GfsTree where
  toGfsVolume := dotVolume
  root := by decide
  legal := by
    intro ino name next found
    rw [dotVolume_lookup] at found
    split at found
    · cases found
      decide
    · cases found
  named := by
    intro ino
    rw [dotVolume_lookup, if_neg]
    rintro ⟨-, same⟩
    cases same

/-- `./` sixteen times and a name that is missing lead to the root. -/
theorem path_anal_prefix : ¬ ∀ (tree : GfsTree) (curIno : Nat) (path : CharBuf),
    curIno < tree.inodeNum → (∀ c ∈ path, c ≠ 0) → path.length ≤ pathLen →
      tree.pathAnal curIno path = tree.follow curIno path := by
  intro claim
  have wrong := claim dotTree 0 ((List.replicate 16 [46, slash]).flatten ++ [120]) (by decide)
    (by decide +kernel) (by decide +kernel)
  revert wrong
  decide +kernel

/-- `./.` is followed to its end. -/
theorem path_anal_follows_dots :
    dotTree.pathAnal 0 [46, slash, 46] = dotTree.follow 0 [46, slash, 46] :=
  (path_anal_follows dotTree (by decide) (by decide +kernel) (by decide)).mpr
    (Or.inl (by decide +kernel))

end GlucOS
