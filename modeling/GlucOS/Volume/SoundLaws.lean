import GlucOS.Volume.TrimLaws

/-! What holds of the tree of a volume: one root, one parent for each directory, no name lost. -/

namespace GlucOS

/-! ## The invariant -/

/-- How many names an inode has, but for "." and "..". -/
def TreeStore.names (tree : TreeStore) (ino : Nat) : Nat :=
  ∑ d ∈ Finset.range inodeBitmap.bits, (tree.children d).count ino

/--
The nodes form a tree with "/" as its root.

A directory is one level below the directory that names it.
-/
structure TreeStore.Sound (tree : TreeStore) (level : Nat → Nat) : Prop where
  /-- "/" is a directory. -/
  root : tree.IsDir 0
  /-- It is its own parent. -/
  rootUp : tree.find 0 parentName = some 0
  /-- Nodes have inodes of the volume. -/
  inside : ∀ ino, (tree.node ino).isSome → ino < inodeBitmap.bits
  /-- Names in a directory differ. -/
  distinct : ∀ ino, ((tree.dents ino).map GfsDentry.fname).Nodup
  /-- A directory is in itself. -/
  self : ∀ d, tree.IsDir d → tree.find d selfName = some d
  /-- Names lead to nodes, and directories know where they are named. -/
  child : ∀ d, ∀ c ∈ tree.children d, (tree.node c).isSome ∧
    (tree.IsDir c → tree.find c parentName = some d ∧ level c = level d + 1)
  /-- Files know how many names they have. -/
  links : ∀ ino bytes nlink, tree.node ino = some (.file bytes nlink) →
    tree.names ino = nlink ∧ 1 ≤ nlink
  /-- Directories have one name, except for "/". -/
  once : ∀ d, tree.IsDir d → tree.names d = if d = 0 then 0 else 1

section Facts

variable {tree : TreeStore} {level : Nat → Nat}

/-- What is not a directory has no names in it. -/
theorem TreeStore.dents_other {d : Nat} (notDir : ¬ tree.IsDir d) : tree.dents d = [] := by
  cases is : tree.node d with
  | none => rw [TreeStore.dents, is]
  | some n =>
    cases n with
    | dir dents nblk => exact absurd ⟨dents, nblk, is⟩ notDir
    | file bytes nlink => exact TreeStore.dents_file is

/-- Only directories have names in them. -/
theorem TreeStore.isDir_of_find {d x : Nat} {fname : CharBuf}
    (found : tree.find d fname = some x) : tree.IsDir d := by
  by_contra notDir
  rw [TreeStore.find, TreeStore.dents_other notDir] at found
  cases found

/-- Only directories have children. -/
theorem TreeStore.isDir_of_child {d c : Nat} (mem : c ∈ tree.children d) : tree.IsDir d := by
  by_contra notDir
  rw [← childInos_children, TreeStore.dents_other notDir] at mem
  cases mem

/-- A name that leads somewhere is among the children, but for "." and "..". -/
theorem TreeStore.child_of_find {d c : Nat} {fname : CharBuf}
    (found : tree.find d fname = some c) (notSelf : fname ≠ selfName)
    (notParent : fname ≠ parentName) : c ∈ tree.children d := by
  rw [TreeStore.find, Option.map_eq_some_iff] at found
  obtain ⟨dent, isDent, rfl⟩ := found
  have named : dent.fname = fname := by
    simpa using List.find?_some isDent
  apply List.mem_map_of_mem
  apply List.mem_filter.mpr ⟨List.mem_of_find?_eq_some isDent, ?_⟩
  rw [GfsDentry.isChild_iff, named]
  exact ⟨notSelf, notParent⟩

/-- An inode has a name exactly when it is in some directory. -/
theorem TreeStore.names_pos (inside : ∀ ino, (tree.node ino).isSome → ino < inodeBitmap.bits)
    {ino : Nat} : 0 < tree.names ino ↔ ∃ d, ino ∈ tree.children d := by
  rw [TreeStore.names, Finset.sum_pos_iff]
  constructor
  · intro some_
    obtain ⟨d, -, pos⟩ := some_
    exact ⟨d, List.count_pos_iff.mp pos⟩
  · intro some_
    obtain ⟨d, mem⟩ := some_
    have used := (TreeStore.isDir_of_child mem).used
    exact ⟨d, Finset.mem_range.mpr (inside d used), List.count_pos_iff.mpr mem⟩

/-- Every directory is in some directory. -/
theorem TreeStore.Sound.up (sound : tree.Sound level) {d : Nat} (isDir : tree.IsDir d) :
    ∃ p, tree.find d parentName = some p ∧ tree.IsDir p := by
  by_cases isRoot : d = 0
  · subst isRoot
    exact ⟨0, sound.rootUp, isDir⟩
  · -- It has a name, which is in its parent.
    have one := sound.once d isDir
    rw [if_neg isRoot] at one
    obtain ⟨p, mem⟩ := (TreeStore.names_pos sound.inside).mp (by rw [one]; exact Nat.one_pos)
    exact ⟨p, ((sound.child p d mem).2 isDir).1, TreeStore.isDir_of_child mem⟩

/-- "." and ".." are in every directory. -/
theorem TreeStore.Sound.dots (sound : tree.Sound level) {d : Nat} {fname : CharBuf}
    (isDir : tree.IsDir d) (none_ : tree.find d fname = none) :
    fname ≠ selfName ∧ fname ≠ parentName := by
  constructor
  · intro same
    subst same
    rw [sound.self d isDir] at none_
    cases none_
  · intro same
    subst same
    obtain ⟨p, isParent, -⟩ := sound.up isDir
    rw [isParent] at none_
    cases none_

/-- A directory with another name has three entries at least. -/
theorem TreeStore.Sound.many (sound : tree.Sound level) {d c : Nat} {fname : CharBuf}
    (found : tree.find d fname = some c) (notSelf : fname ≠ selfName)
    (notParent : fname ≠ parentName) : 3 ≤ (tree.dents d).length := by
  have isDir := TreeStore.isDir_of_find found
  obtain ⟨p, isParent, -⟩ := sound.up isDir
  have isSelf := sound.self d isDir
  -- The three names are different names of entries.
  have named : ∀ {name x}, tree.find d name = some x →
      name ∈ (tree.dents d).map GfsDentry.fname := by
    intro name x is
    rw [TreeStore.find, Option.map_eq_some_iff] at is
    obtain ⟨dent, isDent, -⟩ := is
    have is : dent.fname = name := by
      simpa using List.find?_some isDent
    rw [← is]
    exact List.mem_map_of_mem (List.mem_of_find?_eq_some isDent)
  have three : [selfName, parentName, fname].Nodup := by
    have differ : selfName ≠ parentName := by decide
    simp [differ, Ne.symm notSelf, Ne.symm notParent]
  have subset : [selfName, parentName, fname] ⊆ (tree.dents d).map GfsDentry.fname := by
    intro name mem
    simp only [List.mem_cons, List.not_mem_nil, or_false] at mem
    rcases mem with rfl | rfl | rfl
    · exact named isSelf
    · exact named isParent
    · exact named found
  have few := (List.Nodup.subperm three subset).length_le
  rwa [List.length_map] at few

end Facts

/-! ## Names that come -/

section Entering

variable {tree mid : TreeStore} {level : Nat → Nat} {d pino c : Nat} {tname : CharBuf}

/-- A node that was put. -/
theorem TreeStore.put_self (tree : TreeStore) (d : Nat) (n : FsNode) :
    (tree.put d n).node d = some n := Function.update_self ..

/-- The names of a directory that was put. -/
theorem TreeStore.put_dents (tree : TreeStore) (d : Nat) (dents : List GfsDentry) (nblk : Nat) :
    (tree.put d (.dir dents nblk)).dents d = dents :=
  TreeStore.dents_dir (tree.put_self ..)

/-- Others keep their names. -/
theorem TreeStore.put_other {ino : Nat} (other : ino ≠ d) (n : FsNode) :
    (tree.put d n).node ino = tree.node ino := Function.update_of_ne other _ _

/-- Names are those of the node. -/
theorem TreeStore.dents_congr {tree' : TreeStore} {ino : Nat}
    (same : tree'.node ino = tree.node ino) : tree'.dents ino = tree.dents ino := by
  rw [TreeStore.dents, same, TreeStore.dents]

/-- A node that gets a name, other than the directory that it is named in. -/
inductive NewNode (tree : TreeStore) (pino c : Nat) : FsNode → Prop
  /-- A file, with a name more than it had. -/
  | file {bytes : List UInt8} : ¬ tree.IsDir c →
    NewNode tree pino c (.file bytes (tree.names c + 1))
  /-- A directory that has been made. -/
  | dir {dents : List GfsDentry} {nblk : Nat} : tree.node c = none →
    dents.Perm [⟨parentName, pino⟩, ⟨selfName, c⟩] → NewNode tree pino c (.dir dents nblk)

/-- It was no directory. -/
theorem NewNode.notDir {n : FsNode} (new : NewNode tree pino c n) : ¬ tree.IsDir c := by
  cases new with
  | file notDir => exact notDir
  | dir none_ => exact fun isDir => TreeStore.apart_of_none none_ isDir.used rfl

/-- Nothing is in it. -/
theorem NewNode.children {n : FsNode} (new : NewNode tree pino c n) :
    (mid.put c n).children c = [] := by
  rw [← childInos_children]
  cases new with
  | file =>
    rw [TreeStore.dents_file (TreeStore.put_self ..)]
    rfl
  | @dir dents nblk _ perm =>
    rw [TreeStore.put_dents, childInos, List.map_eq_nil_iff, List.filter_eq_nil_iff]
    intro dent mem
    rw [GfsDentry.isChild_iff]
    have either := perm.subset mem
    simp only [List.mem_cons, List.not_mem_nil, or_false] at either
    rcases either with rfl | rfl
    · exact fun both => both.2 rfl
    · exact fun both => both.1 rfl

/-- A directory that has been made knows itself and its parent. -/
theorem NewNode.find {dents : List GfsDentry} {nblk : Nat}
    (new : NewNode tree pino c (.dir dents nblk)) :
    (dents.map GfsDentry.fname).Nodup ∧
      (mid.put c (.dir dents nblk)).find c selfName = some c ∧
      (mid.put c (.dir dents nblk)).find c parentName = some pino := by
  cases new with
  | dir none_ perm =>
    have distinct : (dents.map GfsDentry.fname).Nodup := by
      rw [(perm.map GfsDentry.fname).nodup_iff]
      show [parentName, selfName].Nodup
      decide
    have entry : ∀ dent ∈ dents,
        (mid.put c (.dir dents nblk)).find c dent.fname = some dent.ino := by
      intro dent mem
      rw [TreeStore.find, TreeStore.put_dents, keyed_of_mem distinct mem]
      rfl
    exact ⟨distinct, entry ⟨selfName, c⟩ (perm.symm.subset (by simp)),
      entry ⟨parentName, pino⟩ (perm.symm.subset (by simp))⟩

/-- What is in a directory when a name was added. -/
theorem NameEntered.children (entered : NameEntered tree pino ⟨tname, c⟩ mid)
    (isChild : tname ≠ selfName ∧ tname ≠ parentName) (apart : c ≠ pino) {n : FsNode}
    (new : NewNode tree pino c n) :
    ((mid.put c n).children d).Perm
      (if d = pino then c :: tree.children d else tree.children d) := by
  by_cases here : d = c
  · subst here
    rw [if_neg apart, new.children, ← childInos_children, TreeStore.dents_other new.notDir]
    exact List.Perm.nil
  · rw [← childInos_children, TreeStore.dents_congr (TreeStore.put_other here n)]
    cases entered with
    | @intro front back nblk is room =>
      by_cases parent : d = pino
      · subst parent
        rw [if_pos rfl, TreeStore.put_dents, ← childInos_children, TreeStore.dents_dir is,
          childInos_append, childInos_append,
          childInos_child back ((GfsDentry.isChild_iff _).mpr isChild)]
        exact List.perm_middle
      · rw [if_neg parent, TreeStore.dents_congr (TreeStore.put_other parent _)]
        exact List.Perm.refl _

/-- What names stand for then. -/
theorem NameEntered.find (entered : NameEntered tree pino ⟨tname, c⟩ mid)
    (fresh : tree.find pino tname = none) (n : FsNode) (other : d ≠ c) (fname : CharBuf) :
    (mid.put c n).find d fname =
      if d = pino ∧ fname = tname then some c else tree.find d fname := by
  rw [TreeStore.find, TreeStore.dents_congr (TreeStore.put_other other n)]
  cases entered with
  | @intro front back nblk is room =>
    by_cases parent : d = pino
    · subst parent
      rw [TreeStore.find, TreeStore.dents_dir is, Option.map_eq_none_iff] at fresh
      rw [TreeStore.put_dents, keyed_insert fresh]
      by_cases same : fname = tname
      · rw [if_pos ⟨rfl, same⟩, same, Function.update_self]
        rfl
      · rw [if_neg (fun both => same both.2), Function.update_of_ne same, TreeStore.find,
          TreeStore.dents_dir is]
    · rw [if_neg (fun both => parent both.1), TreeStore.dents_congr (TreeStore.put_other parent _)]
      rfl

/-- Only one inode has a name more. -/
theorem NameEntered.names (entered : NameEntered tree pino ⟨tname, c⟩ mid)
    (isChild : tname ≠ selfName ∧ tname ≠ parentName) (apart : c ≠ pino) {n : FsNode}
    (new : NewNode tree pino c n) (valid : pino < inodeBitmap.bits) (ino : Nat) :
    (mid.put c n).names ino = tree.names ino + if ino = c then 1 else 0 := by
  have each : ∀ d, ((mid.put c n).children d).count ino =
      (tree.children d).count ino + if d = pino then if ino = c then 1 else 0 else 0 := by
    intro d
    rw [(entered.children isChild apart new).count_eq]
    split
    · rw [List.count_cons]
      simp only [beq_iff_eq, @eq_comm Nat c ino]
    · rfl
  rw [TreeStore.names, TreeStore.names, Finset.sum_congr rfl fun d _ => each d,
    Finset.sum_add_distrib, Finset.sum_ite_eq', if_pos (Finset.mem_range.mpr valid)]

/-- Directories stay, and at most one is new. -/
theorem NameEntered.isDir {new : GfsDentry} (entered : NameEntered tree pino new mid) (n : FsNode)
    (other : d ≠ c) : (mid.put c n).IsDir d ↔ tree.IsDir d := by
  unfold TreeStore.IsDir
  rw [TreeStore.put_other other n]
  by_cases parent : d = pino
  · subst parent
    cases entered with
    | @intro front back nblk is room =>
      rw [is, TreeStore.put_self]
      exact ⟨fun _ => ⟨_, _, rfl⟩, fun _ => ⟨_, _, rfl⟩⟩
  · rw [entered.other parent]

/-- A tree in which something gets a name is one again. -/
theorem TreeStore.Sound.enter (sound : tree.Sound level)
    (entered : NameEntered tree pino ⟨tname, c⟩ mid) (fresh : tree.find pino tname = none)
    (apart : c ≠ pino) (valid : c < inodeBitmap.bits) {n : FsNode}
    (new : NewNode tree pino c n) :
    (mid.put c n).Sound (Function.update level c (level pino + 1)) := by
  have isParent : tree.IsDir pino := by
    cases entered with
    | intro is room => exact ⟨_, _, is⟩
  have pvalid := sound.inside pino isParent.used
  have isChild := sound.dots isParent fresh
  have notRoot : 0 ≠ c := by
    intro same
    exact new.notDir (same ▸ sound.root)
  have self := mid.put_self c n
  have find := fun {d : Nat} => @NameEntered.find tree mid d pino c tname entered fresh n
  have names := entered.names isChild apart new pvalid
  have old : ∀ {d}, d ≠ c → ((mid.put c n).node d).isSome = (tree.node d).isSome := by
    intro d other
    rw [TreeStore.put_other other, entered.isSome]
  -- Directories that were there keep what is not the new name.
  have kept : ∀ {d fname x}, d ≠ c → fname ≠ tname → tree.find d fname = some x →
      (mid.put c n).find d fname = some x := by
    intro d fname x other notNew is
    rw [find other, if_neg fun both => notNew both.2, is]
  constructor
  · exact (entered.isDir n notRoot).mpr sound.root
  · exact kept notRoot (Ne.symm isChild.2) sound.rootUp
  · -- Only the inode that gets the name may be new.
    intro ino used
    by_cases here : ino = c
    · rw [here]
      exact valid
    · rw [old here] at used
      exact sound.inside ino used
  · -- The name was not in the parent, so names still differ there.
    intro d
    by_cases here : d = c
    · subst here
      cases new with
      | file =>
        rw [TreeStore.dents_file self]
        exact List.nodup_nil
      | @dir dents nblk none_ perm =>
        rw [TreeStore.dents_dir self]
        exact (@NewNode.find tree mid pino d dents nblk (.dir none_ perm)).1
    · rw [TreeStore.dents_congr (TreeStore.put_other here n)]
      cases entered with
      | @intro front back nblk is room =>
        by_cases parent : d = pino
        · subst parent
          have distinct := sound.distinct d
          rw [TreeStore.find, TreeStore.dents_dir is, Option.map_eq_none_iff] at fresh
          rw [TreeStore.dents_dir is] at distinct
          rw [TreeStore.put_dents, (List.perm_middle.map GfsDentry.fname).nodup_iff,
            List.map_cons, List.nodup_cons]
          refine ⟨?_, distinct⟩
          intro mem
          obtain ⟨dent, isDent, same⟩ := List.mem_map.mp mem
          exact keyed_eq_none.mp fresh dent isDent same
        · rw [TreeStore.dents_congr (TreeStore.put_other parent _)]
          exact sound.distinct d
  · -- "." was put into a new directory, and stays in others.
    intro d isDir
    by_cases here : d = c
    · subst here
      cases new with
      | file => exact absurd isDir (TreeStore.notDir_of_file self)
      | dir none_ perm => exact (NewNode.find (.dir none_ perm)).2.1
    · exact kept here (Ne.symm isChild.1) (sound.self d ((entered.isDir n here).mp isDir))
  · intro d x mem
    have either := (entered.children isChild apart new).subset mem
    by_cases fresh_ : d = pino ∧ x = c
    · -- What got the name knows its parent.
      obtain ⟨rfl, rfl⟩ := fresh_
      refine ⟨by rw [self]; rfl, ?_⟩
      intro isDir
      rw [Function.update_self, Function.update_of_ne (Ne.symm apart)]
      cases new with
      | file => exact absurd isDir (TreeStore.notDir_of_file self)
      | dir none_ perm => exact ⟨(NewNode.find (.dir none_ perm)).2.2, rfl⟩
    · have mem' : x ∈ tree.children d := by
        by_cases parent : d = pino
        · rw [if_pos parent] at either
          rcases List.mem_cons.mp either with same | old
          · exact absurd ⟨parent, same⟩ fresh_
          · exact old
        · rwa [if_neg parent] at either
      have other : d ≠ c := by
        intro here
        exact new.notDir (here ▸ TreeStore.isDir_of_child mem')
      obtain ⟨used, isDir⟩ := sound.child d x mem'
      by_cases here : x = c
      · -- A file that has other names.
        subst here
        refine ⟨by rw [self]; rfl, ?_⟩
        intro isDir'
        cases new with
        | file => exact absurd isDir' (TreeStore.notDir_of_file self)
        | dir none_ => exact absurd rfl (TreeStore.apart_of_none none_ used)
      · refine ⟨by rwa [old here], ?_⟩
        intro isDir'
        obtain ⟨isUp, below⟩ := isDir ((entered.isDir n here).mp isDir')
        rw [Function.update_of_ne here, Function.update_of_ne other]
        exact ⟨kept here (Ne.symm isChild.2) isUp, below⟩
  · -- Names are counted: the new one is that of one inode.
    intro ino bytes nlink is
    rw [names]
    by_cases here : ino = c
    · subst here
      rw [if_pos rfl]
      cases new with
      | file =>
        rw [self] at is
        cases is
        exact ⟨rfl, Nat.le_add_left _ _⟩
      | dir =>
        rw [self] at is
        cases is
    · rw [if_neg here, Nat.add_zero]
      apply sound.links ino bytes nlink
      rw [TreeStore.put_other here] at is
      by_cases parent : ino = pino
      · subst parent
        cases entered with
        | intro is' room =>
          rw [TreeStore.put_self] at is
          cases is
      · rwa [entered.other parent] at is
  · intro d isDir
    rw [names]
    by_cases here : d = c
    · subst here
      rw [if_pos rfl, if_neg (Ne.symm notRoot)]
      cases new with
      | file => exact absurd isDir (TreeStore.notDir_of_file self)
      | dir none_ perm =>
        -- Nothing had this name before.
        rw [Nat.add_eq_right]
        apply Nat.eq_zero_of_not_pos
        rw [TreeStore.names_pos sound.inside]
        intro some_
        obtain ⟨p, mem⟩ := some_
        exact TreeStore.apart_of_none none_ (sound.child p d mem).1 rfl
    · rw [if_neg here, Nat.add_zero]
      exact sound.once d ((entered.isDir n here).mp isDir)

end Entering

end GlucOS
