import GlucOS.Volume.DropLaws
import GlucOS.Volume.SoundLaws

/-! A tree from which all that is below a name is removed is one again. -/

namespace GlucOS

/-! ## What is below an inode -/

section Below

variable {tree : TreeStore} {level : Nat → Nat} {depth ino : Nat} {all : List Nat}

/-- Lists that count a value as they count its sources do so together. -/
theorem count_flatMap_add (visits : Nat → List Nat) (source : Nat → Nat) (y : Nat) (cs : List Nat)
    (each : ∀ c ∈ cs, (visits c).count y =
      (if y = c then 1 else 0) + ((visits c).map source).sum) :
    (cs.flatMap visits).count y = cs.count y + ((cs.flatMap visits).map source).sum := by
  induction cs with
  | nil => rfl
  | cons c cs ih =>
    have rest := ih fun c' mem => each c' (List.mem_cons_of_mem _ mem)
    have first := each c List.mem_cons_self
    rw [List.flatMap_cons, List.count_append, List.map_append, List.sum_append, List.count_cons,
      first, rest]
    simp only [beq_iff_eq, @eq_comm Nat c y]
    omega

/-- Something is below an inode as often as it is named there. -/
theorem TreeStore.below_count (isBelow : tree.below depth ino = some all) (y : Nat) :
    all.count y = (if y = ino then 1 else 0) +
      (all.map fun x => (tree.children x).count y).sum := by
  -- Each child counts what is below it, and its own name.
  induction depth generalizing ino all with
  | zero => cases isBelow
  | succ depth ih =>
    obtain ⟨-, parts, each⟩ := TreeStore.below_some isBelow
    have sources := count_flatMap_add (tree.visits depth)
      (fun x => (tree.children x).count y) y (tree.children ino) (by
        intro c mem
        obtain ⟨gone, isGone, -⟩ := each c mem
        have visits : tree.visits depth c = gone := by
          rw [TreeStore.visits, isGone]
          rfl
        rw [visits]
        exact ih isGone)
    rw [parts, List.count_append, sources, List.map_append, List.sum_append, List.map_singleton,
      List.sum_singleton, List.count_singleton]
    simp only [beq_iff_eq, @eq_comm Nat ino y]
    omega

/-- All of it is there. -/
theorem TreeStore.below_used (isBelow : tree.below depth ino = some all) :
    ∀ x ∈ all, (tree.node x).isSome := by
  induction depth generalizing ino all with
  | zero => cases isBelow
  | succ depth ih =>
    obtain ⟨used, parts, each⟩ := TreeStore.below_some isBelow
    intro x mem
    rw [parts, List.mem_append, List.mem_flatMap, List.mem_singleton] at mem
    rcases mem with ⟨c, isChild, inside⟩ | rfl
    · obtain ⟨gone, isGone, -⟩ := each c isChild
      rw [TreeStore.visits, isGone] at inside
      exact ih isGone x inside
    · exact used

/-- Directories below another one are on lower levels. -/
theorem TreeStore.Sound.below_level (sound : tree.Sound level)
    (isBelow : tree.below depth ino = some all) :
    ∀ x ∈ all, tree.IsDir x → tree.IsDir ino ∧ level ino ≤ level x := by
  induction depth generalizing ino all with
  | zero => cases isBelow
  | succ depth ih =>
    obtain ⟨-, parts, each⟩ := TreeStore.below_some isBelow
    intro x mem isDir
    rw [parts, List.mem_append, List.mem_flatMap, List.mem_singleton] at mem
    rcases mem with ⟨c, isChild, inside⟩ | rfl
    · obtain ⟨gone, isGone, -⟩ := each c isChild
      rw [TreeStore.visits, isGone] at inside
      obtain ⟨isDir', lower⟩ := ih isGone x inside isDir
      have one := ((sound.child ino c isChild).2 isDir').2
      exact ⟨TreeStore.isDir_of_child isChild, by omega⟩
    · exact ⟨isDir, Nat.le_refl _⟩

/-- A sum over a list, by how often each number is in it. -/
theorem sum_map_count {n : Nat} {l : List Nat} (inside : ∀ x ∈ l, x < n) (f : Nat → Nat) :
    (l.map f).sum = ∑ x ∈ Finset.range n, l.count x * f x := by
  rw [Finset.sum_list_map_count]
  simp only [smul_eq_mul]
  apply Finset.sum_subset
  · intro x mem
    exact Finset.mem_range.mpr (inside x (List.mem_toFinset.mp mem))
  · intro x _ absent
    rw [List.mem_toFinset] at absent
    rw [List.count_eq_zero_of_not_mem absent, Nat.zero_mul]

/-- A directory is below another one once at most. -/
theorem TreeStore.Sound.below_once (sound : tree.Sound level)
    (isBelow : tree.below depth ino = some all) (n : Nat) :
    ∀ d, level d = n → tree.IsDir d → all.count d ≤ 1 := by
  have inside : ∀ x ∈ all, x < inodeBitmap.bits := fun x mem =>
    sound.inside x (TreeStore.below_used isBelow x mem)
  -- Its only name is in a directory one level above, for which this is so.
  induction n using Nat.strong_induction_on with
  | _ n ih =>
    intro d isLevel isDir
    have counts := TreeStore.below_count isBelow d
    rw [sum_map_count inside] at counts
    have fewer : ∀ x, all.count x * (tree.children x).count d ≤ (tree.children x).count d := by
      intro x
      by_cases named : d ∈ tree.children x
      · have above := ((sound.child x d named).2 isDir).2
        have once := ih (level x) (by omega) x rfl (TreeStore.isDir_of_child named)
        exact (Nat.mul_le_mul_right _ once).trans_eq (Nat.one_mul _)
      · rw [List.count_eq_zero_of_not_mem named]
        exact Nat.le_refl _
    have total := Finset.sum_le_sum fun x (_ : x ∈ Finset.range inodeBitmap.bits) => fewer x
    have names := sound.once d isDir
    rw [TreeStore.names] at names
    by_cases here : d = ino
    · subst here
      -- What is below it does not name it.
      have none_ : ∀ x ∈ Finset.range inodeBitmap.bits,
          all.count x * (tree.children x).count d = 0 := by
        intro x _
        by_cases named : d ∈ tree.children x
        · have above := ((sound.child x d named).2 isDir).2
          rw [List.count_eq_zero_of_not_mem, Nat.zero_mul]
          intro mem
          have lower := (sound.below_level isBelow x mem (TreeStore.isDir_of_child named)).2
          omega
        · rw [List.count_eq_zero_of_not_mem named, Nat.mul_zero]
      rw [Finset.sum_eq_zero none_, if_pos rfl] at counts
      omega
    · rw [if_neg here] at counts
      split at names
      · omega
      · omega

/-- What is below an inode is named there, or is the inode. -/
theorem TreeStore.Sound.below_names (sound : tree.Sound level)
    (isBelow : tree.below depth ino = some all) (y : Nat) :
    all.count y = (if y = ino then 1 else 0) +
      ∑ d ∈ Finset.range inodeBitmap.bits, if d ∈ all then (tree.children d).count y else 0 := by
  rw [TreeStore.below_count isBelow y, sum_map_count fun x mem =>
    sound.inside x (TreeStore.below_used isBelow x mem)]
  rw [Nat.add_left_cancel_iff]
  apply Finset.sum_congr rfl
  intro d _
  by_cases mem : d ∈ all
  · rw [if_pos mem]
    by_cases named : y ∈ tree.children d
    · have once := sound.below_once isBelow _ d rfl (TreeStore.isDir_of_child named)
      have some_ := List.count_pos_iff.mpr mem
      rw [Nat.le_antisymm once some_, Nat.one_mul]
    · rw [List.count_eq_zero_of_not_mem named, Nat.mul_zero]
  · rw [if_neg mem, List.count_eq_zero_of_not_mem mem, Nat.zero_mul]

end Below

/-! ## What is left -/

section Pruning

variable {tree : TreeStore} {level : Nat → Nat} {depth pino tino : Nat} {gone : List Nat}
  {tname : CharBuf}

/-- What is in a directory, apart from one name. -/
theorem childInos_filter {dents : List GfsDentry} (distinct : (dents.map GfsDentry.fname).Nodup)
    (notSelf : tname ≠ selfName) (notParent : tname ≠ parentName)
    (found : (keyed GfsDentry.fname dents tname).map GfsDentry.ino = some tino) :
    (childInos dents).Perm
      (tino :: childInos (dents.filter fun dent => dent.fname ≠ tname)) := by
  obtain ⟨dent, isDent, rfl⟩ := Option.map_eq_some_iff.mp found
  have isName : dent.fname = tname := by
    simpa using List.find?_some isDent
  have isChild : dent.isChild = true := by
    rw [GfsDentry.isChild_iff, isName]
    exact ⟨notSelf, notParent⟩
  rw [← childInos_child _ isChild]
  exact ((keyed_perm distinct isDent).filter _).map _

/-- The call that removes a name, and what is below it. -/
structure Pruning (tree : TreeStore) (depth pino tino : Nat) (tname : CharBuf) (gone : List Nat) :
    Prop where
  /-- It is none of the names that every directory has. -/
  notSelf : tname ≠ selfName
  /-- Nor the other one. -/
  notParent : tname ≠ parentName
  /-- It is there. -/
  found : tree.find pino tname = some tino
  /-- This is below it. -/
  isBelow : tree.below depth tino = some gone

/-- What is left then. -/
def TreeStore.pruned (tree : TreeStore) (gone : List Nat) (pino : Nat) (tname : CharBuf) :
    TreeStore :=
  (tree.without gone).dropName pino tname

/-- A directory is left when it was not removed. -/
theorem TreeStore.without_dir {ino nblk : Nat} {dents : List GfsDentry}
    (is : tree.node ino = some (.dir dents nblk)) (stays : ino ∉ gone) :
    (tree.without gone).node ino = some (.dir dents nblk) := by
  unfold TreeStore.without
  dsimp only
  rw [is]
  dsimp only
  rw [if_neg stays]

/-- A directory that was removed is not. -/
theorem TreeStore.without_gone {ino : Nat} (isDir : tree.IsDir ino) (mem : ino ∈ gone) :
    (tree.without gone).node ino = none := by
  obtain ⟨dents, nblk, is⟩ := isDir
  exact ((TreeStore.gone_dir is).mpr mem).2

/-- The parent is a directory. -/
theorem Pruning.isParent (pruning : Pruning tree depth pino tino tname gone) : tree.IsDir pino :=
  TreeStore.isDir_of_find pruning.found

variable (sound : tree.Sound level) (pruning : Pruning tree depth pino tino tname gone)
include sound pruning

/-- The parent is not removed. -/
theorem Pruning.parent : pino ∉ gone := by
  -- It would be a level below itself.
  intro mem
  have named := TreeStore.child_of_find pruning.found pruning.notSelf pruning.notParent
  obtain ⟨isDir, lower⟩ := sound.below_level pruning.isBelow pino mem
    (TreeStore.isDir_of_child named)
  have above := ((sound.child pino tino named).2 isDir).2
  omega

/-- The names in a directory that is left. -/
theorem Pruning.dents {d nblk : Nat} {dents : List GfsDentry}
    (is : tree.node d = some (.dir dents nblk)) (stays : d ∉ gone) :
    (tree.pruned gone pino tname).node d =
      some (.dir (if d = pino then dents.filter fun dent => dent.fname ≠ tname else dents)
        nblk) := by
  have still := TreeStore.without_dir is stays
  obtain ⟨pdents, pnblk, isParent⟩ := pruning.isParent
  have parent := TreeStore.without_dir isParent (pruning.parent sound)
  rw [TreeStore.pruned, TreeStore.dropName, parent]
  dsimp only
  by_cases here : d = pino
  · subst here
    rw [is] at isParent
    cases isParent
    rw [if_pos rfl, TreeStore.put_self]
  · rw [if_neg here, TreeStore.put_other here, still]

/-- Other nodes are those that are not gone. -/
theorem Pruning.other {ino : Nat} (other : ino ≠ pino) :
    (tree.pruned gone pino tname).node ino = (tree.without gone).node ino := by
  obtain ⟨pdents, pnblk, isParent⟩ := pruning.isParent
  have parent := TreeStore.without_dir isParent (pruning.parent sound)
  rw [TreeStore.pruned, TreeStore.dropName, parent]
  exact TreeStore.put_other other _

/-- Directories that are left were there, and were not removed. -/
theorem Pruning.isDir {d : Nat} :
    (tree.pruned gone pino tname).IsDir d ↔ tree.IsDir d ∧ d ∉ gone := by
  constructor
  · intro isDir
    obtain ⟨dents, nblk, is⟩ := isDir
    by_cases here : d = pino
    · subst here
      exact ⟨pruning.isParent, pruning.parent sound⟩
    · rw [pruning.other sound here] at is
      rcases TreeStore.left_of_without is with ⟨dents', nblk', was, -⟩ | ⟨_, _, _, _, no⟩
      · refine ⟨⟨dents', nblk', was⟩, ?_⟩
        intro mem
        rw [TreeStore.without_gone ⟨dents', nblk', was⟩ mem] at is
        cases is
      · cases no
  · intro both
    obtain ⟨⟨dents, nblk, is⟩, stays⟩ := both
    exact ⟨_, _, pruning.dents sound is stays⟩

/-- What is in a directory then. -/
theorem Pruning.children (d y : Nat) :
    ((tree.pruned gone pino tname).children d).count y +
      (if d ∈ gone then (tree.children d).count y else 0) +
      (if d = pino then if y = tino then 1 else 0 else 0) = (tree.children d).count y := by
  by_cases isDir : tree.IsDir d
  · by_cases mem : d ∈ gone
    · -- Nothing is in a directory that is gone.
      have apart : d ≠ pino := by
        intro here
        exact pruning.parent sound (here ▸ mem)
      have none_ : (tree.pruned gone pino tname).children d = [] := by
        rw [← childInos_children, TreeStore.dents, pruning.other sound apart,
          TreeStore.without_gone isDir mem]
        rfl
      rw [none_, if_pos mem, if_neg apart, List.count_nil, Nat.zero_add, Nat.add_zero]
    · obtain ⟨dents, nblk, is⟩ := isDir
      have left := pruning.dents sound is mem
      rw [← childInos_children, ← childInos_children, TreeStore.dents_dir left,
        TreeStore.dents_dir is, if_neg mem, Nat.add_zero]
      by_cases here : d = pino
      · subst here
        have found := pruning.found
        have distinct := sound.distinct d
        rw [TreeStore.find, TreeStore.dents_dir is] at found
        rw [TreeStore.dents_dir is] at distinct
        rw [if_pos rfl, if_pos rfl,
          (childInos_filter distinct pruning.notSelf pruning.notParent found).count_eq,
          List.count_cons]
        simp only [beq_iff_eq, @eq_comm Nat tino y]
      · rw [if_neg here, if_neg here, Nat.add_zero]
  · -- Neither is anything in what is no directory.
    have none_ : tree.children d = [] := by
      rw [← childInos_children, TreeStore.dents_other isDir]
      rfl
    have none' : (tree.pruned gone pino tname).children d = [] := by
      rw [← childInos_children, TreeStore.dents_other]
      · rfl
      · intro isDir'
        exact isDir ((pruning.isDir sound).mp isDir').1
    have apart : d ≠ pino := by
      intro here
      exact isDir (here ▸ pruning.isParent)
    rw [none_, none', if_neg apart, List.count_nil]
    split
    · rfl
    · rfl

/-- Inodes lose the names that were removed. -/
theorem Pruning.names (y : Nat) :
    (tree.pruned gone pino tname).names y + gone.count y = tree.names y := by
  have below := sound.below_names pruning.isBelow y
  have valid := Finset.mem_range.mpr (sound.inside pino pruning.isParent.used)
  have parts := Finset.sum_congr rfl fun d (_ : d ∈ Finset.range inodeBitmap.bits) =>
    pruning.children sound d y
  rw [Finset.sum_add_distrib, Finset.sum_add_distrib, Finset.sum_ite_eq', if_pos valid] at parts
  rw [TreeStore.names, TreeStore.names, ← parts, below]
  omega

/-- Names that were not removed stand for the same. -/
theorem Pruning.find {d : Nat} {fname : CharBuf} (isDir : tree.IsDir d) (stays : d ∉ gone)
    (other : fname ≠ tname) : (tree.pruned gone pino tname).find d fname = tree.find d fname := by
  obtain ⟨dents, nblk, is⟩ := isDir
  rw [TreeStore.find, TreeStore.find, TreeStore.dents_dir (pruning.dents sound is stays),
    TreeStore.dents_dir is]
  split
  · rw [keyed_filter, Function.update_of_ne other]
  · rfl

/-- What is removed has as many names at least. -/
theorem Pruning.count_le (y : Nat) : gone.count y ≤ tree.names y := by
  rw [← pruning.names sound y]
  exact Nat.le_add_left _ _

/-- "/" is not removed. -/
theorem Pruning.root : 0 ∉ gone := by
  -- It has no name that could be removed.
  have none_ := pruning.count_le sound 0
  rw [sound.once 0 sound.root, if_pos rfl] at none_
  exact List.count_eq_zero.mp (Nat.le_zero.mp none_)

/-- A directory that is removed has no other name. -/
theorem Pruning.stays {d : Nat} (isDir : tree.IsDir d)
    (named : 0 < (tree.pruned gone pino tname).names d) : d ∉ gone := by
  have names := pruning.names sound d
  have once := sound.once d isDir
  apply List.count_eq_zero.mp
  split at once
  · omega
  · omega

/-- A tree from which a name is removed, with all that is below it, is one again. -/
theorem TreeStore.Sound.prune : (tree.pruned gone pino tname).Sound level := by
  have isRoot := pruning.root sound
  have inside : ∀ ino, ((tree.pruned gone pino tname).node ino).isSome →
      ino < inodeBitmap.bits := by
    intro ino used
    by_cases here : ino = pino
    · rw [here]
      exact sound.inside pino pruning.isParent.used
    · rw [pruning.other sound here] at used
      exact sound.inside ino (TreeStore.used_of_left used)
  constructor
  · exact (pruning.isDir sound).mpr ⟨sound.root, isRoot⟩
  · rw [pruning.find sound sound.root isRoot (Ne.symm pruning.notParent)]
    exact sound.rootUp
  · exact inside
  · -- What is left of a directory are entries that it had.
    intro d
    by_cases isDir : (tree.pruned gone pino tname).IsDir d
    · obtain ⟨⟨dents, nblk, is⟩, stays⟩ := (pruning.isDir sound).mp isDir
      have distinct := sound.distinct d
      rw [TreeStore.dents_dir is] at distinct
      rw [TreeStore.dents_dir (pruning.dents sound is stays)]
      split
      · exact distinct.sublist (List.filter_sublist.map _)
      · exact distinct
    · rw [TreeStore.dents_other isDir]
      exact List.nodup_nil
  · intro d isDir
    obtain ⟨wasDir, stays⟩ := (pruning.isDir sound).mp isDir
    rw [pruning.find sound wasDir stays (Ne.symm pruning.notSelf)]
    exact sound.self d wasDir
  · intro d c mem
    -- It is named still, so it was not removed so often as it is named.
    have named := (TreeStore.names_pos inside).mpr ⟨d, mem⟩
    have names := pruning.names sound c
    have was : c ∈ tree.children d := by
      have some_ := List.count_pos_iff.mpr mem
      have parts := pruning.children sound d c
      exact List.count_pos_iff.mp (by omega)
    obtain ⟨used, isDir⟩ := sound.child d c was
    constructor
    · obtain ⟨n, is⟩ := Option.isSome_iff_exists.mp used
      cases n with
      | dir dents nblk =>
        rw [pruning.dents sound is (pruning.stays sound ⟨dents, nblk, is⟩ named)]
        rfl
      | file bytes nlink =>
        have apart : c ≠ pino := by
          intro here
          exact TreeStore.notDir_of_file (here ▸ is) pruning.isParent
        have links := (sound.links c bytes nlink is).1
        rw [pruning.other sound apart, Option.isSome_iff_ne_none]
        intro none_
        have isGone : tree.Gone gone c := ⟨used, none_⟩
        rw [TreeStore.gone_file is] at isGone
        omega
    · intro isDir'
      obtain ⟨wasDir, stays⟩ := (pruning.isDir sound).mp isDir'
      rw [pruning.find sound wasDir stays (Ne.symm pruning.notParent)]
      exact isDir wasDir
  · -- A file loses as many links as names.
    intro ino bytes nlink is
    have apart : ino ≠ pino := by
      intro here
      exact TreeStore.notDir_of_file (here ▸ is)
        ((pruning.isDir sound).mpr ⟨pruning.isParent, pruning.parent sound⟩)
    rw [pruning.other sound apart] at is
    rcases TreeStore.left_of_without is with ⟨_, _, _, no⟩ | ⟨bytes', nlink', was, more, same⟩
    · cases no
    · cases same
      obtain ⟨links, some_⟩ := sound.links ino bytes nlink' was
      have names := pruning.names sound ino
      omega
  · intro d isDir
    obtain ⟨wasDir, stays⟩ := (pruning.isDir sound).mp isDir
    have names := pruning.names sound d
    rw [List.count_eq_zero_of_not_mem stays, Nat.add_zero] at names
    rw [names]
    exact sound.once d wasDir

end Pruning

end GlucOS
