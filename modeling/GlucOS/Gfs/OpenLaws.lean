import GlucOS.Gfs.Open

/-! The counts of the list of open files, against the descriptors and directories of the tasks. -/

namespace GlucOS

/-! ## Sums -/

section Sums

variable {α M : Type*} [AddCommMonoid M] (f : α → M)

/-- Replacing one element exchanges its share of a sum. -/
theorem sum_map_set {a : α} (b : α) {l : List α} {i : Nat} (here : l[i]? = some a) :
    ((l.set i b).map f).sum + f a = (l.map f).sum + f b := by
  induction l generalizing i with
  | nil => simp at here
  | cons head tail ih =>
    -- Only the summand at the place differs.
    cases i with
    | zero =>
      simp only [List.getElem?_cons_zero, Option.some.injEq] at here
      subst here
      simp only [List.set_cons_zero, List.map_cons, List.sum_cons]
      rw [add_comm (f b), add_comm (f head), add_right_comm]
    | succ i =>
      have rest := ih (i := i) (by simpa using here)
      simp only [List.set_cons_succ, List.map_cons, List.sum_cons, add_assoc, rest]

/-- Dropping one element takes away its share of a sum. -/
theorem sum_map_eraseIdx {a : α} {l : List α} {i : Nat} (here : l[i]? = some a) :
    ((l.eraseIdx i).map f).sum + f a = (l.map f).sum := by
  induction l generalizing i with
  | nil => simp at here
  | cons head tail ih =>
    cases i with
    | zero =>
      simp only [List.getElem?_cons_zero, Option.some.injEq] at here
      subst here
      simp only [List.eraseIdx_zero, List.tail_cons, List.map_cons, List.sum_cons, add_comm]
    | succ i =>
      have rest := ih (i := i) (by simpa using here)
      simp only [List.eraseIdx_cons_succ, List.map_cons, List.sum_cons, add_assoc, rest]

variable {N : Type*} [AddCancelCommMonoid N] (g : α → N)

/-- A replacement that gains as much. -/
theorem sum_map_set_gain {a b : α} {l : List α} {i : Nat} {extra : N} (here : l[i]? = some a)
    (gain : g b = extra + g a) : ((l.set i b).map g).sum = extra + (l.map g).sum := by
  apply add_right_cancel (b := g a)
  rw [sum_map_set g b here, gain, add_left_comm, add_assoc]

/-- A replacement that loses as much. -/
theorem sum_map_set_loss {a b : α} {l : List α} {i : Nat} {extra : N} (here : l[i]? = some a)
    (loss : g a = extra + g b) : (l.map g).sum = extra + ((l.set i b).map g).sum := by
  apply add_right_cancel (b := g b)
  rw [← sum_map_set g b here, loss, add_left_comm, add_assoc]

end Sums

/-! ## References -/

/-- A reference to an inode, and whether it may write. -/
abbrev InodeRef := Nat × Bool

/-- How many references there are to an inode. -/
def usersOf (refs : Multiset InodeRef) (ino : Nat) : Nat := refs.countP fun ref => ref.1 = ino

/-- How many references may write to an inode. -/
def writersOf (refs : Multiset InodeRef) (ino : Nat) : Nat := refs.count (ino, true)

@[simp]
theorem usersOf_cons (ref : InodeRef) (refs : Multiset InodeRef) (ino : Nat) :
    usersOf (ref ::ₘ refs) ino = usersOf refs ino + if ref.1 = ino then 1 else 0 :=
  Multiset.countP_cons _ ref refs

@[simp]
theorem writersOf_cons (ref : InodeRef) (refs : Multiset InodeRef) (ino : Nat) :
    writersOf (ref ::ₘ refs) ino = writersOf refs ino + if (ino, true) = ref then 1 else 0 :=
  Multiset.count_cons _ ref refs

theorem usersOf_pos {refs : Multiset InodeRef} {ref : InodeRef} (member : ref ∈ refs) :
    0 < usersOf refs ref.1 := Multiset.countP_pos_of_mem member rfl

/-- The reference of a descriptor, if it is open. -/
def fdRef : Option FileDesc → Multiset InodeRef
  | none => 0
  | some desc => {(desc.ino, writes desc.oflags)}

/-- The references of the descriptors of a task. -/
def fdRefs (fds : List (Option FileDesc)) : Multiset InodeRef := (fds.map fdRef).sum

/-- The references of a task: its descriptors and its directory. -/
def FileTask.refs (task : FileTask) : Multiset InodeRef := (task.curIno, false) ::ₘ fdRefs task.fds

/-- The references of all tasks. -/
def OpenFiles.refs (files : OpenFiles) : Multiset InodeRef := (files.tasks.map FileTask.refs).sum

/-- Whether a task has a file open for writing. -/
def FileTask.mayWrite (task : FileTask) : Bool :=
  task.fds.any fun fd => fd.any fun desc => writes desc.oflags

/-- Whether a descriptor is open for writing to an inode. -/
def writesTo (ino : Nat) : Option FileDesc → Bool
  | none => false
  | some desc => writes desc.oflags && desc.ino == ino

/-- How many open descriptors of all tasks have `O_WRONLY` set and refer to an inode. -/
def OpenFiles.writers (files : OpenFiles) (ino : Nat) : Nat :=
  (files.tasks.map fun task => task.fds.countP (writesTo ino)).sum

/-- The references that may write are those of the descriptors open for writing. -/
theorem writersOf_fdRefs (ino : Nat) (fds : List (Option FileDesc)) :
    writersOf (fdRefs fds) ino = fds.countP (writesTo ino) := by
  -- Each descriptor is counted once, by what it may do.
  induction fds with
  | nil => rfl
  | cons fd rest ih =>
    have split : fdRefs (fd :: rest) = fdRef fd + fdRefs rest := by simp [fdRefs]
    rw [split, List.countP_cons, ← ih]
    cases fd with
    | none => simp [fdRef, writesTo]
    | some desc =>
      simp only [fdRef, Multiset.singleton_add, writersOf_cons, writesTo, Prod.mk.injEq,
        Bool.and_eq_true, beq_iff_eq]
      congr 1
      grind

/-- A directory is not open for writing, so only descriptors count. -/
theorem OpenFiles.writersOf_refs (files : OpenFiles) (ino : Nat) :
    writersOf files.refs ino = files.writers ino := by
  unfold OpenFiles.refs OpenFiles.writers
  induction files.tasks with
  | nil => rfl
  | cons task rest ih =>
    have own : writersOf task.refs ino = task.fds.countP (writesTo ino) := by
      rw [← writersOf_fdRefs, FileTask.refs, writersOf_cons, if_neg (by simp), add_zero]
    rw [List.map_cons, List.map_cons, List.sum_cons, List.sum_cons, ← own, ← ih]
    exact Multiset.count_add _ _ _

/-! ## The list against the references -/

/-- The list has a node for each inode referred to, with the right counts. -/
structure Counted (inodeNum : Nat) (flist : List FlistNode) (refs : Multiset InodeRef) : Prop where
  /-- No inode has two nodes. -/
  nodup : (flist.map FlistNode.ino).Nodup
  /-- Each node is that of an inode in use, other than "/". -/
  used : ∀ node ∈ flist, node.ino ≠ 0 ∧ 0 < usersOf refs node.ino
  /-- Each node knows its references. -/
  counts : ∀ node ∈ flist, node.nproc = usersOf refs node.ino ∧ node.nwr = writersOf refs node.ino
  /-- Each inode in use other than "/" is in the list. -/
  listed : ∀ ino, ino ≠ 0 → 0 < usersOf refs ino →
    ino < inodeNum ∧ ino ∈ flist.map FlistNode.ino

/-- A list around the node of an inode. -/
structure Around (ino : Nat) (flist before : List FlistNode) (node : FlistNode)
    (after : List FlistNode) : Prop where
  /-- The list is made of these parts. -/
  parts : flist = before ++ node :: after
  /-- The node is that of the inode. -/
  here : node.ino = ino
  /-- No earlier node is. -/
  first : ino ∉ before.map FlistNode.ino

/-- A new node, or else the counts of the node found are raised. -/
theorem incNode_cases {ino : Nat} {wr noHeap : Bool} {flist next : List FlistNode}
    (done : incNode ino wr noHeap flist = some next) :
    (ino ∉ flist.map FlistNode.ino ∧ next = flist ++ [⟨ino, if wr then 1 else 0, 1⟩]) ∨
    ∃ before node after, Around ino flist before node after ∧
      next = before ++
        ⟨ino, node.nwr + (if wr then 1 else 0), node.nproc + 1⟩ :: after := by
  -- The list is searched from its head; a new node goes to its end.
  induction flist generalizing next with
  | nil =>
    simp only [incNode, Option.ite_none_left_eq_some, Option.some.injEq] at done
    exact .inl ⟨by simp, done.2.symm⟩
  | cons head rest ih =>
    unfold incNode at done
    split at done
    · rename_i found
      simp only [Option.some.injEq] at done
      right
      refine ⟨[], head, rest, ⟨rfl, found, by simp⟩, ?_⟩
      rw [← done, ← found]
      rfl
    · rename_i other
      obtain ⟨tail, searched, rfl⟩ := Option.map_eq_some_iff.mp done
      have other : ino ≠ head.ino := fun same => other same.symm
      obtain ⟨absent, rfl⟩ | ⟨before, node, after, ⟨rfl, here, first⟩, rfl⟩ := ih searched
      · left
        simp only [List.map_cons, List.mem_cons, not_or]
        exact ⟨⟨other, absent⟩, rfl⟩
      · right
        refine ⟨head :: before, node, after, ⟨rfl, here, ?_⟩, rfl⟩
        simp only [List.map_cons, List.mem_cons, not_or]
        exact ⟨other, first⟩

/-- The node found is dropped with its last reference, or else its counts are lowered. -/
theorem decNode_found {ino : Nat} (cwr : Bool) {flist before after : List FlistNode}
    {node : FlistNode} (found : Around ino flist before node after) :
    decNode ino cwr flist = some (if node.nproc - 1 ≤ 0 then before ++ after
      else before ++ ⟨ino, node.nwr - (if cwr then 1 else 0), node.nproc - 1⟩ :: after) := by
  obtain ⟨rfl, rfl, first⟩ := found
  -- The nodes in front of the one that is found are passed over.
  induction before with
  | nil =>
    simp only [List.nil_append, decNode, if_true]
    split <;> rfl
  | cons head rest ih =>
    simp only [List.map_cons, List.mem_cons, not_or] at first
    have other : head.ino ≠ node.ino := fun same => first.1 same.symm
    simp only [List.cons_append, decNode, if_neg other, ih first.2, Option.map_some]
    split <;> rfl

/-- The node found is shared by one more. -/
theorem shareNode_found {ino : Nat} {flist before after : List FlistNode} {node : FlistNode}
    (found : Around ino flist before node after) :
    shareNode ino flist = before ++ ⟨ino, node.nwr, node.nproc + 1⟩ :: after := by
  obtain ⟨rfl, rfl, first⟩ := found
  induction before with
  | nil => simp only [List.nil_append, shareNode, if_true]
  | cons head rest ih =>
    simp only [List.map_cons, List.mem_cons, not_or] at first
    have other : head.ino ≠ node.ino := fun same => first.1 same.symm
    simp only [List.cons_append, shareNode, if_neg other, ih first.2]

/-- A list without the inode is left alone. -/
theorem shareNode_absent {ino : Nat} {flist : List FlistNode}
    (absent : ino ∉ flist.map FlistNode.ino) : shareNode ino flist = flist := by
  induction flist with
  | nil => rfl
  | cons head rest ih =>
    simp only [List.map_cons, List.mem_cons, not_or] at absent
    have other : head.ino ≠ ino := fun same => absent.1 same.symm
    rw [shareNode, if_neg other, ih absent.2]

/-- An inode of the list has a first node. -/
theorem exists_around {ino : Nat} {flist : List FlistNode}
    (present : ino ∈ flist.map FlistNode.ino) :
    ∃ before node after, Around ino flist before node after := by
  induction flist with
  | nil => simp at present
  | cons head rest ih =>
    -- The first node with the inode is the one that the search finds.
    by_cases here : head.ino = ino
    · exact ⟨[], head, rest, rfl, here, by simp⟩
    · simp only [List.map_cons, List.mem_cons] at present
      have later := present.resolve_left fun same => here same.symm
      obtain ⟨before, node, after, rfl, same, first⟩ := ih later
      refine ⟨head :: before, node, after, rfl, same, ?_⟩
      simp only [List.map_cons, List.mem_cons, not_or]
      exact ⟨fun same => here same.symm, first⟩

/-! ## Keeping the counts -/

/-- Two collections of references that agree about every other inode. -/
def AgreeOff (ino : Nat) (refs refs' : Multiset InodeRef) : Prop :=
  ∀ other, other ≠ ino →
    usersOf refs' other = usersOf refs other ∧ writersOf refs' other = writersOf refs other

/-- One more reference concerns its own inode alone. -/
theorem agreeOff_cons (ref : InodeRef) (refs : Multiset InodeRef) :
    AgreeOff ref.1 refs (ref ::ₘ refs) := by
  intro other apart
  have elsewhere : ref.1 ≠ other := fun same => apart same.symm
  have unlike : (other, true) ≠ ref := fun same => apart (by rw [← same])
  simp [elsewhere, unlike]

/-- Agreement does not depend on the order. -/
theorem AgreeOff.symm {ino : Nat} {refs refs' : Multiset InodeRef}
    (agree : AgreeOff ino refs refs') : AgreeOff ino refs' refs := by
  intro other apart
  obtain ⟨users, writers⟩ := agree other apart
  exact ⟨users.symm, writers.symm⟩

namespace Counted

variable {inodeNum ino : Nat} {flist before after : List FlistNode} {node : FlistNode}
  {refs refs' : Multiset InodeRef}

/-- The nodes around that of an inode are those of other inodes. -/
theorem apart (counted : Counted inodeNum flist refs) (found : Around ino flist before node after)
    {other : FlistNode} (member : other ∈ before ++ after) : other.ino ≠ ino := by
  obtain ⟨rfl, rfl, first⟩ := found
  have nodup := counted.nodup
  simp only [List.map_append, List.map_cons, List.nodup_append, List.nodup_cons] at nodup
  intro same
  obtain earlier | later := List.mem_append.mp member
  · exact first (same ▸ List.mem_map_of_mem earlier)
  · exact nodup.2.1.1 (same ▸ List.mem_map_of_mem later)

/-- The counts of one node follow a change of the references to its inode. -/
theorem replace (counted : Counted inodeNum flist refs)
    (found : Around ino flist before node after) (agree : AgreeOff ino refs refs')
    (busy : 0 < usersOf refs' ino) {nwr nproc : Int} (users : nproc = usersOf refs' ino)
    (writers : nwr = writersOf refs' ino) :
    Counted inodeNum (before ++ ⟨ino, nwr, nproc⟩ :: after) refs' := by
  have inos : (before ++ ⟨ino, nwr, nproc⟩ :: after).map FlistNode.ino =
      flist.map FlistNode.ino := by
    rw [found.parts]
    simp [found.here]
  have old : node ∈ flist := by simp [found.parts]
  -- Every node is the new one, or one of another inode that was there before.
  have kept : ∀ other ∈ before ++ ⟨ino, nwr, nproc⟩ :: after,
      other = ⟨ino, nwr, nproc⟩ ∨ (other ∈ flist ∧ other.ino ≠ ino) := by
    intro other member
    simp only [List.mem_append, List.mem_cons] at member
    by_cases fresh : other = ⟨ino, nwr, nproc⟩
    · exact .inl fresh
    · have around : other ∈ before ++ after := by simp only [List.mem_append]; tauto
      right
      refine ⟨?_, counted.apart found around⟩
      rw [found.parts]
      simp only [List.mem_append, List.mem_cons]
      tauto
  constructor
  · rw [inos]
    exact counted.nodup
  · intro other member
    obtain rfl | ⟨member, differs⟩ := kept other member
    · exact ⟨found.here ▸ (counted.used node old).1, busy⟩
    · rw [(agree _ differs).1]
      exact counted.used other member
  · intro other member
    obtain rfl | ⟨member, differs⟩ := kept other member
    · exact ⟨users, writers⟩
    · rw [(agree _ differs).1, (agree _ differs).2]
      exact counted.counts other member
  · intro other nonzero inUse
    rw [inos]
    by_cases same : other = ino
    · subst same
      have before := counted.used node old
      rw [found.here] at before
      exact counted.listed other nonzero before.2
    · rw [(agree other same).1] at inUse
      exact counted.listed other nonzero inUse

/-- A node goes with the last reference to its inode. -/
theorem drop (counted : Counted inodeNum flist refs)
    (found : Around ino flist before node after) (agree : AgreeOff ino refs refs')
    (idle : usersOf refs' ino = 0) : Counted inodeNum (before ++ after) refs' := by
  -- The list without the node is a part of what it was.
  have fewer : (before ++ after).Sublist flist := by
    rw [found.parts]
    exact (List.sublist_cons_self node after).append_left before
  constructor
  · exact counted.nodup.sublist (fewer.map _)
  · intro other member
    rw [(agree _ (counted.apart found member)).1]
    exact counted.used other (fewer.subset member)
  · intro other member
    rw [(agree _ (counted.apart found member)).1, (agree _ (counted.apart found member)).2]
    exact counted.counts other (fewer.subset member)
  · intro other nonzero inUse
    -- The inode itself is no longer in use.
    have differs : other ≠ ino := by
      intro same
      subst same
      omega
    rw [(agree other differs).1] at inUse
    obtain ⟨valid, present⟩ := counted.listed other nonzero inUse
    refine ⟨valid, ?_⟩
    rw [found.parts] at present
    simp only [List.map_append, List.map_cons, List.mem_append, List.mem_cons, found.here]
      at present ⊢
    tauto

/-- A node comes with the first reference to its inode. -/
theorem append (counted : Counted inodeNum flist refs) (absent : ino ∉ flist.map FlistNode.ino)
    (agree : AgreeOff ino refs refs') (nonzero : ino ≠ 0) (valid : ino < inodeNum)
    (busy : 0 < usersOf refs' ino) {nwr nproc : Int} (users : nproc = usersOf refs' ino)
    (writers : nwr = writersOf refs' ino) :
    Counted inodeNum (flist ++ [⟨ino, nwr, nproc⟩]) refs' := by
  -- No node had the inode before.
  have differs : ∀ other ∈ flist, other.ino ≠ ino := by
    intro other member same
    exact absent (same ▸ List.mem_map_of_mem member)
  constructor
  · simp only [List.map_append, List.map_cons, List.map_nil, List.nodup_append,
      List.mem_singleton]
    refine ⟨counted.nodup, List.nodup_singleton _, ?_⟩
    intro other member last rfl same
    exact absent (same ▸ member)
  · intro other member
    simp only [List.mem_append, List.mem_singleton] at member
    obtain member | rfl := member
    · rw [(agree _ (differs other member)).1]
      exact counted.used other member
    · exact ⟨nonzero, busy⟩
  · intro other member
    simp only [List.mem_append, List.mem_singleton] at member
    obtain member | rfl := member
    · rw [(agree _ (differs other member)).1, (agree _ (differs other member)).2]
      exact counted.counts other member
    · exact ⟨users, writers⟩
  · intro other otherNonzero inUse
    simp only [List.map_append, List.mem_append, List.map_cons, List.map_nil, List.mem_singleton]
    by_cases same : other = ino
    · exact ⟨same ▸ valid, .inr same⟩
    · rw [(agree other same).1] at inUse
      obtain ⟨bound, present⟩ := counted.listed other otherNonzero inUse
      exact ⟨bound, .inl present⟩

/-- References to "/" are not counted. -/
theorem root (counted : Counted inodeNum flist refs) (agree : AgreeOff 0 refs refs') :
    Counted inodeNum flist refs' := by
  constructor
  · exact counted.nodup
  · intro other member
    rw [(agree _ (counted.used other member).1).1]
    exact counted.used other member
  · intro other member
    have nonzero := (counted.used other member).1
    rw [(agree _ nonzero).1, (agree _ nonzero).2]
    exact counted.counts other member
  · intro other nonzero inUse
    rw [(agree other nonzero).1] at inUse
    exact counted.listed other nonzero inUse

/-- `flist_inc_fnode` counts one more reference. -/
theorem inc (counted : Counted inodeNum flist refs) {wr noHeap : Bool} {next : List FlistNode}
    (done : flistIncFnode inodeNum ino wr noHeap flist = some next) :
    Counted inodeNum next ((ino, wr) ::ₘ refs) := by
  -- Only the counts of this inode change.
  have agree := agreeOff_cons (ino, wr) refs
  unfold flistIncFnode at done
  split at done
  · rename_i zero
    subst zero
    cases done
    exact counted.root agree
  · rename_i nonzero
    split at done
    · simp at done
    rename_i valid
    have writers : writersOf ((ino, wr) ::ₘ refs) ino =
        writersOf refs ino + if wr then 1 else 0 := by
      cases wr <;> simp
    obtain ⟨absent, rfl⟩ | ⟨before, node, after, found, rfl⟩ := incNode_cases done
    · -- Nothing referred to the inode before.
      have unused : usersOf refs ino = 0 := by
        by_contra inUse
        exact absent (counted.listed ino nonzero (by omega)).2
      have unwritten : writersOf refs ino = 0 := by
        by_contra written
        have member := Multiset.one_le_count_iff_mem.mp (Nat.one_le_iff_ne_zero.mpr written)
        have inUse : 0 < usersOf refs ino := usersOf_pos member
        omega
      apply counted.append absent agree nonzero (by omega)
      · simp
      · simp [unused]
      · rw [writers, unwritten]
        cases wr <;> rfl
    · have member : node ∈ flist := by simp [found.parts]
      obtain ⟨users, writes⟩ := counted.counts node member
      rw [found.here] at users writes
      apply counted.replace found agree
      · simp
      · simp [users]
      · rw [writers, writes]
        cases wr <;> simp

/-- `flist_dec_fnode` finds a reference that is there, and counts it no more. -/
theorem dec {cwr : Bool} (counted : Counted inodeNum flist ((ino, cwr) ::ₘ refs)) :
    ∃ next, flistDecFnode inodeNum ino cwr flist = some next ∧ Counted inodeNum next refs := by
  have agree := (agreeOff_cons (ino, cwr) refs).symm
  unfold flistDecFnode
  by_cases zero : ino = 0
  · subst zero
    rw [if_pos rfl]
    exact ⟨flist, rfl, counted.root agree⟩
  · rw [if_neg zero]
    obtain ⟨valid, present⟩ := counted.listed ino zero (by simp)
    rw [if_neg (by omega)]
    -- The node is there, since somebody refers to its inode.
    obtain ⟨before, node, after, found⟩ := exists_around present
    rw [decNode_found cwr found]
    refine ⟨_, rfl, ?_⟩
    have member : node ∈ flist := by simp [found.parts]
    obtain ⟨users, writes⟩ := counted.counts node member
    rw [found.here] at users writes
    simp only [usersOf_cons, if_true] at users
    have writers : writersOf ((ino, cwr) ::ₘ refs) ino =
        writersOf refs ino + if cwr then 1 else 0 := by
      cases cwr <;> simp
    rw [writers] at writes
    split
    · apply counted.drop found agree
      omega
    · apply counted.replace found agree
      · omega
      · omega
      · rw [writes]
        cases cwr <;> simp

/-- `fd_init` counts one more reference that may not write. -/
theorem share (counted : Counted inodeNum flist refs) (inUse : 0 < usersOf refs ino) :
    Counted inodeNum (shareNode ino flist) ((ino, false) ::ₘ refs) := by
  have agree := agreeOff_cons (ino, false) refs
  -- The root directory is never listed.
  by_cases zero : ino = 0
  · subst zero
    have absent : 0 ∉ flist.map FlistNode.ino := by
      intro present
      obtain ⟨node, member, same⟩ := List.mem_map.mp present
      exact (counted.used node member).1 same
    rw [shareNode_absent absent]
    exact counted.root agree
  · obtain ⟨before, node, after, found⟩ := exists_around (counted.listed ino zero inUse).2
    rw [shareNode_found found]
    have member : node ∈ flist := by simp [found.parts]
    obtain ⟨users, writes⟩ := counted.counts node member
    rw [found.here] at users writes
    apply counted.replace found agree
    · simp
    · simp [users]
    · simp [writes]

/-- `close_all_files` takes every descriptor's reference away. -/
theorem closeAll {fds : List (Option FileDesc)} {flist : List FlistNode}
    (counted : Counted inodeNum flist (fdRefs fds + refs)) :
    Counted inodeNum (closeAllFiles inodeNum fds flist) refs := by
  unfold closeAllFiles
  -- Each open descriptor takes one reference with it.
  induction fds generalizing flist with
  | nil => simpa [fdRefs] using counted
  | cons fd rest ih =>
    rw [List.foldl_cons]
    apply ih
    cases fd with
    | none => simpa [fdRefs, fdRef] using counted
    | some desc =>
      have split : fdRefs (some desc :: rest) + refs =
          (desc.ino, writes desc.oflags) ::ₘ (fdRefs rest + refs) := by
        simp [fdRefs, fdRef]
      rw [split] at counted
      obtain ⟨next, done, counted⟩ := counted.dec
      simpa only [done, Option.getD_some] using counted

/-- `fd_init` counts the copies, as long as none of them may write. -/
theorem fdInit {fds : List (Option FileDesc)} {flist : List FlistNode} {refs : Multiset InodeRef}
    (counted : Counted inodeNum flist refs)
    (inUse : ∀ desc, some desc ∈ fds → 0 < usersOf refs desc.ino)
    (readOnly : ∀ desc, some desc ∈ fds → writes desc.oflags = false) :
    Counted inodeNum (fdInit fds flist) (fdRefs fds + refs) := by
  unfold GlucOS.fdInit
  -- The induction is on the descriptors, each of which adds one reference.
  induction fds generalizing flist refs with
  | nil => simpa [fdRefs] using counted
  | cons fd rest ih =>
    rw [List.foldl_cons]
    have laterReads : ∀ desc, some desc ∈ rest → writes desc.oflags = false :=
      fun desc member => readOnly desc (List.mem_cons_of_mem _ member)
    cases fd with
    | none =>
      have same : fdRefs (none :: rest) + refs = fdRefs rest + refs := by simp [fdRefs, fdRef]
      rw [same]
      apply ih counted
      · intro desc member
        exact inUse desc (List.mem_cons_of_mem _ member)
      · exact laterReads
    | some desc =>
      have split : fdRefs (some desc :: rest) + refs =
          fdRefs rest + (desc.ino, false) ::ₘ refs := by
        rw [← readOnly desc List.mem_cons_self]
        simp [fdRefs, fdRef]
      rw [split]
      apply ih (counted.share (inUse desc List.mem_cons_self))
      · intro other member
        have before := inUse other (List.mem_cons_of_mem _ member)
        rw [usersOf_cons]
        omega
      · exact laterReads

end Counted

/-! ## Steps -/

namespace OpenFiles

variable {files next : OpenFiles} {i : Nat} {task : FileTask} {out : Int}

/-- The list of open files counts what the tasks refer to. -/
def Sound (files : OpenFiles) : Prop := Counted files.inodeNum files.flist files.refs

/-- The references of a task are among all references. -/
theorem usersOf_task (here : files.tasks[i]? = some task) {ref : InodeRef}
    (member : ref ∈ task.refs) : 0 < usersOf files.refs ref.1 := by
  apply usersOf_pos
  have split := sum_map_eraseIdx FileTask.refs here
  unfold OpenFiles.refs
  rw [← split]
  exact Multiset.mem_add.mpr (.inr member)

/-- With heap room, a valid inode is always counted. -/
theorem flistIncFnode_room {inodeNum ino : Nat} (valid : ino = 0 ∨ ino < inodeNum) (wr : Bool)
    (flist : List FlistNode) : ∃ next, flistIncFnode inodeNum ino wr false flist = some next := by
  have searched : ∀ flist, ∃ next, incNode ino wr false flist = some next := by
    intro flist
    induction flist with
    | nil => exact ⟨_, rfl⟩
    | cons head rest ih =>
      obtain ⟨next, found⟩ := ih
      unfold incNode
      split
      · exact ⟨_, rfl⟩
      · exact ⟨head :: next, by rw [found]; rfl⟩
  unfold flistIncFnode
  split
  · exact ⟨flist, rfl⟩
  · rw [if_neg (by omega)]
    exact searched flist

/-- The directory of a task is "/" or a valid inode. -/
theorem curIno_valid (sound : files.Sound) (here : files.tasks[i]? = some task) :
    task.curIno = 0 ∨ task.curIno < files.inodeNum := by
  by_cases root : task.curIno = 0
  · exact .inl root
  · have inUse := usersOf_task here (Multiset.mem_cons_self (task.curIno, false) (fdRefs task.fds))
    exact .inr (sound.listed _ root inUse).1

/-- Opening counts the new descriptor. -/
theorem doOpen_sound {path : OpenLookup} {oflags : Nat} {noHeap : Bool} (sound : files.Sound)
    (done : files.doOpen i path oflags noHeap = some (out, next)) : next.Sound := by
  unfold doOpen at done
  cases here : files.tasks[i]? with
  | none => simp [here] at done
  | some task =>
    simp only [here] at done
    split at done
    · cases done; exact sound
    · cases done; exact sound
    · cases done; exact sound
    · rename_i tino fd free
      split at done
      · cases done; exact sound
      · rename_i flist counted
        cases done
        have empty : task.fds[fd]? = some none := by
          obtain ⟨bound, unused, -⟩ := List.findIdx?_eq_some_iff_getElem.mp free
          rw [List.getElem?_eq_getElem bound, Option.isNone_iff_eq_none.mp unused]
        have gain : FileTask.refs { task with
            fds := task.fds.set fd (some ⟨tino, oflags, 0⟩) } =
            {(tino, writes oflags)} + task.refs := by
          have fds : fdRefs (task.fds.set fd (some ⟨tino, oflags, 0⟩)) =
              {(tino, writes oflags)} + fdRefs task.fds :=
            sum_map_set_gain fdRef empty (add_zero _).symm
          rw [FileTask.refs, FileTask.refs, fds, Multiset.add_cons]
        have added := sum_map_set_gain FileTask.refs here gain
        rw [Multiset.singleton_add] at added
        unfold Sound OpenFiles.refs
        rw [added]
        exact Counted.inc sound counted

/-- Closing counts the descriptor no more. -/
theorem doClose_sound {fd : Int} (sound : files.Sound)
    (done : files.doClose i fd = some (out, next)) : next.Sound := by
  unfold doClose at done
  cases here : files.tasks[i]? with
  | none => simp [here] at done
  | some task =>
    simp only [here] at done
    split at done
    · cases done; exact sound
    · split at done
      · rename_i desc opened
        have loss : task.refs = {(desc.ino, writes desc.oflags)} +
            FileTask.refs { task with fds := task.fds.set fd.toNat none } := by
          have fds : fdRefs task.fds = {(desc.ino, writes desc.oflags)} +
              fdRefs (task.fds.set fd.toNat none) :=
            sum_map_set_loss fdRef opened (add_zero _).symm
          rw [FileTask.refs, FileTask.refs, fds, Multiset.add_cons]
        have taken := sum_map_set_loss FileTask.refs here loss
        rw [Multiset.singleton_add] at taken
        unfold Sound OpenFiles.refs at sound
        rw [taken] at sound
        obtain ⟨flist, found, counted⟩ := sound.dec
        rw [found] at done
        cases done
        exact counted
      · cases done; exact sound

/-- Another directory is counted instead of the old one. -/
theorem doChangedir_sound {target : Nat} (sound : files.Sound)
    (done : files.doChangedir i target = some (out, next)) : next.Sound := by
  unfold doChangedir at done
  cases here : files.tasks[i]? with
  | none => simp [here] at done
  | some task =>
    simp only [here, Option.ite_none_left_eq_some, not_le] at done
    obtain ⟨valid, done⟩ := done
    split at done
    · cases done; exact sound
    · cases done
      -- The old directory is one of the references, and the new one takes its place.
      have split := sum_map_eraseIdx FileTask.refs here
      have replaced := sum_map_set FileTask.refs { task with curIno := target } here
      have swapped : ((files.tasks.set i { task with curIno := target }).map FileTask.refs).sum =
          (target, false) ::ₘ (fdRefs task.fds +
            ((files.tasks.eraseIdx i).map FileTask.refs).sum) := by
        apply add_right_cancel (b := task.refs)
        rw [replaced, ← split]
        simp only [FileTask.refs, ← Multiset.singleton_add]
        abel
      unfold Sound OpenFiles.refs at sound ⊢
      have old : (files.tasks.map FileTask.refs).sum = (task.curIno, false) ::ₘ
          (fdRefs task.fds + ((files.tasks.eraseIdx i).map FileTask.refs).sum) := by
        rw [← split, FileTask.refs, add_comm, Multiset.cons_add]
      rw [old] at sound
      obtain ⟨flist, found, counted⟩ := sound.dec
      obtain ⟨last, entered⟩ := flistIncFnode_room (.inr valid) false flist
      simp only [found, Option.getD_some, entered, swapped]
      exact counted.inc entered

/-- A copy of a task that may write to nothing is counted whole. -/
theorem copyTask_sound (sound : files.Sound)
    (readOnly : ∀ task, files.tasks[i]? = some task → files.tasks.length < taskMax →
      task.mayWrite = false)
    (done : files.copyTask i = some (out, next)) : next.Sound := by
  unfold copyTask at done
  cases here : files.tasks[i]? with
  | none => simp [here] at done
  | some task =>
    simp only [here] at done
    split at done
    · cases done; exact sound
    · rename_i room
      cases done
      have inUse : ∀ desc, some desc ∈ task.fds → 0 < usersOf files.refs desc.ino := by
        intro desc member
        have inFds : (desc.ino, writes desc.oflags) ∈ fdRefs task.fds := by
          apply Multiset.mem_of_le (List.single_le_sum (by simp) _ (List.mem_map_of_mem member))
          exact Multiset.mem_singleton_self _
        exact usersOf_task here (Multiset.mem_cons_of_mem inFds)
      have reads : ∀ desc, some desc ∈ task.fds → writes desc.oflags = false := by
        intro desc member
        have none := List.any_eq_false.mp (readOnly task here (by omega)) _ member
        simpa using none
      have copied := Counted.fdInit sound inUse reads
      obtain ⟨last, entered⟩ := flistIncFnode_room (curIno_valid sound here) false
        (fdInit task.fds files.flist)
      simp only [entered, Option.getD_some]
      have both : ((files.tasks ++ [task]).map FileTask.refs).sum =
          (task.curIno, false) ::ₘ (fdRefs task.fds + files.refs) := by
        simp only [List.map_append, List.map_cons, List.map_nil, List.sum_append, List.sum_cons,
          List.sum_nil, add_zero]
        rw [add_comm, FileTask.refs, Multiset.cons_add]
        rfl
      unfold Sound OpenFiles.refs
      rw [both]
      exact copied.inc entered

/-- A new process brings its directory alone. -/
theorem createProc_sound (sound : files.Sound)
    (done : files.createProc i = some (out, next)) : next.Sound := by
  unfold createProc at done
  cases here : files.tasks[i]? with
  | none => simp [here] at done
  | some task =>
    simp only [here] at done
    split at done
    · cases done; exact sound
    · cases done
      obtain ⟨last, entered⟩ := flistIncFnode_room (curIno_valid sound here) false files.flist
      simp only [entered, Option.getD_some]
      have closed : fdRefs (List.replicate ofileMax none) = 0 := by decide
      have both : ((files.tasks ++ [FileTask.mk task.curIno (List.replicate ofileMax none)]).map
          FileTask.refs).sum = (task.curIno, false) ::ₘ files.refs := by
        simp only [List.map_append, List.map_cons, List.map_nil, List.sum_append, List.sum_cons,
          List.sum_nil, add_zero, FileTask.refs, closed]
        rw [add_comm, Multiset.cons_zero, Multiset.singleton_add]
        rfl
      unfold Sound OpenFiles.refs
      rw [both]
      exact Counted.inc sound entered

/-- A task that ends gives up all its references. -/
theorem threadKill_sound (sound : files.Sound)
    (done : files.threadKill i = some (out, next)) : next.Sound := by
  unfold threadKill at done
  cases here : files.tasks[i]? with
  | none => simp [here] at done
  | some task =>
    simp only [here] at done
    cases done
    have split := sum_map_eraseIdx FileTask.refs here
    have parts : files.refs = fdRefs task.fds + ((task.curIno, false) ::ₘ
        ((files.tasks.eraseIdx i).map FileTask.refs).sum) := by
      unfold OpenFiles.refs
      rw [← split, FileTask.refs, Multiset.add_cons, Multiset.add_cons, add_comm]
    unfold Sound at sound
    rw [parts] at sound
    obtain ⟨flist, found, counted⟩ := sound.closeAll.dec
    simp only [found, Option.getD_some]
    exact counted

end OpenFiles

/-- A fork or a new thread copies no descriptor that is open for writing. -/
def FileEvent.copiesNoWriter (files : OpenFiles) : FileEvent → Prop
  | .doFork i | .doThreadCreate i => ∀ task, files.tasks[i]? = some task →
      files.tasks.length < taskMax → task.mayWrite = false
  | _ => True

/-- The test for it, whatever room there is for tasks. -/
def FileEvent.readOnly (files : OpenFiles) : FileEvent → Bool
  | .doFork i | .doThreadCreate i => files.tasks[i]?.all fun task => !task.mayWrite
  | _ => true

/-- An event that passes the test copies no writer. -/
theorem FileEvent.copiesNoWriter_of_readOnly {files : OpenFiles} {event : FileEvent}
    (passed : event.readOnly files = true) : event.copiesNoWriter files := by
  cases event with
  | doFork i =>
    intro task here _
    simpa [readOnly, here] using passed
  | doThreadCreate i =>
    intro task here _
    simpa [readOnly, here] using passed
  | _ => trivial

/-- An event that copies no writer keeps the counts. -/
theorem fileStep_sound {files next : OpenFiles} {event : FileEvent} {out : Int}
    (sound : files.Sound) (legal : event.copiesNoWriter files)
    (done : fileStep files event = some (out, next)) : next.Sound := by
  cases event with
  | doOpen i path oflags noHeap => exact OpenFiles.doOpen_sound sound done
  | doClose i fd => exact OpenFiles.doClose_sound sound done
  | doChangedir i target => exact OpenFiles.doChangedir_sound sound done
  | doFork i => exact OpenFiles.copyTask_sound sound legal done
  | doThreadCreate i => exact OpenFiles.copyTask_sound sound legal done
  | createProc i => exact OpenFiles.createProc_sound sound done
  | threadKill i => exact OpenFiles.threadKill_sound sound done

/-- Nothing is open at first. -/
theorem mountedFiles_sound (inodeNum : Nat) : (mountedFiles inodeNum).Sound := by
  have refs : (mountedFiles inodeNum).refs = (0, false) ::ₘ (0, false) ::ₘ 0 := by
    simp [mountedFiles, OpenFiles.refs, FileTask.refs, fdRefs, fdRef, ofileMax]
  constructor
  · exact List.nodup_nil
  · intro node member
    cases member
  · intro node member
    cases member
  · intro ino nonzero inUse
    simp only [refs, usersOf_cons, if_neg nonzero.symm] at inUse
    exact absurd inUse (by simp [usersOf])

/-- As long as no writer is copied, each node counts the descriptors open for writing to it. -/
theorem open_files_writers (inodeNum : Nat) (events : List FileEvent) (outs : List Int)
    (last : OpenFiles)
    (legal : LegalRun fileStep (fun files event => event.copiesNoWriter files)
      (mountedFiles inodeNum) events)
    (ran : run fileStep (mountedFiles inodeNum) events = some (outs, last)) :
    ∀ node ∈ last.flist, node.nwr = last.writers node.ino := by
  have sound : last.Sound :=
    run_preserves (fun _ _ _ _ holds allowed stepped => fileStep_sound holds allowed stepped)
      events _ outs last (mountedFiles_sound inodeNum) legal ran
  intro node member
  rw [(sound.counts node member).2, OpenFiles.writersOf_refs]

/-- A process opens a file for writing, a copy of its creator does too, and both come and go. -/
theorem open_files_writers_first : ∃ outs last,
    run fileStep (mountedFiles 32) [.createProc 0, .doFork 2, .doOpen 2 (.found 5) 2 false,
      .doOpen 3 (.found 5) 3 false, .doClose 2 0] = some (outs, last) ∧
    ∀ node ∈ last.flist, node.nwr = last.writers node.ino := by
  refine ⟨_, _, rfl, ?_⟩
  apply open_files_writers 32 [.createProc 0, .doFork 2, .doOpen 2 (.found 5) 2 false,
    .doOpen 3 (.found 5) 3 false, .doClose 2 0]
  · apply LegalRun.of_check 
    · intro files event passed
      exact FileEvent.copiesNoWriter_of_readOnly passed
    · decide
  · rfl

/-- A file open for reading and for writing, a fork, and both close the one for writing. -/
theorem open_files_fork_negative : ∃ outs last,
    run fileStep (mountedFiles 32) [.createProc 0, .doOpen 2 (.found 5) 1 false,
      .doOpen 2 (.found 5) 2 false, .doFork 2, .doClose 2 1, .doClose 3 1] = some (outs, last) ∧
    last.flist = [⟨5, -1, 2⟩] ∧ last.writers 5 = 0 := by
  refine ⟨_, _, rfl, ?_, ?_⟩
  · decide
  · decide

end GlucOS
