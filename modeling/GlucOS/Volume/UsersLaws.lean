import GlucOS.Gfs.OpenLaws
import GlucOS.Volume.StoreLaws
import GlucOS.Volume.Remove

/-! The list of open files has everything that tasks use, whatever they may do with it. -/

namespace GlucOS

/-! ## Who uses what, and no more -/

/-- A descriptor of which only the inode matters. -/
def FileDesc.plain (desc : FileDesc) : FileDesc := ⟨desc.ino, 0, 0⟩

/-- A node without the count of writers. -/
def FlistNode.plain (node : FlistNode) : FlistNode := ⟨node.ino, 0, node.nproc⟩

/-- A task with such descriptors. -/
def FileTask.plain (task : FileTask) : FileTask :=
  ⟨task.curIno, task.fds.map (Option.map FileDesc.plain)⟩

/-- The list of open files as if all of them were open for reading. -/
def OpenFiles.plain (files : OpenFiles) : OpenFiles where
  flist := files.flist.map FlistNode.plain
  tasks := files.tasks.map FileTask.plain
  inodeNum := files.inodeNum

/-- The same event, for reading. -/
def FileEvent.plain : FileEvent → FileEvent
  | .doOpen i path _ noHeap => .doOpen i path 0 noHeap
  | event => event

section Lists

/-- Without a flag, nothing is open for writing. -/
theorem writes_zero : writes 0 = false := by decide

/-- Searching for a node to raise its counts does not depend on writers. -/
theorem incNode_plain (ino : Nat) (wr noHeap : Bool) (flist : List FlistNode) :
    incNode ino false noHeap (flist.map FlistNode.plain) =
      (incNode ino wr noHeap flist).map (List.map FlistNode.plain) := by
  induction flist with
  | nil =>
    rw [List.map_nil, incNode, incNode]
    split
    · rfl
    · rfl
  | cons node rest ih =>
    rw [List.map_cons, incNode, incNode, ih]
    have same : node.plain.ino = node.ino := rfl
    rw [same]
    split
    · rfl
    · rw [Option.map_map, Option.map_map]
      rfl

/-- Neither does counting a user. -/
theorem flistIncFnode_plain (inodeNum ino : Nat) (wr noHeap : Bool) (flist : List FlistNode) :
    flistIncFnode inodeNum ino false noHeap (flist.map FlistNode.plain) =
      (flistIncFnode inodeNum ino wr noHeap flist).map (List.map FlistNode.plain) := by
  rw [flistIncFnode, flistIncFnode, incNode_plain ino wr]
  split
  · rfl
  · split
    · rfl
    · rfl

/-- Nor lowering the counts. -/
theorem decNode_plain (ino : Nat) (cwr : Bool) (flist : List FlistNode) :
    decNode ino false (flist.map FlistNode.plain) =
      (decNode ino cwr flist).map (List.map FlistNode.plain) := by
  induction flist with
  | nil => rfl
  | cons node rest ih =>
    rw [List.map_cons, decNode, decNode, ih]
    have same : node.plain.ino = node.ino := rfl
    have users : node.plain.nproc = node.nproc := rfl
    rw [same, users]
    split
    · split
      · rfl
      · rfl
    · rw [Option.map_map, Option.map_map]
      rfl

/-- Nor dropping a user. -/
theorem flistDecFnode_plain (inodeNum ino : Nat) (cwr : Bool) (flist : List FlistNode) :
    flistDecFnode inodeNum ino false (flist.map FlistNode.plain) =
      (flistDecFnode inodeNum ino cwr flist).map (List.map FlistNode.plain) := by
  rw [flistDecFnode, flistDecFnode, decNode_plain ino cwr]
  split
  · rfl
  · split
    · rfl
    · rfl

/-- Nor sharing a node. -/
theorem shareNode_plain (ino : Nat) (flist : List FlistNode) :
    shareNode ino (flist.map FlistNode.plain) = (shareNode ino flist).map FlistNode.plain := by
  induction flist with
  | nil => rfl
  | cons node rest ih =>
    rw [List.map_cons, shareNode, shareNode, ih]
    have same : node.plain.ino = node.ino := rfl
    rw [same]
    split
    · rfl
    · rfl

/-- A list that is kept when a change fails. -/
theorem getD_map_plain (changed : Option (List FlistNode)) (flist : List FlistNode) :
    (changed.map (List.map FlistNode.plain)).getD (flist.map FlistNode.plain) =
      (changed.getD flist).map FlistNode.plain := by
  cases changed with
  | none => rfl
  | some next => rfl

/-- Copying descriptors counts users. -/
theorem fdInit_plain (fds : List (Option FileDesc)) (flist : List FlistNode) :
    fdInit (fds.map (Option.map FileDesc.plain)) (flist.map FlistNode.plain) =
      (fdInit fds flist).map FlistNode.plain := by
  induction fds generalizing flist with
  | nil => rfl
  | cons fd rest ih =>
    cases fd with
    | none => exact ih flist
    | some desc =>
      have first : shareNode desc.plain.ino (flist.map FlistNode.plain) =
          (shareNode desc.ino flist).map FlistNode.plain := shareNode_plain desc.ino flist
      show fdInit (rest.map _) (shareNode desc.plain.ino (flist.map FlistNode.plain)) = _
      rw [first, ih]
      rfl

/-- Closing them drops users. -/
theorem closeAllFiles_plain (inodeNum : Nat) (fds : List (Option FileDesc))
    (flist : List FlistNode) :
    closeAllFiles inodeNum (fds.map (Option.map FileDesc.plain)) (flist.map FlistNode.plain) =
      (closeAllFiles inodeNum fds flist).map FlistNode.plain := by
  induction fds generalizing flist with
  | nil => rfl
  | cons fd rest ih =>
    cases fd with
    | none => exact ih flist
    | some desc =>
      have first : (flistDecFnode inodeNum desc.plain.ino (writes desc.plain.oflags)
          (flist.map FlistNode.plain)).getD (flist.map FlistNode.plain) =
          ((flistDecFnode inodeNum desc.ino (writes desc.oflags) flist).getD flist).map
            FlistNode.plain := by
        have reads : writes desc.plain.oflags = false := writes_zero
        rw [← getD_map_plain, ← flistDecFnode_plain inodeNum desc.ino (writes desc.oflags), reads]
        rfl
      show closeAllFiles inodeNum (rest.map _) ((flistDecFnode inodeNum desc.plain.ino
        (writes desc.plain.oflags) (flist.map FlistNode.plain)).getD
          (flist.map FlistNode.plain)) = _
      rw [first, ih]
      rfl

end Lists

/-! ## Events -/

section Events

variable {files next : OpenFiles} {i : Nat} {task : FileTask} {out : Int}

/-- The tasks are the same. -/
theorem OpenFiles.plain_task (files : OpenFiles) (i : Nat) :
    files.plain.tasks[i]? = files.tasks[i]?.map FileTask.plain := List.getElem?_map

/-- A descriptor is free for both. -/
theorem FileTask.plain_free (task : FileTask) :
    task.plain.fds.findIdx? Option.isNone = task.fds.findIdx? Option.isNone := by
  rw [FileTask.plain]
  dsimp only
  rw [List.findIdx?_map]
  congr 1
  funext fd
  cases fd with
  | none => rfl
  | some desc => rfl

/-- A task that was replaced. -/
theorem OpenFiles.plain_set (files : OpenFiles) (i : Nat) (task : FileTask)
    (flist : List FlistNode) :
    OpenFiles.plain { files with flist, tasks := files.tasks.set i task } =
      { files.plain with
        flist := flist.map FlistNode.plain, tasks := files.plain.tasks.set i task.plain } := by
  rw [OpenFiles.plain, OpenFiles.plain]
  dsimp only
  rw [List.map_set]

/-- A descriptor that was replaced. -/
theorem FileTask.plain_set (task : FileTask) (fd : Nat) (desc : Option FileDesc) :
    FileTask.plain { task with fds := task.fds.set fd desc } =
      { task.plain with fds := task.plain.fds.set fd (desc.map FileDesc.plain) } := by
  rw [FileTask.plain, FileTask.plain]
  dsimp only
  rw [List.map_set]

/-- A copy of a task. -/
theorem copyTask_plain (done : files.copyTask i = some (out, next)) :
    files.plain.copyTask i = some (out, next.plain) := by
  unfold OpenFiles.copyTask at done ⊢
  rw [OpenFiles.plain_task]
  cases here : files.tasks[i]? with
  | none =>
    rw [here] at done
    cases done
  | some task =>
    rw [here] at done
    rw [Option.map_some]
    dsimp only at done ⊢
    have count : files.plain.tasks.length = files.tasks.length := List.length_map _
    rw [count]
    split at done
    · rename_i full
      rw [if_pos full]
      cases done
      rfl
    · rename_i room
      rw [if_neg room]
      cases done
      have flist : (flistIncFnode files.plain.inodeNum task.plain.curIno false false
          (fdInit task.plain.fds files.plain.flist)).getD (fdInit task.plain.fds
            files.plain.flist) =
          ((flistIncFnode files.inodeNum task.curIno false false (fdInit task.fds
            files.flist)).getD (fdInit task.fds files.flist)).map FlistNode.plain := by
        rw [← getD_map_plain, ← flistIncFnode_plain, ← fdInit_plain]
        rfl
      rw [flist]
      unfold OpenFiles.plain
      dsimp only
      rw [List.map_append]
      rfl

/-- What happens to users happens as well when all is open for reading. -/
theorem fileStep_plain {event : FileEvent} (done : fileStep files event = some (out, next)) :
    fileStep files.plain event.plain = some (out, next.plain) := by
  -- Each event takes the same branch for both, since none of them asks who writes.
  cases event with
  | doOpen i path oflags noHeap =>
    simp only [fileStep, FileEvent.plain, OpenFiles.doOpen] at done ⊢
    rw [OpenFiles.plain_task]
    cases here : files.tasks[i]? with
    | none =>
      rw [here] at done
      cases done
    | some task =>
      rw [here] at done
      rw [Option.map_some]
      dsimp only at done ⊢
      rw [FileTask.plain_free]
      cases path with
      | noPath code =>
        cases done
        rfl
      | refused code =>
        cases free : task.fds.findIdx? Option.isNone with
        | none =>
          rw [free] at done
          cases done
          rfl
        | some fd =>
          rw [free] at done
          cases done
          rfl
      | found tino =>
        -- The file is counted, when there is room for another node.
        cases free : task.fds.findIdx? Option.isNone with
        | none =>
          rw [free] at done
          cases done
          rfl
        | some fd =>
          rw [free] at done
          have inc := flistIncFnode_plain files.inodeNum tino (writes oflags) noHeap files.flist
          dsimp only at done ⊢
          rw [writes_zero]
          have same : flistIncFnode files.plain.inodeNum tino false noHeap files.plain.flist =
            (flistIncFnode files.inodeNum tino (writes oflags) noHeap files.flist).map
              (List.map FlistNode.plain) := inc
          rw [same]
          cases counted : flistIncFnode files.inodeNum tino (writes oflags) noHeap files.flist with
          | none =>
            rw [counted] at done
            cases done
            rfl
          | some flist =>
            rw [counted] at done
            cases done
            rw [OpenFiles.plain_set, FileTask.plain_set]
            rfl
  | doClose i fd =>
    simp only [fileStep, FileEvent.plain, OpenFiles.doClose] at done ⊢
    rw [OpenFiles.plain_task]
    cases here : files.tasks[i]? with
    | none =>
      rw [here] at done
      cases done
    | some task =>
      rw [here] at done
      rw [Option.map_some]
      dsimp only at done ⊢
      split at done
      · rename_i negative
        rw [if_pos negative]
        cases done
        rfl
      · rename_i positive
        rw [if_neg positive]
        have entry : task.plain.fds[fd.toNat]? =
          task.fds[fd.toNat]?.map (Option.map FileDesc.plain) := List.getElem?_map
        rw [entry]
        cases inside : task.fds[fd.toNat]? with
        | none =>
          rw [inside] at done
          cases done
          rfl
        | some slot =>
          cases slot with
          | none =>
            rw [inside] at done
            cases done
            rfl
          | some desc =>
            rw [inside] at done
            simp only [Option.map_some] at done ⊢
            have reads : writes desc.plain.oflags = false := writes_zero
            have same : flistDecFnode files.plain.inodeNum desc.plain.ino
                (writes desc.plain.oflags) files.plain.flist =
                (flistDecFnode files.inodeNum desc.ino (writes desc.oflags) files.flist).map
                  (List.map FlistNode.plain) := by
              rw [reads]
              exact flistDecFnode_plain _ _ _ _
            rw [same]
            cases counted : flistDecFnode files.inodeNum desc.ino (writes desc.oflags)
              files.flist with
            | none =>
              rw [counted] at done
              cases done
              rfl
            | some flist =>
              rw [counted] at done
              cases done
              rw [OpenFiles.plain_set, FileTask.plain_set]
              rfl
  | doChangedir i target =>
    simp only [fileStep, FileEvent.plain, OpenFiles.doChangedir] at done ⊢
    rw [OpenFiles.plain_task]
    cases here : files.tasks[i]? with
    | none =>
      rw [here] at done
      cases done
    | some task =>
      rw [here] at done
      rw [Option.map_some]
      dsimp only at done ⊢
      have number : files.plain.inodeNum = files.inodeNum := rfl
      have cur : task.plain.curIno = task.curIno := rfl
      rw [number, cur]
      split at done
      · cases done
      · rename_i valid
        rw [if_neg valid]
        split at done
        · rename_i same
          rw [if_pos same]
          cases done
          rfl
        · -- The old directory loses a user, and the new one gets it.
          rename_i other
          rw [if_neg other]
          cases done
          rw [OpenFiles.plain_set, ← getD_map_plain, ← flistIncFnode_plain, ← getD_map_plain,
            ← flistDecFnode_plain]
          rfl
  | doFork i => exact copyTask_plain done
  | doThreadCreate i => exact copyTask_plain done
  | createProc i =>
    simp only [fileStep, FileEvent.plain, OpenFiles.createProc] at done ⊢
    rw [OpenFiles.plain_task]
    cases here : files.tasks[i]? with
    | none =>
      rw [here] at done
      cases done
    | some task =>
      rw [here] at done
      rw [Option.map_some]
      dsimp only at done ⊢
      have count : files.plain.tasks.length = files.tasks.length := List.length_map _
      rw [count]
      split at done
      · rename_i full
        rw [if_pos full]
        cases done
        rfl
      · -- A new process has nothing open, and is in the directory of its parent.
        rename_i room
        rw [if_neg room]
        cases done
        unfold OpenFiles.plain
        dsimp only
        rw [List.map_append, ← getD_map_plain, ← flistIncFnode_plain]
        have fresh : [(⟨task.curIno, List.replicate ofileMax none⟩ : FileTask)].map
            FileTask.plain = [⟨task.plain.curIno, List.replicate ofileMax none⟩] := by
          rw [List.map_singleton, FileTask.plain, List.map_replicate]
          rfl
        rw [fresh]
        rfl
  | threadKill i =>
    simp only [fileStep, FileEvent.plain, OpenFiles.threadKill] at done ⊢
    rw [OpenFiles.plain_task]
    cases here : files.tasks[i]? with
    | none =>
      rw [here] at done
      cases done
    | some task =>
      rw [here] at done
      rw [Option.map_some]
      dsimp only at done ⊢
      cases done
      unfold OpenFiles.plain
      dsimp only
      rw [← List.eraseIdx_map, ← getD_map_plain, ← flistDecFnode_plain, ← closeAllFiles_plain]
      rfl

/-- The list has a node for everything that tasks use. -/
def OpenFiles.Listed (files : OpenFiles) : Prop := files.plain.Sound

/-- No event takes away what is still used. -/
theorem fileStep_listed {event : FileEvent} (listed : files.Listed)
    (done : fileStep files event = some (out, next)) : next.Listed := by
  -- Nothing is open for writing then, so no writer is copied.
  have reads : ∀ task ∈ files.plain.tasks, task.mayWrite = false := by
    intro task mem
    obtain ⟨task, -, rfl⟩ := List.mem_map.mp mem
    rw [FileTask.mayWrite, List.any_eq_false]
    intro fd inside
    obtain ⟨fd, -, rfl⟩ := List.mem_map.mp inside
    cases fd with
    | none => simp
    | some desc => simp [FileDesc.plain, writes_zero]
  apply fileStep_sound listed _ (fileStep_plain done)
  cases event with
  | doFork i => exact fun task here _ => reads task (List.mem_of_getElem? here)
  | doThreadCreate i => exact fun task here _ => reads task (List.mem_of_getElem? here)
  | _ => trivial

/-- What the list has is found there. -/
theorem flistSearch_of_mem {flist : List FlistNode} {ino : Nat}
    (mem : ino ∈ flist.map FlistNode.ino) : flistSearch flist ino = true := by
  obtain ⟨node, isNode, is⟩ := List.mem_map.mp mem
  rw [flistSearch, decide_eq_true_eq, List.any_eq_true]
  exact .inr ⟨node, isNode, decide_eq_true is⟩

/-- An inode that a task refers to is found in the list. -/
theorem OpenFiles.Listed.used (listed : files.Listed) (mem : task ∈ files.tasks) {ref : InodeRef}
    (isRef : ref ∈ task.plain.refs) : flistSearch files.flist ref.1 = true := by
  by_cases root : ref.1 = 0
  · -- "/" always counts as open.
    rw [flistSearch, decide_eq_true_eq]
    exact .inl root
  · obtain ⟨i, here⟩ := List.getElem?_of_mem mem
    have inUse := @OpenFiles.usersOf_task files.plain i task.plain
      (by rw [OpenFiles.plain_task, here]; rfl) ref isRef
    have isNode := (listed.listed ref.1 root inUse).2
    apply flistSearch_of_mem
    rw [OpenFiles.plain] at isNode
    dsimp only at isNode
    rwa [List.map_map] at isNode

/-- So is the directory of a task. -/
theorem OpenFiles.Listed.home (listed : files.Listed) (mem : task ∈ files.tasks) :
    flistSearch files.flist task.curIno = true :=
  @OpenFiles.Listed.used files task listed mem (task.curIno, false) (Multiset.mem_cons_self ..)

/-- An open descriptor is a reference. -/
theorem mem_fdRefs {desc : FileDesc} {fds : List (Option FileDesc)} (mem : some desc ∈ fds) :
    (desc.ino, writes desc.oflags) ∈ fdRefs fds := by
  induction fds with
  | nil => cases mem
  | cons fd rest ih =>
    have split : fdRefs (fd :: rest) = fdRef fd + fdRefs rest := by simp [fdRefs]
    rw [split, Multiset.mem_add]
    rcases List.mem_cons.mp mem with rfl | later
    · left
      exact Multiset.mem_singleton_self _
    · exact .inr (ih later)

/-- And what it has open. -/
theorem OpenFiles.Listed.opened (listed : files.Listed) (mem : task ∈ files.tasks)
    {desc : FileDesc} (isOpen : some desc ∈ task.fds) :
    flistSearch files.flist desc.ino = true := by
  apply @OpenFiles.Listed.used files task listed mem (desc.ino, writes 0)
  apply Multiset.mem_cons_of_mem
  exact @mem_fdRefs desc.plain task.plain.fds (List.mem_map.mpr ⟨some desc, isOpen, rfl⟩)

/-- Tasks are in directories that had this property, or that they were moved to. -/
theorem fileStep_homes {event : FileEvent} {good : Nat → Prop}
    (homes : ∀ task ∈ files.tasks, good task.curIno)
    (fresh : ∀ i target, event = .doChangedir i target → good target)
    (done : fileStep files event = some (out, next)) :
    ∀ task ∈ next.tasks, good task.curIno := by
  -- A task that is replaced keeps its directory, unless it moves.
  have replaced : ∀ {i : Nat} {task : FileTask} {fds : List (Option FileDesc)},
      files.tasks[i]? = some task →
      ∀ other ∈ files.tasks.set i { task with fds }, good other.curIno := by
    intro i task fds here other mem
    rcases List.mem_or_eq_of_mem_set mem with old | rfl
    · exact homes other old
    · exact homes task (List.mem_of_getElem? here)
  -- A copy is in the directory of the task that it was made from.
  have copied : ∀ {i : Nat}, files.copyTask i = some (out, next) →
      ∀ task ∈ next.tasks, good task.curIno := by
    intro i done
    unfold OpenFiles.copyTask at done
    cases here : files.tasks[i]? with
    | none =>
      rw [here] at done
      cases done
    | some task =>
      rw [here] at done
      dsimp only at done
      split at done
      · cases done
        exact homes
      · cases done
        intro other mem
        rcases List.mem_append.mp mem with old | new
        · exact homes other old
        · rw [List.mem_singleton.mp new]
          exact homes task (List.mem_of_getElem? here)
  cases event with
  | doOpen i path oflags noHeap =>
    simp only [fileStep, OpenFiles.doOpen] at done
    cases here : files.tasks[i]? with
    | none => simp [here] at done
    | some task =>
      rw [here] at done
      dsimp only at done
      split at done
      · cases done
        exact homes
      · cases done
        exact homes
      · cases done
        exact homes
      · split at done
        · cases done
          exact homes
        · cases done
          exact replaced here
  | doClose i fd =>
    simp only [fileStep, OpenFiles.doClose] at done
    cases here : files.tasks[i]? with
    | none => simp [here] at done
    | some task =>
      rw [here] at done
      dsimp only at done
      split at done
      · cases done
        exact homes
      · split at done
        · split at done
          · cases done
            exact homes
          · cases done
            exact replaced here
        · cases done
          exact homes
  | doChangedir i target =>
    simp only [fileStep, OpenFiles.doChangedir] at done
    cases here : files.tasks[i]? with
    | none => simp [here] at done
    | some task =>
      rw [here] at done
      dsimp only at done
      split at done
      · cases done
      · split at done
        · cases done
          exact homes
        · cases done
          intro other mem
          rcases List.mem_or_eq_of_mem_set mem with old | rfl
          · exact homes other old
          · exact fresh i target rfl
  | doFork i => exact copied done
  | doThreadCreate i => exact copied done
  | createProc i =>
    simp only [fileStep, OpenFiles.createProc] at done
    cases here : files.tasks[i]? with
    | none => simp [here] at done
    | some task =>
      rw [here] at done
      dsimp only at done
      split at done
      · cases done
        exact homes
      · cases done
        intro other mem
        rcases List.mem_append.mp mem with old | new
        · exact homes other old
        · rw [List.mem_singleton.mp new]
          exact homes task (List.mem_of_getElem? here)
  | threadKill i =>
    simp only [fileStep, OpenFiles.threadKill] at done
    cases here : files.tasks[i]? with
    | none => simp [here] at done
    | some task =>
      rw [here] at done
      cases done
      intro other mem
      exact homes other (List.mem_of_mem_eraseIdx mem)

end Events

end GlucOS
