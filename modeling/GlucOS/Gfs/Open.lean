import GlucOS.Gfs.File
import GlucOS.Lib.Run

/-! The list of open files and directories, and the calls that open, close, copy and drop them. -/

namespace GlucOS

/-- `flist_node_t` of a file or directory other than "/". -/
structure FlistNode where
  /-- Index of the inode. -/
  ino : Nat
  /-- `nwr`. -/
  nwr : Int
  /-- `nproc`. -/
  nproc : Int
deriving DecidableEq, Repr

/-- What a TCB refers to in the list. -/
structure FileTask where
  /-- `cur_ino`. -/
  curIno : Nat
  /-- `fds[]`, with nothing where `fnode` is null. -/
  fds : List (Option FileDesc)

/-- The list of open files, and the tasks that refer to it. -/
structure OpenFiles where
  /-- The nodes after `flist_head`, which is that of "/". -/
  flist : List FlistNode
  /-- The tasks that live. -/
  tasks : List FileTask
  /-- `inode_num` of the superblock. -/
  inodeNum : Nat

/-- Whether a flag of `O_WRONLY` is set. -/
def writes (oflags : Nat) : Bool := oflags &&& oWronly ≠ 0

/-- `UPROC_MAX + NCPU`: how many tasks there may be, so the counts of a node fit in 16 bits. -/
def taskMax : Nat := 18

/-! ## The list -/

/-- The part of `flist_inc_fnode` that searches the list, with a new node at its end. -/
def incNode (ino : Nat) (wr noHeap : Bool) : List FlistNode → Option (List FlistNode)
  | [] => if noHeap then none else some [⟨ino, if wr then 1 else 0, 1⟩]
  | node :: rest =>
    if node.ino = ino then
      some ({ node with nwr := node.nwr + (if wr then 1 else 0), nproc := node.nproc + 1 } :: rest)
    else (incNode ino wr noHeap rest).map (node :: ·)

/-- `flist_inc_fnode`, with nothing for its null pointer. -/
def flistIncFnode (inodeNum ino : Nat) (wr noHeap : Bool) (flist : List FlistNode) :
    Option (List FlistNode) :=
  if ino = 0 then some flist
  else if inodeNum ≤ ino then none
  else incNode ino wr noHeap flist

/-- The part of `flist_dec_fnode` that searches the list. -/
def decNode (ino : Nat) (cwr : Bool) : List FlistNode → Option (List FlistNode)
  | [] => none
  | node :: rest =>
    if node.ino = ino then
      if node.nproc - 1 ≤ 0 then some rest
      else some ({ node with nwr := node.nwr - (if cwr then 1 else 0), nproc := node.nproc - 1 } ::
        rest)
    else (decNode ino cwr rest).map (node :: ·)

/-- `flist_dec_fnode`, with nothing when it returns 1. -/
def flistDecFnode (inodeNum ino : Nat) (cwr : Bool) (flist : List FlistNode) :
    Option (List FlistNode) :=
  if ino = 0 then some flist
  else if inodeNum ≤ ino then none
  else decNode ino cwr flist

/-- `fnode->nproc++` of a descriptor, whose node is found by its inode. -/
def shareNode (ino : Nat) : List FlistNode → List FlistNode
  | [] => []
  | node :: rest =>
    if node.ino = ino then { node with nproc := node.nproc + 1 } :: rest
    else node :: shareNode ino rest

/-! ## Descriptors -/

/-- The list after `fd_init` has copied these descriptors. -/
def fdInit (fds : List (Option FileDesc)) (flist : List FlistNode) : List FlistNode :=
  fds.foldl (fun flist fd =>
    match fd with
    | none => flist
    | some desc => shareNode desc.ino flist) flist

/-- The list after `close_all_files`, where a node that is not found is only reported. -/
def closeAllFiles (inodeNum : Nat) (fds : List (Option FileDesc)) (flist : List FlistNode) :
    List FlistNode :=
  fds.foldl (fun flist fd =>
    match fd with
    | none => flist
    | some desc => (flistDecFnode inodeNum desc.ino (writes desc.oflags) flist).getD flist) flist

/-- What `do_open` finds in the file system. -/
inductive OpenLookup
  /-- The path leads to nothing that can be opened. -/
  | noPath (code : Int)
  /-- The file is not there and cannot be created, or it is a directory. -/
  | refused (code : Int)
  /-- The inode of the file, which may have been created. -/
  | found (tino : Nat)

namespace OpenFiles

/-- `do_open` of a task. -/
def doOpen (files : OpenFiles) (i : Nat) (path : OpenLookup) (oflags : Nat) (noHeap : Bool) :
    Option (Int × OpenFiles) :=
  match files.tasks[i]? with
  | none => none
  | some task =>
    match path, task.fds.findIdx? Option.isNone with
    | .noPath code, _ => some (code, files)
    | _, none => some (-3, files)
    | .refused code, some _ => some (code, files)
    | .found tino, some fd =>
      match flistIncFnode files.inodeNum tino (writes oflags) noHeap files.flist with
      | none => some (-8, files)
      | some flist =>
        some (fd, { files with
          flist
          tasks := files.tasks.set i
            { task with fds := task.fds.set fd (some ⟨tino, oflags, 0⟩) } })

/-- `do_close` of a task. -/
def doClose (files : OpenFiles) (i : Nat) (fd : Int) : Option (Int × OpenFiles) :=
  match files.tasks[i]? with
  | none => none
  | some task =>
    if fd < 0 then some (-1, files)
    else
      match task.fds[fd.toNat]? with
      | some (some desc) =>
        match flistDecFnode files.inodeNum desc.ino (writes desc.oflags) files.flist with
        | none => some (-1, files)
        | some flist =>
          some (fd, { files with
            flist, tasks := files.tasks.set i { task with fds := task.fds.set fd.toNat none } })
      | _ => some (-1, files)

/-- The end of `do_changedir` of a task, while there is room on the heap. -/
def doChangedir (files : OpenFiles) (i target : Nat) : Option (Int × OpenFiles) :=
  match files.tasks[i]? with
  | none => none
  | some task =>
    -- `path_anal` answers no other inode.
    if files.inodeNum ≤ target then none
    else if target = task.curIno then some (0, files)
    else
      let flist := (flistDecFnode files.inodeNum task.curIno false files.flist).getD files.flist
      let flist := (flistIncFnode files.inodeNum target false false flist).getD flist
      some (0, { files with flist, tasks := files.tasks.set i { task with curIno := target } })

/-- A new task with the descriptors and the directory of another one. -/
def copyTask (files : OpenFiles) (i : Nat) : Option (Int × OpenFiles) :=
  match files.tasks[i]? with
  | none => none
  | some task =>
    if taskMax ≤ files.tasks.length then some (-1, files)
    else
      let flist := fdInit task.fds files.flist
      let flist := (flistIncFnode files.inodeNum task.curIno false false flist).getD flist
      some (files.tasks.length, { files with flist, tasks := files.tasks ++ [task] })

/-- The part of `do_fork` that concerns files. -/
def doFork (files : OpenFiles) (i : Nat) : Option (Int × OpenFiles) := files.copyTask i

/-- The part of `do_thread_create` that concerns files. -/
def doThreadCreate (files : OpenFiles) (i : Nat) : Option (Int × OpenFiles) := files.copyTask i

/-- The part of `create_proc` that concerns files: no descriptors, and the creator's directory. -/
def createProc (files : OpenFiles) (i : Nat) : Option (Int × OpenFiles) :=
  match files.tasks[i]? with
  | none => none
  | some task =>
    if taskMax ≤ files.tasks.length then some (-1, files)
    else
      let flist :=
        (flistIncFnode files.inodeNum task.curIno false false files.flist).getD files.flist
      some (files.tasks.length, { files with
        flist, tasks := files.tasks ++ [⟨task.curIno, List.replicate ofileMax none⟩] })

/-- The part of `thread_kill` that concerns files, by which every task ends. -/
def threadKill (files : OpenFiles) (i : Nat) : Option (Int × OpenFiles) :=
  match files.tasks[i]? with
  | none => none
  | some task =>
    let flist := closeAllFiles files.inodeNum task.fds files.flist
    let flist := (flistDecFnode files.inodeNum task.curIno false flist).getD flist
    some (0, { files with flist, tasks := files.tasks.eraseIdx i })

end OpenFiles

/-- What may happen to the open files; the tasks are named by their places. -/
inductive FileEvent
  /-- `do_open`. -/
  | doOpen (i : Nat) (path : OpenLookup) (oflags : Nat) (noHeap : Bool)
  /-- `do_close`. -/
  | doClose (i : Nat) (fd : Int)
  /-- `do_changedir`. -/
  | doChangedir (i target : Nat)
  /-- `do_fork`. -/
  | doFork (i : Nat)
  /-- `do_thread_create`. -/
  | doThreadCreate (i : Nat)
  /-- `create_proc`. -/
  | createProc (i : Nat)
  /-- The end of a task, by exit or kill. -/
  | threadKill (i : Nat)

/-- One event, which is refused when there is no such task. -/
def fileStep (files : OpenFiles) : FileEvent → Option (Int × OpenFiles)
  | .doOpen i path oflags noHeap => files.doOpen i path oflags noHeap
  | .doClose i fd => files.doClose i fd
  | .doChangedir i target => files.doChangedir i target
  | .doFork i => files.doFork i
  | .doThreadCreate i => files.doThreadCreate i
  | .createProc i => files.createProc i
  | .threadKill i => files.threadKill i

/-- The open files when the file system is mounted: the idle processes are in "/". -/
def mountedFiles (inodeNum : Nat) : OpenFiles :=
  { flist := []
    tasks := List.replicate 2 ⟨0, List.replicate ofileMax none⟩
    inodeNum }

end GlucOS
