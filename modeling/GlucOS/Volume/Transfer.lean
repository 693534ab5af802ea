import GlucOS.Gfs.CountLaws
import GlucOS.Gfs.Open
import GlucOS.Lib.Splice
import GlucOS.Lib.Transfer
import GlucOS.Syscall.Copy

/-! The calls by which tasks move bytes to and from files of one volume, and what they are for. -/

namespace GlucOS

/-! ## `do_lseek` -/

/-- `SEEK_SET`. -/
def seekSet : Int := 0

/-- `SEEK_CUR`. -/
def seekCur : Int := 1

/-- `SEEK_END`. -/
def seekEnd : Int := 2

/-- `INT32_MIN`. -/
def seekMin : Int := -2 ^ 31

/-- A position as `do_lseek` computes it: anything else than one below `UINT32_MAX` is refused. -/
def seekTo (target : Int) : Except Int Nat :=
  if target < 0 ∨ (uint32Max : Int) ≤ target then .error (-2) else .ok target.toNat

/-- Where `do_lseek` moves to, in a file of this size. -/
def seekPos (pos size : Nat) (offset whence : Int) : Except Int Nat :=
  if (uint32Max : Int) < offset ∨ offset < seekMin then .error (-2)
  else if whence = seekSet then if 0 ≤ offset then .ok offset.toNat else .error (-2)
  else if whence = seekCur then seekTo (pos + offset)
  else if whence = seekEnd then seekTo (size + offset)
  else .error (-3)

/-- `do_lseek`. -/
def doLseek (fs : Gfs) (fd offset whence : Int) : Int × Gfs :=
  if fd < 0 ∨ (ofileMax : Int) ≤ fd then (-1, fs)
  else
    match fs.fds fd.toNat with
    | none => (-1, fs)
    | some desc =>
      match seekPos desc.pos (fs.vol.inodes desc.ino).size offset whence with
      | .error code => (code, fs)
      | .ok pos => (pos, fs.putPos fd desc pos)

/-! ## The tasks and the volume -/

/-- GFS with all tasks. -/
structure GfsSystem where
  /-- The cached inodes, and the blocks. -/
  vol : GfsVolume
  /-- The inodes on the disk. -/
  inodesOnDisk : Nat → GfsInode
  /-- The bitmaps, cached and on the disk. -/
  bitmaps : SecMem
  /-- The tasks, with what they have open. -/
  files : OpenFiles

/-- GFS as a task sees it, with its own descriptors. -/
def GfsSystem.seenBy (sys : GfsSystem) (task : FileTask) : Gfs where
  vol := sys.vol
  inodesOnDisk := sys.inodesOnDisk
  bitmaps := sys.bitmaps
  fds := fun fd => task.fds[fd]?.join

/-- GFS as nobody sees it, who has nothing open. -/
def GfsSystem.blank (sys : GfsSystem) : Gfs := sys.seenBy ⟨0, []⟩

/-- What a call of a task leaves. -/
def GfsSystem.leftBy (sys : GfsSystem) (i : Nat) (task : FileTask) (fs : Gfs) : GfsSystem where
  vol := fs.vol
  inodesOnDisk := fs.inodesOnDisk
  bitmaps := fs.bitmaps
  files := { sys.files with
    tasks := sys.files.tasks.set i { task with fds := (List.range ofileMax).map fs.fds } }

/-- What tasks ask of GFS; each comes with the memory that it has at that moment. -/
inductive IoEvent
  /-- A call that concerns what is open. -/
  | files (event : FileEvent)
  /-- `do_read`. -/
  | read (i : Nat) (fd : Int) (buf len : Nat) (mem : Memory)
  /-- `do_write`, with or without room on the kernel heap. -/
  | write (i : Nat) (fd : Int) (buf len : Nat) (mem : Memory) (noHeap : Bool)
  /-- `do_lseek`. -/
  | lseek (i : Nat) (fd offset whence : Int)

/-- The answer of a call, and the memory that it leaves when it was given one. -/
abbrev IoAnswer := Int × Option Memory

/-- One call, which is refused when there is no such task or an access to its memory fails. -/
def ioStep (sys : GfsSystem) : IoEvent → Option (IoAnswer × GfsSystem)
  | .files event => (fileStep sys.files event).map fun result =>
    ((result.1, none), { sys with files := result.2 })
  | .read i fd buf len mem => sys.files.tasks[i]?.bind fun task =>
    let moved := (doRead (sys.seenBy task) fd buf len).run mem
    moved.value.map fun result => ((result.1, some moved.memory), sys.leftBy i task result.2)
  | .write i fd buf len mem noHeap => sys.files.tasks[i]?.bind fun task =>
    let moved := (doWriteFrom noHeap 1 (sys.seenBy task) fd buf len).run mem
    moved.value.join.map fun result => ((result.1, some moved.memory), sys.leftBy i task result.2)
  | .lseek i fd offset whence => sys.files.tasks[i]?.map fun task =>
    let result := doLseek (sys.seenBy task) fd offset whence
    ((result.1, none), sys.leftBy i task result.2)

/-! ## What the calls are for -/

/-- Files as strings of bytes. -/
structure FileStore where
  /-- The bytes of each file. -/
  contents : Nat → Option (List UInt8)
  /-- How many blocks are free. -/
  free : Nat
  /-- The tasks, with what they have open. -/
  files : OpenFiles

/-- The descriptor of a task, when there is one. -/
def FileTask.desc (task : FileTask) (fd : Int) : Option FileDesc :=
  if fd < 0 ∨ (ofileMax : Int) ≤ fd then none else task.fds[fd.toNat]?.join

/-- The descriptor, when it was opened with this flag. -/
def FileTask.descFor (task : FileTask) (fd : Int) (flag : Nat) : Option FileDesc :=
  (task.desc fd).bind fun desc => if desc.oflags &&& flag = 0 then none else some desc

namespace FileStore

/-- The bytes of a file. -/
def bytes (store : FileStore) (ino : Nat) : List UInt8 := (store.contents ino).getD []

/-- A descriptor of a task moved to another position. -/
def moved (store : FileStore) (i : Nat) (task : FileTask) (fd : Int) (desc : FileDesc)
    (pos : Nat) : FileStore :=
  { store with
    files := { store.files with
      tasks := store.files.tasks.set i
        { task with fds := task.fds.set fd.toNat (some { desc with pos }) } } }

/-- A file with other bytes, for which so many more blocks are in use. -/
def refilled (store : FileStore) (ino : Nat) (bytes : List UInt8) (cost : Nat) : FileStore :=
  { store with
    contents := Function.update store.contents ino (some bytes)
    free := store.free - cost }

end FileStore

/-- How many bytes a write moves: a file ends at `UINT32_MAX`. -/
def writeLength (pos len : Nat) : Nat := min len (uint32Max - pos)

/-- The bytes that a write takes from its buffer, where a null pointer stands for zeros. -/
def takenBytes (mem : Memory) (buf len : Nat) : List UInt8 :=
  if buf = 0 then List.replicate len 0 else mem.bytesAt buf len

/-- Blocks that a file of this size has, with those that hold pointers. -/
def sizeBlocks (size : Nat) : Nat := dataBlocks size + indexBlocks (dataBlocks size)

/-- How many blocks a write adds to a file of this size. -/
def writeCost (size pos len : Nat) : Nat := sizeBlocks (pos + len) - sizeBlocks size

/-- One call, on strings of bytes. -/
def storeStep (store : FileStore) : IoEvent → Option (IoAnswer × FileStore)
  | .files event => (fileStep store.files event).map fun result =>
    ((result.1, none), { store with files := result.2 })
  | .read i fd buf len mem => store.files.tasks[i]?.map fun task =>
    match task.descFor fd oRdonly with
    | none => ((-1, some mem), store)
    | some desc =>
      if kvaMin ≤ buf then ((-2, some mem), store)
      else
        let bytes := part (store.bytes desc.ino) desc.pos len
        ((bytes.length, some (mem.put buf bytes)),
          store.moved i task fd desc (desc.pos + bytes.length))
  | .write i fd buf len mem _ => store.files.tasks[i]?.map fun task =>
    match task.descFor fd oWronly with
    | none => ((-1, some mem), store)
    | some desc =>
      if kvaMin ≤ buf then ((-2, some mem), store)
      else if len = 0 then ((0, some mem), store)
      else
        let old := store.bytes desc.ino
        let bytes := takenBytes mem buf (writeLength desc.pos len)
        ((bytes.length, some mem),
          (store.moved i task fd desc (desc.pos + bytes.length)).refilled desc.ino
            (splice 0 old desc.pos bytes) (writeCost old.length desc.pos bytes.length))
  | .lseek i fd offset whence => store.files.tasks[i]?.map fun task =>
    match task.desc fd with
    | none => ((-1, none), store)
    | some desc =>
      match seekPos desc.pos (store.bytes desc.ino).length offset whence with
      | .error code => ((code, none), store)
      | .ok pos => ((pos, none), store.moved i task fd desc pos)

/--
What a call finds when it is to do its work.

Files that are opened are there, and buffers are the caller's own. A write that adds blocks finds
them free, and room on the kernel heap for their pointers.
-/
def IoEvent.Served (store : FileStore) : IoEvent → Prop
  | .files (.doOpen _ (.found tino) _ _) => (store.contents tino).isSome
  | .files _ => True
  | .read i fd buf len mem => ∀ task desc, store.files.tasks[i]? = some task →
    task.descFor fd oRdonly = some desc → buf < kvaMin →
    mem.Readable buf (part (store.bytes desc.ino) desc.pos len).length
  | .write i fd buf len mem noHeap => ∀ task desc, store.files.tasks[i]? = some task →
    task.descFor fd oWronly = some desc → buf < kvaMin → len ≠ 0 →
    let count := writeLength desc.pos len
    let cost := writeCost (store.bytes desc.ino).length desc.pos count
    (buf ≠ 0 → mem.Readable buf count) ∧ cost ≤ store.free ∧ (0 < cost → noHeap = false)
  | .lseek _ _ _ _ => True

end GlucOS
