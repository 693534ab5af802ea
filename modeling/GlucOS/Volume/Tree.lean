import GlucOS.Lib.Keyed
import GlucOS.Volume.Remove
import GlucOS.Volume.Transfer

/-! A volume under all calls on files and directories, and the tree of names that it is for. -/

namespace GlucOS

/-! ## The calls -/

/-- What tasks ask of GFS, with the parent and the name that `path_anal_2` has found. -/
inductive TreeEvent
  /-- A call that neither makes nor removes anything. -/
  | io (event : IoEvent)
  /-- `do_open`, whose buffer for a block of entries may hold anything. -/
  | doOpen (i : Nat) (ppino : Option Nat) (tname : CharBuf) (oflags : Nat) (noHeap : Bool)
    (debbuf : Block)
  /-- `do_mkdir`. -/
  | doMkdir (ppino : Option Nat) (tname : CharBuf) (debbuf debbuf' debbuf'' : Block)
  /-- `do_hlink`. -/
  | doHlink (sino pino : Option Nat) (tname : CharBuf) (debbuf : Block)
  /-- `do_remove`, with a stack for so many calls, and room on the kernel heap. -/
  | doRemove (depth : Nat) (ppino : Option Nat) (tname : CharBuf)

/-- The volume of a system changed. -/
def GfsSystem.withGfs (sys : GfsSystem) (fs : Gfs) : GfsSystem :=
  { sys with vol := fs.vol, inodesOnDisk := fs.inodesOnDisk, bitmaps := fs.bitmaps }

/-- `do_open` of a task, which looks for a descriptor before it creates anything. -/
def openStep (sys : GfsSystem) (i : Nat) (ppino : Option Nat) (tname : CharBuf) (oflags : Nat)
    (noHeap : Bool) (debbuf : Block) : Option (Int × GfsSystem) :=
  sys.files.tasks[i]?.bind fun task =>
    match ppino with
    | none => some (-2, sys)
    | some ppino =>
      if tname = [] then some (-1, sys)
      else if (task.fds.findIdx? Option.isNone).isNone then some (-3, sys)
      else
        let (path, fs) := lookupOpen sys.blank ppino tname oflags debbuf
        (sys.files.doOpen i path oflags noHeap).map fun (fd, files) =>
          (fd, { sys.withGfs fs with files })

/-- One call. -/
def treeStep (sys : GfsSystem) : TreeEvent → Option (IoAnswer × GfsSystem)
  | .io event => ioStep sys event
  | .doOpen i ppino tname oflags noHeap debbuf =>
    (openStep sys i ppino tname oflags noHeap debbuf).map fun (fd, sys) => ((fd, none), sys)
  | .doMkdir ppino tname debbuf debbuf' debbuf'' =>
    let (code, fs) := doMkdir sys.blank ppino tname debbuf debbuf' debbuf''
    some ((code, none), sys.withGfs fs)
  | .doHlink sino pino tname debbuf =>
    let (code, fs) := doHlink sys.blank sino pino tname debbuf
    some ((code, none), sys.withGfs fs)
  | .doRemove depth ppino tname =>
    (doRemove sys.files.flist depth [] sys.blank ppino tname).map fun (code, fs) =>
      ((code, none), sys.withGfs fs)

/-! ## What they are for -/

/-- What an inode stands for. -/
inductive FsNode
  /-- A string of bytes, and how many names it has. -/
  | file (bytes : List UInt8) (nlink : Nat)
  /-- Names, and how many blocks hold them. -/
  | dir (dents : List GfsDentry) (nblk : Nat)

/-- How many blocks are in use for it. -/
def FsNode.blocks : FsNode → Nat
  | .file bytes _ => sizeBlocks bytes.length
  | .dir _ nblk => nblk

/-- A tree of files and directories. -/
structure TreeStore where
  /-- What each inode stands for, when it is in use. -/
  node : Nat → Option FsNode
  /-- The tasks, with what they have open. -/
  files : OpenFiles

/-- Entries other than "." and "..". -/
def GfsDentry.isChild (dent : GfsDentry) : Bool :=
  dent.fname ≠ selfName ∧ dent.fname ≠ parentName

/-- How many blocks an entry more takes in a directory with so many entries and blocks. -/
def entryCost (count nblk : Nat) : Nat :=
  if count < dataCount nblk * dentPerBlock then 0 else if nblk = inodeNdptr then 2 else 1

namespace TreeStore

/-- The names in a directory. -/
def dents (tree : TreeStore) (ino : Nat) : List GfsDentry :=
  match tree.node ino with
  | some (.dir dents _) => dents
  | _ => []

/-- What a name stands for. -/
def find (tree : TreeStore) (ino : Nat) (fname : CharBuf) : Option Nat :=
  (keyed GfsDentry.fname (tree.dents ino) fname).map GfsDentry.ino

/-- What is in a directory. -/
def children (tree : TreeStore) (ino : Nat) : List Nat :=
  ((tree.dents ino).filter GfsDentry.isChild).map GfsDentry.ino

/-- The inode that a new file or directory gets. -/
def vacant (tree : TreeStore) : Option Nat :=
  (List.range inodeBitmap.bits).find? fun ino => (tree.node ino).isNone

/-- How many blocks are in use. -/
def blocks (tree : TreeStore) : Nat :=
  ((List.range inodeBitmap.bits).map fun ino => ((tree.node ino).map FsNode.blocks).getD 0).sum

/-- How many blocks are free. -/
def free (tree : TreeStore) : Nat := blockBitmap.bits - tree.blocks

/-- The files alone. -/
def fileStore (tree : TreeStore) : FileStore where
  contents ino :=
    match tree.node ino with
    | some (.file bytes _) => some bytes
    | _ => none
  free := tree.free
  files := tree.files

/-- Files with other bytes. -/
def filled (tree : TreeStore) (store : FileStore) : TreeStore where
  node ino :=
    match tree.node ino with
    | some (.file _ nlink) => (store.contents ino).map fun bytes => .file bytes nlink
    | node => node
  files := store.files

/-- A node exchanged. -/
def put (tree : TreeStore) (ino : Nat) (node : FsNode) : TreeStore :=
  { tree with node := Function.update tree.node ino (some node) }

/-- A directory without a name. -/
def dropName (tree : TreeStore) (ino : Nat) (fname : CharBuf) : TreeStore :=
  match tree.node ino with
  | some (.dir dents nblk) =>
    tree.put ino (.dir (dents.filter fun dent => dent.fname ≠ fname) nblk)
  | _ => tree

/--
What is removed with an inode: all that is in it first, then itself.

A file comes as often as it has names there.
-/
def below (tree : TreeStore) : Nat → Nat → Option (List Nat)
  | 0, _ => none
  | depth + 1, ino =>
    if (tree.node ino).isNone then none
    else ((tree.children ino).mapM (tree.below depth)).map fun parts => parts.flatten ++ [ino]

/-- What is left: a file stays when it has other names. -/
def without (tree : TreeStore) (gone : List Nat) : TreeStore :=
  { tree with
    node := fun ino =>
      match tree.node ino with
      | some (.file bytes nlink) =>
        if 0 < gone.count ino ∧ nlink ≤ gone.count ino then none
        else some (.file bytes (nlink - gone.count ino))
      | some (.dir dents nblk) => if ino ∈ gone then none else some (.dir dents nblk)
      | none => none }

/-- Whether a task has a descriptor left. -/
def HasFd (tree : TreeStore) (i : Nat) : Prop :=
  ∃ task, tree.files.tasks[i]? = some task ∧ (task.fds.findIdx? Option.isNone).isSome

/-- Whether an inode is a directory. -/
def IsDir (tree : TreeStore) (ino : Nat) : Prop :=
  ∃ dents nblk, tree.node ino = some (.dir dents nblk)

/-- How many blocks an entry more takes in a directory. -/
def costOf (tree : TreeStore) (ino : Nat) : Nat :=
  match tree.node ino with
  | some (.dir dents nblk) => entryCost dents.length nblk
  | _ => 0

/-- Whether some task has the inode open, or is in it; "/" always counts as open. -/
def busy (tree : TreeStore) (ino : Nat) : Bool := flistSearch tree.files.flist ino

end TreeStore

/-- A name that is put somewhere among those of a directory. -/
inductive NameEntered (tree : TreeStore) (pino : Nat) (new : GfsDentry) : TreeStore → Prop
  /-- There is room for it. -/
  | intro {front back : List GfsDentry} {nblk : Nat} :
    tree.node pino = some (.dir (front ++ back) nblk) → (front ++ back).length < nDentries →
    NameEntered tree pino new (tree.put pino
      (.dir (front ++ new :: back) (nblk + entryCost (front ++ back).length nblk)))

/-- What `do_open` of a task may answer, and what becomes of the tree. -/
inductive OpenStep (tree : TreeStore) (i : Nat) (tname : CharBuf) (oflags : Nat) (noHeap : Bool) :
    Option Nat → Int → TreeStore → Prop
  /-- There is no parent. -/
  | noParent : OpenStep tree i tname oflags noHeap none (-2) tree
  /-- There is no name. -/
  | noName {pino : Nat} : tname = [] → OpenStep tree i tname oflags noHeap (some pino) (-1) tree
  /-- All descriptors are in use. -/
  | noFd {pino : Nat} {task : FileTask} : tree.files.tasks[i]? = some task →
    task.fds.findIdx? Option.isNone = none →
    OpenStep tree i tname oflags noHeap (some pino) (-3) tree
  /-- The file is there. -/
  | opened {pino tino nlink : Nat} {bytes : List UInt8} {fd : Int} {files : OpenFiles} :
    tree.find pino tname = some tino → tree.node tino = some (.file bytes nlink) →
    tree.files.doOpen i (.found tino) oflags noHeap = some (fd, files) →
    OpenStep tree i tname oflags noHeap (some pino) fd { tree with files }
  /-- There is a directory, or nothing that may be created. -/
  | refused {pino : Nat} : tree.HasFd i →
    ((∃ tino, tree.find pino tname = some tino ∧ tree.IsDir tino) ∨
      tree.find pino tname = none ∧ oflags &&& oCreat = 0) →
    OpenStep tree i tname oflags noHeap (some pino) (-1) tree
  /-- No inode is left, or no room in the parent. -/
  | full {pino : Nat} : tree.HasFd i → tree.find pino tname = none →
    (tree.vacant = none ∨ nDentries ≤ (tree.dents pino).length) →
    OpenStep tree i tname oflags noHeap (some pino) (-4) tree
  /-- An empty file is created. -/
  | created {pino tino : Nat} {fd : Int} {files : OpenFiles} {mid : TreeStore} :
    tree.HasFd i → tname ≠ [] → tree.find pino tname = none → oflags &&& oCreat ≠ 0 →
    tree.vacant = some tino → NameEntered tree pino ⟨tname, tino⟩ mid →
    tree.files.doOpen i (.found tino) oflags noHeap = some (fd, files) →
    OpenStep tree i tname oflags noHeap (some pino) fd { mid.put tino (.file [] 1) with files }

/-- What `do_mkdir` may answer. -/
inductive MkdirStep (tree : TreeStore) (tname : CharBuf) : Option Nat → Int → TreeStore → Prop
  /-- There is no parent. -/
  | noParent : MkdirStep tree tname none 1 tree
  /-- There is no name. -/
  | noName {pino : Nat} : tname = [] → MkdirStep tree tname (some pino) 2 tree
  /-- The parent is a file. -/
  | notDir {pino nlink : Nat} {bytes : List UInt8} :
    tree.node pino = some (.file bytes nlink) → MkdirStep tree tname (some pino) 1 tree
  /-- It has no room. -/
  | full {pino : Nat} : nDentries ≤ (tree.dents pino).length →
    MkdirStep tree tname (some pino) 3 tree
  /-- The name is taken. -/
  | taken {pino : Nat} : (tree.find pino tname).isSome → MkdirStep tree tname (some pino) 4 tree
  /-- No inode is left. -/
  | noInode {pino : Nat} : tree.vacant = none → MkdirStep tree tname (some pino) 5 tree
  /-- A directory is made, in which there are itself and its parent. -/
  | made {pino tino : Nat} {mid : TreeStore} {dents : List GfsDentry} : tname ≠ [] →
    tree.find pino tname = none → tree.vacant = some tino → NameEntered tree pino ⟨tname, tino⟩ mid →
    dents.Perm [⟨parentName, pino⟩, ⟨selfName, tino⟩] →
    MkdirStep tree tname (some pino) 0 (mid.put tino (.dir dents 1))

/-- What `do_hlink` may answer. -/
inductive HlinkStep (tree : TreeStore) (tname : CharBuf) :
    Option Nat → Option Nat → Int → TreeStore → Prop
  /-- There is no source. -/
  | noSource {pino : Option Nat} : HlinkStep tree tname none pino (-1) tree
  /-- It is a directory. -/
  | isDir {sino nblk : Nat} {pino : Option Nat} {dents : List GfsDentry} :
    tree.node sino = some (.dir dents nblk) → HlinkStep tree tname (some sino) pino (-2) tree
  /-- It has as many names as it may have. -/
  | many {sino nlink : Nat} {pino : Option Nat} {bytes : List UInt8} :
    tree.node sino = some (.file bytes nlink) → nlinkMax ≤ nlink →
    HlinkStep tree tname (some sino) pino (-3) tree
  /-- There is no parent. -/
  | noParent {sino : Nat} : HlinkStep tree tname (some sino) none (-4) tree
  /-- There is no name. -/
  | noName {sino pino : Nat} : tname = [] → HlinkStep tree tname (some sino) (some pino) (-5) tree
  /-- The name is taken. -/
  | taken {sino pino : Nat} : (tree.find pino tname).isSome →
    HlinkStep tree tname (some sino) (some pino) (-6) tree
  /-- The parent has no room. -/
  | full {sino pino : Nat} : nDentries ≤ (tree.dents pino).length →
    HlinkStep tree tname (some sino) (some pino) (-7) tree
  /-- The file gets another name. -/
  | linked {sino pino nlink : Nat} {bytes : List UInt8} {mid : TreeStore} :
    tree.node sino = some (.file bytes nlink) → nlink < nlinkMax → tname ≠ [] →
    tree.find pino tname = none → NameEntered tree pino ⟨tname, sino⟩ mid →
    HlinkStep tree tname (some sino) (some pino) 0 (mid.put sino (.file bytes (nlink + 1)))

/-- What `do_remove` may answer. -/
inductive RemoveStep (tree : TreeStore) (depth : Nat) (tname : CharBuf) :
    Option Nat → Int → TreeStore → Prop
  /-- There is no such file or directory, or nobody may remove it. -/
  | missed {ppino : Option Nat} :
    (∀ pino, ppino = some pino → tname = [] ∨ tname = selfName ∨ tname = parentName ∨
      tree.find pino tname = none) →
    RemoveStep tree depth tname ppino 1 tree
  /-- It is open. -/
  | busy {pino tino : Nat} : tree.find pino tname = some tino → tree.busy tino →
    RemoveStep tree depth tname (some pino) 2 tree
  /-- It is removed, with all that is in it. -/
  | removed {pino tino : Nat} {gone : List Nat} :
    tname ≠ [] → tname ≠ selfName → tname ≠ parentName →
    tree.find pino tname = some tino → tree.below depth tino = some gone →
    (∀ ino ∈ gone, tree.busy ino = false) →
    RemoveStep tree depth tname (some pino) 0 ((tree.without gone).dropName pino tname)

/-- What a call may answer, and what becomes of the tree. -/
inductive TreeStep : TreeStore → TreeEvent → IoAnswer → TreeStore → Prop
  /-- Bytes are moved, as on strings of bytes. -/
  | io {tree : TreeStore} {event : IoEvent} {answer : IoAnswer} {store : FileStore} :
    storeStep tree.fileStore event = some (answer, store) →
    TreeStep tree (.io event) answer (tree.filled store)
  /-- A file is opened. -/
  | doOpen {tree next : TreeStore} {i oflags : Nat} {ppino : Option Nat} {tname : CharBuf}
    {noHeap : Bool} {debbuf : Block} {fd : Int} :
    OpenStep tree i tname oflags noHeap ppino fd next →
    TreeStep tree (.doOpen i ppino tname oflags noHeap debbuf) (fd, none) next
  /-- A directory is made. -/
  | doMkdir {tree next : TreeStore} {ppino : Option Nat} {tname : CharBuf}
    {debbuf debbuf' debbuf'' : Block} {code : Int} : MkdirStep tree tname ppino code next →
    TreeStep tree (.doMkdir ppino tname debbuf debbuf' debbuf'') (code, none) next
  /-- A file is linked. -/
  | doHlink {tree next : TreeStore} {sino pino : Option Nat} {tname : CharBuf} {debbuf : Block}
    {code : Int} : HlinkStep tree tname sino pino code next →
    TreeStep tree (.doHlink sino pino tname debbuf) (code, none) next
  /-- Something is removed. -/
  | doRemove {tree next : TreeStore} {depth : Nat} {ppino : Option Nat} {tname : CharBuf}
    {code : Int} : RemoveStep tree depth tname ppino code next →
    TreeStep tree (.doRemove depth ppino tname) (code, none) next

/-! ## What they keep to -/

/-- A name that fits into an entry. -/
def Fits (tname : CharBuf) : Prop := (∀ c ∈ tname, c ≠ 0) ∧ tname.length ≤ fnLen

/-- Files are opened by their names, and tasks move to directories. -/
def IoEvent.Named (tree : TreeStore) : IoEvent → Prop
  | .files (.doOpen _ (.found _) _ _) => False
  | .files (.doChangedir _ target) => tree.IsDir target
  | _ => True

/--
What a call finds when it is to do its work.

Parents are inodes in use, names fit, and there are blocks for what is made. Nothing below a
directory that is removed is open, and there is stack for all that is.
-/
def TreeEvent.Legal (tree : TreeStore) : TreeEvent → Prop
  | .io event => event.Named tree ∧ event.Served tree.fileStore ∧
    (storeStep tree.fileStore event).isSome
  | .doOpen i ppino tname oflags _ _ => i < tree.files.tasks.length ∧
    ∀ pino, ppino = some pino → (tree.node pino).isSome ∧
      (oflags &&& oCreat ≠ 0 → tree.find pino tname = none →
        tree.IsDir pino ∧ Fits tname ∧ tree.costOf pino ≤ tree.free)
  | .doMkdir ppino tname _ _ _ => ∀ pino, ppino = some pino →
    (tree.node pino).isSome ∧ Fits tname ∧ tree.costOf pino + 1 ≤ tree.free
  | .doHlink sino pino tname _ => ∀ s, sino = some s → (tree.node s).isSome ∧
    ∀ p, pino = some p → tree.IsDir p ∧ Fits tname ∧ tree.costOf p ≤ tree.free
  | .doRemove depth ppino tname => 0 < depth ∧
    ∀ pino, ppino = some pino → (tree.node pino).isSome ∧
      ∀ tino, tname ≠ selfName → tname ≠ parentName → tree.find pino tname = some tino →
        tree.busy tino ∨ ∃ gone, tree.below depth tino = some gone ∧
          ∀ ino ∈ gone, tree.busy ino = false

end GlucOS
