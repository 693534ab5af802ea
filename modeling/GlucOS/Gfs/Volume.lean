import GlucOS.Gfs.Path

/-! Inodes, directory entries and the blocks that hold them, and how a path is looked up. -/

namespace GlucOS

/-- Direct pointers of an inode. -/
def inodeNdptr : Nat := 10

/-- The pointer to no block. -/
def inodeInvalidPtr : Nat := 0

/-- The index of no inode, which marks unused directory entries. -/
def dentryInvalidIno : Nat := uint32Max

/-- The longest name. -/
def fnLen : Nat := 59

/-- The longest path. -/
def pathLen : Nat := 71

/-- Pointers of an indirect block. -/
def ptrPerBlock : Nat := blockSize / 4

/-- `sizeof(GFS_dentry_t)`: a name, its end, and the index of an inode. -/
def dentSize : Nat := fnLen + 1 + 4

/-- Directory entries of a block. -/
def dentPerBlock : Nat := blockSize / dentSize

/-- `enum Inode_type`. -/
inductive InodeType
  /-- `IT_FILE`. -/
  | file
  /-- `IT_DIR`. -/
  | dir
deriving DecidableEq

/-- `GFS_inode_t`, without the fields that nothing reads. -/
structure GfsInode where
  /-- How many entries name the inode. -/
  nlink : Nat
  /-- File or directory. -/
  type : InodeType
  /-- Bytes of a file, or entries of a directory. -/
  size : Nat
  /-- Direct pointers. -/
  dptr : Vector Nat inodeNdptr
  /-- The indirect pointer. -/
  idptr : Nat
  /-- The double indirect pointer. -/
  diptr : Nat

/-- `GFS_dentry_t`, with the name as a string. -/
structure GfsDentry where
  /-- The name up to its end. -/
  fname : CharBuf
  /-- The index of the inode it names. -/
  ino : Nat
deriving DecidableEq

namespace Block

/-- The byte at an offset. -/
def byte (block : Block) (at_ : Nat) : UInt8 :=
  if inside : at_ < blockSize then block ⟨at_, inside⟩ else 0

/-- The 32-bit word with this number. -/
def word (block : Block) (i : Nat) : Nat :=
  (block.byte (4 * i)).toNat + 2 ^ 8 * (block.byte (4 * i + 1)).toNat +
    2 ^ 16 * (block.byte (4 * i + 2)).toNat + 2 ^ 24 * (block.byte (4 * i + 3)).toNat

/-- The string at an offset, which ends with the block at the latest. -/
def str (block : Block) (at_ : Nat) : CharBuf :=
  ((List.range' at_ (blockSize - at_)).map block.byte).takeWhile fun c => c ≠ 0

/-- The block as an array of pointers. -/
def ptrs (block : Block) : List Nat := (List.range ptrPerBlock).map block.word

/-- The block as an array of directory entries. -/
def dents (block : Block) : List GfsDentry := (List.range dentPerBlock).map fun j =>
  { fname := block.str (dentSize * j), ino := block.word (dentSize / 4 * j + (fnLen + 1) / 4) }

end Block

/-- The inodes and blocks of GFS as the kernel reads them: the cached inodes, and the cache. -/
structure GfsVolume where
  /-- `GFS_superblock->inode_num`. -/
  inodeNum : Nat
  /-- `gfsc_inodes[]`. -/
  inodes : Nat → GfsInode
  /-- `GFS_read_block`, by the block's index in GFS. -/
  blocks : Nat → Block

namespace GfsVolume

/-- `GFS_read_inode`. -/
def readInode (vol : GfsVolume) (ino : Nat) : Option GfsInode :=
  if ino ≥ vol.inodeNum then none else some (vol.inodes ino)

/-- `search_dentry_on_ptr_arr`, where nothing stands for `DENTRY_INVALID_INO`. -/
def searchDentryOnPtrArr (vol : GfsVolume) (parr : List Nat) (fname : CharBuf) : Option Nat :=
  parr.findSome? fun ptr =>
    if ptr = inodeInvalidPtr then none
    else (vol.blocks ptr).dents.findSome? fun dent =>
      if dent.ino ≠ dentryInvalidIno ∧ dent.fname = fname then some dent.ino else none

/-- `search_dentry_in_dir_inode`. -/
def searchDentryInDirInode (vol : GfsVolume) (inode : GfsInode) (fname : CharBuf) : Option Nat :=
  if inode.type ≠ .dir then none
  else
    match vol.searchDentryOnPtrArr inode.dptr.toList fname with
    | some ino => some ino
    | none =>
      if inode.idptr ≠ inodeInvalidPtr then
        vol.searchDentryOnPtrArr (vol.blocks inode.idptr).ptrs fname
      else none

/-- Entries of the array `fnames[]` of `path_anal`. -/
def analMax : Nat := 16

/-- The loop of `path_anal` over the names found in its copy of the path. -/
def pathFollow (vol : GfsVolume) (path : CharBuf) : List Nat → Nat → Option Nat
  | [], ino => if ino ≥ vol.inodeNum then none else some ino
  | p :: fnames, ino => do
    let inode ← vol.readInode ino
    if inode.type ≠ .dir then none
    else pathFollow vol path fnames (← vol.searchDentryInDirInode inode (cstr path p))

/-- `path_anal` for a string, with the caller's current directory. -/
def pathAnal (vol : GfsVolume) (curIno : Nat) (spath : CharBuf) : Option Nat :=
  if spath.length > pathLen then none
  else
    let path := spath ++ [0]
    let (ino, path) := if path.head? = some slash then (0, path.tail) else (curIno, path)
    let (fnames, path) := split slash analMax path 0 true 0
    vol.pathFollow path fnames ino

/-- `strncpy` of a string: what is left of the target is filled with zeros. -/
def strncpy (src : CharBuf) (n : Nat) : CharBuf := src.take n ++ List.replicate (n - src.length) 0

/-- The downward search of `path_anal_2` for the last slash. -/
def lastSlash (tpath : CharBuf) : Nat → Option Nat
  | 0 => if tpath.getD 0 0 = slash then some 0 else none
  | i + 1 => if tpath.getD (i + 1) 0 = slash then some (i + 1) else lastSlash tpath i

/-- What `path_anal_2` answers with and leaves behind. -/
structure Path2 where
  /-- The parent directory. -/
  ppino : Option Nat
  /-- The buffer `tpath`, as far as it was written. -/
  tpath : CharBuf
  /-- The offset in it that `*ptname` points at. -/
  ptname : Nat

/-- `path_anal_2` for a string. -/
def pathAnal2 (vol : GfsVolume) (curIno : Nat) (spath : CharBuf) : Path2 :=
  let tpath := strncpy spath pathLen ++ [0]
  match lastSlash tpath (cstr tpath 0).length with
  | none => ⟨some curIno, tpath, 0⟩
  | some ils =>
    let tpath := tpath.set ils 0
    ⟨if ils = 0 then some 0 else vol.pathAnal curIno (cstr tpath 0), tpath, ils + 1⟩

end GfsVolume

end GlucOS
