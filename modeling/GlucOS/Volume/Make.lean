import GlucOS.Gfs.Open
import GlucOS.Volume.Dir

/-! The calls that give names to inodes: `do_mkdir`, `do_open` with `O_CREAT`, and `do_hlink`. -/

namespace GlucOS

/-- The sectors of the inode bitmap. -/
def inodeBitmap : SecRange := ⟨1, 8, by decide⟩

/-- `O_CREAT`. -/
def oCreat : Nat := 4

/-- `NLINK_MAX`. -/
def nlinkMax : Nat := 8

namespace Gfs

/-- One inode from the bitmap, if there is one. -/
def takeInode (fs : Gfs) : Option Nat × Gfs :=
  let (bitmaps, iarr) := gfsAllocInBitmap 1 inodeBitmap fs.bitmaps
  (iarr.head?, { fs with bitmaps })

/-- `GFS_free_in_bitmap` of an inode, whose answer nobody uses. -/
def freeInode (fs : Gfs) (ino : Nat) : Gfs :=
  { fs with bitmaps := (gfsFreeInBitmap ino inodeBitmap fs.bitmaps).1 }

end Gfs

/-- An inode with one link and without blocks. -/
def freshInode (type : InodeType) : GfsInode where
  nlink := 1
  type := type
  size := 0
  dptr := Vector.replicate _ inodeInvalidPtr
  idptr := inodeInvalidPtr
  diptr := inodeInvalidPtr

/-! ## `do_mkdir` -/

/-- The part of `do_mkdir` that fills the new directory, whose parent has its entry by now. -/
def fillNewDir (fs : Gfs) (ppino tino : Nat) (inode : GfsInode) (debbuf debbuf' : Block) :
    Int × Gfs :=
  match addDentry fs (freshInode .dir) selfName tino debbuf with
  | (0, tinode, fs) =>
    match addDentry fs tinode parentName ppino debbuf' with
    | (0, tinode, fs) =>
      let fs := fs.writeInode ppino inode
      (if fs.vol.inodeNum ≤ tino then -1 else 0, fs.writeInode tino tinode)
    | (2, _, fs) => (-1, fs.freeInode tino)
    | (_, _, fs) => (-1, fs)
  | (2, _, fs) => (-1, fs.freeInode tino)
  | (_, _, fs) => (-1, fs)

/--
`do_mkdir`, from where `path_anal_2` has found the parent and the name.

Each of the three entries is put into a buffer that may hold anything.
-/
def doMkdir (fs : Gfs) (ppino : Option Nat) (tname : CharBuf)
    (debbuf debbuf' debbuf'' : Block) : Int × Gfs :=
  match ppino with
  | none => (1, fs)
  | some ppino =>
    if tname = [] then (2, fs)
    else
      match fs.vol.readInode ppino with
      | none => (-1, fs)
      | some inode =>
        if inode.type ≠ .dir then (1, fs)
        else if nDentries ≤ inode.size then (3, fs)
        else if (fs.vol.searchDentryInDirInode inode tname).isSome then (4, fs)
        else
          match fs.takeInode with
          | (none, fs) => (5, fs)
          | (some tino, fs) =>
            match addDentry fs inode tname tino debbuf with
            | (0, inode, fs) => fillNewDir fs ppino tino inode debbuf' debbuf''
            | (2, _, fs) => (3, fs.freeInode tino)
            | (_, _, fs) => (-1, fs)

/-! ## `do_open` -/

/-- The part of `do_open` that creates the file. -/
def createFile (fs : Gfs) (ppino : Nat) (pinode : GfsInode) (tname : CharBuf) (debbuf : Block) :
    OpenLookup × Gfs :=
  match fs.takeInode with
  | (none, fs) => (.refused (-4), fs)
  | (some tino, fs) =>
    match addDentry fs pinode tname tino debbuf with
    | (0, pinode, fs) =>
      (.found tino, (fs.writeInode tino (freshInode .file)).writeInode ppino pinode)
    | (1, _, fs) => (.refused (-4), fs.freeInode tino)
    | (2, _, fs) => (.refused (-5), fs.freeInode tino)
    | (_, _, fs) => (.refused (-8), fs)

/-- What `do_open` finds under a name, where it may create a file. -/
def lookupOpen (fs : Gfs) (ppino : Nat) (tname : CharBuf) (oflags : Nat) (debbuf : Block) :
    OpenLookup × Gfs :=
  match fs.vol.readInode ppino with
  | none => (.refused (-8), fs)
  | some pinode =>
    match fs.vol.searchDentryInDirInode pinode tname with
    | some tino =>
      (if (fs.vol.inodes tino).type ≠ .file then .refused (-1) else .found tino, fs)
    | none => if oflags &&& oCreat ≠ 0 then createFile fs ppino pinode tname debbuf
      else (.refused (-1), fs)

/-! ## `do_hlink` -/

/-- `do_hlink`, from where the source and the parent and the name of the target are found. -/
def doHlink (fs : Gfs) (sino pino : Option Nat) (tname : CharBuf) (debbuf : Block) : Int × Gfs :=
  match sino with
  | none => (-1, fs)
  | some sino =>
    let sinode := fs.vol.inodes sino
    if sinode.type = .dir then (-2, fs)
    else if nlinkMax ≤ sinode.nlink then (-3, fs)
    else
      match pino with
      | none => (-4, fs)
      | some pino =>
        match fs.vol.readInode pino with
        | none => (-8, fs)
        | some pinode =>
          if tname = [] then (-5, fs)
          else if (fs.vol.searchDentryInDirInode pinode tname).isSome then (-6, fs)
          else
            match addDentry fs pinode tname sino debbuf with
            | (0, pinode, fs) =>
              (0, (fs.writeInode sino { sinode with nlink := sinode.nlink + 1 }).writeInode
                pino pinode)
            | (1, _, fs) => (-7, fs)
            | (adrt, _, fs) => (-12 + adrt, fs)

end GlucOS
