import GlucOS.Gfs.PathLaws
import GlucOS.Gfs.File

/-! Directory entries: how they are added, removed and counted. -/

namespace GlucOS

/-- `NDENTRIES`. -/
def nDentries : Nat := (inodeNdptr + ptrPerBlock) * dentPerBlock

/-- The name of a directory in itself. -/
def selfName : CharBuf := [46]

/-- The name of its parent there. -/
def parentName : CharBuf := [46, 46]

namespace Block

/-- The name of an entry, which ends behind `FNLEN` characters at the latest. -/
def setFname (block : Block) (j : Nat) (fname : CharBuf) : Block := fun byte =>
  if dentSize * j ≤ byte.val ∧ byte.val < dentSize * j + fnLen + 1 then
    (GfsVolume.strncpy fname fnLen).getD (byte.val - dentSize * j) 0
  else block byte

/-- The inode that an entry names. -/
def setIno (block : Block) (j ino : Nat) : Block := fun byte =>
  if dentSize * j + fnLen + 1 ≤ byte.val ∧ byte.val < dentSize * (j + 1) then
    UInt8.ofNat (ino / 256 ^ (byte.val - (dentSize * j + fnLen + 1)))
  else block byte

/-- An entry. -/
def setDent (block : Block) (j : Nat) (fname : CharBuf) (ino : Nat) : Block :=
  (block.setFname j fname).setIno j ino

/-- The first entry that is not used. -/
def freeDent (block : Block) : Option Nat :=
  block.dents.findIdx? fun dent => dent.ino = dentryInvalidIno

/-- What a new block gets, from a buffer that may hold anything: one entry, and unused ones. -/
def freshDents (debbuf : Block) (fname : CharBuf) (ino : Nat) : Block :=
  (List.range' 1 (dentPerBlock - 1)).foldl (fun block j => block.setIno j dentryInvalidIno)
    (debbuf.setDent 0 fname ino)

end Block

/-! ## `GFS_add_dentry` -/

/-- Where the scan of an array of pointers ends, with the number of the pointer. -/
inductive DentPlace
  /-- At a pointer to no block, with what the buffer holds then. -/
  | fresh (i : Nat) (debbuf : Block)
  /-- At an entry that is not used. -/
  | slot (i j : Nat)
  /-- Behind the array. -/
  | full (debbuf : Block)

/-- The loops of `GFS_add_dentry` over an array of pointers, from number `i` on. -/
def scanPlaces (blocks : Nat → Block) : List Nat → Nat → Block → DentPlace
  | [], _, debbuf => .full debbuf
  | ptr :: parr, i, debbuf =>
    if ptr = inodeInvalidPtr then .fresh i debbuf
    else
      match (blocks ptr).freeDent with
      | some j => .slot i j
      | none => scanPlaces blocks parr (i + 1) (blocks ptr)

namespace Gfs

/-- One block from the bitmap, if there is one. -/
def takeBlock (fs : Gfs) : Option Nat × Gfs :=
  let (bitmaps, iarr) := gfsAllocInBitmap 1 blockBitmap fs.bitmaps
  (iarr.head?.map fun bidx => bidx + gfsDatalocBlock, { fs with bitmaps })

/-- A block written. -/
def putBlock (fs : Gfs) (ptr : Nat) (block : Block) : Gfs :=
  fs.putBlocks (Function.update fs.vol.blocks ptr block)

end Gfs

/-- The branch of `GFS_add_dentry` for the indirect block, which is there by now. -/
def addDentryIndirect (fs : Gfs) (inode : GfsInode) (fname : CharBuf) (ino : Nat)
    (debbuf : Block) : Int × GfsInode × Gfs :=
  let idbbuf := (fs.vol.blocks inode.idptr).ptrs
  match scanPlaces fs.vol.blocks idbbuf 0 debbuf with
  | .fresh i debbuf =>
    match fs.takeBlock with
    | (none, fs) => (2, inode, fs)
    | (some bidx, fs) =>
      (0, { inode with size := inode.size + 1 },
        (fs.putBlock bidx (debbuf.freshDents fname ino)).putBlock inode.idptr
          (Block.ofPtrs (idbbuf.set i bidx)))
  | .slot i j =>
    let bidx := idbbuf.getD i inodeInvalidPtr
    (0, { inode with size := inode.size + 1 },
      (fs.putBlock bidx ((fs.vol.blocks bidx).setDent j fname ino)).putBlock inode.idptr
        (Block.ofPtrs idbbuf))
  | .full _ => (-3, inode, fs)

/--
`GFS_add_dentry`: its answer, the caller's inode, and the volume.

The buffer for a block of entries holds anything at first.
-/
def addDentry (fs : Gfs) (inode : GfsInode) (fname : CharBuf) (ino : Nat) (debbuf : Block) :
    Int × GfsInode × Gfs :=
  if inode.type ≠ .dir then (-1, inode, fs)
  else if nDentries ≤ inode.size then (1, inode, fs)
  else
    match scanPlaces fs.vol.blocks inode.dptr.toList 0 debbuf with
    | .fresh i debbuf =>
      match fs.takeBlock with
      | (none, fs) => (2, inode, fs)
      | (some bidx, fs) =>
        (0, { inode with dptr := inode.dptr.setIfInBounds i bidx, size := inode.size + 1 },
          fs.putBlock bidx (debbuf.freshDents fname ino))
    | .slot i j =>
      let bidx := inode.dptr.toList.getD i inodeInvalidPtr
      (0, { inode with size := inode.size + 1 },
        fs.putBlock bidx ((fs.vol.blocks bidx).setDent j fname ino))
    | .full debbuf =>
      if inode.idptr = inodeInvalidPtr then
        match fs.takeBlock with
        | (none, fs) => (2, inode, fs)
        | (some idbidx, fs) =>
          addDentryIndirect
            (fs.putBlock idbidx (Block.ofPtrs (List.replicate ptrPerBlock inodeInvalidPtr)))
            { inode with idptr := idbidx } fname ino debbuf
      else addDentryIndirect fs inode fname ino debbuf

/-! ## Removing -/

/-- Whether `strncmp` finds the first `FNLEN` characters of two names equal. -/
def sameFname (fname fname' : CharBuf) : Bool := fname.take fnLen = fname'.take fnLen

/-- The inner loop of `remove_dentry_on_ptr_arr`: the block, and how many entries it lost. -/
def removeDents (fname : CharBuf) (block : Block) : List Nat → Block × Nat
  | [] => (block, 0)
  | j :: rest =>
    let dent := block.dents.getD j ⟨[], dentryInvalidIno⟩
    if dent.ino ≠ dentryInvalidIno ∧ sameFname dent.fname fname then
      let (block, rYmr) := removeDents fname (block.setIno j dentryInvalidIno) rest
      (block, rYmr + 1)
    else removeDents fname block rest

/-- `remove_dentry_on_ptr_arr`. -/
def removeDentryOnPtrArr (fname : CharBuf) (blocks : Nat → Block) : List Nat → (Nat → Block) × Nat
  | [] => (blocks, 0)
  | ptr :: parr =>
    if ptr = inodeInvalidPtr then removeDentryOnPtrArr fname blocks parr
    else
      let (block, here) := removeDents fname (blocks ptr) (List.range dentPerBlock)
      let (blocks, rYmr) := removeDentryOnPtrArr fname
        (if 0 < here then Function.update blocks ptr block else blocks) parr
      (blocks, here + rYmr)

/-- `remove_dentry_in_dir_inode`: its answer, the caller's inode, and the volume. -/
def removeDentryInDirInode (fs : Gfs) (inode : GfsInode) (fname : CharBuf) :
    Nat × GfsInode × Gfs :=
  if inode.type ≠ .dir then (0, inode, fs)
  else
    let (blocks, direct) := removeDentryOnPtrArr fname fs.vol.blocks inode.dptr.toList
    let (blocks, rYmr) :=
      if inode.idptr ≠ inodeInvalidPtr then
        let (blocks, indirect) := removeDentryOnPtrArr fname blocks (blocks inode.idptr).ptrs
        (blocks, direct + indirect)
      else (blocks, direct)
    -- An impossible size is only reported.
    let size := if inode.size < rYmr + 2 then inode.size else inode.size - rYmr
    (rYmr, { inode with size }, fs.putBlocks blocks)

/-! ## Counting -/

/-- `scan_dentries_on_ptr_arr`: the number of entries that it prints. -/
def scanDentriesOnPtrArr (blocks : Nat → Block) (parr : List Nat) : Nat :=
  (parr.map fun ptr =>
    if ptr = inodeInvalidPtr then 0
    else (blocks ptr).dents.countP fun dent => dent.ino ≠ dentryInvalidIno).sum

/-- `do_readdir` of an inode: the number of entries that it prints. -/
def readdirInode (vol : GfsVolume) (inode : GfsInode) : Nat :=
  if inode.type ≠ .dir then 0
  else scanDentriesOnPtrArr vol.blocks inode.dptr.toList +
    if inode.idptr ≠ inodeInvalidPtr then
      scanDentriesOnPtrArr vol.blocks (vol.blocks inode.idptr).ptrs
    else 0

end GlucOS
