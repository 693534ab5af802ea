import GlucOS.Volume.Make

/-! Removing files and directories with all that is below them: `do_remove`. -/

namespace GlucOS

/-- GFS while something is removed from it. -/
structure Removal where
  /-- GFS. -/
  fs : Gfs
  /-- Whether the next calls of `kmalloc_g` find room; those behind the list do. -/
  heap : List Bool

/-- `kmalloc_g`, and whether it found room. -/
def Removal.kmalloc (r : Removal) : Bool × Removal :=
  match r.heap with
  | [] => (true, r)
  | room :: heap => (room, { r with heap })

/-- `GFS_free_in_bitmap` of a block: 0 on success, or 1 when there is no such block. -/
def Removal.freeBlock (r : Removal) (ptr : Nat) : Nat × Removal :=
  let (bitmaps, code) := gfsFreeInBitmap (u32Sub ptr gfsDatalocBlock) blockBitmap r.fs.bitmaps
  (code, { r with fs := { r.fs with bitmaps } })

/-! ## Files -/

/-- A loop that frees the blocks of an array of pointers: 1 when it meets no block. -/
def freePtrs : List Nat → Removal → Nat × Removal
  | [], r => (0, r)
  | ptr :: parr, r =>
    if ptr = inodeInvalidPtr then freePtrs parr r
    else
      match r.freeBlock ptr with
      | (0, r) => freePtrs parr r
      | (_, r) => (1, r)

/-- One step of the loop below: an indirect block of the double indirect block. -/
def freeGroup (ptr : Nat) (idbbuf : Bool) (r : Removal) : Int × Removal :=
  match if idbbuf then (true, r) else r.kmalloc with
  | (false, r) => (-2, r)
  | (true, r) =>
    match freePtrs (r.fs.vol.blocks ptr).ptrs r with
    | (0, r) =>
      match r.freeBlock ptr with
      | (0, r) => (0, r)
      | (_, r) => (-8, r)
    | (_, r) => (-7, r)

/-- The loop over the double indirect block; `idbbuf` tells whether there is a buffer already. -/
def freeGroups : List Nat → Bool → Removal → Int × Removal
  | [], _, r => (0, r)
  | ptr :: dib, idbbuf, r =>
    if ptr = inodeInvalidPtr then freeGroups dib idbbuf r
    else
      match freeGroup ptr idbbuf r with
      | (0, r) => freeGroups dib true r
      | (code, r) => (code, r)

/-- The indirect pointer of a file. -/
def freeIndirect (inode : GfsInode) (r : Removal) : Int × Removal :=
  if inode.idptr = inodeInvalidPtr then (0, r)
  else
    match r.kmalloc with
    | (false, r) => (-2, r)
    | (true, r) =>
      match freePtrs (r.fs.vol.blocks inode.idptr).ptrs r with
      | (0, r) =>
        match r.freeBlock inode.idptr with
        | (0, r) => (0, r)
        | (_, r) => (-6, r)
      | (_, r) => (-5, r)

/-- The double indirect pointer of a file. -/
def freeDouble (inode : GfsInode) (r : Removal) : Int × Removal :=
  if inode.diptr = inodeInvalidPtr then (0, r)
  else
    match r.kmalloc with
    | (false, r) => (-2, r)
    | (true, r) =>
      match freeGroups (r.fs.vol.blocks inode.diptr).ptrs (inode.idptr ≠ inodeInvalidPtr) r with
      | (0, r) =>
        match r.freeBlock inode.diptr with
        | (0, r) => (0, r)
        | (_, r) => (-9, r)
      | (code, r) => (code, r)

/-- The branch of `GFS_remove_file_or_dir` for files. -/
def removeFile (ino : Nat) (inode : GfsInode) (r : Removal) : Int × Removal :=
  if 2 ≤ inode.nlink then
    (1, { r with fs := r.fs.writeInode ino { inode with nlink := inode.nlink - 1 } })
  else
    match freePtrs inode.dptr.toList r with
    | (0, r) =>
      match freeIndirect inode r with
      | (0, r) =>
        match freeDouble inode r with
        | (0, r) => (0, { r with fs := r.fs.freeInode ino })
        | (code, r) => (code, r)
      | (code, r) => (code, r)
    | (_, r) => (-4, r)

/-! ## Directories -/

/-- What the scan of a block of entries comes to. -/
structure DentsScan where
  /-- The block, without the entries that were removed. -/
  debbuf : Block
  /-- Some entry is left. -/
  left : Bool
  /-- How many were removed. -/
  rmYmr : Nat
  /-- An error ended the scan. -/
  failed : Bool

/-- The loop of `rm_dentries_on_ptr_arr` over the entries of a block. -/
def rmDents (remove : Nat → Removal → Option (Int × Removal)) :
    List Nat → Block → Removal → Option (DentsScan × Removal)
  | [], debbuf, r => some (⟨debbuf, false, 0, false⟩, r)
  | j :: rest, debbuf, r =>
    let dent := debbuf.dents.getD j ⟨[], dentryInvalidIno⟩
    if dent.ino = dentryInvalidIno ∨ dent.fname = selfName ∨ dent.fname = parentName then
      rmDents remove rest debbuf r
    else
      (remove dent.ino r).bind fun (rmit, r) =>
        if rmit = 0 ∨ rmit = 1 then
          (rmDents remove rest (debbuf.setIno j dentryInvalidIno) r).map fun (scan, r) =>
            ({ scan with rmYmr := scan.rmYmr + 1 }, r)
        else if rmit = 2 then
          (rmDents remove rest debbuf r).map fun (scan, r) => ({ scan with left := true }, r)
        else if rmit < 0 then some (⟨debbuf, true, 0, true⟩, r)
        else rmDents remove rest debbuf r

/-- The loop of `rm_dentries_on_ptr_arr` over the pointers, with the array that it leaves. -/
def rmBlocks (remove : Nat → Removal → Option (Int × Removal)) :
    List Nat → Removal → Option ((List Nat × Nat) × Removal)
  | [], r => some (([], 0), r)
  | ptr :: parr, r =>
    if ptr = inodeInvalidPtr then
      (rmBlocks remove parr r).map fun ((parr, rmYmr), r) => ((ptr :: parr, rmYmr), r)
    else
      (rmDents remove (List.range dentPerBlock) (r.fs.vol.blocks ptr) r).bind fun (scan, r) =>
        if scan.failed then some ((ptr :: parr, scan.rmYmr), r)
        else if scan.left then
          (rmBlocks remove parr { r with fs := r.fs.putBlock ptr scan.debbuf }).map
            fun ((parr, rmYmr), r) => ((ptr :: parr, scan.rmYmr + rmYmr), r)
        else
          match r.freeBlock ptr with
          | (0, r) => (rmBlocks remove parr r).map
            fun ((parr, rmYmr), r) => ((inodeInvalidPtr :: parr, scan.rmYmr + rmYmr), r)
          | (_, r) => some ((ptr :: parr, scan.rmYmr), r)

/-- `rm_dentries_on_ptr_arr`, which does nothing when there is no room for its buffer. -/
def rmDentriesOnPtrArr (remove : Nat → Removal → Option (Int × Removal)) (parr : List Nat)
    (r : Removal) : Option ((List Nat × Nat) × Removal) :=
  match r.kmalloc with
  | (false, r) => some ((parr, 0), r)
  | (true, r) => rmBlocks remove parr r

/-- The end of the branch of `GFS_remove_file_or_dir` for directories. -/
def finishDir (ino : Nat) (inode : GfsInode) (removed : Nat) (r : Removal) : Int × Removal :=
  let size := u32Sub inode.size removed
  if 2 < size then (2, { r with fs := r.fs.writeInode ino { inode with size } })
  else (0, { r with fs := r.fs.freeInode ino })

/-- The branch of `GFS_remove_file_or_dir` for directories. -/
def removeDir (remove : Nat → Removal → Option (Int × Removal)) (ino : Nat) (inode : GfsInode)
    (r : Removal) : Option (Int × Removal) :=
  (rmDentriesOnPtrArr remove inode.dptr.toList r).bind fun ((parr, rdprt1), r) =>
    let inode := { inode with dptr := Vector.ofFn fun i => parr.getD i.val inodeInvalidPtr }
    if inode.idptr = inodeInvalidPtr then some (finishDir ino inode rdprt1 r)
    else
      match r.kmalloc with
      | (false, r) => some (-2, r)
      | (true, r) =>
        (rmDentriesOnPtrArr remove (r.fs.vol.blocks inode.idptr).ptrs r).bind
          fun ((idbbuf, rdprt2), r) =>
            if idbbuf.any fun ptr => ptr ≠ inodeInvalidPtr then
              some (finishDir ino inode (rdprt1 + rdprt2)
                { r with fs := r.fs.putBlock inode.idptr (Block.ofPtrs idbbuf) })
            else
              match r.freeBlock inode.idptr with
              | (0, r) =>
                some (finishDir ino { inode with idptr := inodeInvalidPtr } (rdprt1 + rdprt2) r)
              | (_, r) => some (-3, r)

/-- `flist_search`: whether an inode is in the list, as that of "/" always is. -/
def flistSearch (flist : List FlistNode) (ino : Nat) : Bool :=
  ino = 0 ∨ flist.any fun node => node.ino = ino

/-- `GFS_remove_file_or_dir`, with a stack for so many calls of it. -/
def gfsRemoveFileOrDir (flist : List FlistNode) : Nat → Nat → Removal → Option (Int × Removal)
  | 0, _, _ => none
  | depth + 1, ino, r =>
    if flistSearch flist ino then some (2, r)
    else
      match r.fs.vol.readInode ino with
      | none => some (-1, r)
      | some inode =>
        match inode.type with
        | .dir => removeDir (gfsRemoveFileOrDir flist depth) ino inode r
        | .file => some (removeFile ino inode r)

/-- `do_remove`, from where `path_anal_2` has found the parent and the name. -/
def doRemove (flist : List FlistNode) (depth : Nat) (heap : List Bool) (fs : Gfs)
    (ppino : Option Nat) (tname : CharBuf) : Option (Int × Gfs) :=
  match ppino with
  | none => some (1, fs)
  | some ppino =>
    if tname = [] ∨ tname = selfName ∨ tname = parentName then some (1, fs)
    else
      match fs.vol.readInode ppino with
      | none => some (-1, fs)
      | some pinode =>
        match fs.vol.searchDentryInDirInode pinode tname with
        | none => some (1, fs)
        | some tino =>
          (gfsRemoveFileOrDir flist depth tino ⟨fs, heap⟩).map fun (rmdrt, r) =>
            if rmdrt = 0 ∨ rmdrt = 1 then
              let (rmert, pinode, fs) := removeDentryInDirInode r.fs pinode tname
              if rmert ≠ 1 then (-1, fs) else (0, fs.writeInode ppino pinode)
            else if rmdrt = 2 then (2, r.fs)
            else (-1, r.fs)

end GlucOS
