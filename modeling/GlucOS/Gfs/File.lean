import GlucOS.Gfs.Bitmap
import GlucOS.Gfs.Volume

/-! Writing to an open file: `do_write`, which fills in the pointers of new blocks on its way. -/

namespace GlucOS

/-- `OFILE_MAX`. -/
def ofileMax : Nat := 4

/-- `O_WRONLY`. -/
def oWronly : Nat := 2

/-- `KVA_MIN`, from where on addresses are the kernel's. -/
def kvaMin : Nat := 0xffffffc000000000

/-- `GFS_DATALOC_BLOCK`. -/
def gfsDatalocBlock : Nat := 3656 / secPerBlock

/-- The sectors of the block bitmap. -/
def blockBitmap : SecRange := ⟨8, 72, by decide⟩

/-- Inodes of a sector. -/
def inodePerSec : Nat := sectorSize / 64

/-- The block that holds an array of pointers. -/
def Block.ofPtrs (parr : List Nat) : Block := fun byte =>
  UInt8.ofNat (parr.getD (byte.val / 4) 0 / 256 ^ (byte.val % 4))

/-- `file_desc_t` of an open file. -/
structure FileDesc where
  /-- The inode of `fnode`. -/
  ino : Nat
  /-- `oflags`. -/
  oflags : Nat
  /-- `pos`. -/
  pos : Nat

/-- GFS as one process sees it. -/
structure Gfs where
  /-- The cached inodes, and the blocks. -/
  vol : GfsVolume
  /-- The inodes on the disk. -/
  inodesOnDisk : Nat → GfsInode
  /-- The bitmaps, cached and on the disk. -/
  bitmaps : SecMem
  /-- The process's `fds[]`, with nothing where `fnode` is null. -/
  fds : Nat → Option FileDesc

namespace Gfs

/-- `GFS_write_inode`, which writes the whole sector of the inode. -/
def writeInode (fs : Gfs) (ino : Nat) (inode : GfsInode) : Gfs :=
  if ino ≥ fs.vol.inodeNum then fs
  else
    let inodes := Function.update fs.vol.inodes ino inode
    { fs with
      vol := { fs.vol with inodes }
      inodesOnDisk := fun other =>
        if other / inodePerSec = ino / inodePerSec then inodes other else fs.inodesOnDisk other }

/-- The open file behind a descriptor, when it was opened with this flag. -/
def openFile (fs : Gfs) (fd : Int) (flag : Nat) : Option FileDesc :=
  if fd < 0 ∨ ofileMax ≤ fd then none
  else (fs.fds fd.toNat).bind fun desc => if desc.oflags &&& flag = 0 then none else some desc

/-- The inode changed in the cache alone. -/
def putInode (fs : Gfs) (ino : Nat) (inode : GfsInode) : Gfs :=
  { fs with vol := { fs.vol with inodes := Function.update fs.vol.inodes ino inode } }

/-- The blocks changed. -/
def putBlocks (fs : Gfs) (blocks : Nat → Block) : Gfs := { fs with vol := { fs.vol with blocks } }

/-- The position of an open file changed. -/
def putPos (fs : Gfs) (fd : Int) (desc : FileDesc) (pos : Nat) : Gfs :=
  { fs with fds := Function.update fs.fds fd.toNat (some { desc with pos }) }

end Gfs

/-! ## Counting blocks -/

/-- `udiv`, which rounds up. -/
def udiv (x d : Nat) : Nat := u32 (x + (d - 1)) / d

/-- `GFS_nbytes2blocks`. -/
def gfsNbytes2blocks (size : Nat) : Nat :=
  if size ≤ inodeNdptr * blockSize then udiv size blockSize
  else
    let size := size - inodeNdptr * blockSize
    let nblk := inodeNdptr + 1
    if size ≤ ptrPerBlock * blockSize then nblk + udiv size blockSize
    else
      let size := size - ptrPerBlock * blockSize
      let nblk := nblk + (1 + ptrPerBlock)
      nblk + udiv size blockSize + udiv size (ptrPerBlock * blockSize)

/-! ## Filling in pointers -/

/-- Fills the places of an array that hold no pointer, and answers with the pointers left. -/
def fillPtrs : List Nat → List Nat → List Nat × List Nat
  | ptr :: parr, q :: aptr =>
    if ptr = inodeInvalidPtr then
      let (parr, left) := fillPtrs parr aptr
      (q :: parr, left)
    else
      let (parr, left) := fillPtrs parr (q :: aptr)
      (ptr :: parr, left)
  | parr, aptr => (parr, aptr)

/-- Filling an array does not make it longer. -/
theorem fillPtrs_length (parr aptr : List Nat) : (fillPtrs parr aptr).1.length = parr.length := by
  fun_induction fillPtrs parr aptr <;> simp_all

/-- A new array, which takes the next pointers. -/
def freshPtrs (aptr : List Nat) : List Nat × List Nat :=
  (aptr.take ptrPerBlock ++ List.replicate (ptrPerBlock - aptr.length) inodeInvalidPtr,
    aptr.drop ptrPerBlock)

/-- The block of an indirect pointer, filled; it is written when it was changed. -/
def fillBlock (ptr : Nat) (blocks : Nat → Block) (aptr : List Nat) : (Nat → Block) × List Nat :=
  let (idb, left) := fillPtrs (blocks ptr).ptrs aptr
  (if left.length < aptr.length then Function.update blocks ptr (Block.ofPtrs idb) else blocks,
    left)

/--
The loop over the pointers of a double indirect block.

A new one is passed without any pointer.
-/
def fillGroups : List Nat → (Nat → Block) → List Nat → List Nat × (Nat → Block) × List Nat
  | ptr :: dib, blocks, q :: aptr =>
    if ptr = inodeInvalidPtr then
      let (idb, left) := freshPtrs aptr
      let (dib, blocks, left) := fillGroups dib (Function.update blocks q (Block.ofPtrs idb)) left
      (q :: dib, blocks, left)
    else
      let (blocks, left) := fillBlock ptr blocks (q :: aptr)
      let (dib, blocks, left) := fillGroups dib blocks left
      (ptr :: dib, blocks, left)
  | dib, blocks, aptr => (dib, blocks, aptr)

/-- The direct pointers, filled. -/
def fillDirect (inode : GfsInode) (aptr : List Nat) : GfsInode × List Nat :=
  ({ inode with
     dptr := ⟨(fillPtrs inode.dptr.toList aptr).1.toArray, by
       rw [List.size_toArray, fillPtrs_length, Vector.length_toList]⟩ },
    (fillPtrs inode.dptr.toList aptr).2)

/-- The indirect pointer and its block, filled. -/
def fillIndirect (inode : GfsInode) (blocks : Nat → Block) :
    List Nat → GfsInode × (Nat → Block) × List Nat
  | [] => (inode, blocks, [])
  | q :: aptr =>
    if inode.idptr = inodeInvalidPtr then
      let (idb, left) := freshPtrs aptr
      ({ inode with idptr := q }, Function.update blocks q (Block.ofPtrs idb), left)
    else
      let (blocks, left) := fillBlock inode.idptr blocks (q :: aptr)
      (inode, blocks, left)

/-- The double indirect pointer and its blocks, filled. -/
def fillDouble (inode : GfsInode) (blocks : Nat → Block) : List Nat → GfsInode × (Nat → Block)
  | [] => (inode, blocks)
  | q :: aptr =>
    if inode.diptr = inodeInvalidPtr then
      let (dib, blocks, _) :=
        fillGroups (List.replicate ptrPerBlock inodeInvalidPtr) blocks aptr
      ({ inode with diptr := q }, Function.update blocks q (Block.ofPtrs dib))
    else
      let old := (blocks inode.diptr).ptrs
      let (dib, blocks, _) := fillGroups old blocks (q :: aptr)
      (inode,
        if dib = old then blocks else Function.update blocks inode.diptr (Block.ofPtrs dib))

/-- The stage of `do_write` that fills pointers into the inode. -/
def fillInode (inode : GfsInode) (blocks : Nat → Block) (aptr : List Nat) :
    GfsInode × (Nat → Block) :=
  let (inode, left) := fillDirect inode aptr
  let (inode, blocks, left) := fillIndirect inode blocks left
  fillDouble inode blocks left

/-- The stage of `do_write` that allocates so many blocks for the inode. -/
def Gfs.extend (fs : Gfs) (ino n : Nat) : Gfs :=
  let (bitmaps, aptr) := gfsAllocInBitmap n blockBitmap fs.bitmaps
  let (inode, blocks) := fillInode (fs.vol.inodes ino) fs.vol.blocks
    (aptr.map fun ptr => ptr + gfsDatalocBlock)
  { (fs.putInode ino inode).putBlocks blocks with bitmaps }

/-! ## Writing data -/

/-- The loop of `write_file_on_ptr_arr` over the pointers. -/
def writePtrs (len : Nat) (buf : Nat → UInt8) :
    List Nat → (Nat → Block) → Nat → Nat → (Nat → Block) × Nat
  | [], blocks, _, w => (blocks, w)
  | ptr :: parr, blocks, boffset, w =>
    if ptr = inodeInvalidPtr then (blocks, w)
    else
      let more := min (blockSize - boffset) (len - w)
      let dataBlock : Block := fun byte =>
        if boffset ≤ byte.val ∧ byte.val < boffset + more then buf (w + (byte.val - boffset))
        else blocks ptr byte
      writePtrs len buf parr (Function.update blocks ptr dataBlock) 0 (w + more)

/-- `write_file_on_ptr_arr`. -/
def writeFileOnPtrArr (parr : List Nat) (startPos len : Nat) (buf : Nat → UInt8)
    (blocks : Nat → Block) : (Nat → Block) × Nat :=
  if len = 0 ∨ parr.length = 0 then (blocks, 0)
  else
    let startPidx := startPos / blockSize
    let endPidx := min (u32 (startPos + len - 1) / blockSize) (parr.length - 1)
    writePtrs len buf ((parr.take (endPidx + 1)).drop startPidx) blocks (startPos % blockSize) 0

/-- Bytes that direct pointers reach. -/
def directBytes : Nat := inodeNdptr * blockSize

/-- Bytes that the pointers of a block reach. -/
def groupBytes : Nat := ptrPerBlock * blockSize

/-- The loop of `do_write` over the pointers of the double indirect block, from number `i` on. -/
def writeGroups (pos len : Nat) (buf : Nat → UInt8) :
    List Nat → Nat → (Nat → Block) → Nat → (Nat → Block) × Except Int Nat
  | [], _, blocks, w => (blocks, .ok w)
  | ptr :: dib, i, blocks, w =>
    if len ≤ w ∨ ptr = inodeInvalidPtr then (blocks, .ok w)
    else if pos + w < directBytes + (i + 1) * groupBytes then (blocks, .error (-10))
    else
      let idb := (blocks ptr).ptrs
      let (blocks, more) := writeFileOnPtrArr idb (pos + w - (directBytes + (i + 1) * groupBytes))
        (len - w) (fun k => buf (w + k)) blocks
      writeGroups pos len buf dib (i + 1) (Function.update blocks ptr (Block.ofPtrs idb)) (w + more)

/-- The stage of `do_write` that copies the data: the bytes written, or an error. -/
def writeData (inode : GfsInode) (pos len : Nat) (buf : Nat → UInt8) (blocks : Nat → Block) :
    (Nat → Block) × Except Int Nat :=
  let (blocks, w) := writeFileOnPtrArr inode.dptr.toList pos len buf blocks
  if len ≤ w then (blocks, .ok w)
  else if pos + w < directBytes ∨ inode.idptr = inodeInvalidPtr then (blocks, .error (-8))
  else
    let idb := (blocks inode.idptr).ptrs
    let (blocks, more) := writeFileOnPtrArr idb (pos + w - directBytes) (len - w)
      (fun k => buf (w + k)) blocks
    let blocks := Function.update blocks inode.idptr (Block.ofPtrs idb)
    let w := w + more
    if len ≤ w then (blocks, .ok w)
    else if inode.diptr = inodeInvalidPtr then (blocks, .error (-9))
    else
      let dib := (blocks inode.diptr).ptrs
      match writeGroups pos len buf dib 0 blocks w with
      | (blocks, .error code) => (blocks, .error code)
      | (blocks, .ok w) => (Function.update blocks inode.diptr (Block.ofPtrs dib), .ok w)

/-! ## `do_write` -/

/-- The end of `do_write`, from where the data are copied. -/
def Gfs.copyData (fs : Gfs) (fd : Int) (desc : FileDesc) (len : Nat) (buf : Nat → UInt8) :
    Int × Gfs :=
  let inode := fs.vol.inodes desc.ino
  match writeData inode desc.pos len buf fs.vol.blocks with
  | (blocks, .error code) => (code, fs.putBlocks blocks)
  | (blocks, .ok w) =>
    let pos := desc.pos + len
    let size := if inode.size < pos then pos else inode.size
    (w, ((fs.putBlocks blocks).putPos fd desc pos).writeInode desc.ino { inode with size })

/--
`do_write`, where `noHeap` says that there is no kernel heap for the array of pointers.

`addr` is the address of the buffer and `byte` what it holds, which is zero when `addr` is null.
It calls itself for the padding, so often as the first argument says.
-/
def doWrite (noHeap : Bool) :
    Nat → Gfs → Int → Nat → (Nat → UInt8) → Nat → Option (Int × Gfs)
  | 0, _, _, _, _, _ => none
  | depth + 1, fs, fd, addr, byte, len =>
    match fs.openFile fd oWronly with
    | none => some (-1, fs)
    | some desc =>
      if kvaMin ≤ addr then some (-2, fs)
      else if len = 0 then some (0, fs)
      else
        let buf := if addr = 0 then fun _ => 0 else byte
        let len := min len (uint32Max - desc.pos)
        let nblk0 := gfsNbytes2blocks (fs.vol.inodes desc.ino).size
        let nblk := gfsNbytes2blocks (desc.pos + len)
        if nblk0 < nblk ∧ noHeap then some (-3, fs)
        else
          let fs := if nblk0 < nblk then fs.extend desc.ino (nblk - nblk0) else fs
          let inode := fs.vol.inodes desc.ino
          if inode.size < desc.pos then
            let npd := desc.pos - inode.size
            let fs := fs.putPos fd desc inode.size
            let fs := fs.putInode desc.ino { inode with size := inode.size + npd }
            match doWrite noHeap depth fs fd 0 (fun _ => 0) npd with
            | none => none
            | some (rrt, fs) =>
              if rrt ≠ npd then
                some (rrt, fs.writeInode desc.ino (fs.vol.inodes desc.ino))
              else some (fs.copyData fd ((fs.fds fd.toNat).getD desc) len buf)
          else some (fs.copyData fd desc len buf)

end GlucOS
