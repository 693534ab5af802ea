import GlucOS.Gfs.Path
import GlucOS.Mm.Process

/-! The image file: how `createimage` lays tasks out in it, and how the kernel loads one of them. -/

namespace GlucOS

/-! ## Building the image -/

/-- `UTASK_MAX`. -/
def utaskMax : Nat := 32

/-- `TASK_NAMELEN`. -/
def taskNameLen : Nat := 31

/-- `"bootblock"`. -/
def bootblockName : CharBuf := [98, 111, 111, 116, 98, 108, 111, 99, 107]

/-- A program header, with the bytes that its file holds at `p_offset`. -/
structure Phdr where
  /-- Whether `p_type` is `PT_LOAD`. -/
  load : Bool
  /-- `p_vaddr`. -/
  vaddr : Nat
  /-- `p_memsz`. -/
  memsz : Nat
  /-- The segment's bytes; there are `p_filesz` of them. -/
  data : List Nat

/-- An ELF file. -/
structure ElfFile where
  /-- The name of the file. -/
  name : CharBuf
  /-- `e_entry`. -/
  entry : Nat
  /-- The program headers. -/
  phdrs : List Phdr

/-- `task_info_t`. -/
structure TaskInfo where
  /-- Where the task begins in the image file. -/
  offset : Nat
  /-- Its bytes there. -/
  fsize : Nat
  /-- The address of its first segment. -/
  vaddr : Nat
  /-- Its entry point. -/
  entr : Nat
  /-- Its bytes in memory. -/
  msize : Nat
  /-- Its name. -/
  name : CharBuf

/-- The image file: its bytes, zero where none was written, and the position `phyaddr` in it. -/
structure ImgFile where
  /-- The bytes. -/
  byte : Nat → Nat
  /-- Where the next byte is written. -/
  phyaddr : Nat

/-- Writing bytes one after another with `fputc`. -/
def ImgFile.write (img : ImgFile) : List Nat → ImgFile
  | [] => img
  | b :: data => ImgFile.write ⟨Function.update img.byte img.phyaddr b, img.phyaddr + 1⟩ data

/-- `write_segment` of a loadable segment. A failed assertion gives nothing. -/
def writeSegment (phdr : Phdr) (img : ImgFile) (vaddr0 phyaddr0 : Nat) : Option ImgFile :=
  if phdr.memsz ≠ 0 then
    if decide (vaddr0 = 0) ≠ decide (phyaddr0 = 0) then none
    else if vaddr0 ≠ 0 then
      -- `fseek` refuses a position before the beginning.
      if phyaddr0 + phdr.vaddr < vaddr0 then none
      else some (ImgFile.write { img with phyaddr := phyaddr0 + phdr.vaddr - vaddr0 } phdr.data)
    else some (img.write phdr.data)
  else some img

/-- `write_padding`. -/
def writePadding (img : ImgFile) (newPhyaddr : Nat) : ImgFile :=
  img.write (List.replicate (newPhyaddr - img.phyaddr) 0)

/-- The variables of the loop of `create_image` over the program headers of one file. -/
structure Segments where
  /-- The image file. -/
  img : ImgFile
  /-- The address of the first segment, or zero while it is not known. -/
  vaddr0 : Nat
  /-- Where the first segment is in the image, or zero while it is not known. -/
  phyaddr0 : Nat
  /-- The address of the last segment. -/
  vaddrLast : Nat
  /-- The memory size of the last segment. -/
  mSizeLast : Nat

/-- One round of the loop over the program headers of the file with index `fidx`. -/
def addSegment (fidx : Nat) (segs : Segments) (phdr : Phdr) : Option Segments :=
  if phdr.load = false then some segs
  else do
    let vaddr0 := if fidx ≥ 1 ∧ segs.vaddr0 = 0 then phdr.vaddr else segs.vaddr0
    let phyaddr0 := if fidx ≥ 1 ∧ segs.phyaddr0 = 0 then segs.img.phyaddr else segs.phyaddr0
    let img ← writeSegment phdr segs.img vaddr0 phyaddr0
    return { img, vaddr0, phyaddr0, vaddrLast := phdr.vaddr, mSizeLast := phdr.memsz }

/-- One round of the loop of `create_image` over the files. -/
def addFile (fidx : Nat) (img : ImgFile) (infos : List TaskInfo) (elf : ElfFile) :
    Option (ImgFile × List TaskInfo) := do
  let offset := img.phyaddr
  let segs ← elf.phdrs.foldlM (addSegment fidx) ⟨img, 0, 0, 0, 0⟩
  if decide (fidx = 0) ≠ decide (elf.name = bootblockName) then none
  else if fidx = 0 then some (writePadding segs.img sectorSize, infos)
  else if fidx ≥ 2 then
    if segs.vaddr0 = 0 then none
    else
      some (segs.img, infos ++
        [{ offset
           fsize := segs.img.phyaddr - offset
           vaddr := segs.vaddr0
           entr := elf.entry
           -- The sum of 64-bit numbers is kept in 32 bits.
           msize := u32 (segs.vaddrLast - segs.vaddr0 + segs.mSizeLast)
           name := elf.name.take taskNameLen }])
  else some (segs.img, infos)

/-- The loop of `create_image` over the files. -/
def addFiles : Nat → ImgFile → List TaskInfo → List ElfFile → Option (ImgFile × List TaskInfo)
  | _, img, infos, [] => some (img, infos)
  | fidx, img, infos, elf :: files => do
    let (img, infos) ← addFile fidx img infos elf
    addFiles (fidx + 1) img infos files

/-- The bytes of a number, the lowest first. -/
def numberBytes (count value : Nat) : List Nat :=
  (List.range count).map fun i => value / 256 ^ i % 256

/-- The bytes of a `task_info_t`, with the padding behind its name. -/
def TaskInfo.bytes (info : TaskInfo) : List Nat :=
  numberBytes 4 info.offset ++ numberBytes 4 info.fsize ++ numberBytes 8 info.vaddr ++
    numberBytes 8 info.entr ++ numberBytes 4 info.msize ++
    info.name.map UInt8.toNat ++ List.replicate (taskNameLen + 1 - info.name.length + 4) 0

/-- `NBYTES2SEC`. -/
def nbytes2sec (nbytes : Nat) : Nat :=
  nbytes / sectorSize + if nbytes % sectorSize ≠ 0 then 1 else 0

/-- `write_img_info`: the tasks at the end, and the sizes and signature in the first sector. -/
def writeImgInfo (kernelSize : Nat) (infos : List TaskInfo) (img : ImgFile) : ImgFile :=
  let taskinfoOffset := img.phyaddr
  let img := img.write (infos.flatMap TaskInfo.bytes)
  let imageSize := nbytes2sec img.phyaddr
  let img := ImgFile.write { img with phyaddr := 256 }
    (numberBytes 4 imageSize ++ numberBytes 4 (nbytes2sec kernelSize) ++
      numberBytes 4 taskinfoOffset ++ numberBytes 4 infos.length)
  ImgFile.write { img with phyaddr := 0x1fe } [0x55, 0xaa]

/-- `"main"`. -/
def mainName : CharBuf := [109, 97, 105, 110]

/-- `nbytes_kernel`: the file sizes of the loadable segments of the kernel. -/
def kernelBytes (files : List ElfFile) : Nat :=
  ((files.filter fun elf => elf.name = mainName).flatMap fun elf =>
    (elf.phdrs.filter Phdr.load).map fun phdr => phdr.data.length).sum

/-- `create_image`: the image and what it tells of the tasks, unless an assertion fails. -/
def createImage (files : List ElfFile) : Option (ImgFile × List TaskInfo) := do
  let (img, infos) ← addFiles 0 ⟨fun _ => 0, 0⟩ [] files
  return (writeImgInfo (kernelBytes files) infos img, infos)

/-! ## Loading a task -/

/-- `lbytes2sectors`. -/
def lbytes2sectors (lbytes : Nat) : Nat := lbytes / sectorSize

/--
`load_task_img`: the entry point and the bounds of the segment, or nothing where it returns 0.

The image lies at the beginning of the disk, and `taskinfo` is what the builder wrote behind it.
-/
def loadTask (cpu : Nat) (taskinfo : List TaskInfo) (disk : Nat → Nat) (noHeap : Bool)
    (taskname : CharBuf) (pgdir pid : Nat) : MmRoutine (Option (Nat × Nat × Nat)) :=
  match taskinfo.find? fun info => info.name = taskname with
  | none => return none
  | some info =>
    if info.vaddr % normalPageSize ≠ 0 then return none
    else
      let startSector := lbytes2sectors info.offset
      let endSector := lbytes2sectors (info.offset + info.fsize)
      let sectors := endSector - startSector + 1
      if sectors > 64 then return none
      else if noHeap then return none
      else do
        let utBuf := fun i => disk (startSector * sectorSize + i)
        let uoffset := info.offset - startSector * sectorSize
        let (pstart, pend) ← loadTaskImg cpu
          { vaddr := info.vaddr, entry := info.entr, fsize := info.fsize, msize := info.msize
            byte := fun i => utBuf (uoffset + i) } pgdir pid
        return some (info.entr, pstart, pend)

end GlucOS
