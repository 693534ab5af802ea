import GlucOS.Loader.ImageLaws

/-! The number of sectors that the boot loader is told to load as the kernel. -/

namespace GlucOS

/-! ## Segments and the gaps between them -/

/-- The bytes of segments in the file. -/
def fileBytes (phdrs : List Phdr) : Nat := (phdrs.map fun phdr => phdr.data.length).sum

/-- The loadable segments that have bytes in the file. -/
def ElfFile.filled (elf : ElfFile) : List Phdr :=
  elf.loads.filter fun phdr => decide (0 < phdr.data.length)

/-- The bytes left out before the segments and between them, from an address on. -/
def gapBytes : Nat → List Phdr → Nat
  | _, [] => 0
  | addr, phdr :: rest => (phdr.vaddr - addr) + gapBytes (phdr.vaddr + phdr.data.length) rest

/-- Segments end where their bytes and the gaps do. -/
theorem gapBytes_end {phdrs : List Phdr} {addr : Nat}
    (ordered : phdrs.Pairwise fun phdr next => phdr.vaddr + phdr.data.length ≤ next.vaddr)
    (behind : ∀ phdr ∈ phdrs, addr ≤ phdr.vaddr) :
    (∀ phdr ∈ phdrs,
      phdr.vaddr + phdr.data.length ≤ addr + fileBytes phdrs + gapBytes addr phdrs) ∧
    (phdrs ≠ [] → ∃ phdr ∈ phdrs,
      phdr.vaddr + phdr.data.length = addr + fileBytes phdrs + gapBytes addr phdrs) := by
  induction phdrs generalizing addr with
  | nil => simp
  | cons phdr rest ih =>
    obtain ⟨after, ordered⟩ := List.pairwise_cons.mp ordered
    have first := behind phdr List.mem_cons_self
    obtain ⟨below, reached⟩ := ih ordered after
    -- The rest is counted from the end of the first segment.
    have step : phdr.vaddr + phdr.data.length + fileBytes rest +
        gapBytes (phdr.vaddr + phdr.data.length) rest =
        addr + fileBytes (phdr :: rest) + gapBytes addr (phdr :: rest) := by
      simp only [fileBytes, gapBytes, List.map_cons, List.sum_cons]
      omega
    rw [← step]
    constructor
    · intro other mem
      obtain rfl | mem := List.mem_cons.mp mem
      · omega
      · exact below other mem
    · intro _
      cases rest with
      | nil => exact ⟨phdr, List.mem_cons_self, by simp [fileBytes, gapBytes]⟩
      | cons next rest =>
        obtain ⟨last, mem, is⟩ := reached (List.cons_ne_nil _ _)
        exact ⟨last, List.mem_cons_of_mem _ mem, is⟩

/-- Segments without bytes add none. -/
theorem fileBytes_filled (elf : ElfFile) : fileBytes elf.filled = fileBytes elf.loads := by
  unfold ElfFile.filled fileBytes
  induction elf.loads with
  | nil => rfl
  | cons phdr rest ih =>
    rw [List.filter_cons]
    split
    · rw [List.map_cons, List.sum_cons, ih, List.map_cons, List.sum_cons]
    · rename_i empty
      simp only [decide_eq_true_eq] at empty
      rw [ih, List.map_cons, List.sum_cons]
      omega

/-! ## What is recorded -/

/-- `Image_size_offset`. -/
def imageSizeOffset : Nat := 256

/-- A number of four bytes in the image. -/
def ImgFile.number (img : ImgFile) (offset : Nat) : Nat :=
  img.byte offset + img.byte (offset + 1) * 256 + img.byte (offset + 2) * 65536 +
    img.byte (offset + 3) * 16777216

/-- The number of sectors that is recorded for the kernel, behind that of the whole image. -/
def ImgFile.kernelSectors (img : ImgFile) : Nat := img.number (imageSizeOffset + 4)

/-- The bytes of the number that is recorded. -/
theorem writeImgInfo_number (kernelSize : Nat) (infos : List TaskInfo) (img : ImgFile) {i : Nat}
    (small : i < 4) : (writeImgInfo kernelSize infos img).byte (imageSizeOffset + 4 + i) =
      nbytes2sec kernelSize / 256 ^ i % 256 := by
  -- The signature lies behind it, and the size of the image before it.
  have length : ∀ value, (numberBytes 4 value).length = 4 := by
    intro value
    rw [numberBytes, List.length_map, List.length_range]
  have place : 256 + 4 + i - 256 - 4 = i := by omega
  have byte : ∀ value, (numberBytes 4 value).getD i 0 = value / 256 ^ i % 256 := by
    intro value
    simp [numberBytes, List.getD_eq_getElem?_getD, small]
  simp only [writeImgInfo, ImgFile.write_byte, List.length_append, length, List.length_cons,
    List.length_nil, imageSizeOffset]
  rw [if_neg (by omega), if_pos (by omega),
    List.getD_append _ _ _ _ (by simp only [List.length_append, length]; omega),
    List.getD_append _ _ _ _ (by simp only [List.length_append, length]; omega),
    List.getD_append_right _ _ _ _ (by rw [length]; omega), length, place, byte]

/-- A number is put together from its bytes. -/
theorem bytes_of_number (value : Nat) :
    value % 256 + value / 256 % 256 * 256 + value / 65536 % 256 * 65536 +
      value / 16777216 % 256 * 16777216 = value % 4294967296 := by
  omega

/-- The number that is recorded. -/
theorem writeImgInfo_kernelSectors (kernelSize : Nat) (infos : List TaskInfo) (img : ImgFile) :
    (writeImgInfo kernelSize infos img).kernelSectors = nbytes2sec kernelSize % 4294967296 := by
  have first := @writeImgInfo_number kernelSize infos img 0 (by decide)
  have second := @writeImgInfo_number kernelSize infos img 1 (by decide)
  have third := @writeImgInfo_number kernelSize infos img 2 (by decide)
  have fourth := @writeImgInfo_number kernelSize infos img 3 (by decide)
  generalize writeImgInfo kernelSize infos img = next at *
  generalize nbytes2sec kernelSize = value at *
  rw [pow_zero, Nat.div_one] at first
  rw [pow_one] at second
  unfold ImgFile.kernelSectors ImgFile.number
  rw [← bytes_of_number, second, third, fourth]
  rw [Nat.add_zero] at first
  rw [first, show 256 ^ 2 = 65536 from rfl, show 256 ^ 3 = 16777216 from rfl]

/-- Sectors are enough for bytes when there are as many as the bytes round up to. -/
theorem le_sectors_iff (bytes limit : Nat) :
    limit ≤ sectorSize * nbytes2sec bytes ↔
      limit ≤ bytes + (sectorSize - bytes % sectorSize) % sectorSize := by
  unfold nbytes2sec
  have sector : sectorSize = 512 := rfl
  rw [sector]
  split <;> omega

/-! ## The kernel in the image -/

section Kernel

variable {boot kernel : ElfFile} {tasks : List ElfFile} {img : ImgFile} {infos : List TaskInfo}

/-- Where the bytes of a segment of the kernel begin in the image. -/
def kernelPos (boot kernel : ElfFile) (phdr : Phdr) : Nat :=
  max (bootBytes boot).length sectorSize + (phdr.vaddr - kernel.start)

/-- The sectors after the boot block cover the last byte of every segment of the kernel. -/
def KernelCovered (sectors : Nat) (boot kernel : ElfFile) : Prop :=
  ∀ phdr ∈ kernel.loads, 0 < phdr.data.length →
    kernelPos boot kernel phdr + phdr.data.length - 1 < sectorSize * (1 + sectors)

/-- The first two files are the boot block and the kernel, placed one behind the other. -/
theorem createImage_kernel (loadable : Loadable kernel)
    (built : createImage (boot :: kernel :: tasks) = some (img, infos)) :
    boot.name = bootblockName ∧
      ∃ last, img = writeImgInfo (kernelBytes (boot :: kernel :: tasks)) infos last ∧
        addFiles 2 (placeFile (bootImg boot) kernel) [] tasks = some (last, infos) := by
  have apart : (bootImg boot).phyaddr ≠ 0 := by
    rw [bootImg_phyaddr]
    have positive : 0 < sectorSize := by decide
    omega
  have named : boot.name = bootblockName := by
    by_contra other
    unfold createImage at built
    rw [addFiles] at built
    unfold addFile at built
    cases ran : boot.phdrs.foldlM (addSegment 0) ⟨⟨fun _ => 0, 0⟩, 0, 0, 0, 0⟩ with
    | none => simp [ran] at built
    | some segs => simp [ran, other] at built
  have notBoot : kernel.name ≠ bootblockName := by
    intro same
    unfold createImage at built
    rw [addFiles, addFile_boot named] at built
    simp only [Option.bind_eq_bind, Option.bind_some] at built
    rw [addFiles] at built
    unfold addFile at built
    rw [loadable.segments (by decide) apart (bootImg_blank boot)] at built
    simp [same] at built
  refine ⟨named, ?_⟩
  unfold createImage at built
  rw [addFiles, addFile_boot named] at built
  simp only [Option.bind_eq_bind, Option.bind_some] at built
  rw [addFiles, loadable.addFile (by decide) apart (bootImg_blank boot) notBoot] at built
  simp only [Option.bind_eq_bind, Option.bind_some] at built
  obtain ⟨done, added, is⟩ := Option.bind_eq_some_iff.mp built
  simp only [Option.pure_def, Option.some.injEq, Prod.mk.injEq] at is
  obtain ⟨isImg, rfl⟩ := is
  exact ⟨done.1, isImg.symm, added⟩

/-- The kernel is the only file that counts. -/
theorem kernelBytes_eq (isMain : kernel.name = mainName)
    (only : ∀ elf ∈ boot :: tasks, elf.name ≠ mainName) :
    kernelBytes (boot :: kernel :: tasks) = fileBytes kernel.loads := by
  have others : tasks.filter (fun elf => decide (elf.name = mainName)) = [] := by
    rw [List.filter_eq_nil_iff]
    intro elf mem
    simpa using only elf (List.mem_cons_of_mem _ mem)
  unfold kernelBytes fileBytes ElfFile.loads
  rw [List.filter_cons, if_neg (by simpa using only boot List.mem_cons_self), List.filter_cons,
    if_pos (by simpa using isMain), others]
  simp

/-- Each byte of a segment lies where the boot loader expects it. -/
theorem Loadable.placeFile_segment (loadable : Loadable kernel) {phdr : Phdr}
    (mem : phdr ∈ kernel.loads) {i : Nat} (inside : i < phdr.data.length) :
    (placeFile (bootImg boot) kernel).byte (kernelPos boot kernel phdr + i) =
      phdr.data.getD i 0 := by
  have first := loadable.start_le phdr mem
  rw [placeFile_byte, bootImg_phyaddr, kernelPos, if_neg (by omega)]
  have place : kernel.start + (max (bootBytes boot).length sectorSize +
      (phdr.vaddr - kernel.start) + i - max (bootBytes boot).length sectorSize) =
      phdr.vaddr + i := by
    omega
  rw [place, fileByte_at loadable.ordered loadable.fits mem inside]

/-- Segments with bytes are loadable ones. -/
theorem ElfFile.filled_within (elf : ElfFile) :
    ∀ phdr ∈ elf.filled, phdr ∈ elf.loads ∧ 0 < phdr.data.length := by
  intro phdr mem
  simpa [ElfFile.filled] using mem

/-- Segments with bytes are in order too. -/
theorem Loadable.filled_ordered (loadable : Loadable kernel) :
    kernel.filled.Pairwise fun phdr next => phdr.vaddr + phdr.data.length ≤ next.vaddr := by
  have sorted : kernel.filled.Pairwise _ := loadable.ordered.sublist List.filter_sublist
  apply sorted.imp_of_mem
  intro phdr next mem _ le
  have fits := loadable.fits phdr (kernel.filled_within phdr mem).1
  omega

/--
The sectors that `createimage` records cover the last byte of every segment of the kernel exactly
when the gaps between the segments, and the bytes of the boot block beyond its sector, fit into what
is left of the last sector.
-/
theorem kernel_sectors_cover_iff (loadable : Loadable kernel) (isMain : kernel.name = mainName)
    (only : ∀ elf ∈ boot :: tasks, elf.name ≠ mainName)
    (int : max (bootBytes boot).length sectorSize + kernel.size < 2 ^ 31)
    (built : createImage (boot :: kernel :: tasks) = some (img, infos)) :
    (∀ phdr ∈ kernel.loads, ∀ i < phdr.data.length,
      (placeFile (bootImg boot) kernel).byte (kernelPos boot kernel phdr + i) =
        phdr.data.getD i 0) ∧
    (KernelCovered img.kernelSectors boot kernel ↔
      kernel.filled = [] ∨
        (bootBytes boot).length - sectorSize + gapBytes kernel.start kernel.filled ≤
          (sectorSize - fileBytes kernel.loads % sectorSize) % sectorSize) := by
  have starts := loadable.start_le
  have within := kernel.filled_within
  refine ⟨fun phdr mem i inside => loadable.placeFile_segment mem inside, ?_⟩
  obtain ⟨-, last, rfl, -⟩ := createImage_kernel loadable built
  obtain ⟨below, reached⟩ := gapBytes_end loadable.filled_ordered fun phdr mem =>
    starts phdr (within phdr mem).1
  rw [fileBytes_filled] at below reached
  -- The bytes of the kernel are no more than its size, so their number is not cut.
  have bounded : fileBytes kernel.loads < 2 ^ 31 := by
    by_cases empty : kernel.filled = []
    · rw [← fileBytes_filled, empty]
      decide
    · obtain ⟨phdr, mem, is⟩ := reached empty
      obtain ⟨mem, some_⟩ := within phdr mem
      have fits := loadable.fits phdr mem
      have ends := le_fileEnd loadable.ordered loadable.fits kernel.start mem (by omega)
      unfold ElfFile.size at int
      omega
  have recorded : (writeImgInfo (kernelBytes (boot :: kernel :: tasks)) infos last).kernelSectors =
      nbytes2sec (fileBytes kernel.loads) := by
    rw [writeImgInfo_kernelSectors, kernelBytes_eq isMain only]
    apply Nat.mod_eq_of_lt
    unfold nbytes2sec
    have sector : sectorSize = 512 := rfl
    rw [sector]
    split <;> omega
  unfold KernelCovered
  rw [recorded]
  constructor
  · intro covered
    by_cases empty : kernel.filled = []
    · exact Or.inl empty
    · right
      obtain ⟨phdr, mem, is⟩ := reached empty
      obtain ⟨mem, some_⟩ := within phdr mem
      have enough := covered phdr mem some_
      have first := starts phdr mem
      have rounded := le_sectors_iff (fileBytes kernel.loads)
        (kernelPos boot kernel phdr + phdr.data.length - sectorSize)
      have sector : sectorSize = 512 := rfl
      unfold kernelPos at enough rounded
      have lower := rounded.mp (by rw [sector] at enough ⊢; omega)
      rw [sector] at lower ⊢
      omega
  · intro fits phdr mem some_
    have filled : phdr ∈ kernel.filled := by
      simpa [ElfFile.filled] using And.intro mem some_
    obtain empty | fits := fits
    · rw [empty] at filled
      cases filled
    have ends := below phdr filled
    have first := starts phdr mem
    have rounded := le_sectors_iff (fileBytes kernel.loads)
      (kernelPos boot kernel phdr + phdr.data.length - sectorSize)
    have sector : sectorSize = 512 := rfl
    unfold kernelPos at rounded ⊢
    have lower := rounded.mpr (by rw [sector] at fits ⊢; omega)
    rw [sector] at lower ⊢
    omega

/-- A boot block without bytes. -/
def emptyBoot : ElfFile := { name := bootblockName, entry := 0, phdrs := [] }

/-- A kernel with one byte at its start, and one more so many bytes behind that. -/
def gapKernel (gap : Nat) : ElfFile :=
  { name := mainName, entry := 1, phdrs := [⟨true, 1, 1, [7]⟩, ⟨true, 2 + gap, 1, [8]⟩] }

/-- Its segments are in order. -/
theorem gapKernel_loadable (gap : Nat) : Loadable (gapKernel gap) where
  ordered := by simp [gapKernel, ElfFile.loads]
  fits := by simp [gapKernel, ElfFile.loads]
  some := by simp [gapKernel, ElfFile.loads]
  nonzero := by simp [gapKernel, ElfFile.loads, ElfFile.start]

/-- It is built. -/
theorem gapKernel_built (gap : Nat) : ∃ img, createImage [emptyBoot, gapKernel gap] =
    some (img, []) := by
  have named : emptyBoot.name = bootblockName := rfl
  have apart : (bootImg emptyBoot).phyaddr ≠ 0 := by
    rw [bootImg_phyaddr]
    have positive : 0 < sectorSize := by decide
    omega
  unfold createImage
  rw [addFiles, addFile_boot named]
  simp only [Option.bind_eq_bind, Option.bind_some]
  rw [addFiles, (gapKernel_loadable gap).addFile (by decide) apart (bootImg_blank _)
    (by simp [gapKernel, mainName, bootblockName])]
  exact ⟨_, rfl⟩

/-- A gap of 510 bytes is the largest that is covered. -/
theorem kernel_sectors_cover_gap : ∃ img, createImage [emptyBoot, gapKernel 510] = some (img, []) ∧
    (KernelCovered img.kernelSectors emptyBoot (gapKernel 510) ↔
      (gapKernel 510).filled = [] ∨ (bootBytes emptyBoot).length - sectorSize +
        gapBytes (gapKernel 510).start (gapKernel 510).filled ≤
          (sectorSize - fileBytes (gapKernel 510).loads % sectorSize) % sectorSize) := by
  obtain ⟨img, built⟩ := gapKernel_built 510
  refine ⟨img, built, ?_⟩
  apply And.right
  apply kernel_sectors_cover_iff (gapKernel_loadable 510) rfl _ _ built
  · intro elf mem
    rw [List.mem_singleton.mp mem]
    decide
  · decide

/-- With a gap of 4096 bytes one sector is recorded, and the last byte is in the ninth. -/
theorem kernel_sectors_miss : ∃ img, createImage [emptyBoot, gapKernel 4096] = some (img, []) ∧
    img.kernelSectors = 1 ∧ ¬ KernelCovered img.kernelSectors emptyBoot (gapKernel 4096) := by
  obtain ⟨img, built⟩ := gapKernel_built 4096
  obtain ⟨-, last, rfl, -⟩ := createImage_kernel (gapKernel_loadable 4096) built
  have recorded : (writeImgInfo (kernelBytes [emptyBoot, gapKernel 4096]) [] last).kernelSectors =
      1 := by
    rw [writeImgInfo_kernelSectors]
    decide
  refine ⟨_, built, recorded, ?_⟩
  intro covered
  rw [recorded] at covered
  have second := covered ⟨true, 4098, 1, [8]⟩ (by simp [gapKernel, ElfFile.loads]) (by simp)
  exact absurd second (by decide)

end Kernel

end GlucOS
