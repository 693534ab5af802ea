import GlucOS.Loader.ImageLaws
import GlucOS.Mm.LoadLaws
import GlucOS.Mm.Translate

/-! A task that was put into the image is loaded as its file says. -/

namespace GlucOS

open Routine

/-! ## Files and images -/

/-- Where a task lies in the image, behind these others. -/
def taskOffset (boot kernel : ElfFile) (before : List ElfFile) : Nat :=
  max (bootBytes boot).length sectorSize + kernel.size + totalSize before

/-- How many sectors bytes lie in. -/
def spanned (offset size : Nat) : Nat :=
  (offset + size + sectorSize - 1) / sectorSize - offset / sectorSize

/-- Files of which an image is built. -/
structure ImageFiles (boot kernel : ElfFile) (tasks : List ElfFile) : Prop where
  /-- The boot block is known by its name. -/
  first : boot.name = bootblockName
  /-- No other file has it. -/
  named : ∀ elf ∈ kernel :: tasks, elf.name ≠ bootblockName
  /-- Their segments. -/
  loadable : ∀ elf ∈ kernel :: tasks, Loadable elf
  /-- Tasks begin with a page. -/
  aligned : ∀ elf ∈ tasks, elf.start % normalPageSize = 0
  /-- Their names are not cut. -/
  short : ∀ elf ∈ tasks, elf.name.length ≤ taskNameLen
  /-- Their names differ. -/
  distinct : (tasks.map ElfFile.name).Nodup
  /-- There are not too many. -/
  few : tasks.length ≤ utaskMax
  /-- None of them is too large. -/
  small : ∀ before elf after, tasks = before ++ elf :: after →
    spanned (taskOffset boot kernel before) elf.size ≤ 64

/-- The answer and the pages of a task that was loaded as its file says. -/
structure LoadedTask (elf : ElfFile) (pid : Nat) (procs : Finset Nat) (old : Nat → Nat → View)
    (value : Option (Nat × Nat × Nat)) (mm : Mm) : Prop where
  /-- The entry point and the bounds of the segment. -/
  answer : value = some (elf.entry, elf.start, roundUp elf.memEnd 8)
  /-- The pages. -/
  pages : ∃ role space, Ok mm role space procs none ∧
    -- Every byte of a segment is at its address.
    (∀ phdr ∈ elf.loads, ∀ i < phdr.data.length, ∃ bytes,
      views mm space pid ((phdr.vaddr + i) / normalPageSize) = .own bytes ∧
        bytes ((phdr.vaddr + i) % normalPageSize) = phdr.data.getD i 0) ∧
    -- Between the bytes of the segments there is zero.
    (∀ addr, elf.start ≤ addr → addr < fileEnd elf.start elf.loads →
      (∀ phdr ∈ elf.loads, ¬ (phdr.vaddr ≤ addr ∧ addr < phdr.vaddr + phdr.data.length)) →
      ∃ bytes, views mm space pid (addr / normalPageSize) = .own bytes ∧
        bytes (addr % normalPageSize) = 0) ∧
    -- Every page up to the end of the memory is mapped.
    (∀ addr, elf.start ≤ addr → addr < elf.memEnd →
      ∃ bytes, views mm space pid (addr / normalPageSize) = .own bytes) ∧
    -- No other page is touched.
    ∀ otherPid vpn, ¬ (otherPid = pid ∧ elf.start / normalPageSize ≤ vpn ∧
      vpn * normalPageSize < elf.memEnd) → views mm space otherPid vpn = old otherPid vpn

/-! ## Building the image -/

section Build

variable {boot kernel : ElfFile} {tasks : List ElfFile}

/-- The image and what is told of the tasks. -/
theorem ImageFiles.created (files : ImageFiles boot kernel tasks) :
    createImage (boot :: kernel :: tasks) =
      some (writeImgInfo (kernelBytes (boot :: kernel :: tasks))
          (taskInfos (taskOffset boot kernel []) tasks)
          (tasks.foldl placeFile (placeFile (bootImg boot) kernel)),
        taskInfos (taskOffset boot kernel []) tasks) := by
  have first := bootImg_phyaddr boot
  have positive : 0 < sectorSize := by decide
  have apart : (bootImg boot).phyaddr ≠ 0 := by omega
  have isKernel := files.loadable kernel List.mem_cons_self
  have place : (placeFile (bootImg boot) kernel).phyaddr = taskOffset boot kernel [] := by
    rw [placeFile_phyaddr, first]
    rfl
  -- The boot block comes first, then the kernel, then one task after the other.
  unfold createImage
  rw [addFiles, addFile_boot files.first]
  simp only [Option.bind_eq_bind, Option.bind_some]
  rw [addFiles, isKernel.addFile (by decide) apart (bootImg_blank boot)
    (files.named kernel List.mem_cons_self)]
  simp only [Option.bind_eq_bind, Option.bind_some]
  rw [if_neg (by decide), addFiles_tasks (by decide) (by rw [placeFile_phyaddr]; omega)
    (isKernel.blank _) tasks fun elf mem =>
      ⟨files.loadable elf (List.mem_cons_of_mem _ mem),
        files.named elf (List.mem_cons_of_mem _ mem)⟩, place]
  rfl

/-- A task is found by its name. -/
theorem ImageFiles.found (files : ImageFiles boot kernel tasks) {before after : List ElfFile}
    {elf : ElfFile} (is : tasks = before ++ elf :: after) :
    (taskInfos (taskOffset boot kernel []) tasks).find? (fun info => info.name = elf.name) =
      some (taskInfo (taskOffset boot kernel before) elf) := by
  -- The tasks before it are not taken for it.
  have named : ∀ offset, (taskInfos offset before).find? (fun info => info.name = elf.name) =
      none := by
    intro offset
    -- Every task before it has its own name.
    have differ : ∀ other ∈ before, other.name.take taskNameLen ≠ elf.name := by
      intro other mem
      rw [List.take_of_length_le (files.short other (by simp [is, mem]))]
      have distinct := files.distinct
      rw [is, List.map_append, List.map_cons, List.nodup_append] at distinct
      exact distinct.2.2 _ (List.mem_map_of_mem mem) _ List.mem_cons_self
    clear is
    induction before generalizing offset with
    | nil => rfl
    | cons other before ih =>
      have apart := differ other List.mem_cons_self
      rw [taskInfos, List.find?_cons_of_neg (by simp [taskInfo, apart])]
      exact ih _ fun another mem => differ another (List.mem_cons_of_mem _ mem)
  have here : taskOffset boot kernel [] + totalSize before = taskOffset boot kernel before := by
    simp [taskOffset, totalSize]
  rw [is, taskInfos_append, List.find?_append, named, Option.none_or, taskInfos, here,
    List.find?_cons_of_pos]
  simp [taskInfo, List.take_of_length_le (files.short elf (by simp [is]))]

/-- The bytes of a task are found in the image. -/
theorem image_bytes {before after : List ElfFile} {elf : ElfFile}
    (is : tasks = before ++ elf :: after) (kernelSize : Nat) (infos : List TaskInfo) {i : Nat}
    (inside : i < elf.size) :
    (writeImgInfo kernelSize infos
        (tasks.foldl placeFile (placeFile (bootImg boot) kernel))).byte
        (taskOffset boot kernel before + i) =
      fileByte elf.loads (elf.start + i) := by
  have first := bootImg_phyaddr boot
  -- Where the files before it end.
  have place : (before.foldl placeFile (placeFile (bootImg boot) kernel)).phyaddr =
      taskOffset boot kernel before := by
    rw [foldl_placeFile_phyaddr, placeFile_phyaddr, first]
    rfl
  -- What comes behind the file does not touch its bytes.
  rw [is, List.foldl_append, List.foldl_cons]
  obtain ⟨behind, same⟩ := foldl_placeFile
    (placeFile (before.foldl placeFile (placeFile (bootImg boot) kernel)) elf) after
  rw [placeFile_phyaddr, place] at behind same
  rw [writeImgInfo_byte _ _ (by unfold taskOffset; omega) (by omega), same _ (by omega),
    placeFile_byte, place, if_neg (by omega), Nat.add_sub_cancel_left]

end Build

/-! ## Loading a task -/

/-- The sectors that are read are one too many where the image ends with a sector. -/
theorem sectors_le_iff {offset size : Nat} (small : spanned offset size ≤ 64) :
    lbytes2sectors (offset + size) - lbytes2sectors offset + 1 ≤ 64 ↔
      spanned offset size < 64 ∨ (offset + size) % sectorSize ≠ 0 := by
  simp only [spanned, lbytes2sectors, sectorSize] at *
  omega

/-- The byte of the image that is read for a byte of the task. -/
theorem read_place (offset i : Nat) :
    lbytes2sectors offset * sectorSize + (offset - lbytes2sectors offset * sectorSize + i) =
      offset + i := by
  have := Nat.div_mul_le_self offset sectorSize
  unfold lbytes2sectors
  omega

section Load

variable {cpu pgdir pid : Nat} {taskinfo : List TaskInfo} {disk : Nat → Nat} {noHeap : Bool}
  {taskname : CharBuf} {info : TaskInfo}

/-- A task is refused when too many sectors are counted, or there is no room for them. -/
theorem loadTask_refused (found : taskinfo.find? (fun info => info.name = taskname) = some info)
    (aligned : info.vaddr % normalPageSize = 0)
    (refused : 64 < lbytes2sectors (info.offset + info.fsize) - lbytes2sectors info.offset + 1 ∨
      noHeap = true) :
    loadTask cpu taskinfo disk noHeap taskname pgdir pid = pure none := by
  unfold loadTask
  rw [found]
  dsimp only
  rw [if_neg (not_not.mpr aligned)]
  rcases refused with large | none_
  · rw [if_pos large]
  · rw [if_pos none_, ite_self]

/-- Otherwise its bytes are loaded. -/
theorem loadTask_loads (found : taskinfo.find? (fun info => info.name = taskname) = some info)
    (aligned : info.vaddr % normalPageSize = 0)
    (few : lbytes2sectors (info.offset + info.fsize) - lbytes2sectors info.offset + 1 ≤ 64) :
    loadTask cpu taskinfo disk false taskname pgdir pid =
      loadTaskImg cpu
          { vaddr := info.vaddr, entry := info.entr, fsize := info.fsize, msize := info.msize
            byte := fun i => disk (info.offset + i) } pgdir pid >>= fun bounds =>
        pure (some (info.entr, bounds.1, bounds.2)) := by
  unfold loadTask
  rw [found]
  dsimp only
  rw [if_neg (not_not.mpr aligned), if_neg (Nat.not_lt.mpr few), if_neg (by decide)]
  simp only [read_place]

end Load

/-- The page of an address behind an aligned one. -/
theorem page_split {start addr : Nat} (aligned : start % normalPageSize = 0)
    (behind : start ≤ addr) :
    addr / normalPageSize = start / normalPageSize + (addr - start) / normalPageSize ∧
      addr % normalPageSize = (addr - start) % normalPageSize := by
  simp only [normalPageSize] at *
  omega

/-- What was loaded is what the file says. -/
theorem LoadedTo.task {elf : ElfFile} (loadable : Loadable elf)
    (aligned : elf.start % normalPageSize = 0) {img : TaskImg} {pgdir pid : Nat}
    {procs : Finset Nat} {old : Nat → Nat → View} {mm : Mm} (vaddr : img.vaddr = elf.start)
    (fsize : img.fsize = elf.size) (msize : img.msize = elf.memEnd - elf.start)
    (right : ∀ i < elf.size, img.byte i = fileByte elf.loads (elf.start + i))
    (loaded : LoadedTo img pgdir pid procs old (pagesFor img.msize) mm) :
    LoadedTask elf pid procs old
      (some (elf.entry, img.vaddr, roundUp (img.vaddr + img.msize) 8)) mm := by
  obtain ⟨begin_, size⟩ := loadable.size_le
  have last : fileEnd elf.start elf.loads = elf.start + elf.size := by
    have := start_le_fileEnd loadable.start_le
    unfold ElfFile.size
    omega
  obtain ⟨role, space, ok, -, -, others, own⟩ := loaded
  rw [vaddr] at others own
  -- Every address of the task is in a page that was filled.
  have mapped : ∀ addr, elf.start ≤ addr → addr < elf.memEnd → ∃ bytes,
      views mm space pid (addr / normalPageSize) = .own bytes ∧
        (addr < elf.start + elf.size →
          bytes (addr % normalPageSize) = fileByte elf.loads addr) := by
    intro addr behind before
    obtain ⟨page, offset⟩ := page_split aligned behind
    have few : (addr - elf.start) / normalPageSize < pagesFor img.msize := by
      simp only [msize, pagesFor, normalPageSize]
      omega
    obtain ⟨bytes, is, holds⟩ := own _ few
    have whole := Nat.div_add_mod' (addr - elf.start) normalPageSize
    refine ⟨bytes, by rw [page, is], ?_⟩
    intro inside
    rw [offset, holds _ (Nat.mod_lt _ (by decide)) (by omega), whole, right _ (by omega)]
    congr 1
    omega
  constructor
  · rw [vaddr, msize, show elf.start + (elf.memEnd - elf.start) = elf.memEnd by omega]
  · refine ⟨role, space, ok, ?_, ?_, ?_, ?_⟩
    · intro phdr mem i inside
      have begins := loadable.start_le phdr mem
      have fits := loadable.fits phdr mem
      have ends := loadable.le_memEnd phdr mem
      have inFile := le_fileEnd loadable.ordered loadable.fits elf.start mem (by omega)
      obtain ⟨bytes, is, holds⟩ := mapped (phdr.vaddr + i) (by omega) (by omega)
      refine ⟨bytes, is, ?_⟩
      rw [holds (by omega), fileByte_at loadable.ordered loadable.fits mem inside]
    · intro addr behind before outside
      obtain ⟨bytes, is, holds⟩ := mapped addr behind (by omega)
      exact ⟨bytes, is, by rw [holds (by omega), fileByte_outside outside]⟩
    · intro addr behind before
      obtain ⟨bytes, is, -⟩ := mapped addr behind before
      exact ⟨bytes, is⟩
    · intro otherPid vpn apart
      apply others
      rintro ⟨same, low, high⟩
      apply apart
      refine ⟨same, low, ?_⟩
      rw [msize] at high
      simp only [pagesFor, normalPageSize] at *
      omega

/--
A task is loaded as its file says when its image does not end a 64th sector, there is kernel heap
and its memory size fits in 32 bits.

Otherwise the answer is another one, so the condition is exact for every call that returns.
-/
theorem load_task_img_iff {accepted : MmStop → Prop} (exhausted : accepted .noPageTable)
    (hang : accepted .noVictim) (full : accepted .noSwapPage) {boot kernel elf : ElfFile}
    {tasks before after : List ElfFile} (files : ImageFiles boot kernel tasks)
    (is : tasks = before ++ elf :: after) {mm : Mm} {role : Nat → Role}
    {space : Nat → Nat → Leaf} {procs : Finset Nat} {pgdir pid : Nat}
    (ok : Ok mm role space procs none) (homed : Homed mm role procs) (mem : pid ∈ procs)
    (root : role pgdir = .node pid []) (fresh : ∀ vpn, space pid vpn = .untouched)
    (user : elf.memEnd ≤ userVpns * normalPageSize) (cpu : Nat) (noHeap : Bool) :
    ∃ img infos, createImage (boot :: kernel :: tasks) = some (img, infos) ∧
      Meets accepted (loadTask cpu infos img.byte noHeap elf.name pgdir pid) mm fun value next =>
        LoadedTask elf pid procs (views mm space) value next ↔
          (spanned (taskOffset boot kernel before) elf.size < 64 ∨
            (taskOffset boot kernel before + elf.size) % sectorSize ≠ 0) ∧
          noHeap = false ∧ elf.memEnd - elf.start < 2 ^ 32 := by
  refine ⟨_, _, files.created, ?_⟩
  have member : elf ∈ tasks := by simp [is]
  have loadable := files.loadable elf (List.mem_cons_of_mem _ member)
  obtain ⟨begin_, size⟩ := loadable.size_le
  have aligned := files.aligned elf member
  have small := sectors_le_iff (files.small before elf after is)
  -- The buffer holds so many sectors, and the heap has room for it.
  by_cases loads : lbytes2sectors (taskOffset boot kernel before + elf.size) -
      lbytes2sectors (taskOffset boot kernel before) + 1 ≤ 64 ∧ noHeap = false
  · obtain ⟨few, rfl⟩ := loads
    have word : u32 (elf.memEnd - elf.start) ≤ elf.memEnd - elf.start := Nat.mod_le _ _
    rw [loadTask_loads (files.found is) aligned few]
    apply Meets.bind (loadTaskImg_meets exhausted hang full ok homed mem root aligned
      (by dsimp only [taskInfo]; omega) fun k _ => fresh _)
    rintro ⟨pstart, pend⟩ next ⟨answer, loaded⟩
    rw [meets_pure]
    cases answer
    constructor
    · intro right
      refine ⟨small.mp few, rfl, ?_⟩
      -- The end of a larger segment is not answered.
      by_contra wide
      have answer := right.answer
      simp only [Option.some.injEq, Prod.mk.injEq, taskInfo, true_and] at answer
      simp only [roundUp, u32] at answer
      omega
    · intro right
      have whole : u32 (elf.memEnd - elf.start) = elf.memEnd - elf.start :=
        Nat.mod_eq_of_lt right.2.2
      have more : pagesFor elf.size ≤ pagesFor (u32 (elf.memEnd - elf.start)) := by
        rw [whole]
        simp only [pagesFor, normalPageSize]
        omega
      dsimp only [taskInfo] at loaded
      rw [Nat.max_eq_right more] at loaded
      apply LoadedTo.task loadable aligned rfl rfl whole _ loaded
      intro i inside
      exact image_bytes is _ _ inside
  · -- One sector too many was counted, or there is no room for them.
    rw [loadTask_refused (files.found is) aligned (by
      dsimp only [taskInfo]
      by_contra none_
      apply loads
      rw [not_or, Bool.not_eq_true] at none_
      exact ⟨by omega, none_.2⟩), meets_pure]
    constructor
    · intro loaded
      cases loaded.answer
    · intro right
      exact absurd ⟨small.mpr right.1, right.2.1⟩ loads

/-! ## Examples -/

/-- A boot block that fits in a sector, and a kernel. -/
def bootblockFile : ElfFile := { name := bootblockName, entry := 0, phdrs := [] }

/-- A kernel with no bytes. -/
def mainFile : ElfFile :=
  { name := mainName, entry := 0x50201000, phdrs := [⟨true, 0x50201000, 0, []⟩] }

/-- A task with one segment of so many bytes. -/
def shellFile (size : Nat) : ElfFile :=
  { name := [115, 104], entry := 0x10000
    phdrs := [⟨true, 0x10000, size, List.replicate size 1⟩] }

/-- The task has so many bytes. -/
theorem shellFile_size (size : Nat) : (shellFile size).size = size := by
  by_cases empty : size = 0
  · simp [ElfFile.size, ElfFile.start, fileEnd, ElfFile.loads, shellFile, empty]
  · simp [ElfFile.size, ElfFile.start, fileEnd, ElfFile.loads, shellFile, empty]

/-- They make an image when the task is not too large. -/
theorem shell_files {size : Nat} (small : spanned 512 size ≤ 64) :
    ImageFiles bootblockFile mainFile [shellFile size] where
  first := rfl
  named := by
    intro elf mem
    rcases List.mem_pair.mp mem with rfl | rfl
    · decide
    · intro same
      cases same
  loadable := by
    intro elf mem
    rcases List.mem_pair.mp mem with rfl | rfl
    · exact ⟨by decide, by decide, by decide, by decide⟩
    · refine ⟨by simp [ElfFile.loads, shellFile], ?_, by simp [ElfFile.loads, shellFile],
        by simp [ElfFile.start, ElfFile.loads, shellFile]⟩
      intro phdr mem
      simp [ElfFile.loads, shellFile] at mem
      simp [mem]
  aligned := by
    intro elf mem
    rw [List.mem_singleton.mp mem]
    simp [ElfFile.start, ElfFile.loads, shellFile, normalPageSize]
  short := by
    intro elf mem
    rw [List.mem_singleton.mp mem]
    simp [shellFile, taskNameLen]
  distinct := List.nodup_singleton _
  few := by simp [utaskMax]
  small := by
    intro before elf after is
    cases before with
    | nil =>
      cases is
      rw [shellFile_size]
      exact small
    | cons other before => simp at is

/-- Nothing but exhausted memory. -/
def exhaustion (reason : MmStop) : Prop :=
  reason = .noPageTable ∨ reason = .noVictim ∨ reason = .noSwapPage

/-- A small task is loaded. -/
theorem load_task_img_shell :
    ∃ img infos, createImage [bootblockFile, mainFile, shellFile 3] = some (img, infos) ∧
      Meets exhaustion (loadTask 0 infos img.byte false (shellFile 3).name 2 2) bareMm
        (LoadedTask (shellFile 3) 2 {2} (views bareMm fun _ _ => .untouched)) := by
  have files : ImageFiles bootblockFile mainFile [shellFile 3] := shell_files (by decide)
  have homed : Homed bareMm bareRole {2} := by
    intro pid mem
    rw [Finset.mem_singleton.mp mem]
    exact ⟨⟨2, 0, 2, 0, 0⟩, rfl, rfl⟩
  have tables : exhaustion .noPageTable := Or.inl rfl
  have victims : exhaustion .noVictim := Or.inr (Or.inl rfl)
  have slots : exhaustion .noSwapPage := Or.inr (Or.inr rfl)
  have alone : [shellFile 3] = [] ++ shellFile 3 :: [] := rfl
  have root : bareRole 2 = .node 2 [] := rfl
  obtain ⟨img, infos, is, meets⟩ := load_task_img_iff tables victims slots files alone bareMm_ok
    homed (Finset.mem_singleton_self 2) root (fun _ => rfl) (by decide) 0 false
  refine ⟨img, infos, is, meets.mono ?_⟩
  intro value next loaded
  apply loaded.mpr
  exact ⟨.inl (by decide), rfl, by decide⟩

/-- A task of just 64 sectors is not. -/
theorem load_task_img_refuses :
    ImageFiles bootblockFile mainFile [shellFile 32768] ∧
      ∃ img infos, createImage [bootblockFile, mainFile, shellFile 32768] = some (img, infos) ∧
        ¬ Meets exhaustion (loadTask 0 infos img.byte false (shellFile 32768).name 2 2) bareMm
          (LoadedTask (shellFile 32768) 2 {2} (views bareMm fun _ _ => .untouched)) := by
  have files : ImageFiles bootblockFile mainFile [shellFile 32768] := shell_files (by decide)
  refine ⟨files, _, _, files.created, ?_⟩
  have alone : [shellFile 32768] = [] ++ shellFile 32768 :: [] := rfl
  have found := files.found alone
  rw [loadTask_refused found (files.aligned _ (List.mem_singleton_self _)), meets_pure]
  · intro loaded
    cases loaded.answer
  · left
    dsimp only [taskInfo]
    rw [shellFile_size]
    decide

end GlucOS
