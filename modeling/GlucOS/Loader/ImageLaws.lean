import GlucOS.Loader.Image

/-! Where the builder of the image places the files, and that their bytes are found there. -/

namespace GlucOS

/-! ## What a file says -/

/-- The loadable segments. -/
def ElfFile.loads (elf : ElfFile) : List Phdr := elf.phdrs.filter Phdr.load

/-- What the segments hold at an address, and zero where none of them has a byte. -/
def fileByte (phdrs : List Phdr) : Nat → Nat :=
  phdrs.foldl
    (fun byte phdr addr =>
      if phdr.vaddr ≤ addr ∧ addr < phdr.vaddr + phdr.data.length then
        phdr.data.getD (addr - phdr.vaddr) 0
      else byte addr)
    fun _ => 0

/-- Where the bytes of the segments end that begin at an address. -/
def fileEnd (start : Nat) (phdrs : List Phdr) : Nat :=
  phdrs.foldl
    (fun last phdr => if phdr.memsz = 0 then last else phdr.vaddr + phdr.data.length) start

/-- The address of the first segment. -/
def ElfFile.start (elf : ElfFile) : Nat := (elf.loads.head?.map Phdr.vaddr).getD 0

/-- Where the memory of the last segment ends. -/
def ElfFile.memEnd (elf : ElfFile) : Nat :=
  (elf.loads.getLast?.map fun phdr => phdr.vaddr + phdr.memsz).getD 0

/-- How many bytes of the image the file takes. -/
def ElfFile.size (elf : ElfFile) : Nat := fileEnd elf.start elf.loads - elf.start

/-- The bytes of the boot block. -/
def bootBytes (boot : ElfFile) : List Nat :=
  (boot.loads.filter fun phdr => phdr.memsz ≠ 0).flatMap Phdr.data

/-- Segments in increasing order, none of which has more bytes than memory. -/
structure Loadable (elf : ElfFile) : Prop where
  /-- They do not overlap. -/
  ordered : elf.loads.Pairwise fun phdr next => phdr.vaddr + phdr.memsz ≤ next.vaddr
  /-- The bytes fit in the memory. -/
  fits : ∀ phdr ∈ elf.loads, phdr.data.length ≤ phdr.memsz
  /-- There is a first one. -/
  some : elf.loads ≠ []
  /-- It is not at zero. -/
  nonzero : elf.start ≠ 0

/-! ## Writing -/

/-- What was written is found where it was written, and every other byte is left. -/
theorem ImgFile.write_byte (img : ImgFile) (data : List Nat) (k : Nat) :
    (img.write data).byte k =
      if img.phyaddr ≤ k ∧ k < img.phyaddr + data.length then data.getD (k - img.phyaddr) 0
      else img.byte k := by
  induction data generalizing img with
  | nil => simp [ImgFile.write]
  | cons b data ih =>
    rw [ImgFile.write, ih]
    by_cases here : k = img.phyaddr
    · -- The first byte is not written again.
      subst here
      simp
    · by_cases behind : img.phyaddr + 1 ≤ k ∧ k < img.phyaddr + 1 + data.length
      · have index : k - img.phyaddr = k - (img.phyaddr + 1) + 1 := by omega
        rw [if_pos behind, if_pos (by simp only [List.length_cons]; omega), index,
          List.getD_cons_succ]
      · rw [if_neg behind, if_neg (by simp only [List.length_cons]; omega)]
        exact Function.update_of_ne here _ _

/-- The position moves on by what was written. -/
@[simp] theorem ImgFile.write_phyaddr (img : ImgFile) (data : List Nat) :
    (img.write data).phyaddr = img.phyaddr + data.length := by
  induction data generalizing img with
  | nil => rfl
  | cons b data ih =>
    rw [ImgFile.write, ih, List.length_cons, Nat.add_assoc, Nat.add_comm 1]

/-- Writing in two parts. -/
theorem ImgFile.write_append (img : ImgFile) (data more : List Nat) :
    img.write (data ++ more) = (img.write data).write more := by
  induction data generalizing img with
  | nil => rfl
  | cons b data ih => exact ih _

/-- Nothing was written from the position on. -/
def ImgFile.Blank (img : ImgFile) : Prop := ∀ k, img.phyaddr ≤ k → img.byte k = 0

/-- Writing at the position leaves nothing behind it. -/
theorem ImgFile.Blank.write {img : ImgFile} (blank : img.Blank) (data : List Nat) :
    (img.write data).Blank := by
  intro k behind
  rw [write_phyaddr] at behind
  rw [write_byte, if_neg (by omega)]
  exact blank k (by omega)

/-! ## The segments of one file -/

/-- One more segment. -/
theorem fileByte_concat (done : List Phdr) (phdr : Phdr) (addr : Nat) :
    fileByte (done ++ [phdr]) addr =
      if phdr.vaddr ≤ addr ∧ addr < phdr.vaddr + phdr.data.length then
        phdr.data.getD (addr - phdr.vaddr) 0
      else fileByte done addr := by
  simp [fileByte]

/-- One more segment. -/
theorem fileEnd_concat (start : Nat) (done : List Phdr) (phdr : Phdr) :
    fileEnd start (done ++ [phdr]) =
      if phdr.memsz = 0 then fileEnd start done else phdr.vaddr + phdr.data.length := by
  simp [fileEnd]

/-- The loop over the program headers, when the segments done begin at an address. -/
def segmentsAt (img : ImgFile) (start : Nat) (done : List Phdr) : Segments :=
  { img :=
      { byte := fun k =>
          if k < img.phyaddr then img.byte k else fileByte done (start + (k - img.phyaddr))
        phyaddr := img.phyaddr + (fileEnd start done - start) }
    vaddr0 := start
    phyaddr0 := img.phyaddr
    vaddrLast := (done.getLast?.map Phdr.vaddr).getD 0
    mSizeLast := (done.getLast?.map Phdr.memsz).getD 0 }

/-- One round of the loop. -/
theorem addSegment_placed {fidx start : Nat} {img : ImgFile} {done : List Phdr} {phdr : Phdr}
    (apart : img.phyaddr ≠ 0) (nonzero : start ≠ 0) (load : phdr.load = true)
    (fits : phdr.data.length ≤ phdr.memsz) (behind : start ≤ phdr.vaddr) :
    addSegment fidx (segmentsAt img start done) phdr =
      some (segmentsAt img start (done ++ [phdr])) := by
  unfold addSegment
  rw [if_neg (by simp [load])]
  simp only [segmentsAt, nonzero, apart, and_false, if_false]
  unfold writeSegment
  by_cases empty : phdr.memsz = 0
  · -- It has no bytes, and the position is not moved.
    have none_ : phdr.data = [] := by
      apply List.eq_nil_of_length_eq_zero
      omega
    have bytes : fileByte (done ++ [phdr]) = fileByte done := by
      funext addr
      rw [fileByte_concat, if_neg (by simp [none_])]
    simp [empty, bytes, fileEnd_concat]
  · have place : ¬ img.phyaddr + phdr.vaddr < start := by omega
    simp only [ne_eq, empty, not_false_eq_true, if_true, nonzero, apart, decide_false, not_true,
      if_false, place, Option.bind_eq_bind, Option.bind_some, Option.pure_def,
      fileEnd_concat, List.getLast?_concat, Option.map_some, Option.getD_some,
      Option.some.injEq, Segments.mk.injEq, and_true]
    apply congrArg₂ ImgFile.mk
    · funext k
      rw [ImgFile.write_byte, fileByte_concat]
      dsimp only
      by_cases before : k < img.phyaddr
      · rw [if_neg (by omega), if_pos before, if_pos before]
      · rw [if_neg before, if_neg before]
        have index : start + (k - img.phyaddr) - phdr.vaddr =
            k - (img.phyaddr + phdr.vaddr - start) := by omega
        by_cases here : img.phyaddr + phdr.vaddr - start ≤ k ∧
            k < img.phyaddr + phdr.vaddr - start + phdr.data.length
        · rw [if_pos here, if_pos (by omega), index]
        · rw [if_neg here, if_neg (by omega)]
    · rw [ImgFile.write_phyaddr]
      dsimp only
      omega

/-- The first round, which finds out where the file begins. -/
theorem addSegment_first {fidx : Nat} {img : ImgFile} {phdr : Phdr} (later : 1 ≤ fidx)
    (apart : img.phyaddr ≠ 0) (blank : img.Blank) (nonzero : phdr.vaddr ≠ 0)
    (load : phdr.load = true) :
    addSegment fidx ⟨img, 0, 0, 0, 0⟩ phdr =
      addSegment fidx (segmentsAt img phdr.vaddr []) phdr := by
  -- In front of the first segment nothing has been written.
  have bytes : (fun k => if k < img.phyaddr then img.byte k else 0) = img.byte := by
    funext k
    by_cases before : k < img.phyaddr
    · rw [if_pos before]
    · rw [if_neg before, blank k (by omega)]
  have same : (segmentsAt img phdr.vaddr []).img = img := by
    simp [segmentsAt, fileByte, fileEnd, bytes]
  unfold addSegment
  simp only [load, Bool.true_eq_false, if_false, same]
  simp only [segmentsAt, ge_iff_le, later, nonzero, apart, and_true, and_false, if_true, if_false]

/-- The rest of the loop. -/
theorem segments_placed {fidx start : Nat} {img : ImgFile} (apart : img.phyaddr ≠ 0)
    (nonzero : start ≠ 0) (phdrs done : List Phdr)
    (right : ∀ phdr ∈ phdrs,
      phdr.load = true ∧ phdr.data.length ≤ phdr.memsz ∧ start ≤ phdr.vaddr) :
    phdrs.foldlM (addSegment fidx) (segmentsAt img start done) =
      some (segmentsAt img start (done ++ phdrs)) := by
  induction phdrs generalizing done with
  | nil => simp
  | cons phdr rest ih =>
    obtain ⟨load, fits, behind⟩ := right phdr List.mem_cons_self
    rw [List.foldlM_cons, addSegment_placed apart nonzero load fits behind, Option.bind_eq_bind,
      Option.bind_some, ih _ fun other mem => right other (List.mem_cons_of_mem _ mem),
      List.append_assoc, List.singleton_append]

/-- The loop skips what is not loaded. -/
theorem segments_loads (fidx : Nat) (phdrs : List Phdr) (segs : Segments) :
    phdrs.foldlM (addSegment fidx) segs =
      (phdrs.filter Phdr.load).foldlM (addSegment fidx) segs := by
  -- Headers that are not loaded leave the image alone.
  induction phdrs generalizing segs with
  | nil => rfl
  | cons phdr rest ih =>
    by_cases load : phdr.load = true
    · rw [List.filter_cons_of_pos load, List.foldlM_cons, List.foldlM_cons]
      apply congrArg
      funext next
      exact ih next
    · have skip : addSegment fidx segs phdr = some segs := if_pos (by simpa using load)
      rw [List.filter_cons_of_neg load, List.foldlM_cons, skip, ← ih]
      rfl

/-- The segments of a file lie behind its first one. -/
theorem Loadable.start_le {elf : ElfFile} (loadable : Loadable elf) :
    ∀ phdr ∈ elf.loads, elf.start ≤ phdr.vaddr := by
  intro phdr mem
  have ordered := loadable.ordered
  unfold ElfFile.start
  -- The first segment begins the file, and the others come behind it.
  cases is : elf.loads with
  | nil => rw [is] at mem; cases mem
  | cons first rest =>
    rw [is] at mem ordered
    rcases List.mem_cons.mp mem with rfl | later
    · exact le_rfl
    · have := List.rel_of_pairwise_cons ordered later
      simp only [List.head?_cons, Option.map_some, Option.getD_some]
      omega

/-- The loop over the program headers of the kernel or of a task. -/
theorem Loadable.segments {elf : ElfFile} (loadable : Loadable elf) {fidx : Nat} {img : ImgFile}
    (later : 1 ≤ fidx) (apart : img.phyaddr ≠ 0) (blank : img.Blank) :
    elf.phdrs.foldlM (addSegment fidx) ⟨img, 0, 0, 0, 0⟩ =
      .some (segmentsAt img elf.start elf.loads) := by
  -- Every segment has a place behind the start.
  have right : ∀ phdr ∈ elf.loads,
      phdr.load = true ∧ phdr.data.length ≤ phdr.memsz ∧ elf.start ≤ phdr.vaddr := by
    intro phdr mem
    exact ⟨(List.mem_filter.mp mem).2, loadable.fits phdr mem, loadable.start_le phdr mem⟩
  have nonzero := loadable.nonzero
  rw [segments_loads]
  change elf.loads.foldlM _ _ = _
  cases is : elf.loads with
  | nil => exact absurd is loadable.some
  | cons first rest =>
    have begin_ : elf.start = first.vaddr := by simp [ElfFile.start, is]
    rw [is] at right
    rw [begin_] at right nonzero ⊢
    rw [List.foldlM_cons, addSegment_first later apart blank nonzero
      (right first List.mem_cons_self).1, ← List.foldlM_cons,
      segments_placed apart nonzero _ _ right, List.nil_append]

/-! ## The bytes of one file -/

section Bytes

variable {phdrs : List Phdr}

/-- Where no segment has a byte there is zero. -/
theorem fileByte_outside {addr : Nat}
    (outside : ∀ phdr ∈ phdrs, ¬ (phdr.vaddr ≤ addr ∧ addr < phdr.vaddr + phdr.data.length)) :
    fileByte phdrs addr = 0 := by
  induction phdrs using List.reverseRecOn with
  | nil => rfl
  | append_singleton done last ih =>
    rw [fileByte_concat, if_neg (outside last (by simp))]
    exact ih fun phdr mem => outside phdr (by simp [mem])

variable (ordered : phdrs.Pairwise fun phdr next => phdr.vaddr + phdr.memsz ≤ next.vaddr)
  (fits : ∀ phdr ∈ phdrs, phdr.data.length ≤ phdr.memsz)

include ordered fits

/-- Every byte of a segment is found. -/
theorem fileByte_at {phdr : Phdr} (mem : phdr ∈ phdrs) {i : Nat} (inside : i < phdr.data.length) :
    fileByte phdrs (phdr.vaddr + i) = phdr.data.getD i 0 := by
  -- The induction is on the segments from the last one on, which overwrites none before it.
  induction phdrs using List.reverseRecOn with
  | nil => cases mem
  | append_singleton done last ih =>
    rw [List.pairwise_append] at ordered
    obtain ⟨ordered, -, before⟩ := ordered
    rw [fileByte_concat]
    rcases List.mem_append.mp mem with earlier | here
    · -- A later segment lies behind it.
      have apart := before phdr earlier last (by simp)
      have small := fits phdr mem
      rw [if_neg (by omega)]
      exact ih ordered (fun other mem => fits other (by simp [mem])) earlier
    · rw [List.mem_singleton.mp here] at inside ⊢
      rw [if_pos (by omega), Nat.add_sub_cancel_left]

/-- The bytes of a segment end before those of the file do. -/
theorem le_fileEnd (start : Nat) {phdr : Phdr} (mem : phdr ∈ phdrs) (some_ : phdr.memsz ≠ 0) :
    phdr.vaddr + phdr.data.length ≤ fileEnd start phdrs := by
  -- The file ends with its last segment that is not empty.
  induction phdrs using List.reverseRecOn with
  | nil => cases mem
  | append_singleton done last ih =>
    rw [List.pairwise_append] at ordered
    obtain ⟨ordered, -, before⟩ := ordered
    rw [fileEnd_concat]
    rcases List.mem_append.mp mem with earlier | here
    · have apart := before phdr earlier last (by simp)
      have small := fits phdr mem
      split
      · exact ih ordered (fun other mem => fits other (by simp [mem])) earlier
      · omega
    · rw [List.mem_singleton.mp here] at some_ ⊢
      rw [if_neg some_]

/-- Behind the bytes of the file there is zero. -/
theorem fileByte_behind {start addr : Nat} (behind : fileEnd start phdrs ≤ addr) :
    fileByte phdrs addr = 0 := by
  apply fileByte_outside
  rintro phdr mem ⟨low, high⟩
  have small := fits phdr mem
  have := le_fileEnd ordered fits start mem (by omega)
  omega

end Bytes

/-- The bytes of a file end where those of some segment do. -/
theorem fileEnd_le {start limit : Nat} {phdrs : List Phdr} (begin_ : start ≤ limit)
    (below : ∀ phdr ∈ phdrs, phdr.vaddr + phdr.data.length ≤ limit) :
    fileEnd start phdrs ≤ limit := by
  induction phdrs using List.reverseRecOn with
  | nil => exact begin_
  | append_singleton done last ih =>
    rw [fileEnd_concat]
    split
    · exact ih fun phdr mem => below phdr (by simp [mem])
    · exact below last (by simp)

/-- The bytes of a file end behind its beginning. -/
theorem start_le_fileEnd {start : Nat} {phdrs : List Phdr}
    (behind : ∀ phdr ∈ phdrs, start ≤ phdr.vaddr) : start ≤ fileEnd start phdrs := by
  induction phdrs using List.reverseRecOn with
  | nil => exact le_rfl
  | append_singleton done last ih =>
    rw [fileEnd_concat]
    have := behind last (by simp)
    split
    · exact ih fun phdr mem => behind phdr (by simp [mem])
    · omega

/-- The memory of a segment ends before that of the file does. -/
theorem Loadable.le_memEnd {elf : ElfFile} (loadable : Loadable elf) :
    ∀ phdr ∈ elf.loads, phdr.vaddr + phdr.memsz ≤ elf.memEnd := by
  intro phdr mem
  have ordered := loadable.ordered
  unfold ElfFile.memEnd
  -- The last segment reaches furthest, as the segments are in order.
  obtain ⟨done, last, is⟩ := (List.eq_nil_or_concat' _).resolve_left loadable.some
  rw [is] at ordered mem ⊢
  rw [List.getLast?_concat, Option.map_some, Option.getD_some]
  rcases List.mem_append.mp mem with earlier | here
  · have := (List.pairwise_append.mp ordered).2.2 phdr earlier last (by simp)
    omega
  · rw [List.mem_singleton.mp here]

/-- A file has no more bytes than memory. -/
theorem Loadable.size_le {elf : ElfFile} (loadable : Loadable elf) :
    elf.start ≤ elf.memEnd ∧ elf.start + elf.size ≤ elf.memEnd := by
  have begin_ : elf.start ≤ elf.memEnd := by
    obtain ⟨phdr, mem⟩ := List.exists_mem_of_ne_nil _ loadable.some
    have := loadable.start_le phdr mem
    have := loadable.le_memEnd phdr mem
    omega
  have last : fileEnd elf.start elf.loads ≤ elf.memEnd := by
    apply fileEnd_le begin_
    intro phdr mem
    have := loadable.fits phdr mem
    have := loadable.le_memEnd phdr mem
    omega
  unfold ElfFile.size
  omega

/-! ## The files one after another -/

/-- The image with one more file in it. -/
def placeFile (img : ImgFile) (elf : ElfFile) : ImgFile := (segmentsAt img elf.start elf.loads).img

/-- What is told of a task that lies at an offset. -/
def taskInfo (offset : Nat) (elf : ElfFile) : TaskInfo :=
  { offset
    fsize := elf.size
    vaddr := elf.start
    entr := elf.entry
    msize := u32 (elf.memEnd - elf.start)
    name := elf.name.take taskNameLen }

/-- What is told of tasks that lie one after another. -/
def taskInfos : Nat → List ElfFile → List TaskInfo
  | _, [] => []
  | offset, elf :: tasks => taskInfo offset elf :: taskInfos (offset + elf.size) tasks

/-- The bytes that files take. -/
def totalSize (tasks : List ElfFile) : Nat := (tasks.map ElfFile.size).sum

/-- A file ends where its bytes do. -/
@[simp] theorem placeFile_phyaddr (img : ImgFile) (elf : ElfFile) :
    (placeFile img elf).phyaddr = img.phyaddr + elf.size := rfl

/-- The bytes of a file, and what was there before it. -/
theorem placeFile_byte (img : ImgFile) (elf : ElfFile) (k : Nat) :
    (placeFile img elf).byte k =
      if k < img.phyaddr then img.byte k else fileByte elf.loads (elf.start + (k - img.phyaddr)) :=
  rfl

/-- Nothing is behind a file. -/
theorem Loadable.blank {elf : ElfFile} (loadable : Loadable elf) (img : ImgFile) :
    (placeFile img elf).Blank := by
  intro k behind
  have begin_ := start_le_fileEnd loadable.start_le
  rw [placeFile_phyaddr, ElfFile.size] at behind
  rw [placeFile_byte, if_neg (by omega)]
  have outside : fileEnd elf.start elf.loads ≤ elf.start + (k - img.phyaddr) := by omega
  exact fileByte_behind loadable.ordered loadable.fits outside

/-- One round of the loop over the files. -/
theorem Loadable.addFile {elf : ElfFile} (loadable : Loadable elf) {fidx : Nat} {img : ImgFile}
    (later : 1 ≤ fidx) (apart : img.phyaddr ≠ 0) (blank : img.Blank)
    (named : elf.name ≠ bootblockName) (infos : List TaskInfo) :
    addFile fidx img infos elf =
      .some (placeFile img elf,
        if 2 ≤ fidx then infos ++ [taskInfo img.phyaddr elf] else infos) := by
  have first : fidx ≠ 0 := by omega
  have right : elf.memEnd - elf.start =
      (elf.loads.getLast?.map Phdr.vaddr).getD 0 - elf.start +
        (elf.loads.getLast?.map Phdr.memsz).getD 0 := by
    obtain ⟨done, last, is⟩ := (List.eq_nil_or_concat' _).resolve_left loadable.some
    have := loadable.start_le last (by simp [is])
    simp only [ElfFile.memEnd, is, List.getLast?_concat, Option.map_some, Option.getD_some]
    omega
  unfold GlucOS.addFile
  rw [loadable.segments later apart blank]
  simp only [Option.bind_eq_bind, Option.bind_some, first, named, decide_false, ne_eq,
    not_true, if_false]
  split
  · have start : (segmentsAt img elf.start elf.loads).vaddr0 ≠ 0 := loadable.nonzero
    have size : (segmentsAt img elf.start elf.loads).img.phyaddr - img.phyaddr = elf.size :=
      Nat.add_sub_cancel_left ..
    rw [if_neg start, size, taskInfo, right]
    rfl
  · rfl

/-- The loop over the tasks. -/
theorem addFiles_tasks {fidx : Nat} {img : ImgFile} (later : 2 ≤ fidx) (apart : img.phyaddr ≠ 0)
    (blank : img.Blank) (tasks : List ElfFile)
    (right : ∀ elf ∈ tasks, Loadable elf ∧ elf.name ≠ bootblockName) (infos : List TaskInfo) :
    addFiles fidx img infos tasks =
      some (tasks.foldl placeFile img, infos ++ taskInfos img.phyaddr tasks) := by
  induction tasks generalizing fidx img infos with
  | nil => simp [addFiles, taskInfos]
  | cons elf tasks ih =>
    obtain ⟨loadable, named⟩ := right elf List.mem_cons_self
    rw [addFiles, loadable.addFile (by omega) apart blank named, if_pos later,
      Option.bind_eq_bind, Option.bind_some]
    dsimp only
    rw [ih (by omega) (by rw [placeFile_phyaddr]; omega) (loadable.blank img)
      (fun other mem => right other (List.mem_cons_of_mem _ mem)), taskInfos,
      placeFile_phyaddr, List.append_assoc, List.singleton_append, List.foldl_cons]

/-- Files placed later leave what is there, and the last one ends behind it. -/
theorem foldl_placeFile (img : ImgFile) (tasks : List ElfFile) :
    img.phyaddr ≤ (tasks.foldl placeFile img).phyaddr ∧
      ∀ k < img.phyaddr, (tasks.foldl placeFile img).byte k = img.byte k := by
  induction tasks generalizing img with
  | nil => exact ⟨le_rfl, fun _ _ => rfl⟩
  | cons elf tasks ih =>
    obtain ⟨behind, same⟩ := ih (placeFile img elf)
    rw [placeFile_phyaddr] at behind same
    constructor
    · rw [List.foldl_cons]
      omega
    · intro k before
      rw [List.foldl_cons, same k (by omega), placeFile_byte, if_pos before]

/-- Where files end that are placed one after another. -/
theorem foldl_placeFile_phyaddr (img : ImgFile) (tasks : List ElfFile) :
    (tasks.foldl placeFile img).phyaddr = img.phyaddr + totalSize tasks := by
  induction tasks generalizing img with
  | nil => rfl
  | cons elf tasks ih =>
    rw [List.foldl_cons, ih, placeFile_phyaddr, totalSize, totalSize, List.map_cons, List.sum_cons,
      Nat.add_assoc]

/-- What is told of tasks in two parts. -/
theorem taskInfos_append (offset : Nat) (before after : List ElfFile) :
    taskInfos offset (before ++ after) =
      taskInfos offset before ++ taskInfos (offset + totalSize before) after := by
  induction before generalizing offset with
  | nil => rfl
  | cons elf before ih =>
    rw [List.cons_append, taskInfos, ih, taskInfos, totalSize, totalSize, List.map_cons,
      List.sum_cons, Nat.add_assoc, List.cons_append]

/-! ## The boot block -/

/-- A round of the loop over the program headers of the boot block. -/
theorem addSegment_boot (img : ImgFile) (vaddrLast mSizeLast : Nat) (phdr : Phdr)
    (load : phdr.load = true) :
    addSegment 0 ⟨img, 0, 0, vaddrLast, mSizeLast⟩ phdr =
      some ⟨if phdr.memsz ≠ 0 then img.write phdr.data else img, 0, 0, phdr.vaddr, phdr.memsz⟩ := by
  unfold addSegment writeSegment
  by_cases some_ : phdr.memsz ≠ 0 <;> simp [load, some_]

/-- The loop over the program headers of the boot block. -/
theorem segments_boot (phdrs : List Phdr) (load : ∀ phdr ∈ phdrs, phdr.load = true)
    (img : ImgFile) (vaddrLast mSizeLast : Nat) :
    ∃ vaddrLast' mSizeLast',
      phdrs.foldlM (addSegment 0) ⟨img, 0, 0, vaddrLast, mSizeLast⟩ =
        some ⟨img.write ((phdrs.filter fun phdr => phdr.memsz ≠ 0).flatMap Phdr.data), 0, 0,
          vaddrLast', mSizeLast'⟩ := by
  induction phdrs generalizing img vaddrLast mSizeLast with
  | nil => exact ⟨vaddrLast, mSizeLast, rfl⟩
  | cons phdr rest ih =>
    rw [List.foldlM_cons, addSegment_boot _ _ _ _ (load phdr List.mem_cons_self),
      Option.bind_eq_bind, Option.bind_some]
    have rest_ := ih fun other mem => load other (List.mem_cons_of_mem _ mem)
    by_cases some_ : phdr.memsz ≠ 0
    · rw [if_pos some_, List.filter_cons_of_pos (by simp [some_]), List.flatMap_cons,
        ImgFile.write_append]
      exact rest_ _ _ _
    · rw [if_neg some_, List.filter_cons_of_neg (by simp [some_])]
      exact rest_ _ _ _

/-- The image with the boot block in it, filled up to the end of its sector. -/
def bootImg (boot : ElfFile) : ImgFile :=
  writePadding (ImgFile.write ⟨fun _ => 0, 0⟩ (bootBytes boot)) sectorSize

/-- The first round of the loop over the files. -/
theorem addFile_boot {boot : ElfFile} (named : boot.name = bootblockName) :
    addFile 0 ⟨fun _ => 0, 0⟩ [] boot = some (bootImg boot, []) := by
  obtain ⟨vaddrLast, mSizeLast, is⟩ := segments_boot boot.loads
    (fun phdr mem => (List.mem_filter.mp mem).2) ⟨fun _ => 0, 0⟩ 0 0
  unfold GlucOS.addFile
  rw [segments_loads]
  change (boot.loads.foldlM _ _ >>= _) = _
  rw [is]
  simp [named, bootImg, bootBytes]

/-- The boot block ends with a sector or behind it. -/
theorem bootImg_phyaddr (boot : ElfFile) :
    (bootImg boot).phyaddr = max (bootBytes boot).length sectorSize := by
  simp only [bootImg, writePadding, ImgFile.write_phyaddr, List.length_replicate]
  omega

/-- Nothing is behind the boot block. -/
theorem bootImg_blank (boot : ElfFile) : (bootImg boot).Blank := by
  apply ImgFile.Blank.write
  apply ImgFile.Blank.write
  intro k _
  rfl

/-! ## The whole image -/

/-- What is written about the image leaves the files behind the first sector. -/
theorem writeImgInfo_byte (kernelSize : Nat) (infos : List TaskInfo) {img : ImgFile} {k : Nat}
    (behind : sectorSize ≤ k) (before : k < img.phyaddr) :
    (writeImgInfo kernelSize infos img).byte k = img.byte k := by
  unfold sectorSize at behind
  simp only [writeImgInfo, ImgFile.write_byte, List.length_append, numberBytes, List.length_map,
    List.length_range, List.length_cons, List.length_nil]
  rw [if_neg (by omega), if_neg (by omega), if_neg (by omega)]

end GlucOS
