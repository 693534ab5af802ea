import GlucOS.Lib.Simulation
import GlucOS.Volume.ContentLaws
import GlucOS.Volume.FrameLaws

/-! Tasks that read and write files of one volume find strings of bytes. -/

namespace GlucOS

open Access

/-! ## A volume and the strings of bytes on it -/

/-- Descriptors of all tasks have some property. -/
def DescsOk (good : FileDesc → Prop) (files : OpenFiles) : Prop :=
  ∀ task ∈ files.tasks, task.fds.length = ofileMax ∧ ∀ desc, some desc ∈ task.fds → good desc

/-- A store shows what the files of a volume hold, each of which has these pointers. -/
structure ShowsFiles (sys : GfsSystem) (store : FileStore) (files : Nat → Option (List Nat)) :
    Prop where
  /-- Each file has the blocks that its size asks for. -/
  full : ∀ ino ps, files ino = some ps → FileFull sys.blank ino ps
  /-- No block belongs to two of them. -/
  apart : ∀ ino ino' ps ps', ino ≠ ino' → files ino = some ps → files ino' = some ps' →
    ∀ p ∈ ps, p ∉ ps'
  /-- Open files are among them. -/
  opened : DescsOk (fun desc => desc.pos ≤ uint32Max ∧ ∃ ps, files desc.ino = some ps) sys.files
  /-- The store has their bytes. -/
  contents : ∀ ino, store.contents ino = (files ino).map fun _ => sys.blank.contents ino
  /-- It knows the number of free blocks. -/
  free : store.free = (blockBitmap.clear sys.bitmaps).length
  /-- The same files are open. -/
  same : store.files = sys.files

/-- Files may have grown by some blocks that were free; nothing else on the volume has changed. -/
structure FilesOnly (sys next : GfsSystem) (files files' : Nat → Option (List Nat)) : Prop where
  /-- Inodes are of the same kind, and no other bitmap was touched. -/
  kinds : SameKinds sys.blank next.blank
  /-- Inodes that are no files. -/
  inodes : ∀ ino, files ino = none → next.vol.inodes ino = sys.vol.inodes ino
  /-- The number of inodes. -/
  inodeNum : next.vol.inodeNum = sys.vol.inodeNum
  /-- No file comes or goes. -/
  same : ∀ ino, (files' ino).isSome = (files ino).isSome
  /-- A file keeps its blocks. -/
  old : ∀ ino ps, files ino = some ps → ∃ ps', files' ino = some ps' ∧ ∀ p ∈ ps, p ∈ ps'
  /-- Other blocks that it has were free. -/
  fresh : ∀ ino ps', files' ino = some ps' → ∀ p ∈ ps', (∃ ps, files ino = some ps ∧ p ∈ ps) ∨
    ∃ b, p = b + gfsDatalocBlock ∧ blockBitmap.isSet sys.bitmaps.cache b = false
  /-- Blocks of no file. -/
  blocks : ∀ p, (∀ ino ps, files' ino = some ps → p ∉ ps) → next.vol.blocks p = sys.vol.blocks p
  /-- Blocks stay allocated. -/
  bits : ∀ b, blockBitmap.isSet sys.bitmaps.cache b = true →
    blockBitmap.isSet next.bitmaps.cache b = true
  /-- Those that were allocated are in files. -/
  taken : ∀ b < blockBitmap.bits, blockBitmap.isSet next.bitmaps.cache b = true →
    blockBitmap.isSet sys.bitmaps.cache b = true ∨
      ∃ ino ps, files' ino = some ps ∧ b + gfsDatalocBlock ∈ ps

/-- The volume is the same. -/
theorem FilesOnly.refl {sys next : GfsSystem} (files : Nat → Option (List Nat))
    (vol : next.vol = sys.vol) (bitmaps : next.bitmaps = sys.bitmaps) :
    FilesOnly sys next files files := by
  constructor
  · constructor
    · intro ino
      exact congrArg (fun vol : GfsVolume => (vol.inodes ino).type) vol
    · intro ino
      exact congrArg (fun vol : GfsVolume => (vol.inodes ino).nlink) vol
    · intro sidx _
      show next.bitmaps.cache sidx = sys.bitmaps.cache sidx ∧
        next.bitmaps.disk sidx = sys.bitmaps.disk sidx
      rw [bitmaps]
      exact ⟨rfl, rfl⟩
  · intro ino _
    rw [vol]
  · rw [vol]
  · intro ino
    rfl
  · intro ino ps isFile
    exact ⟨ps, isFile, fun _ mem => mem⟩
  · intro ino ps isFile p mem
    exact .inl ⟨ps, isFile, mem⟩
  · intro p _
    rw [vol]
  · intro b isSet
    rwa [bitmaps]
  · intro b _ isSet
    rw [bitmaps] at isSet
    exact .inl isSet

/-- A call that concerns files only leads to this system, and to a store that shows it. -/
def Moves (sys : GfsSystem) (files : Nat → Option (List Nat)) (next : GfsSystem)
    (store : FileStore) : Prop :=
  ∃ files', ShowsFiles next store files' ∧ FilesOnly sys next files files'

/-! ## Descriptors -/

section Descriptors

variable {good : FileDesc → Prop} {files next : OpenFiles} {i : Nat} {task : FileTask}

/-- The table of descriptors, read entry by entry. -/
theorem map_join {α : Type*} {l : List (Option α)} {n : Nat} (length : l.length = n) :
    ((List.range n).map fun k => l[k]?.join) = l := by
  apply List.ext_getElem?
  intro k
  rw [List.getElem?_map]
  by_cases inside : k < n
  · rw [List.getElem?_range inside, Option.map_some, List.getElem?_eq_getElem (by omega)]
    rfl
  · rw [List.getElem?_eq_none (by simpa using inside), List.getElem?_eq_none (by omega)]
    rfl

/-- One entry changed. -/
theorem map_update {α : Type*} {l : List (Option α)} {n k : Nat} (length : l.length = n)
    (a : Option α) (inside : k < n) :
    (List.range n).map (Function.update (fun j => l[j]?.join) k a) = l.set k a := by
  apply List.ext_getElem?
  intro j
  rw [List.getElem?_map, List.getElem?_set]
  by_cases here : k = j
  · subst here
    rw [List.getElem?_range inside, Option.map_some, Function.update_self, if_pos rfl,
      if_pos (by omega)]
  · rw [if_neg here]
    by_cases below : j < n
    · rw [List.getElem?_range below, Option.map_some, Function.update_of_ne (Ne.symm here),
        List.getElem?_eq_getElem (by omega)]
      rfl
    · rw [List.getElem?_eq_none (by simpa using below), List.getElem?_eq_none (by omega)]
      rfl

/-- A task that is replaced by a good one. -/
theorem DescsOk.set (ok : DescsOk good files) {flist : List FlistNode}
    {fds : List (Option FileDesc)} (length : fds.length = ofileMax)
    (all : ∀ desc, some desc ∈ fds → good desc) (curIno : Nat) :
    DescsOk good { files with flist, tasks := files.tasks.set i ⟨curIno, fds⟩ } := by
  intro other member
  rcases List.mem_or_eq_of_mem_set member with old | rfl
  · exact ok other old
  · exact ⟨length, all⟩

/-- A descriptor put into a table, or removed from it. -/
theorem mem_set_desc {fds : List (Option FileDesc)} {k : Nat} {new : Option FileDesc}
    (all : ∀ desc, some desc ∈ fds → good desc) (fresh : ∀ desc, new = some desc → good desc) :
    ∀ desc, some desc ∈ fds.set k new → good desc := by
  intro desc member
  rcases List.mem_or_eq_of_mem_set member with old | same
  · exact all desc old
  · exact fresh desc same.symm

/-- A copy of a task has good descriptors. -/
theorem copyTask_descs {out : Int} (ok : DescsOk good files)
    (done : files.copyTask i = some (out, next)) : DescsOk good next := by
  unfold OpenFiles.copyTask at done
  cases here : files.tasks[i]? with
  | none => simp [here] at done
  | some task =>
    rw [here] at done
    dsimp only at done
    split at done
    · simp only [Option.some.injEq, Prod.mk.injEq] at done
      exact done.2 ▸ ok
    · simp only [Option.some.injEq, Prod.mk.injEq] at done
      rw [← done.2]
      intro other member
      rcases List.mem_append.mp member with old | new
      · exact ok other old
      · rw [List.mem_singleton.mp new]
        exact ok task (List.mem_of_getElem? here)

/-- Opening, closing, copying and dropping keep descriptors good when those opened are. -/
theorem fileStep_descs {event : FileEvent} {out : Int} (ok : DescsOk good files)
    (fresh : ∀ i tino oflags noHeap, event = .doOpen i (.found tino) oflags noHeap →
      good ⟨tino, oflags, 0⟩)
    (done : fileStep files event = some (out, next)) : DescsOk good next := by
  cases event with
  | doOpen i path oflags noHeap =>
    simp only [fileStep, OpenFiles.doOpen] at done
    cases here : files.tasks[i]? with
    | none => simp [here] at done
    | some task =>
      have old := ok task (List.mem_of_getElem? here)
      rw [here] at done
      cases path with
      | noPath code =>
        simp only [Option.some.injEq, Prod.mk.injEq] at done
        exact done.2 ▸ ok
      | refused code =>
        cases free : task.fds.findIdx? Option.isNone with
        | none =>
          simp only [free, Option.some.injEq, Prod.mk.injEq] at done
          exact done.2 ▸ ok
        | some fd =>
          simp only [free, Option.some.injEq, Prod.mk.injEq] at done
          exact done.2 ▸ ok
      | found tino =>
        cases free : task.fds.findIdx? Option.isNone with
        | none =>
          simp only [free, Option.some.injEq, Prod.mk.injEq] at done
          exact done.2 ▸ ok
        | some fd =>
          simp only [free] at done
          cases counted : flistIncFnode files.inodeNum tino (writes oflags) noHeap files.flist with
          | none =>
            simp only [counted, Option.some.injEq, Prod.mk.injEq] at done
            exact done.2 ▸ ok
          | some flist =>
            simp only [counted, Option.some.injEq, Prod.mk.injEq] at done
            rw [← done.2]
            apply ok.set
            · rw [List.length_set]
              exact old.1
            · apply mem_set_desc old.2
              intro desc isNew
              cases isNew
              exact fresh i tino oflags noHeap rfl
  | doClose i fd =>
    simp only [fileStep, OpenFiles.doClose] at done
    cases here : files.tasks[i]? with
    | none => simp [here] at done
    | some task =>
      have old := ok task (List.mem_of_getElem? here)
      rw [here] at done
      dsimp only at done
      split at done
      · simp only [Option.some.injEq, Prod.mk.injEq] at done
        exact done.2 ▸ ok
      · split at done
        · split at done
          · simp only [Option.some.injEq, Prod.mk.injEq] at done
            exact done.2 ▸ ok
          · simp only [Option.some.injEq, Prod.mk.injEq] at done
            rw [← done.2]
            apply ok.set
            · rw [List.length_set]
              exact old.1
            · apply mem_set_desc old.2
              intro desc isNew
              cases isNew
        · simp only [Option.some.injEq, Prod.mk.injEq] at done
          exact done.2 ▸ ok
  | doChangedir i target =>
    simp only [fileStep, OpenFiles.doChangedir] at done
    cases here : files.tasks[i]? with
    | none => simp [here] at done
    | some task =>
      have old := ok task (List.mem_of_getElem? here)
      rw [here] at done
      dsimp only at done
      split at done
      · cases done
      · split at done
        · simp only [Option.some.injEq, Prod.mk.injEq] at done
          exact done.2 ▸ ok
        · simp only [Option.some.injEq, Prod.mk.injEq] at done
          rw [← done.2]
          exact ok.set old.1 old.2 target
  | doFork i => exact copyTask_descs ok done
  | doThreadCreate i => exact copyTask_descs ok done
  | createProc i =>
    simp only [fileStep, OpenFiles.createProc] at done
    cases here : files.tasks[i]? with
    | none => simp [here] at done
    | some task =>
      rw [here] at done
      dsimp only at done
      split at done
      · simp only [Option.some.injEq, Prod.mk.injEq] at done
        exact done.2 ▸ ok
      · simp only [Option.some.injEq, Prod.mk.injEq] at done
        rw [← done.2]
        intro other member
        rcases List.mem_append.mp member with old | new
        · exact ok other old
        · rw [List.mem_singleton.mp new]
          refine ⟨List.length_replicate, ?_⟩
          intro desc inside
          cases List.eq_of_mem_replicate inside
  | threadKill i =>
    simp only [fileStep, OpenFiles.threadKill] at done
    cases here : files.tasks[i]? with
    | none => simp [here] at done
    | some task =>
      rw [here] at done
      simp only [Option.some.injEq, Prod.mk.injEq] at done
      rw [← done.2]
      intro other member
      exact ok other (List.mem_of_mem_eraseIdx member)

end Descriptors

/-! ## What a task sees -/

section Seen

variable {fs next : Gfs} {ino : Nat} {ps : List Nat}

/-- A file is as full for every task. -/
theorem FileFull.seen (full : FileFull fs ino ps) (vol : next.vol = fs.vol)
    (bitmaps : next.bitmaps = fs.bitmaps) : FileFull next ino ps := by
  have exists_ := full.exists_
  have word := full.word
  have tree := full.tree
  have held := full.held
  have count := full.count
  rw [← vol] at exists_ word tree count
  rw [← bitmaps] at held
  exact ⟨⟨exists_, word, tree, full.nodup, held⟩, count⟩

/-- It holds the same. -/
theorem Gfs.contents_seen (vol : next.vol = fs.vol) : next.contents ino = fs.contents ino := by
  unfold Gfs.contents Gfs.byteAt Gfs.ptrAt
  rw [vol]

variable {sys : GfsSystem} {task : FileTask}

/-- A task uses its own descriptors. -/
theorem openFile_seenBy (sys : GfsSystem) (task : FileTask) (fd : Int) (flag : Nat) :
    (sys.seenBy task).openFile fd flag = task.descFor fd flag := by
  unfold Gfs.openFile FileTask.descFor FileTask.desc
  by_cases bad : fd < 0 ∨ (ofileMax : Int) ≤ fd
  · rw [if_pos bad, if_pos bad]
    rfl
  · rw [if_neg bad, if_neg bad]
    rfl

/-- A descriptor of a task is in its table. -/
theorem FileTask.desc_inside {fd : Int} {desc : FileDesc} (is : task.desc fd = some desc) :
    0 ≤ fd ∧ fd.toNat < ofileMax ∧ some desc ∈ task.fds := by
  unfold FileTask.desc at is
  by_cases bad : fd < 0 ∨ (ofileMax : Int) ≤ fd
  · rw [if_pos bad] at is
    cases is
  · rw [if_neg bad, Option.join_eq_some_iff] at is
    exact ⟨by omega, by omega, List.mem_of_getElem? is⟩

/-- A descriptor with a flag is a descriptor. -/
theorem FileTask.desc_of_descFor {fd : Int} {flag : Nat} {desc : FileDesc}
    (is : task.descFor fd flag = some desc) : task.desc fd = some desc := by
  unfold FileTask.descFor at is
  obtain ⟨desc', found, kept⟩ := Option.bind_eq_some_iff.mp is
  split at kept
  · cases kept
  · rw [found, kept]

/-- A call that leaves everything as it was. -/
theorem GfsSystem.leftBy_same {i : Nat} (here : sys.files.tasks[i]? = some task)
    (table : task.fds.length = ofileMax) : sys.leftBy i task (sys.seenBy task) = sys := by
  obtain ⟨inside, is⟩ := List.getElem?_eq_some_iff.mp here
  have tasks : sys.files.tasks.set i task = sys.files.tasks := by
    rw [← is, List.set_getElem_self inside]
  unfold GfsSystem.leftBy GfsSystem.seenBy
  dsimp only
  rw [map_join table, tasks]

/-- A call that moves a descriptor. -/
theorem GfsSystem.leftBy_moved (i : Nat) {fd : Int} (fs : Gfs) {desc : Option FileDesc}
    (table : task.fds.length = ofileMax) (inside : fd.toNat < ofileMax)
    (fds : fs.fds = Function.update (sys.seenBy task).fds fd.toNat desc) :
    (sys.leftBy i task fs).files = { sys.files with
      tasks := sys.files.tasks.set i { task with fds := task.fds.set fd.toNat desc } } := by
  unfold GfsSystem.leftBy
  dsimp only
  rw [fds]
  unfold GfsSystem.seenBy
  dsimp only
  rw [map_update table desc inside]

end Seen

/-! ## One call -/

section Steps

variable {sys : GfsSystem} {store : FileStore} {files : Nat → Option (List Nat)} {i : Nat}
  {task : FileTask} {fd : Int} {desc : FileDesc}

/-- The files as a task sees them. -/
theorem ShowsFiles.filesOk (shows_ : ShowsFiles sys store files) (here : task ∈ sys.files.tasks) :
    FilesOk (sys.seenBy task) files where
  ok ino ps isFile := by
    have full : FileFull (sys.seenBy task) ino ps := (shows_.full ino ps isFile).seen rfl rfl
    exact full.toFileOk
  apart := shows_.apart
  opened k desc is := by
    have inside : task.fds[k]?.join = some desc := is
    rw [Option.join_eq_some_iff] at inside
    exact (shows_.opened task here).2 desc (List.mem_of_getElem? inside)

/-- What is behind an open descriptor. -/
theorem ShowsFiles.behind (shows_ : ShowsFiles sys store files)
    (here : sys.files.tasks[i]? = some task) (is : task.desc fd = some desc) :
    desc.pos ≤ uint32Max ∧ ∃ ps, files desc.ino = some ps ∧
      FileFull (sys.seenBy task) desc.ino ps ∧
      store.bytes desc.ino = (sys.seenBy task).contents desc.ino := by
  obtain ⟨-, -, member⟩ := FileTask.desc_inside is
  obtain ⟨word, ps, isFile⟩ := (shows_.opened task (List.mem_of_getElem? here)).2 desc member
  refine ⟨word, ps, isFile, (shows_.full _ ps isFile).seen rfl rfl, ?_⟩
  rw [FileStore.bytes, shows_.contents, isFile]
  exact Gfs.contents_seen rfl

/-- A call that does nothing. -/
theorem ShowsFiles.stays (shows_ : ShowsFiles sys store files)
    (here : sys.files.tasks[i]? = some task) :
    Moves sys files (sys.leftBy i task (sys.seenBy task)) store := by
  rw [sys.leftBy_same here (shows_.opened task (List.mem_of_getElem? here)).1]
  exact ⟨files, shows_, .refl files rfl rfl⟩

/-- A descriptor that was moved leaves the files as they were. -/
theorem ShowsFiles.moved (shows_ : ShowsFiles sys store files)
    (here : sys.files.tasks[i]? = some task) (is : task.desc fd = some desc) {pos : Nat}
    (word : pos ≤ uint32Max) :
    Moves sys files (sys.leftBy i task ((sys.seenBy task).putPos fd desc pos))
      (store.moved i task fd desc pos) := by
  obtain ⟨-, inside, member⟩ := FileTask.desc_inside is
  have old := shows_.opened task (List.mem_of_getElem? here)
  have moved := sys.leftBy_moved i ((sys.seenBy task).putPos fd desc pos) old.1
    inside rfl
  refine ⟨files, ?_, .refl files rfl rfl⟩
  constructor
  · intro ino ps isFile
    exact (shows_.full ino ps isFile).seen rfl rfl
  · exact shows_.apart
  · rw [moved]
    apply shows_.opened.set
    · rw [List.length_set]
      exact old.1
    · apply mem_set_desc old.2
      intro new isNew
      cases isNew
      exact ⟨word, (old.2 desc member).2⟩
  · exact shows_.contents
  · exact shows_.free
  · rw [moved, FileStore.moved, shows_.same]

/-- A call that concerns what is open. -/
theorem files_same {event : FileEvent} (shows_ : ShowsFiles sys store files)
    (served : (IoEvent.files event).Served store) :
    SameStep (Moves sys files) (ioStep sys (.files event))
      (storeStep store (.files event)) := by
  unfold ioStep storeStep
  dsimp only
  rw [shows_.same]
  cases done : fileStep sys.files event with
  | none => trivial
  | some result =>
    refine ⟨rfl, files, ⟨shows_.full, shows_.apart, ?_, shows_.contents, shows_.free, rfl⟩,
      .refl files rfl rfl⟩
    apply fileStep_descs shows_.opened _ done
    intro i tino oflags noHeap is
    subst is
    have there : (store.contents tino).isSome := served
    rw [shows_.contents, Option.isSome_map, Option.isSome_iff_exists] at there
    exact ⟨Nat.zero_le _, there⟩

/-- `do_read`. -/
theorem read_same {buf len : Nat} {mem : Memory} (shows_ : ShowsFiles sys store files)
    (served : (IoEvent.read i fd buf len mem).Served store) :
    SameStep (Moves sys files)
      (ioStep sys (.read i fd buf len mem)) (storeStep store (.read i fd buf len mem)) := by
  unfold ioStep storeStep
  dsimp only
  rw [shows_.same]
  cases here : sys.files.tasks[i]? with
  | none => trivial
  | some task =>
    have table := (shows_.opened task (List.mem_of_getElem? here)).1
    have opened := openFile_seenBy sys task fd oRdonly
    rw [Option.bind_some, Option.map_some]
    cases is : task.descFor fd oRdonly with
    | none =>
      rw [is] at opened
      unfold doRead
      rw [opened]
      exact ⟨rfl, shows_.stays here⟩
    | some desc =>
      rw [is] at opened
      dsimp only
      by_cases kernel : kvaMin ≤ buf
      · unfold doRead
        rw [opened]
        dsimp only
        rw [if_pos kernel, if_pos kernel]
        exact ⟨rfl, shows_.stays here⟩
      · have isDesc := FileTask.desc_of_descFor is
        obtain ⟨word, ps, -, full, bytes⟩ := shows_.behind here isDesc
        have readable := served task desc (by rw [shows_.same]; exact here) is (by omega)
        rw [bytes] at readable
        obtain ⟨answer, leaves⟩ := doRead_gives opened (Nat.lt_of_not_le kernel) full readable
        rw [if_neg kernel, answer, leaves, bytes]
        have size := full.word
        refine ⟨rfl, shows_.moved here isDesc ?_⟩
        rw [length_part, Gfs.length_contents]
        omega

/-- Positions that `do_lseek` moves to are 32-bit numbers. -/
theorem seekPos_word {pos size target : Nat} {offset whence : Int}
    (moves : seekPos pos size offset whence = .ok target) : target ≤ uint32Max := by
  have to_word : ∀ {aim : Int}, seekTo aim = .ok target → target ≤ uint32Max := by
    intro aim moves
    unfold seekTo at moves
    split at moves
    · cases moves
    · cases moves
      omega
  unfold seekPos at moves
  split at moves
  · cases moves
  · split at moves
    · split at moves
      · cases moves
        omega
      · cases moves
    · split at moves
      · exact to_word moves
      · split at moves
        · exact to_word moves
        · cases moves

/-- `do_lseek`. -/
theorem lseek_same {offset whence : Int} (shows_ : ShowsFiles sys store files) :
    SameStep (Moves sys files)
      (ioStep sys (.lseek i fd offset whence)) (storeStep store (.lseek i fd offset whence)) := by
  unfold ioStep storeStep
  dsimp only
  rw [shows_.same]
  cases here : sys.files.tasks[i]? with
  | none => trivial
  | some task =>
    have table := (shows_.opened task (List.mem_of_getElem? here)).1
    rw [Option.map_some, Option.map_some]
    by_cases bad : fd < 0 ∨ (ofileMax : Int) ≤ fd
    · have none_ : task.desc fd = none := if_pos bad
      have refused : doLseek (sys.seenBy task) fd offset whence = (-1, sys.seenBy task) :=
        if_pos bad
      rw [none_, refused]
      exact ⟨rfl, shows_.stays here⟩
    · have isDesc : (sys.seenBy task).fds fd.toNat = task.desc fd := (if_neg bad).symm
      unfold doLseek
      rw [if_neg bad, isDesc]
      cases is : task.desc fd with
      | none =>
        exact ⟨rfl, shows_.stays here⟩
      | some desc =>
        obtain ⟨word, ps, -, full, bytes⟩ := shows_.behind here is
        have size : (store.bytes desc.ino).length =
            ((sys.seenBy task).vol.inodes desc.ino).size := by
          rw [bytes, Gfs.length_contents]
        dsimp only
        rw [size]
        cases moves : seekPos desc.pos ((sys.seenBy task).vol.inodes desc.ino).size offset
          whence with
        | error code =>
          exact ⟨rfl, shows_.stays here⟩
        | ok pos => exact ⟨rfl, shows_.moved here is (seekPos_word moves)⟩

/-- A file of which no block was written holds the same. -/
theorem Grew.contents_other {fs next : Gfs} {ino other : Nat} {ps qs rs : List Nat}
    (grew : Grew fs next ino ps qs) (apart : other ≠ ino) (old : FileFull fs other rs)
    (new : FileOk next other rs) (unused : ∀ p ∈ rs, p ∉ ps ++ qs) :
    FileFull next other rs ∧ next.contents other = fs.contents other := by
  have inode := grew.others other apart
  refine ⟨⟨new, by rw [inode]; exact old.count⟩, ?_⟩
  apply Gfs.contents_congr (congrArg GfsInode.size inode)
  intro x inside
  have room := Nat.lt_of_lt_of_le inside old.room
  rw [new.byteAt_block room, old.byteAt_block room, blockByte, blockByte]
  have index := lt_roomOf.mp room
  rw [List.getD_eq_getElem?_getD, List.getElem?_eq_getElem index, Option.getD_some,
    grew.outside _ (unused _ ((dataPtrs_sublist rs).subset (List.getElem_mem index)))]

/-- A file to which bytes were written is all that changes. -/
theorem FilesOnly.stored {next : Gfs} {ps qs : List Nat} {new : List UInt8}
    (isFile : files desc.ino = some ps)
    (kinds : SameKinds sys.blank (sys.leftBy i task next).blank)
    (stored : Stored (sys.seenBy task) next fd desc ps qs new) :
    FilesOnly sys (sys.leftBy i task next) files
      (Function.update files desc.ino (some (ps ++ qs))) := by
  have grew := stored.grew
  have self : Function.update files desc.ino (some (ps ++ qs)) desc.ino = some (ps ++ qs) :=
    Function.update_self ..
  have held : ∀ q ∈ qs, ∃ b < blockBitmap.bits, q = b + gfsDatalocBlock ∧
      blockBitmap.isSet sys.bitmaps.cache b = false ∧
      blockBitmap.isSet next.bitmaps.cache b = true := by
    intro q mem
    obtain ⟨b, is, free⟩ := grew.free q mem
    obtain ⟨b', inside, isSet, is'⟩ := grew.ok.held q (List.mem_append_right _ mem)
    obtain rfl : b = b' := Nat.add_right_cancel (is.symm.trans is')
    exact ⟨b, inside, is, free, isSet⟩
  constructor
  · exact kinds
  · intro ino none_
    apply grew.others
    intro here
    rw [here, isFile] at none_
    cases none_
  · exact grew.inodeNum
  · intro ino
    by_cases here : ino = desc.ino
    · rw [here, self, isFile]
      rfl
    · rw [Function.update_of_ne here]
  · intro ino rs isOther
    by_cases here : ino = desc.ino
    · subst here
      rw [isFile, Option.some_inj] at isOther
      subst isOther
      exact ⟨_, self, fun p mem => List.mem_append_left _ mem⟩
    · exact ⟨rs, by rw [Function.update_of_ne here, isOther], fun p mem => mem⟩
  · intro ino rs isOther p mem
    by_cases here : ino = desc.ino
    · subst here
      rw [self, Option.some_inj] at isOther
      subst isOther
      rcases List.mem_append.mp mem with old | new
      · exact .inl ⟨ps, isFile, old⟩
      · exact .inr (grew.free p new)
    · rw [Function.update_of_ne here] at isOther
      exact .inl ⟨rs, isOther, mem⟩
  · intro p unused
    exact grew.outside p (unused desc.ino _ self)
  · exact grew.bits
  · intro b inside isSet
    have exactly := taken_exactly grew.bits held (List.nodup_append.mp grew.ok.nodup).2.1
      stored.clear b inside isSet
    exact exactly.imp_right fun new => ⟨desc.ino, _, self, List.mem_append_right _ new⟩

/-- A file to which bytes were written leaves the others as they were. -/
theorem ShowsFiles.stored {next : Gfs} {ps qs : List Nat} {new : List UInt8}
    (shows_ : ShowsFiles sys store files) (here : sys.files.tasks[i]? = some task)
    (is : task.desc fd = some desc) (isFile : files desc.ino = some ps)
    (word : desc.pos + new.length ≤ uint32Max)
    (kinds : SameKinds (sys.seenBy task) next)
    (stored : Stored (sys.seenBy task) next fd desc ps qs new) :
    Moves sys files (sys.leftBy i task next)
      ((store.moved i task fd desc (desc.pos + new.length)).refilled desc.ino
        (splice 0 (store.bytes desc.ino) desc.pos new) qs.length) := by
  obtain ⟨-, inside, member⟩ := FileTask.desc_inside is
  have old := shows_.opened task (List.mem_of_getElem? here)
  have grew := stored.grew
  have moved := sys.leftBy_moved i next old.1 inside stored.fds
  have ok := @FilesOk.grew (sys.seenBy task) next files fd.toNat desc.ino ps qs
    (shows_.filesOk (List.mem_of_getElem? here)) isFile grew (by
    intro k
    rw [stored.fds]
    by_cases same : k = fd.toNat
    · right
      subst same
      rw [Function.update_self]
      exact ⟨rfl, { desc with pos := desc.pos + new.length }, rfl, word, rfl⟩
    · left
      rw [Function.update_of_ne same])
  -- Each other file has none of the blocks that were written.
  have others : ∀ other rs, other ≠ desc.ino → files other = some rs →
      FileFull next other rs ∧ next.contents other = (sys.seenBy task).contents other := by
    intro other rs apart isOther
    have isOther' : Function.update files desc.ino (some (ps ++ qs)) other = some rs := by
      rwa [Function.update_of_ne apart]
    apply grew.contents_other apart ((shows_.full other rs isOther).seen rfl rfl)
      (ok.ok other rs isOther')
    exact ok.apart other desc.ino rs (ps ++ qs) apart isOther' (Function.update_self ..)
  refine ⟨Function.update files desc.ino (some (ps ++ qs)), ?_,
    .stored isFile ⟨kinds.type, kinds.nlink, kinds.others⟩ stored⟩
  constructor
  · intro other rs isOther
    by_cases same : other = desc.ino
    · subst same
      rw [Function.update_self, Option.some_inj] at isOther
      subst isOther
      exact FileFull.seen ⟨grew.ok, stored.count⟩ rfl rfl
    · rw [Function.update_of_ne same] at isOther
      exact (others other rs same isOther).1.seen rfl rfl
  · exact ok.apart
  · rw [moved]
    apply DescsOk.set
    · intro other inTasks
      refine ⟨(shows_.opened other inTasks).1, ?_⟩
      intro desc' inFds
      obtain ⟨word', rs, isOther⟩ := (shows_.opened other inTasks).2 desc' inFds
      refine ⟨word', ?_⟩
      by_cases same : desc'.ino = desc.ino
      · exact ⟨_, by rw [same, Function.update_self]⟩
      · exact ⟨rs, by rw [Function.update_of_ne same, isOther]⟩
    · rw [List.length_set]
      exact old.1
    · apply mem_set_desc
      · intro desc' inFds
        obtain ⟨word', rs, isOther⟩ := old.2 desc' inFds
        refine ⟨word', ?_⟩
        by_cases same : desc'.ino = desc.ino
        · exact ⟨_, by rw [same, Function.update_self]⟩
        · exact ⟨rs, by rw [Function.update_of_ne same, isOther]⟩
      · intro desc' isNew
        cases isNew
        exact ⟨word, _, Function.update_self ..⟩
  · intro other
    rw [FileStore.refilled]
    dsimp only
    by_cases same : other = desc.ino
    · subst same
      rw [Function.update_self, Function.update_self, Option.map_some]
      have bytes := (shows_.behind here is).2
      obtain ⟨_, -, -, bytes⟩ := bytes
      rw [bytes, ← stored.contents]
      rfl
    · rw [Function.update_of_ne same, Function.update_of_ne same, FileStore.moved]
      dsimp only
      rw [shows_.contents]
      cases isOther : files other with
      | none => rfl
      | some rs =>
        rw [Option.map_some, Option.map_some]
        exact congrArg some (others other rs same isOther).2.symm
  · have clear := stored.clear
    have free := shows_.free
    show store.free - qs.length = (blockBitmap.clear next.bitmaps).length
    have seen : (sys.seenBy task).bitmaps = sys.bitmaps := rfl
    rw [seen] at clear
    omega
  · rw [moved]
    rw [FileStore.refilled, FileStore.moved, shows_.same]

/-- `do_write`. -/
theorem write_same {buf len : Nat} {mem : Memory} {noHeap : Bool}
    (shows_ : ShowsFiles sys store files)
    (served : (IoEvent.write i fd buf len mem noHeap).Served store) :
    SameStep (Moves sys files)
      (ioStep sys (.write i fd buf len mem noHeap))
      (storeStep store (.write i fd buf len mem noHeap)) := by
  unfold ioStep storeStep
  dsimp only
  rw [shows_.same]
  cases here : sys.files.tasks[i]? with
  | none => trivial
  | some task =>
    have table := (shows_.opened task (List.mem_of_getElem? here)).1
    have opened := openFile_seenBy sys task fd oWronly
    rw [Option.bind_some, Option.map_some]
    cases is : task.descFor fd oWronly with
    | none =>
      rw [is] at opened
      unfold doWriteFrom
      rw [opened]
      exact ⟨rfl, shows_.stays here⟩
    | some desc =>
      rw [is] at opened
      dsimp only
      by_cases kernel : kvaMin ≤ buf
      · unfold doWriteFrom
        rw [opened]
        dsimp only
        rw [if_pos kernel, if_pos kernel]
        exact ⟨rfl, shows_.stays here⟩
      · by_cases none_ : len = 0
        · unfold doWriteFrom
          rw [opened]
          dsimp only
          rw [if_neg kernel, if_neg kernel, if_pos none_, if_pos none_]
          exact ⟨rfl, shows_.stays here⟩
        · have isDesc := FileTask.desc_of_descFor is
          obtain ⟨word, ps, isFile, full, bytes⟩ := shows_.behind here isDesc
          obtain ⟨readable, cost, heap⟩ := served task desc (by rw [shows_.same]; exact here) is
            (by omega) none_
          rw [bytes, Gfs.length_contents] at cost heap
          have within : desc.pos + writeLength desc.pos len ≤ uint32Max := by
            rw [writeLength]
            omega
          -- The blocks that the store counts are those that `do_write` asks for.
          have asked : blocksAsked (sys.seenBy task) desc (writeLength desc.pos len) =
              writeCost ((sys.seenBy task).vol.inodes desc.ino).size desc.pos
                (writeLength desc.pos len) := by
            rw [blocksAsked, writeCost, sizeBlocks, sizeBlocks, gfsNbytes2blocks_eq within,
              gfsNbytes2blocks_eq full.word]
          rw [← asked] at cost heap
          rw [shows_.free] at cost
          obtain ⟨answer, leaves⟩ := doWriteFrom_gives noHeap 1 (sys.seenBy task) fd
            (fun desc' opened' _ _ valid => by
              rw [opened, Option.some_inj] at opened'
              subst opened'
              exact readable valid)
          obtain ⟨next, qs, calls, count, stored⟩ := doWrite_stores (mem.source buf) opened full
            word (Nat.lt_of_not_le kernel) none_ cost heap
          rw [answer, leaves, calls 0, if_neg kernel, if_neg none_]
          rw [← takenBytes_eq] at stored
          have lengths := length_takenBytes mem buf (writeLength desc.pos len)
          have shows' := shows_.stored here isDesc isFile (by rw [lengths]; exact within)
            (doWrite_kinds noHeap 2 (calls 0)) stored
          rw [count, asked, bytes] at shows'
          rw [bytes, Gfs.length_contents, lengths]
          rw [lengths] at shows'
          exact ⟨rfl, shows'⟩

/-- Every call that is served does on the volume what it does on strings of bytes. -/
theorem ioStep_moves {event : IoEvent} (shows_ : ShowsFiles sys store files)
    (served : event.Served store) :
    SameStep (Moves sys files) (ioStep sys event) (storeStep store event) := by
  cases event with
  | files event => exact files_same shows_ served
  | read i fd buf len mem => exact read_same shows_ served
  | write i fd buf len mem noHeap => exact write_same shows_ served
  | lseek i fd offset whence => exact lseek_same shows_

/-- The same, for whatever blocks the files have. -/
theorem ioStep_same {event : IoEvent} (shows_ : ∃ files, ShowsFiles sys store files)
    (served : event.Served store) :
    SameStep (fun sys store => ∃ files, ShowsFiles sys store files) (ioStep sys event)
      (storeStep store event) := by
  obtain ⟨files, shows_⟩ := shows_
  apply (ioStep_moves shows_ served).imp
  intro next store' moves
  obtain ⟨files', shows', -⟩ := moves
  exact ⟨files', shows'⟩

end Steps

/-! ## Every run -/

/--
The files of a volume are strings of bytes.

Whatever its tasks open, read, write, seek, close, copy and drop, one call after the other, each
call answers what it answers on strings of bytes and moves the same bytes to the caller's memory.
-/
theorem files_are_byte_strings {sys : GfsSystem} {store : FileStore}
    {files : Nat → Option (List Nat)} (shows_ : ShowsFiles sys store files) (events : List IoEvent)
    (served : LegalRun storeStep (fun store event => event.Served store) store events) :
    SameStep (fun sys store => ∃ files, ShowsFiles sys store files) (run ioStep sys events)
      (run storeStep store events) :=
  @run_refines _ _ _ _ ioStep storeStep _ _
    (fun _ _ _ related served => ioStep_same related served) events sys store ⟨files, shows_⟩ served

/-- A task that has an empty file open on an empty disk. -/
def emptySystem : GfsSystem where
  vol := (emptyFile 0 0).vol
  inodesOnDisk := (emptyFile 0 0).inodesOnDisk
  bitmaps := (emptyFile 0 0).bitmaps
  files :=
    { flist := []
      tasks := [⟨0, some ⟨1, 3, 0⟩ :: List.replicate (ofileMax - 1) none⟩]
      inodeNum := 2 }

/-- The empty string of bytes. -/
def emptyStore : FileStore where
  contents := Function.update (fun _ => none) 1 (some [])
  free := 262144
  files := emptySystem.files

/-- All blocks of the empty disk are free. -/
theorem emptySystem_clear : (blockBitmap.clear emptySystem.bitmaps).length = 262144 := by
  have all : blockBitmap.clear emptySystem.bitmaps = List.range blockBitmap.bits := by
    apply List.filter_eq_self.mpr
    intro b _
    simp [SecRange.isSet, SectorBuf.bit, emptySystem, emptyFile]
  rw [all, List.length_range, blockBitmap_bits]

/-- The store shows the empty file. -/
theorem emptySystem_shows :
    ShowsFiles emptySystem emptyStore (Function.update (fun _ => none) 1 (some [])) := by
  have only : ∀ {ino ps}, Function.update (fun _ => none) 1 (some ([] : List Nat)) ino = some ps →
      ino = 1 ∧ ps = [] := by
    intro ino ps isFile
    by_cases one : ino = 1
    · subst one
      rw [Function.update_self, Option.some_inj] at isFile
      exact ⟨rfl, isFile.symm⟩
    · rw [Function.update_of_ne one] at isFile
      cases isFile
  constructor
  · intro ino ps isFile
    obtain ⟨rfl, rfl⟩ := only isFile
    have full : FileFull (emptyFile 0 0) 1 [] := ⟨emptyFile_ok 0 0, by decide⟩
    exact full.seen rfl rfl
  · intro ino ino' ps ps' apart isFile isFile'
    exact absurd ((only isFile).1.trans (only isFile').1.symm) apart
  · intro task member
    rw [List.mem_singleton.mp member]
    refine ⟨rfl, ?_⟩
    intro desc inside
    rcases List.mem_cons.mp inside with same | none_
    · cases same
      exact ⟨Nat.zero_le _, [], Function.update_self ..⟩
    · cases List.eq_of_mem_replicate none_
  · intro ino
    by_cases one : ino = 1
    · subst one
      rfl
    · rw [emptyStore]
      dsimp only
      rw [Function.update_of_ne one, Function.update_of_ne one]
      rfl
  · rw [emptySystem_clear]
    rfl
  · rfl

/-- A memory that may be accessed everywhere. -/
def openMemory : Memory := ⟨fun _ => true, fun _ => 65⟩

/-- A byte that is written, sought and read. -/
theorem files_are_byte_strings_one :
    SameStep (fun sys store => ∃ files, ShowsFiles sys store files)
      (run ioStep emptySystem [.write 0 0 1 1 openMemory false, .lseek 0 0 0 seekSet,
        .read 0 0 1 1 openMemory])
      (run storeStep emptyStore [.write 0 0 1 1 openMemory false, .lseek 0 0 0 seekSet,
        .read 0 0 1 1 openMemory]) := by
  apply files_are_byte_strings emptySystem_shows
  refine ⟨?_, fun _ _ _ => ⟨trivial, fun _ _ _ => ⟨?_, fun _ _ _ => trivial⟩⟩⟩
  · intro task desc here is _ _
    cases here
    cases is
    exact ⟨fun _ _ _ => rfl, by decide, fun _ => rfl⟩
  · intro _ _ _ _ _ _ _
    rfl

end GlucOS
