import GlucOS.Volume.PruneLaws
import GlucOS.Volume.UsersLaws

/-! What calls on open files do to the tree of a volume. -/

namespace GlucOS

/-! ## Systems and their trees -/

/-- What tasks use is there. -/
structure TreeStore.Live (tree : TreeStore) : Prop where
  /-- Descriptors are those of files. -/
  opened : DescsOk (fun desc => desc.pos ≤ uint32Max ∧
    ∃ bytes nlink, tree.node desc.ino = some (.file bytes nlink)) tree.files
  /-- The list of open files has them all. -/
  listed : tree.files.Listed
  /-- Tasks are in directories. -/
  homes : ∀ task ∈ tree.files.tasks, tree.IsDir task.curIno

/-- A system shows a tree, with these blocks for each node. -/
structure ShowsTree (sys : GfsSystem) (tree : TreeStore) (owned : Nat → List Nat) : Prop where
  /-- Its inodes show the nodes. -/
  nodes : ShowsNodes sys.blank tree.node owned
  /-- They are marked as used. -/
  inodes : ShowsInodes sys.blank tree.node
  /-- The same is open. -/
  same : tree.files = sys.files

/-- The blocks of the files alone. -/
def TreeStore.fileBlocks (tree : TreeStore) (owned : Nat → List Nat) (ino : Nat) :
    Option (List Nat) :=
  (tree.fileStore.contents ino).map fun _ => owned ino

section Files

variable {sys next : GfsSystem} {tree : TreeStore} {store : FileStore} {owned : Nat → List Nat}
  {files' : Nat → Option (List Nat)} {ino : Nat}

/-- Good descriptors are as good as need be. -/
theorem DescsOk.imp {good good' : FileDesc → Prop} {files : OpenFiles} (ok : DescsOk good files)
    (better : ∀ desc, good desc → good' desc) : DescsOk good' files := by
  intro task mem
  exact ⟨(ok task mem).1, fun desc inside => better desc ((ok task mem).2 desc inside)⟩

/-- A file has contents. -/
theorem TreeStore.contents_file {bytes : List UInt8} {nlink : Nat}
    (is : tree.node ino = some (.file bytes nlink)) :
    tree.fileStore.contents ino = some bytes := by
  unfold TreeStore.fileStore
  dsimp only
  rw [is]

/-- What is no file has none. -/
theorem TreeStore.contents_other
    (notFile : ¬ ∃ bytes nlink, tree.node ino = some (.file bytes nlink)) :
    tree.fileStore.contents ino = none := by
  unfold TreeStore.fileStore
  dsimp only
  cases is : tree.node ino with
  | none => rfl
  | some n =>
    cases n with
    | dir dents nblk => rfl
    | file bytes nlink => exact absurd ⟨bytes, nlink, is⟩ notFile

/-- The files are those nodes. -/
theorem TreeStore.fileBlocks_some {ps : List Nat} (isFile : tree.fileBlocks owned ino = some ps) :
    (∃ bytes nlink, tree.node ino = some (.file bytes nlink)) ∧ owned ino = ps := by
  obtain ⟨bytes, holds, is⟩ := Option.map_eq_some_iff.mp isFile
  refine ⟨?_, is⟩
  by_contra none_
  rw [TreeStore.contents_other none_] at holds
  cases holds

/-- The files of a tree are strings of bytes. -/
theorem ShowsTree.files (shows_ : ShowsTree sys tree owned) (live : tree.Live) :
    ShowsFiles sys tree.fileStore (tree.fileBlocks owned) where
  full := by
    intro ino ps isFile
    obtain ⟨⟨bytes, nlink, is⟩, rfl⟩ := TreeStore.fileBlocks_some isFile
    cases shows_.nodes.shown ino _ is with
    | file full => exact full
  apart := by
    intro ino ino' ps ps' differ isFile isFile'
    obtain ⟨-, rfl⟩ := TreeStore.fileBlocks_some isFile
    obtain ⟨-, rfl⟩ := TreeStore.fileBlocks_some isFile'
    exact shows_.nodes.apart ino ino' differ
  opened := by
    rw [← shows_.same]
    apply live.opened.imp
    intro desc good
    obtain ⟨word, bytes, nlink, is⟩ := good
    refine ⟨word, owned desc.ino, ?_⟩
    rw [TreeStore.fileBlocks, TreeStore.contents_file is]
    rfl
  contents := by
    intro ino
    by_cases isFile : ∃ bytes nlink, tree.node ino = some (.file bytes nlink)
    · obtain ⟨bytes, nlink, is⟩ := isFile
      rw [TreeStore.fileBlocks, TreeStore.contents_file is]
      cases shows_.nodes.shown ino _ is with
      | file _ _ _ holds => exact congrArg some holds.symm
    · rw [TreeStore.fileBlocks, TreeStore.contents_other isFile]
      rfl
  free := shows_.nodes.free.symm
  same := shows_.same

/-- A file that was filled. -/
theorem TreeStore.filled_file {bytes bytes' : List UInt8} {nlink : Nat}
    (is : tree.node ino = some (.file bytes nlink)) (holds : store.contents ino = some bytes') :
    (tree.filled store).node ino = some (.file bytes' nlink) := by
  unfold TreeStore.filled
  dsimp only
  rw [is]
  dsimp only
  rw [holds]
  rfl

/-- Nothing else changes. -/
theorem TreeStore.filled_other
    (notFile : ¬ ∃ bytes nlink, tree.node ino = some (.file bytes nlink)) :
    (tree.filled store).node ino = tree.node ino := by
  unfold TreeStore.filled
  dsimp only
  cases is : tree.node ino with
  | none => rfl
  | some n =>
    cases n with
    | dir dents nblk => rfl
    | file bytes nlink => exact absurd ⟨bytes, nlink, is⟩ notFile

/-- Files that were filled have what the system has. -/
theorem FilesOnly.filled (only : FilesOnly sys next (tree.fileBlocks owned) files')
    (shows' : ShowsFiles next store files') {bytes : List UInt8} {nlink : Nat}
    (is : tree.node ino = some (.file bytes nlink)) :
    ∃ ps, files' ino = some ps ∧ (∀ p ∈ owned ino, p ∈ ps) ∧
      (tree.filled store).node ino = some (.file (next.blank.contents ino) nlink) := by
  have isFile : tree.fileBlocks owned ino = some (owned ino) := by
    rw [TreeStore.fileBlocks, TreeStore.contents_file is]
    rfl
  obtain ⟨ps, isFile', old⟩ := only.old ino _ isFile
  refine ⟨ps, isFile', old, TreeStore.filled_file is ?_⟩
  rw [shows'.contents, isFile']
  rfl

/-- What is no file is none after a call on files. -/
theorem FilesOnly.none (only : FilesOnly sys next (tree.fileBlocks owned) files')
    (notFile : ¬ ∃ bytes nlink, tree.node ino = some (.file bytes nlink)) :
    tree.fileBlocks owned ino = none ∧ files' ino = none := by
  have none_ : tree.fileBlocks owned ino = Option.none := by
    rw [TreeStore.fileBlocks, TreeStore.contents_other notFile]
    rfl
  refine ⟨none_, ?_⟩
  have same := only.same ino
  rw [none_] at same
  exact Option.isSome_eq_false_iff.mp same |> Option.isNone_iff_eq_none.mp

/-- Files that the system has were files. -/
theorem FilesOnly.wasFile (only : FilesOnly sys next (tree.fileBlocks owned) files')
    {ps : List Nat} (isFile : files' ino = some ps) :
    ∃ bytes nlink, tree.node ino = some (.file bytes nlink) := by
  by_contra notFile
  rw [(only.none notFile).2] at isFile
  cases isFile

/-- Neither nodes nor the names in them come or go. -/
theorem FilesOnly.nodes (only : FilesOnly sys next (tree.fileBlocks owned) files')
    (shows' : ShowsFiles next store files') (ino : Nat) :
    ((tree.filled store).node ino).isSome = (tree.node ino).isSome ∧
      ((tree.filled store).IsDir ino ↔ tree.IsDir ino) ∧
      (tree.filled store).dents ino = tree.dents ino := by
  by_cases isFile : ∃ bytes nlink, tree.node ino = some (.file bytes nlink)
  · obtain ⟨bytes, nlink, is⟩ := isFile
    obtain ⟨ps, -, -, new⟩ := only.filled shows' is
    refine ⟨by rw [is, new]; rfl, ?_, by rw [TreeStore.dents_file is, TreeStore.dents_file new]⟩
    unfold TreeStore.IsDir
    rw [is, new]
    simp
  · have same := @TreeStore.filled_other tree store ino isFile
    refine ⟨by rw [same], ?_, TreeStore.dents_congr same⟩
    unfold TreeStore.IsDir
    rw [same]

/-- The tree after a call on files is shown again. -/
theorem ShowsTree.filled (shows_ : ShowsTree sys tree owned)
    (shows' : ShowsFiles next store files')
    (only : FilesOnly sys next (tree.fileBlocks owned) files') :
    ShowsTree next (tree.filled store) fun ino => (files' ino).getD (owned ino) := by
  have frees := @ShowsNodes.free_unused _ _ _ shows_.nodes
  -- Blocks of other nodes are in no file.
  have outside : ∀ {ino ino' ps}, files' ino = none → files' ino' = some ps →
      ∀ p ∈ owned ino, p ∉ ps := by
    intro ino ino' ps none_ isFile p mem mem'
    rcases only.fresh ino' ps isFile p mem' with ⟨qs, wasFile, old⟩ | ⟨b, rfl, free⟩
    · obtain ⟨-, rfl⟩ := TreeStore.fileBlocks_some wasFile
      have apart : ino ≠ ino' := by
        intro here
        rw [here, isFile] at none_
        cases none_
      exact shows_.nodes.apart ino ino' apart p mem old
    · exact frees free ino mem
  refine ⟨?_, ?_, shows'.same⟩
  · constructor
    · intro ino n left
      by_cases isFile : ∃ bytes nlink, tree.node ino = some (.file bytes nlink)
      · obtain ⟨bytes, nlink, is⟩ := isFile
        obtain ⟨ps, isFile', -, new⟩ := only.filled shows' is
        rw [new, Option.some_inj] at left
        rw [isFile', ← left]
        cases shows_.nodes.shown ino _ is with
        | file _ type links =>
          exact .file (shows'.full ino ps isFile') ((only.kinds.type ino).trans type)
            ((only.kinds.nlink ino).trans links) rfl
      · -- A directory has its blocks still, which no file has taken.
        obtain ⟨wasNone, isNone⟩ := only.none isFile
        rw [TreeStore.filled_other isFile] at left
        rw [isNone]
        apply (shows_.nodes.shown ino n left).congr (only.inodes ino wasNone) only.inodeNum
        · intro p mem
          apply only.blocks
          intro ino' ps isFile'
          exact outside isNone isFile' p mem
        · intro p _ b _ isSet
          exact only.bits b isSet
    · intro ino none_
      by_cases isFile : ∃ bytes nlink, tree.node ino = some (.file bytes nlink)
      · obtain ⟨bytes, nlink, is⟩ := isFile
        obtain ⟨ps, -, -, new⟩ := only.filled shows' is
        rw [new] at none_
        cases none_
      · rw [TreeStore.filled_other isFile] at none_
        rw [(only.none isFile).2]
        exact shows_.nodes.unused ino none_
    · -- Two files share no block, nor do two other nodes, nor a file and another node.
      intro ino ino' differ p mem mem'
      cases isFile : files' ino with
      | none =>
        rw [isFile] at mem
        cases isFile' : files' ino' with
        | none =>
          rw [isFile'] at mem'
          exact shows_.nodes.apart ino ino' differ p mem mem'
        | some ps' =>
          rw [isFile'] at mem'
          exact outside isFile isFile' p mem mem'
      | some ps =>
        rw [isFile] at mem
        cases isFile' : files' ino' with
        | none =>
          rw [isFile'] at mem'
          exact outside isFile' isFile p mem' mem
        | some ps' =>
          rw [isFile'] at mem'
          exact shows'.apart ino ino' ps ps' differ isFile isFile' p mem mem'
    · -- A block that was taken is in the file that took it.
      intro b inside isSet
      rcases only.taken b inside isSet with wasSet | ⟨ino, ps, isFile, mem⟩
      · obtain ⟨ino, mem⟩ := shows_.nodes.found b inside wasSet
        refine ⟨ino, ?_⟩
        cases isFile : files' ino with
        | none => exact mem
        | some ps =>
          obtain ⟨bytes, nlink, is⟩ := only.wasFile isFile
          obtain ⟨ps', isFile', old, -⟩ := only.filled shows' is
          rw [isFile, Option.some_inj] at isFile'
          subst isFile'
          exact old _ mem
      · refine ⟨ino, ?_⟩
        rw [isFile]
        exact mem
    · exact only.inodeNum.trans shows_.nodes.inodeNum
    · intro ino used
      rw [(only.nodes shows' ino).1] at used
      exact shows_.nodes.inside ino used
  · intro ino inside
    rw [(only.nodes shows' ino).1, ← shows_.inodes ino inside]
    exact isSet_inode inside fun sidx outside => (only.kinds.others sidx outside).1

/-- A tree whose files have other bytes is one again. -/
theorem TreeStore.Sound.filled {level : Nat → Nat} (sound : tree.Sound level)
    (shows' : ShowsFiles next store files')
    (only : FilesOnly sys next (tree.fileBlocks owned) files') :
    (tree.filled store).Sound level := by
  -- Directories and links are the same, so that every name leads where it did.
  have same := fun ino => only.nodes shows' ino
  have children : ∀ d, (tree.filled store).children d = tree.children d := by
    intro d
    rw [← childInos_children, (same d).2.2, childInos_children]
  have find : ∀ d fname, (tree.filled store).find d fname = tree.find d fname := by
    intro d fname
    rw [TreeStore.find, (same d).2.2, TreeStore.find]
  have names : ∀ ino, (tree.filled store).names ino = tree.names ino := by
    intro ino
    rw [TreeStore.names, TreeStore.names]
    apply Finset.sum_congr rfl
    intro d _
    rw [children]
  constructor
  · exact (same 0).2.1.mpr sound.root
  · rw [find]
    exact sound.rootUp
  · intro ino used
    rw [(same ino).1] at used
    exact sound.inside ino used
  · intro ino
    rw [(same ino).2.2]
    exact sound.distinct ino
  · intro d isDir
    rw [find]
    exact sound.self d ((same d).2.1.mp isDir)
  · intro d c mem
    rw [children] at mem
    rw [(same c).1, (same c).2.1, find]
    exact sound.child d c mem
  · intro ino bytes nlink is
    rw [names]
    by_cases isFile : ∃ bytes nlink, tree.node ino = some (.file bytes nlink)
    · obtain ⟨bytes', nlink', was⟩ := isFile
      obtain ⟨ps, -, -, new⟩ := only.filled shows' was
      rw [new] at is
      cases is
      exact sound.links ino bytes' nlink was
    · rw [TreeStore.filled_other isFile] at is
      exact absurd ⟨bytes, nlink, is⟩ isFile
  · intro d isDir
    rw [names]
    exact sound.once d ((same d).2.1.mp isDir)

end Files

/-! ## What is open then -/

section Users

variable {store store' : FileStore} {event : IoEvent} {answer : IoAnswer}

/-- A call that moves bytes moves one descriptor at most. -/
theorem storeStep_files (done : storeStep store event = some (answer, store')) :
    store'.files = store.files ∨
      (∃ i task fd desc pos, store.files.tasks[i]? = some task ∧ task.desc fd = some desc ∧
        store'.files = (store.moved i task fd desc pos).files) ∨
      ∃ event' out, event = .files event' ∧
        fileStep store.files event' = some (out, store'.files) := by
  cases event with
  | files event =>
    obtain ⟨⟨out, files⟩, stepped, is⟩ := Option.map_eq_some_iff.mp done
    cases is
    exact .inr (.inr ⟨event, out, rfl, stepped⟩)
  | read i fd buf len mem =>
    obtain ⟨task, here, is⟩ := Option.map_eq_some_iff.mp done
    cases opened : task.descFor fd oRdonly with
    | none =>
      rw [opened] at is
      cases is
      exact .inl rfl
    | some desc =>
      rw [opened] at is
      dsimp only at is
      split at is
      · cases is
        exact .inl rfl
      · cases is
        exact .inr (.inl ⟨i, task, fd, desc, _, here, FileTask.desc_of_descFor opened, rfl⟩)
  | write i fd buf len mem noHeap =>
    obtain ⟨task, here, is⟩ := Option.map_eq_some_iff.mp done
    cases opened : task.descFor fd oWronly with
    | none =>
      rw [opened] at is
      cases is
      exact .inl rfl
    | some desc =>
      rw [opened] at is
      dsimp only at is
      split at is
      · cases is
        exact .inl rfl
      · split at is
        · cases is
          exact .inl rfl
        · cases is
          exact .inr (.inl ⟨i, task, fd, desc, _, here, FileTask.desc_of_descFor opened, rfl⟩)
  | lseek i fd offset whence =>
    obtain ⟨task, here, is⟩ := Option.map_eq_some_iff.mp done
    cases opened : task.desc fd with
    | none =>
      rw [opened] at is
      cases is
      exact .inl rfl
    | some desc =>
      rw [opened] at is
      dsimp only at is
      split at is
      · cases is
        exact .inl rfl
      · cases is
        exact .inr (.inl ⟨i, task, fd, desc, _, here, opened, rfl⟩)

/-- Moving a descriptor does not change who uses what. -/
theorem FileStore.moved_plain {i pos : Nat} {task : FileTask} {fd : Int} {desc : FileDesc}
    (here : store.files.tasks[i]? = some task) (is : task.desc fd = some desc) :
    (store.moved i task fd desc pos).files.plain = store.files.plain := by
  obtain ⟨inside, isTask⟩ := List.getElem?_eq_some_iff.mp here
  -- The descriptor is the same when only its inode counts.
  have slot : task.plain.fds[fd.toNat]? = some (some desc.plain) := by
    unfold FileTask.desc at is
    split at is
    · cases is
    · rw [Option.join_eq_some_iff] at is
      rw [FileTask.plain]
      dsimp only
      rw [List.getElem?_map, is]
      rfl
  obtain ⟨within, isSlot⟩ := List.getElem?_eq_some_iff.mp slot
  rw [FileStore.moved]
  dsimp only
  rw [OpenFiles.plain_set, FileTask.plain_set]
  have fds : task.plain.fds.set fd.toNat ((some { desc with pos }).map FileDesc.plain) =
      task.plain.fds := by
    have same : (some { desc with pos }).map FileDesc.plain = task.plain.fds[fd.toNat] := by
      rw [isSlot]
      rfl
    rw [same, List.set_getElem_self]
  have tasks : store.files.plain.tasks.set i task.plain = store.files.plain.tasks := by
    have count : i < store.files.plain.tasks.length := by
      rw [OpenFiles.plain]
      dsimp only
      rw [List.length_map]
      exact inside
    have same : task.plain = store.files.plain.tasks[i] := by
      have is := store.files.plain_task i
      rw [here, List.getElem?_eq_getElem count] at is
      exact (Option.some_inj.mp is).symm
    rw [same, List.set_getElem_self]
  rw [fds, tasks]
  rfl

/-- The list of open files still has everything. -/
theorem storeStep_listed (done : storeStep store event = some (answer, store'))
    (listed : store.files.Listed) : store'.files.Listed := by
  rcases storeStep_files done with same | ⟨i, task, fd, desc, pos, here, is, moved⟩ |
    ⟨event', out, -, stepped⟩
  · rwa [same]
  · rw [moved, OpenFiles.Listed, FileStore.moved_plain here is]
    exact listed
  · exact fileStep_listed listed stepped

/-- Tasks are in directories still. -/
theorem storeStep_homes {good : Nat → Prop}
    (done : storeStep store event = some (answer, store'))
    (homes : ∀ task ∈ store.files.tasks, good task.curIno)
    (fresh : ∀ i target, event = .files (.doChangedir i target) → good target) :
    ∀ task ∈ store'.files.tasks, good task.curIno := by
  rcases storeStep_files done with same | ⟨i, task, fd, desc, pos, here, is, moved⟩ |
    ⟨event', out, rfl, stepped⟩
  · rwa [same]
  · rw [moved]
    intro other mem
    rcases List.mem_or_eq_of_mem_set mem with old | rfl
    · exact homes other old
    · exact homes task (List.mem_of_getElem? here)
  · exact fileStep_homes homes (fun i target is => fresh i target (by rw [is])) stepped

end Users

/-! ## One call -/

/-- Reading, writing, seeking, closing and the rest leave a tree with other bytes in its files. -/
theorem ioStep_shown {sys : GfsSystem} {tree : TreeStore} {owned : Nat → List Nat}
    {level : Nat → Nat} {event : IoEvent} (shows_ : ShowsTree sys tree owned)
    (sound : tree.Sound level) (live : tree.Live) (named : event.Named tree)
    (served : event.Served tree.fileStore) (runs : (storeStep tree.fileStore event).isSome) :
    ∃ answer next store owned', ioStep sys event = some (answer, next) ∧
      storeStep tree.fileStore event = some (answer, store) ∧
      ShowsTree next (tree.filled store) owned' ∧ (tree.filled store).Sound level ∧
      (tree.filled store).Live := by
  have same := ioStep_moves (shows_.files live) served
  obtain ⟨⟨answer, store⟩, done⟩ := Option.isSome_iff_exists.mp runs
  rw [done] at same ⊢
  cases stepped : ioStep sys event with
  | none =>
    rw [stepped] at same
    cases same
  | some result =>
    obtain ⟨answer', next⟩ := result
    rw [stepped] at same
    obtain ⟨rfl, files', shows', only⟩ := same
    refine ⟨answer', next, store, _, rfl, rfl, shows_.filled shows' only,
      sound.filled shows' only, ?_⟩
    constructor
    · -- What is open is a file of the system, and so of the tree.
      show DescsOk _ store.files
      rw [shows'.same]
      apply shows'.opened.imp
      intro desc good
      obtain ⟨word, ps, isFile⟩ := good
      refine ⟨word, ?_⟩
      obtain ⟨bytes, nlink, is⟩ := only.wasFile isFile
      obtain ⟨-, -, -, new⟩ := only.filled shows' is
      exact ⟨_, _, new⟩
    · exact storeStep_listed done live.listed
    · intro task mem
      rw [(only.nodes shows' task.curIno).2.1]
      apply storeStep_homes done live.homes _ task mem
      intro i target is
      subst is
      exact named

end GlucOS
