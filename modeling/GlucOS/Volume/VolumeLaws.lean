import GlucOS.Volume.IoLaws

/-! GFS is a tree of named files, through every run of the calls of all tasks. -/

namespace GlucOS

/-- A system shows a tree in which nothing is lost. -/
def ShowsGfs (sys : GfsSystem) (tree : TreeStore) : Prop :=
  ∃ owned level, ShowsTree sys tree owned ∧ tree.Sound level ∧ tree.Live

/-! ## What is open -/

section Users

variable {tree tree' mid : TreeStore} {level : Nat → Nat}

/-- Which files are open does not matter for the names. -/
theorem TreeStore.Sound.withFiles (sound : tree.Sound level) (files : OpenFiles) :
    TreeStore.Sound { tree with files } level where
  root := sound.root
  rootUp := sound.rootUp
  inside := sound.inside
  distinct := sound.distinct
  self := sound.self
  child := sound.child
  links := sound.links
  once := sound.once

/-- Names lead to nodes, "." and ".." among them. -/
theorem TreeStore.Sound.used (sound : tree.Sound level) {d x : Nat} {fname : CharBuf}
    (found : tree.find d fname = some x) : (tree.node x).isSome := by
  have isDir := TreeStore.isDir_of_find found
  by_cases isSelf : fname = selfName
  · -- "." leads to the directory itself.
    rw [isSelf, sound.self d isDir, Option.some_inj] at found
    rw [← found]
    exact isDir.used
  · by_cases isParent : fname = parentName
    · -- ".." leads to the directory that it is in.
      obtain ⟨p, isUp, parent⟩ := sound.up isDir
      rw [isParent, isUp, Option.some_inj] at found
      rw [← found]
      exact parent.used
    · -- Any other name leads to a child.
      exact (sound.child d x (TreeStore.child_of_find found isSelf isParent)).1

/-- An inode without a node becomes a file with its first name. -/
theorem TreeStore.Sound.newFile (sound : tree.Sound level) {c : Nat} (pino : Nat)
    (none_ : tree.node c = none) : NewNode tree pino c (.file [] 1) := by
  have notDir : ¬ tree.IsDir c := by
    intro isDir
    exact TreeStore.apart_of_none none_ isDir.used rfl
  -- It has no names yet, since names lead to nodes.
  have nameless : tree.names c = 0 := by
    apply Nat.eq_zero_of_not_pos
    rw [TreeStore.names_pos sound.inside]
    intro some_
    obtain ⟨d, mem⟩ := some_
    exact TreeStore.apart_of_none none_ (sound.child d c mem).1 rfl
  have file := @NewNode.file tree pino c [] notDir
  rwa [nameless] at file

/-- What is open stays when its nodes do. -/
theorem TreeStore.Live.kept (live : tree.Live) (same : tree'.files = tree.files)
    (files : ∀ task ∈ tree.files.tasks, ∀ desc, some desc ∈ task.fds →
      (∃ bytes nlink, tree.node desc.ino = some (.file bytes nlink)) →
      ∃ bytes nlink, tree'.node desc.ino = some (.file bytes nlink))
    (dirs : ∀ task ∈ tree.files.tasks, tree.IsDir task.curIno → tree'.IsDir task.curIno) :
    tree'.Live := by
  constructor
  · rw [same]
    intro task mem
    obtain ⟨table, good⟩ := live.opened task mem
    refine ⟨table, ?_⟩
    intro desc inside
    obtain ⟨word, isFile⟩ := good desc inside
    exact ⟨word, files task mem desc inside isFile⟩
  · rw [same]
    exact live.listed
  · rw [same]
    intro task mem
    exact dirs task mem (live.homes task mem)

/-- What is open changes, and nothing else. -/
theorem TreeStore.Live.fileStep (live : tree.Live) {event : FileEvent} {out : Int}
    {files : OpenFiles} (done : fileStep tree.files event = some (out, files))
    (opens : ∀ i tino oflags noHeap, event = .doOpen i (.found tino) oflags noHeap →
      ∃ bytes nlink, tree.node tino = some (.file bytes nlink))
    (moves : ∀ i target, event = .doChangedir i target → tree.IsDir target) :
    TreeStore.Live { tree with files } where
  opened := fileStep_descs live.opened
    (fun i tino oflags noHeap is => ⟨Nat.zero_le _, opens i tino oflags noHeap is⟩) done
  listed := fileStep_listed live.listed done
  homes := fileStep_homes live.homes moves done

/-- A name that comes leaves what is open. -/
theorem NameEntered.live {pino c : Nat} {tname : CharBuf} {n : FsNode} (live : tree.Live)
    (entered : NameEntered tree pino ⟨tname, c⟩ mid) (new : NewNode tree pino c n) :
    (mid.put c n).Live := by
  apply live.kept
  · exact entered.files
  · intro task _ desc _ isFile
    obtain ⟨bytes, nlink, is⟩ := isFile
    by_cases here : desc.ino = c
    · -- The file that gets the name may be open, but a directory that is made is not.
      rw [here]
      cases new with
      | file => exact ⟨_, _, mid.put_self c _⟩
      | dir none_ =>
        rw [here, none_] at is
        cases is
    · -- Any other file is what it was.
      have other : desc.ino ≠ pino := by
        intro parent
        cases entered with
        | intro isDir room =>
          rw [parent, isDir] at is
          cases is
      exact ⟨bytes, nlink, by rw [TreeStore.put_other here, entered.other other, is]⟩
  · intro task _ isDir
    apply (entered.isDir n _).mpr isDir
    intro here
    exact new.notDir (here ▸ isDir)

/-- What is removed is not open. -/
theorem Pruning.live {depth pino tino : Nat} {tname : CharBuf} {gone : List Nat}
    (sound : tree.Sound level) (live : tree.Live)
    (pruning : Pruning tree depth pino tino tname gone)
    (idle : ∀ ino ∈ gone, tree.busy ino = false) : (tree.pruned gone pino tname).Live := by
  -- What is open is busy, so it is not among what goes.
  have stays : ∀ {ino}, flistSearch tree.files.flist ino = true → ino ∉ gone := by
    intro ino busy mem
    have closed := idle ino mem
    rw [TreeStore.busy, busy] at closed
    cases closed
  apply live.kept
  · rw [TreeStore.pruned, TreeStore.dropName]
    split
    · rfl
    · rfl
  · intro task mem desc inside isFile
    obtain ⟨bytes, nlink, is⟩ := isFile
    have other : desc.ino ≠ pino := by
      intro here
      exact TreeStore.notDir_of_file (here ▸ is) pruning.isParent
    have count : gone.count desc.ino = 0 :=
      List.count_eq_zero_of_not_mem (stays (live.listed.opened mem inside))
    refine ⟨bytes, nlink, ?_⟩
    rw [pruning.other sound other, TreeStore.without]
    dsimp only
    rw [is]
    dsimp only
    rw [count, if_neg (by omega), Nat.sub_zero]
  · intro task mem isDir
    exact (pruning.isDir sound).mpr ⟨isDir, stays (live.listed.home mem)⟩

end Users

/-! ## The calls -/

section Calls

variable {sys : GfsSystem} {tree : TreeStore} {owned : Nat → List Nat} {level : Nat → Nat}

/-- A call that leaves the tree and what is open. -/
theorem ShowsTree.withGfs {fs : Gfs} {tree' : TreeStore} {owned' : Nat → List Nat}
    (nodes : ShowsNodes fs tree'.node owned') (inodes : ShowsInodes fs tree'.node)
    (files : tree'.files = sys.files) : ShowsTree (sys.withGfs fs) tree' owned' where
  nodes := nodes.rebits rfl fun _ => rfl
  inodes := inodes
  same := files

/-- With a file opened besides. -/
theorem ShowsTree.withFiles (shows_ : ShowsTree sys tree owned) (files : OpenFiles) :
    ShowsTree { sys with files } { tree with files } owned where
  nodes := shows_.nodes.rebits rfl fun _ => rfl
  inodes := shows_.inodes
  same := rfl

/-- `do_open` of a task that finds a descriptor always answers. -/
theorem doOpen_answers {files : OpenFiles} {i : Nat} {task : FileTask}
    (here : files.tasks[i]? = some task) (path : OpenLookup) (oflags : Nat) (noHeap : Bool) :
    ∃ fd files', files.doOpen i path oflags noHeap = some (fd, files') := by
  unfold OpenFiles.doOpen
  rw [here]
  dsimp only
  split
  · exact ⟨_, _, rfl⟩
  · exact ⟨_, _, rfl⟩
  · exact ⟨_, _, rfl⟩
  · split
    · exact ⟨_, _, rfl⟩
    · exact ⟨_, _, rfl⟩

/-- It gives the refusal on. -/
theorem doOpen_refuses {files : OpenFiles} {i fd : Nat} {task : FileTask}
    (here : files.tasks[i]? = some task) (free : task.fds.findIdx? Option.isNone = some fd)
    (code : Int) (oflags : Nat) (noHeap : Bool) :
    files.doOpen i (.refused code) oflags noHeap = some (code, files) := by
  unfold OpenFiles.doOpen
  rw [here]
  dsimp only
  rw [free]

/-- `do_open`. -/
theorem openStep_shown {i oflags : Nat} {ppino : Option Nat} {tname : CharBuf} {noHeap : Bool}
    {debbuf : Block} (shows_ : ShowsTree sys tree owned) (sound : tree.Sound level)
    (live : tree.Live) (legal : (TreeEvent.doOpen i ppino tname oflags noHeap debbuf).Legal tree) :
    ∃ fd next tree', openStep sys i ppino tname oflags noHeap debbuf = some (fd, next) ∧
      OpenStep tree i tname oflags noHeap ppino fd tree' ∧ ShowsGfs next tree' := by
  obtain ⟨inside, parent⟩ := legal
  have here := List.getElem?_eq_getElem inside
  generalize tree.files.tasks[i] = task at here
  have same : ShowsGfs sys tree := ⟨owned, level, shows_, sound, live⟩
  unfold openStep
  rw [← shows_.same, here, Option.bind_some]
  cases ppino with
  | none => exact ⟨-2, sys, tree, rfl, .noParent, same⟩
  | some pino =>
    obtain ⟨used, room⟩ := parent pino rfl
    dsimp only
    by_cases noName : tname = []
    · rw [if_pos noName]
      exact ⟨-1, sys, tree, rfl, .noName noName, same⟩
    · rw [if_neg noName]
      cases free : task.fds.findIdx? Option.isNone with
      | none => exact ⟨-3, sys, tree, rfl, .noFd here free, same⟩
      | some slot =>
        have hasFd : tree.HasFd i := ⟨task, here, by rw [free]; rfl⟩
        have refuses := fun code => doOpen_refuses here free code oflags noHeap
        have some_ : ¬ (some slot).isNone = true := Bool.false_ne_true
        rw [if_neg some_]
        unfold lookupOpen
        rw [shows_.nodes.readInode used]
        dsimp only
        rw [shows_.nodes.search used]
        -- A call that changes nothing leaves the system.
        have stays : { sys.withGfs sys.blank with files := tree.files } = sys := by
          rw [shows_.same]
          rfl
        cases found : tree.find pino tname with
        | some tino =>
          dsimp only
          obtain ⟨n, is⟩ := Option.isSome_iff_exists.mp (sound.used found)
          have shown := shows_.nodes.shown tino n is
          cases n with
          | dir dents nblk =>
            -- Directories are not opened.
            have notFile : (sys.blank.vol.inodes tino).type ≠ .file := by
              rw [shown.type.mpr ⟨dents, nblk, rfl⟩]
              decide
            rw [if_pos notFile, refuses, Option.map_some]
            dsimp only
            rw [stays]
            exact ⟨-1, sys, tree, rfl, .refused hasFd (.inl ⟨tino, found, dents, nblk, is⟩), same⟩
          | file bytes nlink =>
            -- A file that is there is opened as it is.
            have isFile : (sys.blank.vol.inodes tino).type = .file := by
              cases shown with
              | file _ isFile => exact isFile
            rw [if_neg (not_not.mpr isFile)]
            obtain ⟨fd, files, done⟩ := doOpen_answers here (.found tino) oflags noHeap
            rw [done, Option.map_some]
            refine ⟨fd, _, _, rfl, .opened found is done, owned, level,
              shows_.withFiles files, sound.withFiles files,
              @TreeStore.Live.fileStep tree live (.doOpen i (.found tino) oflags noHeap) fd files
                done ?_ ?_⟩
            · intro i' tino' oflags' noHeap' event
              cases event
              exact ⟨bytes, nlink, is⟩
            · intro i' target event
              cases event
        | none =>
          dsimp only
          by_cases creates : oflags &&& oCreat ≠ 0
          · rw [if_pos creates]
            obtain ⟨isDir, fits, blocks⟩ := room creates found
            rcases createFile_shown shows_.nodes shows_.inodes isDir fits blocks debbuf with
              ⟨fs, refused, full, nodes, inodes⟩ |
              ⟨tino, mid, fs, owned', created, vacant, entered, nodes, inodes⟩
            · -- No inode is free: the volume was searched, and stays.
              rw [refused]
              dsimp only
              rw [refuses, Option.map_some]
              refine ⟨-4, _, tree, rfl, .full hasFd found full, owned, level, ?_, sound, live⟩
              exact ⟨nodes.rebits rfl fun _ => rfl, inodes, rfl⟩
            · -- A new file has its name first, and is opened then.
              rw [created]
              dsimp only
              obtain ⟨fd, files, done⟩ := doOpen_answers here (.found tino) oflags noHeap
              rw [done, Option.map_some]
              obtain ⟨valid, none_⟩ := TreeStore.vacant_spec vacant
              have apart := TreeStore.apart_of_none none_ used
              have new := sound.newFile pino none_
              have live' := NameEntered.live live entered new
              have opened : (mid.put tino (.file [] 1)).files = tree.files := entered.files
              refine ⟨fd, _, _, rfl, .created hasFd noName found creates vacant entered done,
                owned', _, ⟨nodes.rebits rfl fun _ => rfl, inodes, rfl⟩,
                (sound.enter entered found apart valid new).withFiles files,
                @TreeStore.Live.fileStep (mid.put tino (.file [] 1)) live'
                  (.doOpen i (.found tino) oflags noHeap) fd files
                  (by rw [opened]; exact done) ?_ ?_⟩
              · intro i' tino' oflags' noHeap' event
                cases event
                exact ⟨[], 1, TreeStore.put_self ..⟩
              · intro i' target event
                cases event
          · -- Without `O_CREAT` a missing file is refused.
            rw [if_neg creates]
            dsimp only
            rw [refuses, Option.map_some]
            dsimp only
            rw [stays]
            exact ⟨-1, sys, tree, rfl, .refused hasFd (.inr ⟨found, by simpa using creates⟩), same⟩

/-- Every call does on the volume what it may do on the tree. -/
theorem treeStep_shown {event : TreeEvent} (shows_ : ShowsGfs sys tree)
    (legal : event.Legal tree) :
    ∃ answer next tree', treeStep sys event = some (answer, next) ∧
      TreeStep tree event answer tree' ∧ ShowsGfs next tree' := by
  -- For each call: the volume shows the tree that the call leaves, which is sound again, and in
  -- which what is open is still there.
  obtain ⟨owned, level, shows_, sound, live⟩ := shows_
  cases event with
  | io event =>
    obtain ⟨named, served, runs⟩ := legal
    obtain ⟨answer, next, store, owned', stepped, done, shows', sound', live'⟩ :=
      ioStep_shown shows_ sound live named served runs
    exact ⟨answer, next, _, stepped, .io done, owned', level, shows', sound', live'⟩
  | doOpen i ppino tname oflags noHeap debbuf =>
    obtain ⟨fd, next, tree', opened, step, shows'⟩ := openStep_shown shows_ sound live legal
    exact ⟨(fd, none), next, tree', by rw [treeStep, opened]; rfl, .doOpen step, shows'⟩
  | doMkdir ppino tname debbuf debbuf' debbuf'' =>
    obtain ⟨code, fs, tree', owned', made, step, nodes, inodes⟩ :=
      doMkdir_shown shows_.nodes shows_.inodes legal debbuf debbuf' debbuf''
    have keeps : ∃ level', tree'.Sound level' ∧ tree'.Live := by
      -- Only a call that makes the directory changes the tree.
      cases step with
      | @made pino tino mid dents noName found vacant entered perm =>
        obtain ⟨valid, none_⟩ := TreeStore.vacant_spec vacant
        have apart := TreeStore.apart_of_none none_ (legal pino rfl).1
        have new : NewNode tree pino tino (.dir dents 1) := .dir none_ perm
        exact ⟨_, sound.enter entered found apart valid new, NameEntered.live live entered new⟩
      | _ => exact ⟨level, sound, live⟩
    have files : tree'.files = tree.files := by
      cases step with
      | made _ _ _ entered => exact entered.files
      | _ => rfl
    obtain ⟨level', sound', live'⟩ := keeps
    exact ⟨(code, none), sys.withGfs fs, tree', by rw [treeStep, made], .doMkdir step, owned',
      level', .withGfs nodes inodes (files.trans shows_.same), sound', live'⟩
  | doHlink sino pino tname debbuf =>
    obtain ⟨code, fs, tree', owned', made, step, nodes, inodes⟩ :=
      doHlink_shown shows_.nodes shows_.inodes legal debbuf
    have keeps : ∃ level', tree'.Sound level' ∧ tree'.Live := by
      -- A link is a name more for a file that is there.
      cases step with
      | @linked s p nlink bytes mid is few noName found entered =>
        have isParent : tree.IsDir p := ((legal s rfl).2 p rfl).1
        have notDir := TreeStore.notDir_of_file is
        have apart : s ≠ p := by
          intro here
          exact notDir (here ▸ isParent)
        have new : NewNode tree p s (.file bytes (nlink + 1)) := by
          have file := @NewNode.file tree p s bytes notDir
          rwa [(sound.links s bytes nlink is).1] at file
        exact ⟨_, sound.enter entered found apart (sound.inside s (by rw [is]; rfl)) new,
          NameEntered.live live entered new⟩
      | _ => exact ⟨level, sound, live⟩
    have files : tree'.files = tree.files := by
      cases step with
      | linked _ _ _ _ entered => exact entered.files
      | _ => rfl
    obtain ⟨level', sound', live'⟩ := keeps
    exact ⟨(code, none), sys.withGfs fs, tree', by rw [treeStep, made], .doHlink step, owned',
      level', .withGfs nodes inodes (files.trans shows_.same), sound', live'⟩
  | doRemove depth ppino tname =>
    obtain ⟨deep, parent⟩ := legal
    -- A directory is not below what is in it.
    have outside : ∀ pino tino gone, tname ≠ selfName → tname ≠ parentName →
        tree.find pino tname = some tino → tree.below depth tino = some gone → pino ∉ gone :=
      fun pino tino gone notSelf notParent found isBelow =>
        Pruning.parent sound ⟨notSelf, notParent, found, isBelow⟩
    obtain ⟨code, fs, tree', owned', removed, step, nodes, inodes⟩ :=
      doRemove_shown shows_.nodes shows_.inodes sound.distinct
        (fun pino tino notSelf notParent found => sound.many found notSelf notParent) outside deep
        parent
    have keeps : tree'.Sound level ∧ tree'.Live ∧ tree'.files = tree.files := by
      -- All that is below the name goes at once, or nothing does.
      cases step with
      | @removed pino tino gone noName notSelf notParent found isBelow idle =>
        have pruning : Pruning tree depth pino tino tname gone :=
          ⟨notSelf, notParent, found, isBelow⟩
        refine ⟨sound.prune pruning, pruning.live sound live idle, ?_⟩
        rw [TreeStore.dropName]
        split
        · rfl
        · rfl
      | _ => exact ⟨sound, live, rfl⟩
    obtain ⟨sound', live', files⟩ := keeps
    rw [shows_.same] at removed
    exact ⟨(code, none), sys.withGfs fs, tree', by rw [treeStep, removed]; rfl, .doRemove step,
      owned', level, .withGfs nodes inodes (files.trans shows_.same), sound', live'⟩

end Calls

/-! ## Every run -/

/-- Every run on a volume that shows a tree is one on the tree, and leaves it shown. -/
theorem treeRun_shown {sys : GfsSystem} {tree : TreeStore} (shows_ : ShowsGfs sys tree)
    (events : List TreeEvent) (legal : LegalTrace TreeStep TreeEvent.Legal tree events) :
    ∃ answers last tree', run treeStep sys events = some (answers, last) ∧
      Trace TreeStep tree events answers tree' ∧ ShowsGfs last tree' :=
  @run_allowed _ _ _ _ treeStep TreeStep ShowsGfs TreeEvent.Legal
    (fun _ _ _ related legal => treeStep_shown related legal) events sys tree shows_ legal

end GlucOS
