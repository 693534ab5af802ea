import GlucOS.Mm.FaultLaws

/-! `do_exec`: a new process has its program and its arguments, or nothing is left of it. -/

namespace GlucOS

open Routine

variable {mm : Mm} {role : Nat → Role} {space : Nat → Nat → Leaf} {procs : Finset Nat}
  {accepted : MmStop → Prop}

/-- Where programs are linked: at a page, and with room for the heap below the stacks. -/
structure TaskImg.Linked (img : TaskImg) : Prop where
  /-- It begins at a page. -/
  aligned : img.vaddr % normalPageSize = 0
  /-- The bytes of the file are among those in memory. -/
  sizes : img.fsize ≤ img.msize
  /-- There is room for the heap. -/
  heap : img.vaddr + usegMax ≤ 2 ^ 31
  /-- There is room for the program. -/
  low : img.vaddr + img.msize ≤ 2 ^ 31

instance (img : TaskImg) : Decidable img.Linked :=
  decidable_of_iff (img.vaddr % normalPageSize = 0 ∧ img.fsize ≤ img.msize ∧
    img.vaddr + usegMax ≤ 2 ^ 31 ∧ img.vaddr + img.msize ≤ 2 ^ 31)
    ⟨fun all => ⟨all.1, all.2.1, all.2.2.1, all.2.2.2⟩,
      fun linked => ⟨linked.aligned, linked.sizes, linked.heap, linked.low⟩⟩

/-- A process is being created, and has touched only these pages. -/
structure Loading (mm : Mm) (space : Nat → Nat → Leaf) (procs : Finset Nat) (pid pgdir : Nat)
    (pages : Nat → Prop) (here : Mm) (role' : Nat → Role) (space' : Nat → Nat → Leaf) : Prop where
  /-- The state is consistent. -/
  ok : Ok here role' space' (insert pid procs) none
  /-- So are the PCBs. -/
  tasks : TasksOk here role' (insert pid procs)
  /-- The new PCB is the last one, and has no segment yet. -/
  table : here.pcbTable = mm.pcbTable ++ [⟨pid, 0, pgdir, 0, 0⟩]
  /-- The processors run what they did. -/
  current : here.current = mm.current
  /-- Shared pages have the users they had. -/
  shmCtrl : here.shmCtrl = mm.shmCtrl
  /-- Other processes touched no page. -/
  others : ∀ other vpn, other ≠ pid → space' other vpn ≠ .untouched → space other vpn ≠ .untouched
  /-- The new process touched only these. -/
  own : ∀ vpn, space' pid vpn ≠ .untouched → pages vpn

-- The bounds of loops are numerals, which nothing should unroll.
attribute [local irreducible] forUpto

section Loading

variable {pid pgdir cpu : Nat} {pages : Nat → Prop} {here : Mm} {role' : Nat → Role}
  {space' : Nat → Nat → Leaf}

/-- Pages may be counted generously. -/
theorem Loading.weaken {more : Nat → Prop}
    (loading : Loading mm space procs pid pgdir pages here role' space')
    (wider : ∀ vpn, pages vpn → more vpn) :
    Loading mm space procs pid pgdir more here role' space' :=
  { loading with own := fun vpn now => wider vpn (loading.own vpn now) }

/-- The bytes of frames do not matter. -/
theorem Loading.withFrames (loading : Loading mm space procs pid pgdir pages here role' space')
    (frames : Nat → Page) :
    Loading mm space procs pid pgdir pages { here with frames } role' space' :=
  { loading with ok := loading.ok.withFrames frames, tasks := { loading.tasks with } }

/-- The top table of the new process. -/
theorem Loading.root (loading : Loading mm space procs pid pgdir pages here role' space')
    (isUser : ncpu ≤ pid) : role' pgdir = .node pid [] := by
  have mem : (⟨pid, 0, pgdir, 0, 0⟩ : Tcb) ∈ here.pcbTable := by
    rw [loading.table]
    simp
  exact (loading.tasks.home _ mem isUser).2

/-- One more page. -/
theorem Loading.page (exhausted : accepted .noPageTable) (hang : accepted .noVictim)
    (full : accepted .noSwapPage) {va : Nat}
    (loading : Loading mm space procs pid pgdir pages here role' space') (isUser : ncpu ≤ pid)
    (user : va < userVpns * normalPageSize) (fresh : ¬ pages (va / normalPageSize)) :
    Meets accepted (allocPageHelper cpu va pgdir pid) here fun frame next => ∃ role'' space'',
      Loading mm space procs pid pgdir (fun vpn => pages vpn ∨ vpn = va / normalPageSize) next
        role'' space'' ∧ space'' pid (va / normalPageSize) = .priv frame := by
  have was : space' pid (va / normalPageSize) = .untouched := by
    by_contra touched
    exact fresh (loading.own _ touched)
  apply Meets.mono (meets_both (allocPageHelper_meets exhausted hang full loading.ok
    loading.tasks.homed (Finset.mem_insert_self _ _) (loading.root isUser) user was)
    ((allocPageHelper_tasks _ _ _ _).meets here))
  intro frame next both
  obtain ⟨⟨role'', space'', ok, grows, -, touches, noRoots⟩, same⟩ := both
  have table : next.pcbTable = here.pcbTable := congrArg Prod.fst same
  have current : next.current = here.current := congrArg (fun part => part.2.1) same
  refine ⟨role'', space'', ?_, touches.backed⟩
  refine ⟨ok, loading.tasks.later grows noRoots same, table.trans loading.table,
    current.trans loading.current, touches.shmCtrl.trans loading.shmCtrl, ?_, ?_⟩
  · intro other vpn differ now
    apply loading.others other vpn differ
    exact touches.touched (fun both => differ both.1) now
  · intro vpn now
    by_cases new : vpn = va / normalPageSize
    · exact Or.inr new
    · apply Or.inl
      apply loading.own vpn
      exact touches.touched (fun both => new both.2) now

/-- Nothing is left of a process that was not created. -/
theorem Loading.undone {next : Mm} (sound : Consistent mm role space procs)
    (loading : Loading mm space procs pid pgdir pages here role' space') (isUser : ncpu ≤ pid)
    (fresh : ∀ tcb ∈ mm.pcbTable, tcb.pid ≠ pid)
    (ok : Ok next (dropRoles role' pid) (dropSpace space' pid) ((insert pid procs).erase pid) none)
    (table : next.pcbTable = mm.pcbTable) (current : next.current = mm.current)
    (fewer : ∀ id, (next.shmCtrl id).pgidx = (here.shmCtrl id).pgidx ∧
      (next.shmCtrl id).nproc ≤ (here.shmCtrl id).nproc) : GoesTo mm next := by
  have shares : SharesOn mm next := by
    intro id small active
    have released := loading.ok.toResOk.released ok.toResOk
      (fun _ _ => dropSpace_kept) fewer id small
    rw [loading.shmCtrl] at released
    exact released active
  refine ⟨⟨_, _, _, ok, ?_, ?_, ?_⟩, shares⟩
  · apply loading.tasks.remove isUser
    · intro tcb
      rw [table, loading.table, List.mem_append, List.mem_singleton]
      constructor
      · intro old
        exact ⟨Or.inl old, fresh tcb old⟩
      · intro kept
        obtain ⟨old | rfl, differ⟩ := kept
        · exact old
        · exact absurd rfl differ
    · unfold Mm.curCpu
      rw [table, current]
      exact sound.tasks.runs
  · rw [table]
    exact sound.segs
  · rw [table]
    refine ⟨sound.placed.low, ?_⟩
    intro tcb mem user vpn now
    apply sound.placed.inside tcb mem user vpn
    apply loading.others tcb.pid vpn (fresh tcb mem)
    intro was
    apply now
    unfold dropSpace
    rw [if_neg (fresh tcb mem)]
    exact was

/-- The clean-up of `create_proc`. -/
theorem createFailed_meets (sound : Consistent mm role space procs)
    (loading : Loading mm space procs pid pgdir pages here role' space') (isUser : ncpu ≤ pid)
    (fresh : ∀ tcb ∈ mm.pcbTable, tcb.pid ≠ pid) :
    Meets accepted (createFailed cpu pgdir pid) here fun out next =>
      out = none ∧ GoesTo mm next := by
  unfold createFailed
  apply Meets.bind (freePagesOfProc_meets loading.ok (loading.root isUser))
  intro _ next released
  obtain ⟨ok, gives⟩ := released
  simp only [meets_modify_bind, meets_pure]
  have nextTable : next.pcbTable = here.pcbTable := by rw [gives.same]
  have nextCurrent : next.current = here.current := by rw [gives.same]
  refine ⟨trivial, loading.undone sound isUser fresh { ok with } ?_ ?_ gives.shm⟩
  · -- Its PCB is the only one of the process.
    change next.pcbTable.filter _ = _
    rw [nextTable, loading.table, List.filter_append, List.filter_eq_self.mpr, List.filter_cons,
      if_neg (by simp), List.filter_nil, List.append_nil]
    intro tcb mem
    exact decide_eq_true (fresh tcb mem)
  · exact nextCurrent.trans loading.current

/-- The pages of a program, counted from its first one. -/
def TaskImg.spans (img : TaskImg) (count vpn : Nat) : Prop :=
  img.vaddr / normalPageSize ≤ vpn ∧ vpn < img.vaddr / normalPageSize + count

/-- One more page of a program. -/
theorem Loading.programPage (exhausted : accepted .noPageTable) (hang : accepted .noVictim)
    (full : accepted .noSwapPage) {img : TaskImg} (linked : img.Linked) {i : Nat}
    (small : i < pagesFor img.msize)
    (loading : Loading mm space procs pid pgdir (img.spans i) here role' space')
    (isUser : ncpu ≤ pid) :
    Meets accepted (allocPageHelper cpu (img.vaddr + i * normalPageSize) pgdir pid) here
      fun _ next => ∃ role'' space'',
        Loading mm space procs pid pgdir (img.spans (i + 1)) next role'' space'' := by
  have addr := page_addr linked.aligned i
  have inside := page_lt small
  have low := linked.low
  have user : img.vaddr + i * normalPageSize < userVpns * normalPageSize := by
    simp only [userVpns, normalPageSize] at *
    omega
  apply Meets.mono (loading.page exhausted hang full isUser user ?_)
  · intro frame next mapped
    obtain ⟨role'', space'', loading', -⟩ := mapped
    refine ⟨role'', space'', loading'.weaken ?_⟩
    intro vpn which
    unfold TaskImg.spans at *
    omega
  · rw [addr]
    unfold TaskImg.spans
    omega

/-- `load_task_img` loads a program for a process that has no pages yet. -/
theorem loadTaskImg_loading (exhausted : accepted .noPageTable) (hang : accepted .noVictim)
    (full : accepted .noSwapPage) {img : TaskImg} (linked : img.Linked)
    (loading : Loading mm space procs pid pgdir (img.spans 0) here role' space')
    (isUser : ncpu ≤ pid) :
    Meets accepted (loadTaskImg cpu img pgdir pid) here fun seg next =>
      seg = (img.vaddr, roundUp (img.vaddr + img.msize) 8) ∧ ∃ role'' space'',
        Loading mm space procs pid pgdir (img.spans (pagesFor img.msize)) next role'' space'' := by
  have fewer : pagesFor img.fsize ≤ pagesFor img.msize := by
    have := linked.sizes
    simp only [pagesFor, normalPageSize]
    omega
  unfold loadTaskImg
  apply Meets.bind (meets_forUpto (fun i here => ∃ role' space',
    Loading mm space procs pid pgdir (img.spans i) here role' space') _ ⟨_, _, loading⟩ ?_)
  · intro _ filled done
    apply Meets.bind (meets_forUpto (fun i here => ∃ role' space',
      Loading mm space procs pid pgdir (img.spans (pagesFor img.fsize + i)) here role' space') _
      done ?_)
    · intro _ last done'
      rw [meets_pure]
      rw [Nat.add_sub_cancel' fewer] at done'
      exact ⟨rfl, done'⟩
    · intro i small mid done'
      obtain ⟨_, _, loading'⟩ := done'
      apply meets_discard
      exact loading'.programPage exhausted hang full linked (by omega) isUser
  · intro i small mid done
    obtain ⟨_, _, loading'⟩ := done
    apply Meets.bind (loading'.programPage exhausted hang full linked (by omega) isUser)
    intro frame next mapped
    obtain ⟨_, _, loading''⟩ := mapped
    rw [meets_modify]
    exact ⟨_, _, loading''.withFrames _⟩

/-- The page of the command line arguments. -/
def argPage : Nat := (userSp - normalPageSize) / normalPageSize

/-- A process that was created has its segment, and its pages lie there or on its stack. -/
theorem Loading.created {img : TaskImg} (sound : Consistent mm role space procs)
    (loading : Loading mm space procs pid pgdir
      (fun vpn => img.spans (pagesFor img.msize) vpn ∨ vpn = argPage) here role' space')
    (linked : img.Linked) (fresh : ∀ tcb ∈ mm.pcbTable, tcb.pid ≠ pid) :
    Consistent { here with pcbTable := here.pcbTable.map fun tcb =>
      if tcb.pid = pid then
        { tcb with segStart := img.vaddr, segEnd := roundUp (img.vaddr + img.msize) 8 }
      else tcb } role' space' (insert pid procs) := by
  have aligned := linked.aligned
  have heap := linked.heap
  have low := linked.low
  have table : (here.pcbTable.map fun tcb =>
      if tcb.pid = pid then
        { tcb with segStart := img.vaddr, segEnd := roundUp (img.vaddr + img.msize) 8 }
      else tcb) =
      mm.pcbTable ++ [⟨pid, 0, pgdir, img.vaddr, roundUp (img.vaddr + img.msize) 8⟩] := by
    rw [loading.table, List.map_append, List.map_cons, List.map_nil, if_pos rfl]
    congr 1
    calc mm.pcbTable.map _ = mm.pcbTable.map id :=
          List.map_congr_left fun tcb mem => if_neg (fresh tcb mem)
      _ = mm.pcbTable := List.map_id _
  refine ⟨{ loading.ok with }, loading.tasks.map ?_ rfl rfl, ?_, ?_⟩
  · intro tcb
    by_cases same : tcb.pid = pid
    · simp [same]
    · simp [same]
  · change SegsOk (here.pcbTable.map _)
    rw [table]
    apply sound.segs.add
    · simp only [roundUp]
      omega
    · intro tcb mem same
      exact absurd same (fresh tcb mem)
  · change Placed (here.pcbTable.map _) space'
    rw [table]
    constructor
    · intro tcb mem isUser
      rw [List.mem_append, List.mem_singleton] at mem
      obtain old | rfl := mem
      · exact sound.placed.low tcb old isUser
      · simp only [roundUp]
        omega
    · intro tcb mem isUser vpn now
      rw [List.mem_append, List.mem_singleton] at mem
      obtain old | rfl := mem
      · apply sound.placed.inside tcb old isUser vpn
        exact loading.others tcb.pid vpn (fresh tcb old) now
      · obtain program | rfl := loading.own vpn now
        · left
          unfold TaskImg.spans pagesFor at program
          simp only [roundUp, normalPageSize] at *
          omega
        · right
          decide

/-- While there is room for a PCB, there is a free identifier. -/
theorem allocPid_ne_none (room : mm.procNum < uprocMax + ncpu) : allocPid mm ≠ none := by
  intro nothing
  unfold allocPid at nothing
  rw [List.find?_eq_none] at nothing
  -- There are more identifiers than PCBs.
  have taken : Finset.Icc ncpu (2 * uprocMax) ⊆ (mm.pcbTable.map Tcb.pid).toFinset := by
    intro pid inside
    obtain ⟨low, high⟩ := Finset.mem_Icc.mp inside
    have used := nothing pid (List.mem_range.mpr (by omega))
    simp only [decide_eq_true_eq, not_and] at used
    rw [List.mem_toFinset, List.mem_map]
    by_contra unused
    apply used low
    unfold Mm.pcbSearch
    rw [List.find?_eq_none]
    intro tcb mem
    simp only [decide_eq_true_eq]
    intro same
    exact unused ⟨tcb, mem, same⟩
  have few := Finset.card_le_card taken
  have listed := List.toFinset_card_le (mm.pcbTable.map Tcb.pid)
  rw [List.length_map] at listed
  rw [Nat.card_Icc] at few
  simp only [Mm.procNum, uprocMax, ncpu] at *
  omega

/-- `create_proc` makes a process that has its program and a page for the arguments, or nothing. -/
theorem createProc_meets (exhausted : accepted .noPageTable) (hang : accepted .noVictim)
    (full : accepted .noSwapPage) (sound : Consistent mm role space procs) (img : Option TaskImg)
    (linked : ∀ program, img = some program → program.Linked) (flags : CreateFlags) :
    Meets accepted (createProc cpu img flags) mm fun out next =>
      (out = none ∧ GoesTo mm next) ∨ ∃ pid role' space' procs' frame, out = some pid ∧
        Consistent next role' space' procs' ∧ ncpu ≤ pid ∧ pid ∈ procs' ∧
        space' pid argPage = .priv frame ∧ next.shmCtrl = mm.shmCtrl := by
  unfold createProc
  simp only [meets_get_bind]
  apply meets_ite
  · intro _
    exact Or.inl ⟨rfl, sound.goesTo rfl⟩
  intro room
  cases found : allocPid mm with
  | none => exact absurd found (allocPid_ne_none (Nat.lt_of_not_le room))
  | some pid =>
    have named := allocPid_named found
    have fresh := allocPid_fresh found
    have few : procs.card < uprocMax := by
      have := sound.tasks.card_le
      omega
    have absent := sound.tasks.absent sound.ok.shape fresh
    apply Meets.bind (meets_both (allocPagetable_meets sound.ok.tabs named.1 named.2 exhausted)
      ((allocPagetable_tasks pid).meets mm))
    intro pgdir mid allocated
    obtain ⟨⟨free, inside, same, cleared, tabs⟩, midTasks⟩ := allocated
    have midTable : mid.pcbTable = mm.pcbTable := congrArg Prod.fst midTasks
    have midCurrent : mid.current = mm.current := congrArg (fun part => part.2.1) midTasks
    have midShm : mid.shmCtrl = mm.shmCtrl := by rw [same]
    unfold sharePgtable
    simp only [meets_modify_bind]
    have planted := sound.ok.plant free inside same cleared (tabs []) absent named few
      (Or.inl rfl)
    have untouched : ∀ vpn, space pid vpn = .untouched := by
      intro vpn
      by_contra touched
      obtain ⟨tcb, inTable, isPid⟩ :=
        sound.tasks.alive pid (sound.ok.procs.touched pid vpn touched)
      exact fresh tcb inTable isPid
    have roots : ∀ table other, put role pgdir (.node pid []) table = .node other [] →
        other = pid ∨ role table = .node other [] := by
      intro table other is
      by_cases here : table = pgdir
      · rw [here, put_same] at is
        cases is
        exact Or.inl rfl
      · rw [put_other _ _ here] at is
        exact Or.inr is
    have loading : ∀ pages, Loading mm space procs pid pgdir pages { mid with
        pcbTable := mid.pcbTable ++ [⟨pid, 0, pgdir, 0, 0⟩]
        tables := put mid.tables pgdir fun index =>
          if numPteEntry / 2 ≤ index then mid.tables 0 index else mid.tables pgdir index }
        (put role pgdir (.node pid [])) space := by
      intro pages
      refine ⟨planted _, ?_, by rw [midTable], midCurrent, midShm, fun _ _ _ now => now, ?_⟩
      · apply @TasksOk.add mm _ role _ procs sound.tasks ⟨pid, 0, pgdir, 0, 0⟩
          (grows_put free _) roots named.1 (put_same ..)
        · rw [midTable]
        · exact midCurrent
      · intro vpn now
        exact absurd (untouched vpn) now
    apply meets_ite
    · -- There is no PCB, and the top table goes again.
      intro _
      apply Meets.bind (freePagesOfProc_meets (planted mid.pcbTable) (put_same ..))
      intro _ next released
      obtain ⟨ok, gives⟩ := released
      rw [meets_pure]
      refine Or.inl ⟨rfl, (loading fun _ => False).undone sound named.1 fresh ok ?_ ?_ gives.shm⟩
      · rw [gives.same]
        exact midTable
      · rw [gives.same]
        exact midCurrent
    intro _
    have midRoom : mid.procNum < uprocMax + ncpu := by
      unfold Mm.procNum at room ⊢
      rw [midTable]
      omega
    apply (meets_pcbTableAdd_bind ?_).mpr
    swap
    · exact midRoom
    have failed : ∀ {pages here role' space'},
        Loading mm space procs pid pgdir pages here role' space' →
        Meets accepted (createFailed cpu pgdir pid) here fun out next =>
          (out = none ∧ GoesTo mm next) ∨ ∃ pid role' space' procs' frame, out = some pid ∧
            Consistent next role' space' procs' ∧ ncpu ≤ pid ∧ pid ∈ procs' ∧
            space' pid argPage = .priv frame ∧ next.shmCtrl = mm.shmCtrl := by
      intro pages here role' space' loading
      apply Meets.mono (createFailed_meets sound loading named.1 fresh)
      intro out next done
      exact Or.inl done
    cases img with
    | none => exact failed (loading fun _ => False)
    | some img =>
      have linked := linked img rfl
      apply Meets.bind (loadTaskImg_loading exhausted hang full linked (loading _) named.1)
      intro seg loaded done
      obtain ⟨rfl, role', space', loading'⟩ := done
      apply meets_ite
      · intro _
        exact failed loading'
      intro _
      have apart : ¬ img.spans (pagesFor img.msize) argPage := by
        have low := linked.low
        unfold TaskImg.spans argPage pagesFor
        simp only [userSp, normalPageSize] at *
        omega
      have arguments : Meets accepted
          (discard (allocPageHelper cpu (userSp - normalPageSize) pgdir pid)) loaded fun _ next =>
            ∃ role'' space'' frame, Loading mm space procs pid pgdir
              (fun vpn => img.spans (pagesFor img.msize) vpn ∨ vpn = argPage) next role'' space'' ∧
              space'' pid argPage = .priv frame := by
        apply meets_discard
        apply Meets.mono (loading'.page exhausted hang full named.1 (by decide) apart)
        intro frame next mapped
        obtain ⟨role'', space'', loading'', backed⟩ := mapped
        exact ⟨role'', space'', frame, loading'', backed⟩
      apply Meets.bind arguments
      intro _ mapped done
      obtain ⟨role'', space'', frame, loading'', backed⟩ := done
      apply meets_ite
      · intro _
        exact failed loading''
      intro _
      simp only [meets_modify_bind, meets_pure]
      exact Or.inr ⟨pid, role'', space'', insert pid procs, frame, rfl,
        loading''.created sound linked fresh, named.1, Finset.mem_insert_self _ _, backed,
        loading''.shmCtrl⟩

end Loading

/-! ## Arguments -/

section Arguments

variable {pid pgdir cpu frame : Nat}

/-- `va2kva` finds the page of the arguments. -/
theorem va2kva_present {va : Nat} (shape : Shape mm.tables role space)
    (root : role pgdir = .node pid []) (backed : space pid (walkVpn va) = .priv frame) :
    Meets accepted (va2kva va pgdir) mm fun kva next => next = mm ∧ kva ≠ none := by
  unfold va2kva
  apply Meets.bind (va2pte_lookup shape va root)
  intro loc here found
  obtain ⟨rfl, located⟩ := found
  simp only [meets_readPte_bind]
  obtain ⟨level, -, table, index⟩ | ⟨level, zero⟩ := located
  · have holds := shape.holds_at ⟨level, table, index⟩
    rw [backed] at holds
    rw [if_pos (by simp [holds.v_iff]), level]
    exact ⟨rfl, by simp⟩
  · -- The page is one of user space, since it is backed.
    have user : walkVpn va < userVpns := by
      by_contra beyond
      rw [shape.beyond (by omega)] at backed
      cases backed
    rw [(zero user).1] at backed
    cases backed

/-- Writing the arguments changes bytes of frames only. -/
theorem pokeUser_sound {va : Nat} (bytes : List Nat) (sound : Consistent mm role space procs)
    (root : role pgdir = .node pid []) (inside : userSp - normalPageSize ≤ va ∧ va < userSp)
    (backed : space pid argPage = .priv frame) :
    Meets accepted (pokeUser pgdir va bytes) mm fun _ next =>
      Consistent next role space procs ∧ next.shmCtrl = mm.shmCtrl := by
  have walk : walkVpn va = argPage := by
    unfold walkVpn argPage
    simp only [userSp, normalPageSize] at *
    omega
  unfold pokeUser
  apply Meets.bind (va2kva_present sound.ok.shape root (by rw [walk]; exact backed))
  intro kva here found
  obtain ⟨rfl, present⟩ := found
  cases kva with
  | none => exact absurd rfl present
  | some kva =>
    simp only [meets_modify]
    exact ⟨⟨sound.ok.withFrames _, { sound.tasks with }, sound.segs, sound.placed⟩, trivial⟩

/-- So does copying them. -/
theorem copyArgs_sound (args : List (List Nat)) (i argvBase sp : Nat)
    (sound : Consistent mm role space procs) (root : role pgdir = .node pid [])
    (backed : space pid argPage = .priv frame) (high : argvBase + 8 * (i + args.length) < userSp)
    (low : userSp - normalPageSize + (argLen + 1) * args.length ≤ sp) (below : sp ≤ argvBase) :
    Meets accepted (copyArgs pgdir argvBase i sp args) mm fun _ next =>
      Consistent next role space procs ∧ next.shmCtrl = mm.shmCtrl := by
  induction args generalizing i sp mm with
  | nil => exact ⟨sound, rfl⟩
  | cons arg rest ih =>
    have kept : (arg.take argLen).length ≤ argLen := List.length_take_le _ _
    simp only [List.length_cons, argLen, userSp, normalPageSize] at high low kept
    unfold copyArgs
    apply Meets.bind (pokeUser_sound _ sound root ?_ backed)
    · intro _ mid poked
      apply Meets.bind (pokeUser_sound _ poked.1 root ?_ backed)
      · intro _ last poked'
        apply Meets.mono (ih (i + 1) _ poked'.1 ?_ ?_ ?_)
        · intro _ next copied
          exact ⟨copied.1, copied.2.trans (poked'.2.trans poked.2)⟩
        · simp only [userSp]
          omega
        · simp only [argLen, userSp, normalPageSize]
          omega
        · omega
      · simp only [argLen, userSp, normalPageSize]
        omega
    · simp only [userSp, normalPageSize]
      omega

/-- `do_exec` of a program that is linked where programs are keeps the state consistent. -/
theorem doExec_sound (exhausted : accepted .noPageTable) (hang : accepted .noVictim)
    (full : accepted .noSwapPage) (sound : Consistent mm role space procs) (img : Option TaskImg)
    (linked : ∀ program, img = some program → program.Linked) (flags : CreateFlags) (argc : Int)
    (argv : List (List Nat)) :
    Meets accepted (doExec cpu img flags argc argv) mm fun _ next => GoesTo mm next := by
  unfold doExec
  apply meets_ite
  · intro _
    exact sound.goesTo rfl
  intro few
  apply Meets.bind (createProc_meets exhausted hang full sound img linked flags)
  intro created next done
  obtain ⟨rfl, leads⟩ | ⟨pid, role', space', procs', frame, rfl, sound', -, mem, backed, shm⟩ :=
    done
  · exact leads
  obtain ⟨pnew, found, root⟩ := sound'.tasks.homed pid mem
  simp only [meets_get_bind, found]
  have short : (argv.take (if argc < 0 then argcMax else argc.toNat)).length ≤ argcMax := by
    apply Nat.le_trans (List.length_take_le _ _)
    split <;> omega
  generalize argv.take (if argc < 0 then argcMax else argc.toNat) = args at short
  simp only [argcMax] at short
  apply Meets.bind (pokeUser_sound _ sound' root ?_ backed)
  · intro _ mid ready
    have copied : Meets accepted (discard (copyArgs pnew.pgdir (userSp - 8 * (args.length + 1)) 0
        (userSp - 8 * (args.length + 1)) args)) mid fun _ next => GoesTo mm next := by
      apply meets_discard
      apply Meets.mono (copyArgs_sound args 0 _ _ ready.1 root backed ?_ ?_ (Nat.le_refl _))
      · intro _ last finished
        exact finished.1.goesTo (finished.2.trans (ready.2.trans shm))
      · simp only [userSp]
        omega
      · simp only [argLen, userSp, normalPageSize]
        omega
    apply Meets.bind copied
    intro _ last finished
    exact finished
  · simp only [userSp, normalPageSize]
    omega

end Arguments

end GlucOS
