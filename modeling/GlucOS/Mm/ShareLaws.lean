import GlucOS.Mm.ExecLaws

/-! `shm_page_get` and `do_shm_page_dt`: users of shared pages come and go. -/

namespace GlucOS

open Routine

variable {mm : Mm} {role : Nat → Role} {space : Nat → Nat → Leaf} {procs : Finset Nat}
  {accepted : MmStop → Prop}

/-! ## Segments that grow -/

/-- Threads may get a higher end of their segment. -/
theorem Consistent.extend (sound : Consistent mm role space procs) {change : Tcb → Tcb}
    (keeps : ∀ tcb, (change tcb).pid = tcb.pid ∧ (change tcb).tid = tcb.tid ∧
      (change tcb).pgdir = tcb.pgdir)
    (segs : SegsOk (mm.pcbTable.map change))
    (bounds : ∀ tcb ∈ mm.pcbTable, ncpu ≤ tcb.pid → (change tcb).segStart = tcb.segStart ∧
      tcb.segEnd ≤ (change tcb).segEnd ∧ (change tcb).segEnd ≤ 2 ^ 31) :
    Consistent { mm with pcbTable := mm.pcbTable.map change } role space procs := by
  refine ⟨{ sound.ok with }, sound.tasks.map keeps rfl rfl, segs, ?_⟩
  constructor
  · intro tcb mem isUser
    obtain ⟨old, oldMem, rfl⟩ := List.mem_map.mp mem
    rw [(keeps old).1] at isUser
    obtain ⟨low, -, high⟩ := bounds old oldMem isUser
    rw [low]
    exact ⟨(sound.placed.low old oldMem isUser).1, high⟩
  · intro tcb mem isUser vpn now
    obtain ⟨old, oldMem, rfl⟩ := List.mem_map.mp mem
    rw [(keeps old).1] at isUser now
    obtain ⟨-, grown, -⟩ := bounds old oldMem isUser
    obtain below | stack := sound.placed.inside old oldMem isUser vpn now
    · exact Or.inl (Nat.lt_of_lt_of_le below grown)
    · exact Or.inr stack

/-! ## Users of a shared page -/

/-- A page of its process becomes a shared one that nobody else uses yet. -/
theorem ResOk.shareFirst {pid vpn frame id : Nat} (res : ResOk mm space procs none)
    (is : space pid vpn = .priv frame) (small : vpn < 2 ^ 20) (inside : id < nshm)
    (idle : (mm.shmCtrl id).nproc = 0) (frames : Nat → Page) :
    ResOk { mm with
      frames
      pgCharmap := put mm.pgCharmap frame cmapShared
      pgUva := put mm.pgUva frame 1
      shmCtrl := put mm.shmCtrl id ⟨1, frame, fun i => if i = 0 then some pid else none⟩ }
      (setLeaf space pid vpn (.shared frame)) procs none := by
  have mem := res.procs.touched pid vpn (by simp [is])
  -- The frame is taken from the process, and then shared with nobody else.
  have held := res.frames.evict .untouched is (Or.inl rfl)
  obtain ⟨-, used, -⟩ := held.holds frame rfl
  have shm : ShmOk mm.shmCtrl mm.pgUva (setLeaf space pid vpn .untouched) := by
    exact res.shm.keep .untouched (by simp [is]) (by simp) (by simp) fun _ _ _ => rfl
  have gone := setLeaf_same space pid vpn Leaf.untouched
  constructor
  · have shared := held.share gone (Or.inr rfl : (Leaf.shared frame).Uses frame)
    rwa [setLeaf_setLeaf] at shared
  · exact res.frameIndex.remark used shared_ne_free
  · exact res.slots.keep (by simp [is]) (by simp)
  · exact res.slotIndex
  · have first := shm.first (by unfold ShmCtrl.Active; omega) small gone
      (fun other page => (held.held_unused other page).2) inside
    rwa [setLeaf_setLeaf] at first
  · exact res.procs.set mem
  · exact res.clock

/-- Whoever maps the frame of a shared page is listed among its users. -/
theorem ResOk.unused {pid id : Nat} (res : ResOk mm space procs none) (inside : id < nshm)
    (active : (mm.shmCtrl id).Active) (unlisted : ∀ i < npshm, (mm.shmCtrl id).opid i ≠ some pid)
    (vpn : Nat) : ¬ (space pid vpn).Uses (mm.shmCtrl id).pgidx := by
  intro uses
  obtain cow | shared := uses
  · exact res.shm.notCow id inside active pid vpn cow
  · obtain ⟨i, small, isPid⟩ := (res.shm.listed id inside active pid).mpr ⟨vpn, shared⟩
    exact unlisted i small isPid

/-- A page that has nothing becomes a shared one that others use. -/
theorem ResOk.shareNext {pid vpn id slot : Nat} (res : ResOk mm space procs none)
    (mem : pid ∈ procs) (was : space pid vpn = .untouched) (small : vpn < 2 ^ 20)
    (inside : id < nshm) (active : (mm.shmCtrl id).Active) (room : slot < npshm)
    (empty : (mm.shmCtrl id).opid slot = none)
    (unlisted : ∀ i < npshm, (mm.shmCtrl id).opid i ≠ some pid) :
    ResOk { mm with
      pgUva := put mm.pgUva (mm.shmCtrl id).pgidx (mm.pgUva (mm.shmCtrl id).pgidx + 1)
      shmCtrl := put mm.shmCtrl id { mm.shmCtrl id with
        nproc := (mm.shmCtrl id).nproc + 1
        opid := put (mm.shmCtrl id).opid slot (some pid) } }
      (setLeaf space pid vpn (.shared (mm.shmCtrl id).pgidx)) procs none := by
  obtain ⟨framed, marked⟩ := res.shm.marked res.frames inside active
  constructor
  · exact res.frames.addUse was (Or.inr rfl) framed marked (res.unused inside active unlisted)
  · exact res.frameIndex
  · exact res.slots.keep (by simp [was]) (by simp)
  · exact res.slotIndex
  · exact res.shm.join inside active small was room empty unlisted
  · exact res.procs.set mem
  · exact res.clock

/-- There are fewer processes than places for users of a shared page. -/
theorem ResOk.free_slot {id : Nat} (res : ResOk mm space procs none) (inside : id < nshm)
    (active : (mm.shmCtrl id).Active) :
    ∃ slot < npshm, (mm.shmCtrl id).opid slot = none ∧
      (mm.shmCtrl id).findOpid none = some slot := by
  have exists_ : ∃ slot < npshm, (mm.shmCtrl id).opid slot = none := by
    by_contra full
    push Not at full
    -- Otherwise every place has a process of its own.
    have names : ∀ i < npshm, ∃ pid, (mm.shmCtrl id).opid i = some pid := by
      intro i small
      exact Option.ne_none_iff_exists'.mp (full i small)
    choose! user isUser using names
    have alive : (Finset.range npshm).image user ⊆ procs := by
      intro pid mem
      obtain ⟨i, small, rfl⟩ := Finset.mem_image.mp mem
      have small' := Finset.mem_range.mp small
      obtain ⟨vpn, is⟩ := (res.shm.listed id inside active (user i)).mp ⟨i, small', isUser i small'⟩
      exact res.procs.touched (user i) vpn (by simp [is])
    have apart : Set.InjOn user (Finset.range npshm) := by
      intro i small j small' same
      have i_small := Finset.mem_range.mp (Finset.mem_coe.mp small)
      have j_small := Finset.mem_range.mp (Finset.mem_coe.mp small')
      apply res.shm.distinct id inside active (user i) i j i_small j_small (isUser i i_small)
      rw [same]
      exact isUser j j_small
    have many := Finset.card_le_card alive
    rw [Finset.card_image_of_injOn apart, Finset.card_range] at many
    have few := res.procs.few
    simp only [npshm, uprocMax] at *
    omega
  obtain ⟨slot, small, isNone⟩ := exists_
  obtain ⟨first, small', isFree, found⟩ := find_range npshm
    (fun i => (mm.shmCtrl id).opid i = none) ⟨slot, small, decide_eq_true isNone⟩
  exact ⟨first, small', of_decide_eq_true isFree, found⟩

/-- A process has become a user of a shared page, whose frame it has not mapped yet. -/
structure Joins (mm : Mm) (role : Nat → Role) (space : Nat → Nat → Leaf) (procs : Finset Nat)
    (pid vpn id frame : Nat) (next : Mm) (role' : Nat → Role) (space' : Nat → Nat → Leaf) :
    Prop where
  /-- The page tables are as they were, or have a private page there. -/
  shape : Shape next.tables role' space'
  /-- Their allocator. -/
  tabs : TabsOk next.pgtbCharmap next.pgtbFfree role'
  /-- Everything else counts the new user already. -/
  res : ResOk next (setLeaf space' pid vpn (.shared frame)) procs none
  /-- Tables keep their place. -/
  grows : Grows role role'
  /-- New tables are no top tables. -/
  noRoots : NoRoots role role'
  /-- No other page is touched that was not before. -/
  touched : ∀ other page, space' other page ≠ .untouched →
    space other page ≠ .untouched ∨ (other = pid ∧ page = vpn)
  /-- The first user has its table entry. -/
  made : ¬ 1 < (next.shmCtrl id).nproc → space' pid vpn ≠ .untouched
  /-- Shared pages stay in use. -/
  shares : SharesStay mm next

/-- `shm_page_get` finds or allocates the frame. -/
theorem shmJoin_meets (exhausted : accepted .noPageTable) (hang : accepted .noVictim)
    (full : accepted .noSwapPage) {cpu id uva : Nat} {ccpu : Tcb}
    (ok : Ok mm role space procs none) (homed : Homed mm role procs) (mem : ccpu.pid ∈ procs)
    (root : role ccpu.pgdir = .node ccpu.pid []) (inside : id < nshm) (low : uva < 2 ^ 31)
    (was : space ccpu.pid (uva / normalPageSize) = .untouched)
    (unlisted : (mm.shmCtrl id).nproc = 0 ∨ (mm.shmCtrl id).findOpid (some ccpu.pid) = none) :
    Meets accepted (shmJoin cpu id uva ccpu) mm fun frame next => ∃ role' space',
      Joins mm role space procs ccpu.pid (uva / normalPageSize) id frame next role' space' := by
  have small : uva / normalPageSize < 2 ^ 20 := by
    simp only [normalPageSize]
    omega
  have user : uva < userVpns * normalPageSize := by
    simp only [userVpns, normalPageSize]
    omega
  unfold shmJoin
  simp only [meets_get_bind]
  apply meets_ite
  · intro idle
    apply Meets.bind (allocPageHelper_meets exhausted hang full ok homed mem root user was)
    intro frame next mapped
    obtain ⟨role', space', ok', grows, -, touches, noRoots⟩ := mapped
    have idle' : (next.shmCtrl id).nproc = 0 := by rw [touches.shmCtrl, idle]
    unfold clearFrame
    simp only [meets_modify_bind, meets_pure]
    have shared := ok'.shareFirst touches.backed small inside idle'
      (put next.frames frame fun _ => 0)
    refine ⟨role', space', ok'.shape, ok'.tabs, ?_, grows, noRoots, ?_, ?_, ?_⟩
    · rw [idle']
      exact shared
    · intro other page now
      by_cases same : other = ccpu.pid ∧ page = uva / normalPageSize
      · exact Or.inr same
      · exact Or.inl (touches.touched same now)
    · intro _
      rw [touches.backed]
      simp
    · intro other _ otherActive
      have differ : other ≠ id := by
        intro same
        rw [same] at otherActive
        unfold ShmCtrl.Active at otherActive
        omega
      simp only [put_other _ _ differ, touches.shmCtrl]
      exact ⟨otherActive, trivial⟩
  · intro used
    have active : (mm.shmCtrl id).Active := by
      unfold ShmCtrl.Active
      omega
    obtain ⟨slot, room, empty, found⟩ := ok.free_slot inside active
    have notListed : ∀ i < npshm, (mm.shmCtrl id).opid i ≠ some ccpu.pid := by
      intro i small' isPid
      obtain idle | nothing := unlisted
      · exact used idle
      · unfold ShmCtrl.findOpid at nothing
        rw [List.find?_eq_none] at nothing
        exact nothing i (List.mem_range.mpr small') (decide_eq_true isPid)
    rw [found]
    simp only [meets_set_bind, meets_pure]
    refine ⟨role, space, ok.shape, ok.tabs, ?_, fun _ _ => rfl, fun _ _ is => is, ?_, ?_, ?_⟩
    · exact ok.shareNext mem was small inside active room empty notListed
    · exact fun _ _ now => Or.inl now
    · intro alone
      apply absurd _ alone
      simp only [put_same]
      omega
    · intro other _ otherActive
      by_cases same : other = id
      · subst same
        simp only [put_same]
        exact ⟨Nat.succ_pos _, trivial⟩
      · simp only [put_other _ _ same]
        exact ⟨otherActive, trivial⟩

/-- What `shm_page_get` does when the process may use the page and has room for it. -/
def shmAttach (cpu shmid uva : Nat) (ccpu : Tcb) : MmRoutine Nat := do
  let frame ← shmJoin cpu shmid uva ccpu
  let mm ← get
  let loc ← if 1 < (mm.shmCtrl shmid).nproc then va2pte uva ccpu.pgdir true ccpu.pid
    else va2pte uva ccpu.pgdir false 0
  stopIf (loc.level ≠ 0) .corrupt
  writePte loc { Pte.zero.setVurwxad with shared := true, pfn := framePfn frame }
  localFlushTlbPage cpu uva
  return uva

/-- `shm_page_get` checks the quota, the users and the segment before. -/
theorem shmPageGet_eq (cpu key : Nat) :
    shmPageGet cpu key = (do
      let shmid := u32 key % nshm
      let ccpu ← curCpu cpu
      let mm ← get
      let ctrl := mm.shmCtrl shmid
      if npshm ≤ ctrl.nproc then return 0
      else if 0 < ctrl.nproc ∧ ctrl.findOpid (some ccpu.pid) ≠ none then return 0
      else
        let uva := roundUp ccpu.segEnd normalPageSize
        if usegMax < uva + normalPageSize - ccpu.segStart then return 0
        else
          setSegEnd ccpu.pid (uva + normalPageSize)
          shmAttach cpu shmid uva ccpu) := rfl

/-- Nothing but page tables and page frames changes. -/
theorem shmAttach_tasks (cpu shmid uva : Nat) (ccpu : Tcb) :
    Keeps Mm.tasks (shmAttach cpu shmid uva ccpu) := by
  unfold shmAttach
  apply (shmJoin_tasks _ _ _ _).bind
  intro frame
  apply keeps_get_bind
  intro mm'
  apply Keeps.meets
  have rest : ∀ loc : PteLoc, Keeps Mm.tasks (do
      stopIf (loc.level ≠ 0) .corrupt
      writePte loc { Pte.zero.setVurwxad with shared := true, pfn := framePfn frame }
      localFlushTlbPage cpu uva
      return uva : MmRoutine Nat) := by
    intro loc
    apply (keeps_stopIf _ _).bind
    intro _
    apply (writePte_tasks _ _).bind
    intro _
    exact (localFlushTlbPage_tasks _ _).bind fun _ => keeps_pure _
  exact .ite ((va2pte_tasks _ _ _ _).bind rest) ((va2pte_tasks _ _ _ _).bind rest)

/-- The process has the shared page at an address where it had nothing. -/
theorem shmAttach_meets (exhausted : accepted .noPageTable) (hang : accepted .noVictim)
    (full : accepted .noSwapPage) {cpu id uva : Nat} {ccpu : Tcb}
    (ok : Ok mm role space procs none) (homed : Homed mm role procs) (mem : ccpu.pid ∈ procs)
    (root : role ccpu.pgdir = .node ccpu.pid []) (inside : id < nshm) (low : uva < 2 ^ 31)
    (was : space ccpu.pid (uva / normalPageSize) = .untouched)
    (unlisted : (mm.shmCtrl id).nproc = 0 ∨ (mm.shmCtrl id).findOpid (some ccpu.pid) = none) :
    Meets accepted (shmAttach cpu id uva ccpu) mm fun value next => value = uva ∧ ∃ role' space',
      Serves mm role space procs ccpu.pid (uva / normalPageSize) next role' space' := by
  have walk : walkVpn uva = uva / normalPageSize := by
    apply walkVpn_user
    omega
  have user : walkVpn uva < userVpns := by
    rw [walk]
    simp only [userVpns, normalPageSize]
    omega
  have named := ok.procs.named ccpu.pid mem
  unfold shmAttach
  apply Meets.bind (shmJoin_meets exhausted hang full ok homed mem root inside low was unlisted)
  intro frame mid joined
  obtain ⟨role', space', joins⟩ := joined
  have root' : role' ccpu.pgdir = .node ccpu.pid [] := by
    rw [joins.grows _ (by simp [root]), root]
  simp only [meets_get_bind]
  -- The entry is written where the walk ends, with or without new tables.
  have finish : ∀ {next : Mm} {role'' : Nat → Role} {loc : PteLoc},
      Shape next.tables role'' space' → TabsOk next.pgtbCharmap next.pgtbFfree role'' →
      SameButTables mid next → Grows role' role'' → NoRoots role' role'' →
      AtLeaf role'' ccpu.pid (uva / normalPageSize) loc →
      Meets accepted (do
        stopIf (loc.level ≠ 0) .corrupt
        writePte loc { Pte.zero.setVurwxad with shared := true, pfn := framePfn frame }
        localFlushTlbPage cpu uva
        return uva) next fun value last => value = uva ∧ ∃ role' space',
          Serves mm role space procs ccpu.pid (uva / normalPageSize) last role' space' := by
    intro next role'' loc shape tabs same grows noRoots here
    apply meets_stopIf_bind (fun above => absurd here.1 above)
    intro _
    unfold localFlushTlbPage
    simp only [meets_writePte_bind, meets_modify_bind, meets_pure]
    have written := shape.write here
      (⟨true, true, rfl⟩ : (Leaf.shared frame).Holds
        { Pte.zero.setVurwxad with shared := true, pfn := framePfn frame })
    have res : ResOk next (setLeaf space' ccpu.pid (uva / normalPageSize) (.shared frame)) procs
        none := by
      rw [same]
      exact ⟨joins.res.frames, joins.res.frameIndex, joins.res.slots, joins.res.slotIndex,
        joins.res.shm, joins.res.procs, joins.res.clock⟩
    refine ⟨trivial, role'', _, ⟨{ res with shape := written, tabs := tabs },
      joins.grows.trans grows, joins.noRoots.trans noRoots, ?_, ?_⟩⟩
    swap
    · apply joins.shares.trans (.of_same _)
      rw [same]
    intro other page now
    by_cases this : other = ccpu.pid ∧ page = uva / normalPageSize
    · exact Or.inr this
    · rw [setLeaf_other this] at now
      exact joins.touched other page now
  apply meets_ite
  · intro _
    apply Meets.bind (va2pte_alloc joins.shape joins.tabs named.1 named.2 exhausted root' user)
    intro loc next walked
    obtain ⟨role'', shape, tabs, grows, noRoots, same, here⟩ := walked
    rw [walk] at here
    exact finish shape tabs same grows noRoots here
  · intro alone
    apply Meets.bind (va2pte_lookup joins.shape uva root')
    intro loc next walked
    obtain ⟨rfl, located⟩ := walked
    rw [walk] at located user
    obtain ⟨level, -, table, index⟩ | ⟨-, nothing⟩ := located
    · exact finish joins.shape joins.tabs (SameButTables.refl _) (fun _ _ => rfl)
        (fun _ _ is => is) ⟨level, table, index⟩
    · exact absurd (nothing user).1 (joins.made alone)

/-- Where the shared page of a process goes: behind its segment, where it has nothing. -/
theorem Consistent.beyond (sound : Consistent mm role space procs) {ccpu : Tcb}
    (mem : ccpu ∈ mm.pcbTable) (isUser : ncpu ≤ ccpu.pid)
    (room : roundUp ccpu.segEnd normalPageSize + normalPageSize - ccpu.segStart ≤ usegMax) :
    roundUp ccpu.segEnd normalPageSize + normalPageSize ≤ 2 ^ 31 ∧
      space ccpu.pid (roundUp ccpu.segEnd normalPageSize / normalPageSize) = .untouched := by
  obtain ⟨low, -⟩ := sound.placed.low ccpu mem isUser
  have order := sound.segs.ordered ccpu mem
  have below : roundUp ccpu.segEnd normalPageSize + normalPageSize ≤ 2 ^ 31 := by
    simp only [roundUp, normalPageSize, usegMax] at *
    omega
  refine ⟨below, ?_⟩
  by_contra touched
  have inside := sound.placed.inside ccpu mem isUser _ touched
  simp only [roundUp, normalPageSize, userSp, ustackNpg] at *
  omega

/-- `shm_page_get` keeps the state consistent, and maps no page where there is one. -/
theorem shmPageGet_sound (exhausted : accepted .noPageTable) (hang : accepted .noVictim)
    (full : accepted .noSwapPage) {cpu : Nat} {ccpu : Tcb} (key : Nat)
    (sound : Consistent mm role space procs) (runs : mm.curCpu cpu = some ccpu)
    (isUser : ncpu ≤ ccpu.pid) :
    Meets accepted (shmPageGet cpu key) mm fun value next => GoesTo mm next ∧
      (value = 0 ∨ (value < 2 ^ 31 ∧
        space ccpu.pid (value / normalPageSize) = .untouched)) := by
  have mem := TasksOk.current_mem runs
  obtain ⟨inProcs, root⟩ := sound.tasks.home ccpu mem isUser
  rw [shmPageGet_eq, meets_curCpu_bind runs]
  simp only [meets_get_bind]
  apply meets_ite
  · intro _
    exact ⟨sound.goesTo rfl, Or.inl rfl⟩
  intro _
  apply meets_ite
  · intro _
    exact ⟨sound.goesTo rfl, Or.inl rfl⟩
  intro unlisted
  apply meets_ite
  · intro _
    exact ⟨sound.goesTo rfl, Or.inl rfl⟩
  intro room
  obtain ⟨low, was⟩ := sound.beyond mem isUser (Nat.le_of_not_lt room)
  have small : roundUp ccpu.segEnd normalPageSize < 2 ^ 31 := by
    simp only [normalPageSize] at low ⊢
    omega
  unfold setSegEnd
  simp only [meets_modify_bind]
  have above : ccpu.segEnd ≤ roundUp ccpu.segEnd normalPageSize + normalPageSize := by
    simp only [roundUp, normalPageSize]
    omega
  have extended : Consistent { mm with pcbTable := mm.pcbTable.map fun tcb =>
      if tcb.pid = ccpu.pid then
        { tcb with segEnd := roundUp ccpu.segEnd normalPageSize + normalPageSize }
      else tcb } role space procs := by
    apply sound.extend
    · intro tcb
      split <;> simp
    · apply sound.segs.update ccpu.pid (fun low _ => low)
        (fun _ _ => roundUp ccpu.segEnd normalPageSize + normalPageSize)
      intro tcb mem' same
      have equal := sound.segs.agree tcb mem' ccpu mem same
      have order := sound.segs.ordered ccpu mem
      omega
    · intro tcb mem' user
      by_cases same : tcb.pid = ccpu.pid
      · have equal := sound.segs.agree tcb mem' ccpu mem same
        rw [if_pos same]
        exact ⟨rfl, by rw [equal.2]; exact above, low⟩
      · rw [if_neg same]
        exact ⟨rfl, Nat.le_refl _, (sound.placed.low tcb mem' user).2⟩
  apply Meets.mono (meets_both (shmAttach_meets exhausted hang full extended.ok
    extended.tasks.homed inProcs root (Nat.mod_lt _ (by decide)) small was ?_)
    ((shmAttach_tasks _ _ _ _).meets _))
  · intro value next both
    obtain ⟨⟨rfl, role', space', serves⟩, same⟩ := both
    refine ⟨?_, Or.inr ⟨small, was⟩⟩
    -- The page lies below the new end.
    obtain ⟨thread, isThread⟩ : ∃ thread : Tcb, thread = { ccpu with
        segEnd := roundUp ccpu.segEnd normalPageSize + normalPageSize } := ⟨_, rfl⟩
    have samePid : thread.pid = ccpu.pid := by rw [isThread]
    rw [← samePid] at serves extended same
    have leads := serves.sound extended (List.mem_map.mpr
      ⟨ccpu, mem, (if_pos samePid.symm).trans isThread.symm⟩) (Or.inl ?_) same
    · exact ⟨leads.sound, leads.shares⟩
    · rw [isThread]
      simp only [roundUp, normalPageSize]
      omega
  · change (mm.shmCtrl _).nproc = 0 ∨ (mm.shmCtrl _).findOpid _ = none
    by_cases idle : (mm.shmCtrl (u32 key % nshm)).nproc = 0
    · exact Or.inl idle
    · right
      by_contra listed
      exact unlisted ⟨by omega, listed⟩

/-- `do_shm_page_dt` keeps the state consistent. -/
theorem doShmPageDt_sound {cpu : Nat} {ccpu : Tcb} (addr : Nat)
    (sound : Consistent mm role space procs) (runs : mm.curCpu cpu = some ccpu)
    (isUser : ncpu ≤ ccpu.pid) :
    Meets accepted (doShmPageDt cpu addr) mm fun _ next => GoesTo mm next := by
  have mem := TasksOk.current_mem runs
  obtain ⟨-, root⟩ := sound.tasks.home ccpu mem isUser
  unfold doShmPageDt shmPageDt
  rw [meets_curCpu_bind runs]
  apply Meets.mono (shmDetach_meets sound.ok.shape sound.ok.toResOk root rfl)
  intro value next done
  obtain ⟨-, rfl, -⟩ | detaches := done
  · exact sound.goesTo rfl
  have tabs : TabsOk next.pgtbCharmap next.pgtbFfree role := by
    rw [detaches.pgtbCharmap, detaches.pgtbFfree]
    exact sound.ok.tabs
  have table : next.pcbTable = mm.pcbTable := by rw [detaches.gives.same]
  have kept : ∀ other vpn,
      setLeaf space ccpu.pid (walkVpn addr) .untouched other vpn ≠ .untouched →
      setLeaf space ccpu.pid (walkVpn addr) .untouched other vpn = space other vpn := by
    intro other vpn now
    by_cases here : other = ccpu.pid ∧ vpn = walkVpn addr
    · rw [here.1, here.2, setLeaf_same] at now
      exact absurd rfl now
    · rw [setLeaf_other here]
  refine ⟨⟨role, _, procs, { detaches.res with shape := detaches.shape, tabs := tabs }, ?_, ?_, ?_⟩,
    sound.ok.toResOk.released detaches.res kept detaches.gives.shm⟩
  · apply sound.tasks.later (fun _ _ => rfl) (fun _ _ is => is)
    rw [detaches.gives.same]
    rfl
  · rw [table]
    exact sound.segs
  · rw [table]
    apply sound.placed.fewer (fun _ inTable => inTable)
    intro other vpn now
    rw [← kept other vpn now]
    exact now

/-- `do_sbrk` keeps the state consistent. -/
theorem doSbrk_sound {cpu : Nat} {ccpu : Tcb} (size : Nat) (sound : Consistent mm role space procs)
    (runs : mm.curCpu cpu = some ccpu) (isUser : ncpu ≤ ccpu.pid) :
    Meets accepted (doSbrk cpu size) mm fun _ next => GoesTo mm next := by
  have mem := TasksOk.current_mem runs
  obtain ⟨low, -⟩ := sound.placed.low ccpu mem isUser
  have order := sound.segs.ordered ccpu mem
  unfold doSbrk
  rw [meets_curCpu_bind runs]
  apply meets_ite
  · intro _
    exact sound.goesTo rfl
  intro room
  simp only [meets_modify_bind, meets_pure]
  refine ⟨⟨role, space, procs, sound.extend ?_ ?_ ?_⟩, .of_same rfl⟩
  · intro tcb
    split <;> simp
  · apply sound.segs.update ccpu.pid (fun low _ => low)
      (fun _ high => high + roundUp size 8 % 2 ^ 64)
    intro tcb mem' same
    have := sound.segs.ordered tcb mem'
    omega
  · intro tcb mem' user
    by_cases same : tcb.pid = ccpu.pid
    · have equal := sound.segs.agree tcb mem' ccpu mem same
      have high : tcb.segEnd + roundUp size 8 % 2 ^ 64 ≤ 2 ^ 31 := by omega
      rw [if_pos same]
      exact ⟨rfl, Nat.le_add_right _ _, high⟩
    · rw [if_neg same]
      exact ⟨rfl, Nat.le_refl _, (sound.placed.low tcb mem' user).2⟩

end GlucOS
