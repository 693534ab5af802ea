import GlucOS.Mm.Invariant

/-! Page frames are allocated, evicted, mapped, reloaded and released consistently. -/

namespace GlucOS

open Routine

variable {mm : Mm} {role : Nat → Role} {space : Nat → Nat → Leaf} {procs : Finset Nat}
  {held : Option Nat} {accepted : MmStop → Prop}

/-- The owner of a page has a proper identifier. -/
theorem ResOk.named (ok : ResOk mm space procs held) (pid vpn : Nat)
    (touched : space pid vpn ≠ .untouched) : Named pid :=
  ok.procs.named pid (ok.procs.touched pid vpn touched)

/-- A touched page lies in user space. -/
theorem Ok.inUser (ok : Ok mm role space procs held) (pid vpn : Nat)
    (touched : space pid vpn ≠ .untouched) : vpn < userVpns := by
  by_contra outside
  exact touched (ok.shape.beyond (Nat.le_of_not_lt outside))

/-- A page that moves inside memory needs no new process. -/
theorem ProcsOk.set (procsOk : ProcsOk space procs) {pid vpn : Nat} {leaf : Leaf}
    (mem : pid ∈ procs) : ProcsOk (setLeaf space pid vpn leaf) procs := by
  refine ⟨?_, procsOk.named, procsOk.few⟩
  intro other otherVpn touched
  by_cases here : other = pid ∧ otherVpn = vpn
  · rw [here.1]
    exact mem
  · rw [setLeaf_other here] at touched
    exact procsOk.touched other otherVpn touched

/-! ## The swap map -/

/-- `alloc_swap_page` gives a swap page that was free, unless there is none. -/
theorem allocSwapPage_meets {pid : Nat} (named : Named pid) :
    Meets accepted (allocSwapPage pid) mm fun slot? next =>
      (slot? = none ∧ next = mm) ∨ ∃ slot, slot? = some slot ∧ slot < npswap ∧
        mm.spgFfree = slot ∧ next = { mm with
          spgCharmap := put mm.spgCharmap slot pid
          spgFfree := nextFree (put mm.spgCharmap slot pid) (npswap - slot) slot } := by
  unfold allocSwapPage
  rw [named.u8]
  apply meets_stopIf_bind (fun free => absurd free named.not_free)
  intro _
  simp only [meets_get_bind]
  apply meets_ite
  · intro _
    exact Or.inl ⟨rfl, rfl⟩
  · intro free
    exact Or.inr ⟨mm.spgFfree, rfl, by omega, rfl, rfl⟩

/-- `free_swap_page` of a page in use. -/
theorem freeSwapPage_meets {slot : Nat} (inside : slot < npswap)
    (used : mm.spgCharmap slot ≠ cmapFree) :
    Meets accepted (freeSwapPage slot) mm fun _ next => next = { mm with
      spgCharmap := put mm.spgCharmap slot cmapFree
      spgFfree := if slot < mm.spgFfree then slot else mm.spgFfree } := by
  unfold freeSwapPage
  apply meets_stopIf_bind (fun outside => absurd inside (Nat.not_lt.mpr outside))
  intro _
  simp only [meets_get_bind]
  apply meets_stopIf_bind (fun free => absurd free used)
  intro _
  rfl

/-- `free_page` of a frame in use. -/
theorem freePage_meets {frame : Nat} (inside : frame < npf)
    (used : mm.pgCharmap frame ≠ cmapFree) :
    Meets accepted (freePage (framePfn frame)) mm fun _ next => next = { mm with
      pgCharmap := put mm.pgCharmap frame cmapFree
      pgFfree := if frame < mm.pgFfree then frame else mm.pgFfree } := by
  have index : framePfn frame - framePfn 0 = frame := by simp [framePfn]
  unfold freePage
  rw [index]
  apply meets_stopIf_bind
  · rintro (low | high)
    · simp [framePfn] at low
    · omega
  intro _
  simp only [meets_get_bind]
  apply meets_stopIf_bind (fun free => absurd free used)
  intro _
  rfl

/-! ## Eviction -/

/-- What the clock loop of `swap_to_disk` stops at: an entry of a private page that may go. -/
structure Victim (cpu : Nat) (mm next : Mm) (role : Nat → Role) (space : Nat → Nat → Leaf)
    (found : PteLoc × Nat) (vpn : Nat) : Prop where
  /-- Only accessed bits and the clock pointer have changed. -/
  same : next = { mm with tables := next.tables, clockPt := next.clockPt }
  /-- The page tables are those of the same address spaces. -/
  shape : Shape next.tables role space
  /-- The clock pointer is at a frame. -/
  clock : next.clockPt < npf
  /-- The frame backs a private page of the process found. -/
  priv : space found.2 vpn = .priv next.clockPt
  /-- The entry found is that of the page. -/
  entry : AtLeaf role found.2 vpn found.1
  /-- The process runs on no other processor. -/
  idle : mm.runsElsewhere cpu found.2 = false

/-- The clock pointer stays at a frame. -/
theorem clock_step (mm : Mm) : (if npf ≤ mm.clockPt + 1 then 0 else mm.clockPt + 1) < npf := by
  by_cases last : npf ≤ mm.clockPt + 1
  · rw [if_pos last]
    decide
  · rw [if_neg last]
    omega

/-- The clock loop finds a victim through the reverse map, and none of its checks fails. -/
theorem clockScan_meets (hang : accepted .noVictim) {cpu : Nat} :
    ∀ fuel mm, Ok mm role space procs none → Homed mm role procs → npf ≤ mm.pgFfree →
      Meets accepted (clockScan cpu fuel) mm fun found next =>
        ∃ vpn, Victim cpu mm next role space found vpn := by
  -- The induction is on the rounds left, and each round leaves the invariant intact.
  intro fuel
  induction fuel with
  | zero => intro mm _ _ _; exact hang
  | succ fuel ih =>
    intro mm ok homed full
    -- A round that moves on is followed by the rest of the loop, from a state of the same kind.
    have again : ∀ tables, Shape tables role space →
        Meets accepted (stepClock >>= fun _ => clockScan cpu fuel) { mm with tables }
          fun found next => ∃ vpn, Victim cpu mm next role space found vpn := by
      intro tables shape
      simp only [stepClock, meets_modify_bind]
      refine (ih
        { mm with tables, clockPt := if npf ≤ mm.clockPt + 1 then 0 else mm.clockPt + 1 }
        { ok with shape := shape, clock := clock_step mm } homed full).mono ?_
      rintro found next ⟨vpn, victim⟩
      exact ⟨vpn, by rw [victim.same], victim.shape, victim.clock, victim.priv, victim.entry,
        victim.idle⟩
    have used : mm.pgCharmap mm.clockPt ≠ cmapFree :=
      ok.frameIndex.below _ (Nat.lt_of_lt_of_le ok.clock full)
    -- A frame that is not kept in common backs a page of a process that is found.
    have owner : mm.pgCharmap mm.clockPt ≠ cmapShared → ∃ vpn tcb,
        space (mm.pgCharmap mm.clockPt) vpn = .priv mm.clockPt ∧
        mm.pgUva mm.clockPt = vpn * normalPageSize ∧
        mm.pcbSearch (mm.pgCharmap mm.clockPt) = some tcb ∧
        role tcb.pgdir = .node (mm.pgCharmap mm.clockPt) [] := by
      intro alone
      obtain ⟨pid, vpn, is⟩ := ok.frames.owned _ ok.clock used alone (by simp)
      obtain ⟨-, -, own, addr, -⟩ := ok.frames.priv _ _ _ is
      obtain ⟨tcb, found, root⟩ := homed pid (ok.procs.touched pid vpn (by simp [is]))
      rw [own]
      exact ⟨vpn, tcb, is, addr, found, root⟩
    unfold clockScan
    simp only [meets_get_bind]
    apply meets_stopIf_bind
    · rintro ⟨missing, alone⟩
      obtain ⟨vpn, tcb, -, -, found, -⟩ := owner alone
      rw [missing] at found
      cases found
    intro _
    apply meets_ite
    · intro _
      exact again mm.tables ok.shape
    · intro candidate
      simp only [not_or, Bool.not_eq_true] at candidate
      obtain ⟨vpn, tcb, is, addr, found, root⟩ := owner candidate.2
      have user := ok.inUser (mm.pgCharmap mm.clockPt) vpn (by simp [is])
      have walk : walkVpn (mm.pgUva mm.clockPt) = vpn := by
        rw [addr]
        simp only [walkVpn, normalPageSize, userVpns] at *
        omega
      simp only [found]
      refine Meets.bind (va2pte_lookup ok.shape (mm.pgUva mm.clockPt) root) ?_
      rintro loc here ⟨rfl, located⟩
      rw [walk] at located
      -- The page has a frame, so the lookup reaches its entry.
      have entry : AtLeaf role (here.pgCharmap here.clockPt) vpn loc := by
        rcases located with ⟨level, -, node, index⟩ | ⟨-, bare⟩
        · exact ⟨level, node, index⟩
        · rw [(bare user).1] at is
          cases is
      have holds := ok.shape.holds_at entry
      have present : (here.tables loc.table loc.index).v = true :=
        holds.v_iff.mpr (Or.inl ⟨_, is⟩)
      simp only [meets_readPte_bind]
      apply meets_stopIf_bind
      · rintro (level | gone)
        · exact absurd entry.1 level
        · rw [present] at gone
          cases gone
      intro _
      apply meets_ite
      · -- An accessed page gets a second chance.
        intro _
        simp only [meets_writePte_bind]
        exact again _ (ok.shape.mark entry (by simp [is]) false _)
      · intro _
        exact ⟨vpn, rfl, ok.shape, ok.clock, is, entry, candidate.1⟩

/-- What `swap_to_disk` does: a private page moves to a swap page, and its frame is held. -/
structure SwapsOut (cpu : Nat) (mm : Mm) (role : Nat → Role) (space : Nat → Nat → Leaf)
    (procs : Finset Nat) (frame : Nat) (next : Mm) (space' : Nat → Nat → Leaf) : Prop where
  /-- The state is consistent. -/
  ok : Ok next role space' procs (some frame)
  /-- Processes see no difference. -/
  evicts : Evicts mm space next space'
  /-- The allocator's index and the map of the frames. -/
  pgFfree : next.pgFfree = mm.pgFfree

/-- A cached entry that is not dropped by the flush of a page is of another page. -/
theorem mem_flush {tlb : Nat → List (Nat × Pte)} {cpu other va : Nat} {cached : Nat × Pte}
    (mem : cached ∈ put tlb cpu ((tlb cpu).filter fun cached => cached.1 ≠ va / normalPageSize)
      other) :
    cached ∈ tlb other ∧ (other = cpu → cached.1 ≠ va / normalPageSize) := by
  by_cases same : other = cpu
  · subst same
    rw [put_same, List.mem_filter] at mem
    exact ⟨mem.1, fun _ => by simpa using mem.2⟩
  · rw [put_other _ _ same] at mem
    exact ⟨mem, fun equal => absurd equal same⟩

/-- `swap_to_disk` evicts a page of a process that runs on no other processor. -/
theorem swapToDisk_meets (hang : accepted .noVictim) (full : accepted .noSwapPage) {cpu : Nat}
    (ok : Ok mm role space procs none) (homed : Homed mm role procs) (noFree : npf ≤ mm.pgFfree) :
    Meets accepted (swapToDisk cpu) mm fun frame next =>
      ∃ space', SwapsOut cpu mm role space procs frame next space' := by
  unfold swapToDisk
  refine Meets.bind (clockScan_meets hang _ mm ok homed noFree) ?_
  rintro ⟨loc, pid⟩ here ⟨vpn, victim⟩
  have is := victim.priv
  simp only at is
  have named : Named pid := ok.named pid vpn (by simp [is])
  have spg : here.spgFfree = mm.spgFfree := by rw [victim.same]
  refine Meets.bind (allocSwapPage_meets named) ?_
  rintro slot? next (⟨rfl, rfl⟩ | ⟨slot, rfl, small, first, rfl⟩)
  · exact full
  have isFree : here.spgCharmap slot = cmapFree := by
    have free := ok.slotIndex.isFree
    rw [← spg, first] at free
    rw [victim.same]
    exact free small
  simp only [meets_get_bind, meets_set_bind, meets_readPte_bind, meets_writePte_bind,
    localFlushTlbPage, meets_modify_bind]
  have holds := victim.shape.holds_at victim.entry
  obtain ⟨a, d, entry⟩ := holds
  simp only [is, Leaf.pte] at entry
  rw [entry]
  apply meets_stopIf_bind
  · intro zero
    simp [userPte, Pte.zero] at zero
  intro _
  simp only [stepClock, meets_modify_bind, meets_pure]
  have vacant : ∀ pid' vpn', space pid' vpn' ≠ .swapped slot := by
    intro pid' vpn' gone
    have marked := (ok.slots.marked _ _ _ gone).2
    have named' : Named pid' := ok.named pid' vpn' (by simp [gone])
    rw [victim.same] at isFree
    exact named'.not_free (marked.symm.trans isFree)
  have notSwapped : ∀ slot', space pid vpn ≠ .swapped slot' := by simp [is]
  refine ⟨setLeaf space pid vpn (.swapped slot), ⟨?_, ?_, by rw [victim.same]⟩⟩
  · -- The maps follow the move of the page.
    have mem := ok.procs.touched pid vpn (by simp [is])
    refine ⟨⟨?_, ?_, ?_, ?_, ?_, ok.procs.set mem, clock_step here⟩,
      victim.shape.write victim.entry ⟨a, d, rfl⟩, by rw [victim.same]; exact ok.tabs⟩
    · have evicted := ok.frames.evict (.swapped slot) is (Or.inr ⟨slot, rfl⟩)
      rw [victim.same]
      exact evicted
    · rw [victim.same]
      exact ok.frameIndex
    · have moved := ok.slots.swapOut pid vpn small
        (by rw [victim.same] at isFree; exact isFree) ok.named notSwapped
      rw [victim.same]
      exact moved
    · have taken := ok.slotIndex.take (by rw [← spg, first]; exact small) pid
      rw [← spg, first] at taken
      rw [victim.same]
      exact taken
    · have kept : ShmOk mm.shmCtrl mm.pgUva (setLeaf space pid vpn (.swapped slot)) :=
        ok.shm.keep (.swapped slot) (by simp [is]) (by simp) (by simp) fun _ _ _ => rfl
      rw [victim.same]
      exact kept
  · -- The process of the victim runs here or nowhere, and here its translation is flushed.
    have uva : here.pgUva = mm.pgUva := by rw [victim.same]
    have addr : mm.pgUva here.clockPt = vpn * normalPageSize :=
      (ok.frames.priv _ _ _ is).2.2.2.1
    have page : here.pgUva here.clockPt / normalPageSize = vpn := by
      rw [uva, addr]
      exact Nat.mul_div_cancel _ (by decide)
    refine ⟨?_, ?_, ?_, by rw [victim.same], by rw [victim.same], by rw [victim.same],
      by rw [victim.same], by rw [victim.same], ?_, ?_⟩
    · funext pid' vpn'
      by_cases gone : pid' = pid ∧ vpn' = vpn
      · obtain ⟨rfl, rfl⟩ := gone
        simp only [views, setLeaf_same, is, Leaf.view, put_same]
        rw [victim.same]
      · apply views_congr (setLeaf_other gone)
        · intro frame _
          rw [victim.same]
        · intro slot' there
          show put here.swapPages slot _ slot' = mm.swapPages slot'
          rw [put_other _ _ (by rintro rfl; exact vacant _ _ there), victim.same]
    · intro pid' vpn' notPriv
      exact setLeaf_other fun gone => notPriv here.clockPt (by rw [gone.1, gone.2, is])
    · intro pid' vpn' frame priv
      by_cases gone : pid' = pid ∧ vpn' = vpn
      · exact Or.inr ⟨slot, by rw [gone.1, gone.2, setLeaf_same]⟩
      · exact Or.inl (by rw [setLeaf_other gone, priv])
    · intro coherent other small cached mem
      obtain ⟨old, flushed⟩ := mem_flush mem
      rw [page] at flushed
      have current : here.current = mm.current := by rw [victim.same]
      have tlb : here.tlb = mm.tlb := by rw [victim.same]
      simp only [current]
      rw [tlb] at old
      have allowed := coherent other small cached old
      have apart : ¬ ((mm.current other).1 = pid ∧ cached.1 = vpn) := by
        rintro ⟨runs, same⟩
        have idle := victim.idle
        simp only [Mm.runsElsewhere, List.any_eq_false, List.mem_range, Bool.and_eq_true,
          decide_eq_true_eq, not_and] at idle
        by_cases own : other = cpu
        · exact flushed own same
        · exact idle other small own runs
      rwa [setLeaf_other apart]
    · intro other entry' mem
      obtain ⟨old, -⟩ := mem_flush mem
      rwa [show here.tlb = mm.tlb by rw [victim.same]] at old

/-! ## Allocation -/

/-- What `alloc_page` gives: a frame that is held for a process, with an address. -/
structure Allocates (mm : Mm) (role : Nat → Role) (space : Nat → Nat → Leaf) (procs : Finset Nat)
    (pid uva frame : Nat) (next : Mm) (space' : Nat → Nat → Leaf) : Prop where
  /-- The state is consistent. -/
  ok : Ok next role space' procs (some frame)
  /-- Processes see no difference. -/
  evicts : Evicts mm space next space'
  /-- The owner is recorded. -/
  owner : next.pgCharmap frame = pid
  /-- The page's address is recorded. -/
  addr : next.pgUva frame = uva / normalPageSize * normalPageSize

/-- Recording the owner of a frame that is free or held makes it held for that owner. -/
theorem Ok.hold (ok : Ok mm role space procs held) {frame pid addr first : Nat} (named : Named pid)
    (inside : frame < npf) (was : (mm.pgCharmap frame = cmapFree ∧ held = none) ∨ held = some frame)
    (index : FreeIndex (put mm.pgCharmap frame pid) npf first) :
    Ok { mm with
      pgCharmap := put mm.pgCharmap frame pid
      pgUva := put mm.pgUva frame addr
      pgFfree := first } role space procs (some frame) := by
  have frames := ok.frames.hold addr inside was named.not_free named.not_shared
  refine
    { ok with
      frames := frames, frameIndex := index
      shm := ok.shm.transfer (fun _ _ _ => Iff.rfl) ok.shm.notCow ?_ }
  intro id small active
  -- The frames of shared pages are marked, and this one was not.
  have common := (ok.shm.marked ok.frames small active).2
  apply put_other
  rintro same
  rcases was with ⟨free, -⟩ | isHeld
  · rw [← same, common] at free
    exact shared_ne_free free
  · exact (ok.frames.holds frame isHeld).2.2 (same ▸ common)

/-- `alloc_page` holds a frame for a process, evicting another page when no frame is free. -/
theorem allocPage_meets (hang : accepted .noVictim) (full : accepted .noSwapPage) {cpu pid : Nat}
    (uva : Nat) (named : Named pid) (ok : Ok mm role space procs none)
    (homed : Homed mm role procs) :
    Meets accepted (allocPage cpu pid uva) mm fun frame next =>
      ∃ space', Allocates mm role space procs pid uva frame next space' := by
  unfold allocPage
  rw [named.u8]
  apply meets_stopIf_bind (fun free => absurd free named.not_free)
  intro _
  simp only [meets_get_bind]
  apply meets_ite
  · intro noFree
    refine Meets.bind (swapToDisk_meets hang full ok homed noFree) ?_
    rintro frame next ⟨space', swaps⟩
    simp only [meets_modify_bind, meets_pure]
    have inside := (swaps.ok.frames.holds frame rfl).1
    -- The frame just evicted is handed on, and still none is free.
    have index : FreeIndex (put next.pgCharmap frame pid) npf npf := by
      have old := swaps.ok.frameIndex
      rw [swaps.pgFfree, Nat.le_antisymm ok.frameIndex.bound noFree] at old
      exact old.remark (old.below frame inside) named.not_free
    refine ⟨space', swaps.ok.hold named inside (Or.inr rfl) index, ?_, put_same .., put_same ..⟩
    exact { swaps.evicts with }
  · intro room
    have inside : mm.pgFfree < npf := by omega
    simp only [meets_set_bind, meets_pure]
    refine ⟨space, ok.hold named inside (Or.inl ⟨ok.frameIndex.isFree inside, rfl⟩)
      (ok.frameIndex.take inside pid), ?_, put_same .., put_same ..⟩
    exact { Evicts.refl mm space with }

/-! ## Mapping a held frame -/

/-- The tables with one entry written. -/
def writeAt (tables : Nat → Nat → Pte) (loc : PteLoc) (entry : Pte) : Nat → Nat → Pte :=
  put tables loc.table (put (tables loc.table) loc.index entry)

/-- The entry written. -/
@[simp] theorem writeAt_same (tables : Nat → Nat → Pte) (loc : PteLoc) (entry : Pte) :
    writeAt tables loc entry loc.table loc.index = entry := by simp [writeAt]

/-- An entry that is written twice is the last one written. -/
@[simp] theorem writeAt_writeAt (tables : Nat → Nat → Pte) (loc : PteLoc) (first second : Pte) :
    writeAt (writeAt tables loc first) loc second = writeAt tables loc second := by
  funext table index
  simp only [writeAt, put]
  by_cases same : table = loc.table <;> by_cases same' : index = loc.index <;> simp [same, same']

/-- Setting a page twice. -/
@[simp] theorem setLeaf_setLeaf (space : Nat → Nat → Leaf) (pid vpn : Nat) (first second : Leaf) :
    setLeaf (setLeaf space pid vpn first) pid vpn second = setLeaf space pid vpn second := by
  funext otherPid otherVpn
  simp only [setLeaf]
  by_cases here : otherPid = pid ∧ otherVpn = vpn <;> simp [here]

/-- The held frame is mapped at its page, which had none. -/
theorem Ok.map {frame pid vpn : Nat} {loc : PteLoc} {entry : Pte}
    (ok : Ok mm role space procs (some frame)) (mem : pid ∈ procs)
    (own : mm.pgCharmap frame = pid) (addr : mm.pgUva frame = vpn * normalPageSize)
    (was : space pid vpn = .untouched) (here : AtLeaf role pid vpn loc)
    (holds : (Leaf.priv frame).Holds entry) :
    Ok { mm with tables := writeAt mm.tables loc entry } role
      (setLeaf space pid vpn (.priv frame)) procs none :=
  { ok with
    shape := ok.shape.write here holds
    frames := ok.frames.fill (ok.procs.named pid mem) own addr (Or.inl was)
    slots := ok.slots.keep (by simp [was]) (by simp)
    shm := ok.shm.keep (.priv frame) (by simp [was]) (by simp) (by simp) fun _ _ _ => rfl
    procs := ok.procs.set mem }

/-- All pages with one that looks differently. -/
def setView (views : Nat → Nat → View) (pid vpn : Nat) (view : View) : Nat → Nat → View :=
  fun otherPid otherVpn => if otherPid = pid ∧ otherVpn = vpn then view else views otherPid otherVpn

/-- The page that looks differently. -/
@[simp] theorem setView_same (views : Nat → Nat → View) (pid vpn : Nat) (view : View) :
    setView views pid vpn view pid vpn = view := if_pos ⟨rfl, rfl⟩

/-- Every other page. -/
theorem setView_other {views : Nat → Nat → View} {pid vpn : Nat} {view : View}
    {otherPid otherVpn : Nat} (differ : ¬ (otherPid = pid ∧ otherVpn = vpn)) :
    setView views pid vpn view otherPid otherVpn = views otherPid otherVpn := if_neg differ

/-- A page that is backed differently looks differently, and no other one does. -/
theorem views_set {next : Mm} {pid vpn : Nat} {leaf : Leaf} (frames : next.frames = mm.frames)
    (swapPages : next.swapPages = mm.swapPages) :
    views next (setLeaf space pid vpn leaf) =
      setView (views mm space) pid vpn (leaf.view mm.frames mm.swapPages) := by
  funext otherPid otherVpn
  by_cases here : otherPid = pid ∧ otherVpn = vpn
  · rw [here.1, here.2, setView_same, views, setLeaf_same, frames, swapPages]
  · rw [setView_other here, views, setLeaf_other here, frames, swapPages]
    rfl

/-- An operation backed one page and may have evicted others. -/
structure Touches (mm : Mm) (space : Nat → Nat → Leaf) (pid vpn : Nat) (leaf : Leaf) (view : View)
    (next : Mm) (space' : Nat → Nat → Leaf) : Prop where
  /-- The page is backed so. -/
  backed : space' pid vpn = leaf
  /-- It looks so, and no other page looks differently. -/
  views : views next space' = setView (views mm space) pid vpn view
  /-- Other pages that are not private stay where they are. -/
  stays : ∀ pid' vpn', ¬ (pid' = pid ∧ vpn' = vpn) → (∀ frame, space pid' vpn' ≠ .priv frame) →
    space' pid' vpn' = space pid' vpn'
  /-- Other private pages stay their process's own. -/
  owns : ∀ pid' vpn' frame, ¬ (pid' = pid ∧ vpn' = vpn) → space pid' vpn' = .priv frame →
    space' pid' vpn' = .priv frame ∨ ∃ slot, space' pid' vpn' = .swapped slot
  /-- The processes. -/
  pcbTable : next.pcbTable = mm.pcbTable
  /-- What the processors run. -/
  current : next.current = mm.current
  /-- The shared pages. -/
  shmCtrl : next.shmCtrl = mm.shmCtrl
  /-- Cached translations stay good. -/
  coherent : Coherent mm space → Coherent next space'
  /-- Nothing new is cached. -/
  cached : ∀ cpu, ∀ entry ∈ next.tlb cpu, entry ∈ mm.tlb cpu

/-- A translation that is good before a page without a frame gets one is good afterwards. -/
theorem Coherent.fill {next : Mm} {pid vpn : Nat} {leaf : Leaf} (coherent : Coherent mm space)
    (was : space pid vpn = .untouched ∨ ∃ slot, space pid vpn = .swapped slot)
    (tlb : next.tlb = mm.tlb) (current : next.current = mm.current) :
    Coherent next (setLeaf space pid vpn leaf) := by
  intro cpu small cached mem
  rw [tlb] at mem
  rw [current]
  have allowed := coherent cpu small cached mem
  -- No translation of the page is cached, since none would be good.
  have apart : ¬ ((mm.current cpu).1 = pid ∧ cached.1 = vpn) := by
    rintro ⟨rfl, rfl⟩
    rcases was with gone | ⟨slot, gone⟩ <;> rw [gone] at allowed <;> exact allowed
  rwa [setLeaf_other apart]

/-- Evictions followed by backing a page that had no frame. -/
theorem Evicts.touches {mid next : Mm} {space' : Nat → Nat → Leaf} {pid vpn : Nat} {leaf : Leaf}
    (evicts : Evicts mm space mid space') (was : space pid vpn = .untouched)
    (frames : next.frames = mid.frames) (swapPages : next.swapPages = mid.swapPages)
    (pcbTable : next.pcbTable = mid.pcbTable) (current : next.current = mid.current)
    (shmCtrl : next.shmCtrl = mid.shmCtrl) (tlb : next.tlb = mid.tlb) :
    Touches mm space pid vpn leaf (leaf.view mid.frames mid.swapPages) next
      (setLeaf space' pid vpn leaf) := by
  have was' := evicts.untouched was
  refine ⟨setLeaf_same .., by rw [views_set frames swapPages, evicts.views], ?_, ?_,
    pcbTable.trans evicts.pcbTable, current.trans evicts.current, shmCtrl.trans evicts.shmCtrl,
    fun coherent => (evicts.coherent coherent).fill (Or.inl was') tlb current, ?_⟩
  · intro pid' vpn' apart notPriv
    rw [setLeaf_other apart]
    exact evicts.stays pid' vpn' notPriv
  · intro pid' vpn' frame apart priv
    rw [setLeaf_other apart]
    exact evicts.owns pid' vpn' frame priv
  · intro cpu entry mem
    rw [tlb] at mem
    exact evicts.cached cpu entry mem

/-- `alloc_page_helper` maps a frame at a page that was never touched. -/
theorem allocPageHelper_meets (exhausted : accepted .noPageTable) (hang : accepted .noVictim)
    (full : accepted .noSwapPage) {cpu va pgdir pid : Nat} (ok : Ok mm role space procs none)
    (homed : Homed mm role procs) (mem : pid ∈ procs) (root : role pgdir = .node pid [])
    (user : va < userVpns * normalPageSize) (was : space pid (va / normalPageSize) = .untouched) :
    Meets accepted (allocPageHelper cpu va pgdir pid) mm fun frame next => ∃ role' space',
      Ok next role' space' procs none ∧ Grows role role' ∧ next.frames = mm.frames ∧
        Touches mm space pid (va / normalPageSize) (.priv frame) (.own (mm.frames frame)) next
          space' ∧ NoRoots role role' := by
  have named := ok.procs.named pid mem
  have walk : walkVpn va = va / normalPageSize := by
    apply walkVpn_user
    simp only [userVpns, normalPageSize] at user
    omega
  have small : walkVpn va < userVpns := by
    rw [walk]
    exact (Nat.div_lt_iff_lt_mul (by decide)).mpr user
  unfold allocPageHelper
  refine Meets.bind (va2pte_alloc ok.shape ok.tabs named.1 named.2 exhausted root small) ?_
  rintro loc next ⟨role', shape, tabs, grows, noRoots, same, here⟩
  rw [walk] at here
  apply meets_stopIf_bind (fun level => absurd here.1 level)
  intro _
  simp only [meets_readPte_bind]
  -- The entry of an untouched page is zero.
  have zero : next.tables loc.table loc.index = Pte.zero :=
    (shape.holds_at here).zero_iff.mpr was
  apply meets_stopIf_bind (fun differ => absurd zero differ)
  intro _
  have ok' : Ok next role' space procs none := by
    rw [same]
    exact { ok with shape := shape, tabs := tabs }
  have homed' : Homed next role' procs := by
    intro other member
    obtain ⟨tcb, found, isRoot⟩ := homed other member
    refine ⟨tcb, by rw [same]; exact found, ?_⟩
    rw [grows _ (by simp [isRoot]), isRoot]
  refine Meets.bind (allocPage_meets hang full va named ok' homed') ?_
  rintro frame last ⟨space', gives⟩
  simp only [meets_readPte_bind, meets_writePte_bind, meets_pure]
  have was' := gives.evicts.untouched was
  have zero' : last.tables loc.table loc.index = Pte.zero :=
    (gives.ok.shape.holds_at here).zero_iff.mpr was'
  have evicts : Evicts mm space last space' := (same.evicts space).trans gives.evicts
  refine ⟨role', _, gives.ok.map mem gives.owner gives.addr was' here
    ⟨true, true, by rw [zero']; rfl⟩, grows, ?_, ?_, noRoots⟩
  · exact evicts.frames
  · rw [← evicts.frames]
    exact evicts.touches was rfl rfl rfl rfl rfl rfl

/-! ## Reloading -/

/-- Writing an entry as it is changes nothing. -/
theorem writeAt_self (tables : Nat → Nat → Pte) (loc : PteLoc) :
    writeAt tables loc (tables loc.table loc.index) = tables := by
  funext table index
  simp only [writeAt, put]
  by_cases same : table = loc.table <;> by_cases same' : index = loc.index <;> simp [same, same']

/--
What `swap_from_disk` does: the page is in memory again, in a frame that carries an address.

The address is the page's own only when the caller passed it, so the consistency of the frame map
is stated for the frame as held.
-/
structure Reloads (mm : Mm) (role : Nat → Role) (space : Nat → Nat → Leaf) (procs : Finset Nat)
    (pid vpn uva : Nat) (loc : PteLoc) (frame : Nat) (next : Mm) (space' : Nat → Nat → Leaf) :
    Prop where
  /-- With the entry cleared, the state is consistent. -/
  ok : Ok { next with tables := writeAt next.tables loc Pte.zero } role
    (setLeaf space' pid vpn .untouched) procs (some frame)
  /-- The entry is that of a private page. -/
  entry : (Leaf.priv frame).Holds (next.tables loc.table loc.index)
  /-- The owner is recorded. -/
  owner : next.pgCharmap frame = pid
  /-- The address is recorded. -/
  addr : next.pgUva frame = uva / normalPageSize * normalPageSize
  /-- The page has its bytes back, and other pages may have been evicted. -/
  touches : Touches mm space pid vpn (.priv frame) (views mm space pid vpn) next
    (setLeaf space' pid vpn (.priv frame))

/-- The processor runs this thread. -/
theorem meets_curCpu_bind {B : Type} {cpu : Nat} {tcb : Tcb} {rest : Tcb → MmRoutine B}
    {after : B → Mm → Prop} (runs : mm.curCpu cpu = some tcb) :
    Meets accepted (curCpu cpu >>= rest) mm after ↔ Meets accepted (rest tcb) mm after := by
  unfold curCpu
  simp only [bind_assoc, meets_get_bind, runs, meets_pure_bind]

/-- `swap_from_disk` brings a page of the current process back. -/
theorem swapFromDisk_meets (hang : accepted .noVictim) (full : accepted .noSwapPage)
    {cpu uva vpn slot : Nat} {tcb : Tcb} {loc : PteLoc} (ok : Ok mm role space procs none)
    (homed : Homed mm role procs) (runs : mm.curCpu cpu = some tcb)
    (is : space tcb.pid vpn = .swapped slot) (here : AtLeaf role tcb.pid vpn loc) :
    Meets accepted (swapFromDisk cpu loc uva) mm fun frame? next => ∃ frame space',
      frame? = some frame ∧ Reloads mm role space procs tcb.pid vpn uva loc frame next space' := by
  have named : Named tcb.pid := ok.named tcb.pid vpn (by simp [is])
  obtain ⟨small, -⟩ := ok.slots.marked _ _ _ is
  obtain ⟨a, d, entry⟩ := ok.shape.holds_at here
  simp only [is, Leaf.pte] at entry
  unfold swapFromDisk
  simp only [meets_readPte_bind, entry]
  apply meets_ite
  · rintro (present | outside)
    · cases present
    · exact absurd small (Nat.not_lt.mpr outside)
  intro _
  rw [meets_curCpu_bind runs]
  refine Meets.bind (allocPage_meets hang full uva named ok homed) ?_
  rintro frame mid ⟨space', gives⟩
  -- The page is still in the swap partition, for evictions concern private pages only.
  have is' : space' tcb.pid vpn = .swapped slot := by
    rw [gives.evicts.stays _ _ (by simp [is]), is]
  have marked := (gives.ok.slots.marked _ _ _ is').2
  have used : mid.spgCharmap slot ≠ cmapFree := by
    rw [marked]
    exact named.not_free
  simp only [meets_modify_bind]
  refine Meets.bind (freeSwapPage_meets small used) ?_
  rintro _ next rfl
  simp only [meets_readPte_bind, meets_writePte_bind, meets_pure]
  obtain ⟨a', d', entry'⟩ := gives.ok.shape.holds_at here
  simp only [is', Leaf.pte] at entry'
  have mem := ok.procs.touched tcb.pid vpn (by simp [is])
  refine ⟨frame, space', rfl, ⟨?_, ?_, gives.owner, gives.addr, ?_⟩⟩
  · refine
      { gives.ok with
        shape := ?_, frames := ?_, slots := ?_, slotIndex := ?_, shm := ?_, procs := ?_ }
    · exact gives.ok.frames.keep (by simp [is', Leaf.Uses]) (by simp [Leaf.Uses])
    · exact gives.ok.slots.swapIn is' (by simp)
    · exact gives.ok.slotIndex.release small
    · exact gives.ok.shm.keep .untouched (by simp [is']) (by simp) (by simp) fun _ _ _ => rfl
    · exact gives.ok.procs.set mem
    · have written := gives.ok.shape.write here Leaf.untouched_holds
      have := writeAt_writeAt mid.tables loc { mid.tables loc.table loc.index with
        v := true, a := true, d := true, pfn := framePfn frame } Pte.zero
      simp only [writeAt] at this ⊢
      rw [this]
      exact written
  · refine ⟨true, true, ?_⟩
    show writeAt mid.tables loc _ loc.table loc.index = _
    rw [writeAt_same, entry']
    rfl
  · -- The page looks as it did in the swap partition, and no other page uses the frame.
    refine ⟨setLeaf_same .., ?_, ?_, ?_, gives.evicts.pcbTable, gives.evicts.current,
      gives.evicts.shmCtrl, ?_, gives.evicts.cached⟩
    · funext pid' vpn'
      rw [← gives.evicts.views]
      by_cases same : pid' = tcb.pid ∧ vpn' = vpn
      · obtain ⟨rfl, rfl⟩ := same
        rw [setView_same]
        simp only [views, setLeaf_same, is', Leaf.view, put_same]
        rfl
      · rw [setView_other same]
        refine views_congr (setLeaf_other same) ?_ fun _ _ => rfl
        intro other backed
        obtain ⟨notPriv, notUses⟩ := gives.ok.frames.held_unused pid' vpn'
        apply put_other
        rintro rfl
        rcases backed with priv | uses
        · exact notPriv priv
        · exact notUses uses
    · intro pid' vpn' apart notPriv
      rw [setLeaf_other apart]
      exact gives.evicts.stays pid' vpn' notPriv
    · intro pid' vpn' other apart priv
      rw [setLeaf_other apart]
      exact gives.evicts.owns pid' vpn' other priv
    · intro coherent
      exact (gives.evicts.coherent coherent).fill (Or.inr ⟨slot, is'⟩) rfl rfl

end GlucOS
