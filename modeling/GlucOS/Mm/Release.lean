import GlucOS.Mm.PageLaws

/-! Pages are given up: private ones, copy-on-write ones, swapped ones and shared ones. -/

namespace GlucOS

open Routine

variable {mm : Mm} {role : Nat → Role} {space : Nat → Nat → Leaf} {procs : Finset Nat}
  {held : Option Nat} {accepted : MmStop → Prop}

/-- Nothing but the map entries of one frame changed, and the allocator's index. -/
structure SameButFrame (mm next : Mm) (frame : Nat) : Prop where
  /-- Only the frame maps changed. -/
  same : next = { mm with
    pgCharmap := next.pgCharmap, pgUva := next.pgUva, pgFfree := next.pgFfree }
  /-- The owners of other frames. -/
  owner : ∀ other, other ≠ frame → next.pgCharmap other = mm.pgCharmap other
  /-- The addresses of other frames. -/
  addr : ∀ other, other ≠ frame → next.pgUva other = mm.pgUva other

/-- A page that is given up needs no process. -/
theorem ProcsOk.clear (procsOk : ProcsOk space procs) (pid vpn : Nat) :
    ProcsOk (setLeaf space pid vpn .untouched) procs := by
  refine ⟨?_, procsOk.named, procsOk.few⟩
  intro other otherVpn touched
  by_cases here : other = pid ∧ otherVpn = vpn
  · rw [here.1, here.2, setLeaf_same] at touched
    exact absurd rfl touched
  · rw [setLeaf_other here] at touched
    exact procsOk.touched other otherVpn touched

/-- The count of a frame kept in common is within the bounds that the kernel checks. -/
theorem ResOk.count_bounds (ok : ResOk mm space procs held) {pid vpn frame : Nat}
    (uses : (space pid vpn).Uses frame) :
    0 < mm.pgUva frame ∧ mm.pgUva frame ≤ uprocMax := by
  obtain ⟨inside, common⟩ := ok.frames.multi _ _ _ uses
  obtain ⟨positive, counted⟩ := ok.frames.counted frame inside common
  refine ⟨positive, ?_⟩
  rw [← counted]
  exact (users_le ok.frames ok.procs frame).trans ok.procs.few

/-- The last user frees a copy-on-write frame, and others only leave it. -/
theorem releaseCow_meets (ok : ResOk mm space procs held) {pid vpn frame : Nat}
    (is : space pid vpn = .cow frame) :
    Meets accepted (releaseCow frame (framePfn frame)) mm fun _ next =>
      ResOk next (setLeaf space pid vpn .untouched) procs held ∧ SameButFrame mm next frame := by
  have uses : (space pid vpn).Uses frame := Or.inl is
  obtain ⟨positive, bounded⟩ := ok.count_bounds uses
  obtain ⟨inside, common⟩ := ok.frames.multi _ _ _ uses
  have dropped := ok.frames.dropUse uses
  -- The frame is that of no shared page, so their counts stay.
  have notShm : ∀ id < nshm, (mm.shmCtrl id).Active → (mm.shmCtrl id).pgidx ≠ frame := by
    rintro id small active rfl
    exact ok.shm.notCow id small active pid vpn is
  have shm : ShmOk mm.shmCtrl (put mm.pgUva frame (mm.pgUva frame - 1))
      (setLeaf space pid vpn .untouched) :=
    ok.shm.keep .untouched (by simp [is]) (by simp) (by simp) fun id small active =>
      put_other _ _ (notShm id small active)
  have slots : SlotsOk mm.spgCharmap (setLeaf space pid vpn .untouched) :=
    ok.slots.keep (by simp [is]) (by simp)
  unfold releaseCow
  simp only [meets_get_bind]
  apply meets_stopIf_bind
  · rintro (zero | many)
    · omega
    · omega
  intro _
  simp only [meets_set_bind]
  apply meets_ite
  · -- The last user frees the frame.
    intro last
    rw [if_pos last] at dropped
    have used : mm.pgCharmap frame ≠ cmapFree := by
      rw [common]
      exact shared_ne_free
    refine Meets.mono (freePage_meets inside used) ?_
    rintro _ next rfl
    refine ⟨⟨dropped, ok.frameIndex.release inside, slots, ok.slotIndex, shm, ok.procs.clear _ _,
      ok.clock⟩, rfl, ?_, ?_⟩
    · exact fun other differ => put_other _ _ differ
    · exact fun other differ => put_other _ _ differ
  · intro more
    rw [if_neg more] at dropped
    exact ⟨⟨dropped, ok.frameIndex, slots, ok.slotIndex, shm, ok.procs.clear _ _, ok.clock⟩, rfl,
      fun _ _ => rfl, fun other differ => put_other _ _ differ⟩

/-- A private page's frame is freed. -/
theorem freePriv_meets (ok : ResOk mm space procs none) {pid vpn frame : Nat}
    (is : space pid vpn = .priv frame) :
    Meets accepted (freePage (framePfn frame)) mm fun _ next =>
      ResOk next (setLeaf space pid vpn .untouched) procs none ∧ SameButFrame mm next frame := by
  obtain ⟨named, inside, own, -, -⟩ := ok.frames.priv _ _ _ is
  have used : mm.pgCharmap frame ≠ cmapFree := by
    rw [own]
    exact named.not_free
  refine (freePage_meets inside used).mono ?_
  rintro _ next rfl
  have frames := (ok.frames.evict .untouched is (Or.inl rfl)).free
  refine ⟨⟨frames, ok.frameIndex.release inside, ok.slots.keep (by simp [is]) (by simp),
    ok.slotIndex, ok.shm.keep .untouched (by simp [is]) (by simp) (by simp) fun _ _ _ => rfl,
    ok.procs.clear _ _, ok.clock⟩, rfl, fun other differ => put_other _ _ differ, fun _ _ => rfl⟩

/-- The swap page of a page that was swapped out is freed. -/
theorem freeSwapped_meets (ok : ResOk mm space procs held) {pid vpn slot : Nat}
    (is : space pid vpn = .swapped slot) :
    Meets accepted (freeSwapPage slot) mm fun _ next =>
      ResOk next (setLeaf space pid vpn .untouched) procs held ∧
        next = { mm with spgCharmap := next.spgCharmap, spgFfree := next.spgFfree } := by
  obtain ⟨small, marked⟩ := ok.slots.marked _ _ _ is
  have used : mm.spgCharmap slot ≠ cmapFree := by
    rw [marked]
    exact (ok.named pid vpn (by simp [is])).not_free
  refine (freeSwapPage_meets small used).mono ?_
  rintro _ next rfl
  refine ⟨⟨ok.frames.keep (by simp [is, Leaf.Uses]) (by simp [Leaf.Uses]), ok.frameIndex,
    ok.slots.swapIn is (by simp), ok.slotIndex.release small,
    ok.shm.keep .untouched (by simp [is]) (by simp) (by simp) fun _ _ _ => rfl,
    ok.procs.clear _ _, ok.clock⟩, rfl⟩

/-! ## Shared pages -/

/-- The index found is the least one below the bound that passes the test. -/
theorem find_range (bound : Nat) (test : Nat → Bool) (exists_ : ∃ i < bound, test i = true) :
    ∃ i < bound, test i = true ∧ (List.range bound).find? test = some i := by
  cases found : (List.range bound).find? test with
  | none =>
    obtain ⟨i, inside, passes⟩ := exists_
    have fails := List.find?_eq_none.mp found i (List.mem_range.mpr inside)
    exact absurd passes fails
  | some i =>
    have passes := List.find?_some found
    have inside := List.mem_range.mp (List.mem_of_find?_eq_some found)
    exact ⟨i, inside, passes, rfl⟩

/-- What giving up pages of a process may change. -/
structure GivesUp (role : Nat → Role) (pid : Nat) (mm next : Mm) : Prop where
  /-- Only tables, maps, counts and cached translations changed. -/
  same : next = { mm with
    tables := next.tables, pgtbCharmap := next.pgtbCharmap, pgtbFfree := next.pgtbFfree
    pgCharmap := next.pgCharmap, pgUva := next.pgUva, pgFfree := next.pgFfree
    spgCharmap := next.spgCharmap, spgFfree := next.spgFfree, shmCtrl := next.shmCtrl
    tlb := next.tlb }
  /-- Only tables of the process changed. -/
  tables : ∀ table, (∀ path, role table ≠ .node pid path) → next.tables table = mm.tables table
  /-- Nothing new is cached. -/
  cached : ∀ cpu, ∀ entry ∈ next.tlb cpu, entry ∈ mm.tlb cpu
  /-- Shared pages keep their frames and get no users. -/
  shm : ∀ id, (next.shmCtrl id).pgidx = (mm.shmCtrl id).pgidx ∧
    (next.shmCtrl id).nproc ≤ (mm.shmCtrl id).nproc

/-- Giving up nothing. -/
theorem GivesUp.refl (role : Nat → Role) (pid : Nat) (mm : Mm) : GivesUp role pid mm mm :=
  ⟨rfl, fun _ _ => rfl, fun _ _ => id, fun _ => ⟨rfl, Nat.le_refl _⟩⟩

/-- Giving up more. -/
theorem GivesUp.trans {pid : Nat} {first second third : Mm} (left : GivesUp role pid first second)
    (right : GivesUp role pid second third) : GivesUp role pid first third := by
  refine ⟨?_, fun table foreign => (right.tables table foreign).trans (left.tables table foreign),
    fun cpu entry mem => left.cached cpu entry (right.cached cpu entry mem), ?_⟩
  · rw [right.same, left.same]
  · intro id
    obtain ⟨frame, fewer⟩ := left.shm id
    obtain ⟨frame', fewer'⟩ := right.shm id
    exact ⟨frame'.trans frame, Nat.le_trans fewer' fewer⟩

/-- Giving up a frame. -/
theorem SameButFrame.givesUp {next : Mm} {frame : Nat} (same : SameButFrame mm next frame)
    (role : Nat → Role) (pid : Nat) : GivesUp role pid mm next := by
  rw [same.same]
  exact ⟨rfl, fun _ _ => rfl, fun _ _ => id, fun _ => ⟨rfl, Nat.le_refl _⟩⟩

/-- What `shm_page_dt` does at an address with a shared page: it cancels the page. -/
structure Detaches (cpu : Nat) (own : Bool) (mm : Mm) (role : Nat → Role)
    (space backing : Nat → Nat → Leaf) (procs : Finset Nat) (pid vpn : Nat) (value : Int)
    (next : Mm) : Prop where
  /-- It answers how many page frames were freed. -/
  code : 0 ≤ value
  /-- The page was a shared one. -/
  was : ∃ frame, space pid vpn = .shared frame
  /-- The entry is zero now. -/
  shape : Shape next.tables role (setLeaf space pid vpn .untouched)
  /-- Nothing backs the page. -/
  res : ResOk next (setLeaf backing pid vpn .untouched) procs none
  /-- The owners of page tables stay. -/
  pgtbCharmap : next.pgtbCharmap = mm.pgtbCharmap
  /-- So does the first free one. -/
  pgtbFfree : next.pgtbFfree = mm.pgtbFfree
  /-- Little else changed. -/
  gives : GivesUp role pid mm next

/-- The entry of a page tells whether it is a shared one. -/
theorem Leaf.Holds.shared_iff {leaf : Leaf} {entry : Pte} (holds : leaf.Holds entry) :
    entry.shared = true ↔ ∃ frame, leaf = .shared frame := by
  obtain ⟨a, d, rfl⟩ := holds
  cases leaf <;> simp [Leaf.pte, userPte, Pte.zero]

/-- The entry of a frame names it. -/
@[simp] theorem pgidx_userPte (frame : Nat) (a d : Bool) :
    (userPte (framePfn frame) a d).pgidx = frame := by
  simp [Pte.pgidx, userPte, framePfn]

/-- A user who is listed is found in the list. -/
theorem ShmCtrl.findOpid_listed {ctrl : ShmCtrl} {pid : Nat}
    (listed : ∃ i < npshm, ctrl.opid i = some pid) :
    ∃ i < npshm, ctrl.opid i = some pid ∧ ctrl.findOpid (some pid) = some i := by
  obtain ⟨i, inside, passes, found⟩ := find_range npshm
    (fun i => ctrl.opid i = some pid) (by simpa using listed)
  exact ⟨i, inside, by simpa using passes, found⟩

/-- The user of a cancelled shared page is discounted, and the last one frees its frame. -/
theorem shmLeave_meets {pid vpn frame : Nat} {entry : Pte} (res : ResOk mm space procs none)
    (is : space pid vpn = .shared frame) (names : entry.pfn = framePfn frame) :
    Meets accepted (shmLeave pid entry) mm fun value next =>
      0 ≤ value ∧ ResOk next (setLeaf space pid vpn .untouched) procs none ∧
        next = { mm with
          pgCharmap := next.pgCharmap, pgUva := next.pgUva, pgFfree := next.pgFfree
          shmCtrl := next.shmCtrl } ∧
        ∀ id, (next.shmCtrl id).pgidx = (mm.shmCtrl id).pgidx ∧
          (next.shmCtrl id).nproc ≤ (mm.shmCtrl id).nproc := by
  have uses : (space pid vpn).Uses frame := Or.inr is
  have pgidx : entry.pgidx = frame := by simp [Pte.pgidx, names, framePfn]
  obtain ⟨inside, common⟩ := res.frames.multi _ _ _ uses
  -- The frame is that of a shared page in use.
  obtain ⟨known, small, active, frameIs⟩ := res.shm.known _ _ _ is
  obtain ⟨id, inRange, passes, found⟩ := find_range nshm
    (fun i => decide (0 < (mm.shmCtrl i).nproc) && decide ((mm.shmCtrl i).pgidx = frame))
    ⟨known, small, by simpa using ⟨active, frameIs⟩⟩
  simp only [Bool.and_eq_true, decide_eq_true_eq] at passes
  obtain ⟨inUse, rfl⟩ := passes
  have listed := (res.shm.listed id inRange inUse pid).mpr ⟨vpn, is⟩
  obtain ⟨i, room, isListed, foundUser⟩ := ShmCtrl.findOpid_listed listed
  have count := res.shm.count id inRange inUse
  have left := res.shm.leave res.frames inRange inUse is room isListed
  have dropped := res.frames.dropUse uses
  unfold shmLeave
  simp only [meets_get_bind, pgidx, found, foundUser]
  apply meets_stopIf_bind (fun differ => absurd count differ)
  intro _
  simp only [meets_set_bind]
  have slots : SlotsOk mm.spgCharmap (setLeaf space pid vpn .untouched) :=
    res.slots.keep (by simp [is]) (by simp)
  have fewer : ∀ other, (put mm.shmCtrl id { mm.shmCtrl id with
      nproc := (mm.shmCtrl id).nproc - 1, opid := put (mm.shmCtrl id).opid i none } other).pgidx =
        (mm.shmCtrl other).pgidx ∧
      (put mm.shmCtrl id { mm.shmCtrl id with
        nproc := (mm.shmCtrl id).nproc - 1, opid := put (mm.shmCtrl id).opid i none } other).nproc ≤
        (mm.shmCtrl other).nproc := by
    intro other
    by_cases same : other = id
    · rw [same, put_same]
      exact ⟨rfl, Nat.sub_le _ _⟩
    · rw [put_other _ _ same]
      exact ⟨rfl, Nat.le_refl _⟩
  apply meets_ite
  · -- The last user frees the frame.
    intro last
    rw [if_pos (by rw [count]; exact last)] at dropped
    have used : mm.pgCharmap (mm.shmCtrl id).pgidx ≠ cmapFree := by
      rw [common]
      exact shared_ne_free
    rw [names]
    refine Meets.bind (freePage_meets inside used) ?_
    rintro _ next rfl
    exact ⟨by decide, ⟨dropped, res.frameIndex.release inside, slots, res.slotIndex, left,
      res.procs.clear _ _, res.clock⟩, rfl, fewer⟩
  · intro more
    rw [if_neg (by rw [count]; exact more)] at dropped
    exact ⟨by decide, ⟨dropped, res.frameIndex, slots, res.slotIndex, left, res.procs.clear _ _,
      res.clock⟩, rfl, fewer⟩

/-- A shared page is cancelled without a failed check. -/
theorem shmDetach_meets {backing : Nat → Nat → Leaf} {cpu addr pid pgdir : Nat} {own : Bool}
    (shape : Shape mm.tables role space) (res : ResOk mm backing procs none)
    (root : role pgdir = .node pid [])
    (agrees : space pid (walkVpn addr) = backing pid (walkVpn addr)) :
    Meets accepted (shmDetach cpu addr own pid pgdir) mm fun value next =>
      (value = -1 ∧ next = mm ∧ ∀ frame, space pid (walkVpn addr) ≠ .shared frame) ∨
        Detaches cpu own mm role space backing procs pid (walkVpn addr) value next := by
  unfold shmDetach
  refine Meets.bind (va2pte_lookup shape addr root) ?_
  rintro loc here ⟨rfl, located⟩
  simp only [meets_readPte_bind]
  rcases located with ⟨level, user, node, index⟩ | ⟨level, bare⟩
  · have at_ : AtLeaf role pid (walkVpn addr) loc := ⟨level, node, index⟩
    have holds := shape.holds_at at_
    apply meets_ite
    · rintro (high | plainPage)
      · exact absurd level high
      · refine Or.inl ⟨rfl, rfl, ?_⟩
        intro frame is
        rw [holds.shared_iff.mpr ⟨frame, is⟩] at plainPage
        cases plainPage
    · intro isShared
      simp only [level, ne_eq, not_true_eq_false, false_or, Bool.not_eq_false] at isShared
      obtain ⟨frame, is⟩ := holds.shared_iff.mp isShared
      obtain ⟨a, d, entryIs⟩ := holds
      rw [is] at entryIs
      apply meets_stopIf_bind
      · rw [entryIs]
        simp [Leaf.pte, userPte]
      intro _
      have written := shape.write at_ Leaf.untouched_holds
      have pfn : (here.tables loc.table loc.index).pfn = framePfn frame := by
        rw [entryIs]
        rfl
      have foreign : ∀ table, (∀ path, role table ≠ .node pid path) →
          put here.tables loc.table (put (here.tables loc.table) loc.index Pte.zero) table =
            here.tables table := by
        intro table notOwn
        apply put_other
        rintro rfl
        exact notOwn _ node
      have is' : backing pid (walkVpn addr) = .shared frame := by rw [← agrees, is]
      simp only [meets_writePte_bind]
      -- Whether or not the translation is dropped, the user is discounted next.
      have finish : ∀ tlb, (∀ cpu, ∀ entry ∈ tlb cpu, entry ∈ here.tlb cpu) →
          Meets accepted (shmLeave pid (here.tables loc.table loc.index)) { here with
            tables := put here.tables loc.table (put (here.tables loc.table) loc.index Pte.zero)
            tlb := tlb } fun value next =>
              (value = -1 ∧ next = here ∧ ∀ frame, space pid (walkVpn addr) ≠ .shared frame) ∨
                Detaches cpu own here role space backing procs pid (walkVpn addr) value next := by
        intro tlb cached
        have start : ResOk { here with
            tables := put here.tables loc.table (put (here.tables loc.table) loc.index Pte.zero)
            tlb := tlb } backing procs none := { res with }
        refine (shmLeave_meets start is' pfn).mono ?_
        rintro value next ⟨code, left, same, fewer⟩
        refine Or.inr ⟨code, ⟨frame, is⟩, ?_, left, ?_, ?_, ⟨?_, ?_, ?_, fewer⟩⟩
        · rw [same]
          exact written
        · rw [same]
        · rw [same]
        · rw [same]
        · intro table notOwn
          rw [same]
          exact foreign table notOwn
        · rw [same]
          exact cached
      apply meets_ite
      · intro _
        simp only [localFlushTlbPage, meets_modify_bind]
        exact finish _ fun other entry mem => (mem_flush mem).1
      · intro _
        exact finish _ fun _ _ => id
  · -- There is no entry of a last level.
    rw [if_pos (Or.inl level)]
    refine Or.inl ⟨rfl, rfl, ?_⟩
    intro frame is
    by_cases user : walkVpn addr < userVpns
    · rw [(bare user).1] at is
      cases is
    · rw [shape.beyond (Nat.le_of_not_lt user)] at is
      cases is

end GlucOS
