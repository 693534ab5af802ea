import GlucOS.Lib.Reach
import GlucOS.Mm.ClockLaws

/-! The allocators of page frames, page tables and swap pages, over any sequence of their calls. -/

namespace GlucOS

open Routine

/-! ## One call -/

section Calls

variable {mm : Mm} {cpu pid uva : Nat}

/-- What the clock loop stops at when it finds a page to evict. -/
structure Chosen (mm : Mm) (found : PteLoc × Nat) (next : Mm) : Prop where
  /-- Only accessed bits and the clock pointer have changed. -/
  same : next = { mm with tables := next.tables, clockPt := next.clockPt }
  /-- Bits were cleared only. -/
  ages : Ages mm.tables next.tables
  /-- The clock points to a frame. -/
  clock : mm.clockPt < npf → next.clockPt < npf
  /-- The owner found is that of the frame. -/
  owner : found.2 = mm.pgCharmap next.clockPt
  /-- The entry found is that of the owner's page at the frame, which is present. -/
  entry : ∃ tcb, mm.pcbSearch found.2 = some tcb ∧
    lookup mm.tables (mm.pgUva next.clockPt) 2 tcb.pgdir = some found.1 ∧ found.1.level = 0 ∧
    (mm.tables found.1.table found.1.index).v = true

/-- A round that moves on does not change what the loop finds. -/
theorem Chosen.after {tables : Nat → Nat → Pte} {found : PteLoc × Nat} {next : Mm}
    (ages : Ages mm.tables tables)
    (chosen : Chosen { mm with tables, clockPt := nextClock mm.clockPt } found next) :
    Chosen mm found next := by
  obtain ⟨same, older, clock, owner, tcb, search, walked, level, present⟩ := chosen
  refine ⟨by rw [same], ages.trans older, fun _ => clock (nextClock_lt _), owner, tcb, search, ?_,
    level, ?_⟩
  · rw [← ages.lookup]
    exact walked
  · rw [← ages.v]
    exact present

/-- The clock loop answers the entry of a frame that may go. -/
theorem clockScan_chosen (cpu fuel : Nat) (mm : Mm) :
    Meets (fun _ => True) (clockScan cpu fuel) mm (Chosen mm) := by
  induction fuel generalizing mm with
  | zero => trivial
  | succ fuel ih =>
    unfold Meets
    rw [clockScan_succ]
    cases round : mm.clockRound cpu with
    | fails => trivial
    | skips =>
      have later := ih { mm with clockPt := nextClock mm.clockPt }
      exact later.mono fun found next => Chosen.after (Ages.refl mm.tables)
    | clears loc =>
      have later := ih { mm with
        tables := writeAt mm.tables loc { mm.tables loc.table loc.index with a := false }
        clockPt := nextClock mm.clockPt }
      exact later.mono fun found next => Chosen.after (Ages.clear mm.tables loc)
    | evicts loc =>
      rcases clockRound_cases mm cpu with ⟨is, -⟩ | ⟨is, -⟩ |
        ⟨-, tcb, loc', search, walked, level, present, is⟩
      · rw [is] at round
        cases round
      · rw [is] at round
        cases round
      · have same : loc' = loc := by
          rw [is] at round
          split at round
          · cases round
          · cases round
            rfl
        subst same
        exact ⟨rfl, Ages.refl _, id, rfl, tcb, search, walked, level, present⟩

/-- What `alloc_swap_page` does when it returns. -/
theorem allocSwapPage_takes {accepted : MmStop → Prop}
    (invalid : u8 pid = cmapFree → accepted .corrupt) :
    Meets accepted (allocSwapPage pid) mm fun slot? next =>
      u8 pid ≠ cmapFree ∧ ((npswap ≤ mm.spgFfree ∧ slot? = none ∧ next = mm) ∨
        (mm.spgFfree < npswap ∧ slot? = some mm.spgFfree ∧
          next = { mm with
            spgCharmap := put mm.spgCharmap mm.spgFfree (u8 pid)
            spgFfree := nextFree (put mm.spgCharmap mm.spgFfree (u8 pid))
              (npswap - mm.spgFfree) mm.spgFfree })) := by
  unfold allocSwapPage
  apply meets_stopIf_bind invalid
  intro named
  simp only [meets_get_bind]
  apply meets_ite
  · intro full
    exact ⟨named, .inl ⟨full, rfl, rfl⟩⟩
  · intro left
    simp only [meets_set_bind, meets_pure]
    exact ⟨named, .inr ⟨by omega, trivial, trivial⟩⟩

/-- The old entry of an evicted frame maps it no more. -/
def Evicted (mm next : Mm) (frame : Nat) : Prop :=
  ∃ tcb loc, mm.pcbSearch (mm.pgCharmap frame) = some tcb ∧
    lookup mm.tables (mm.pgUva frame) 2 tcb.pgdir = some loc ∧ loc.level = 0 ∧
    (mm.tables loc.table loc.index).v = true ∧ (next.tables loc.table loc.index).v = false

/-- What `swap_to_disk` does to the allocators when it returns. -/
theorem swapToDisk_takes (cpu : Nat) (mm : Mm) :
    Meets (fun _ => True) (swapToDisk cpu) mm fun frame next =>
      (mm.clockPt < npf → frame < npf ∧ next.clockPt < npf) ∧ Evicted mm next frame ∧
        next.pgCharmap = mm.pgCharmap ∧ next.pgFfree = mm.pgFfree ∧
        next.pgtbCharmap = mm.pgtbCharmap ∧ next.pgtbFfree = mm.pgtbFfree ∧
        mm.spgFfree < npswap ∧ ∃ mark ≠ cmapFree,
          next.spgCharmap = put mm.spgCharmap mm.spgFfree mark ∧
          next.spgFfree = nextFree next.spgCharmap (npswap - mm.spgFfree) mm.spgFfree := by
  unfold swapToDisk
  refine Meets.bind (clockScan_chosen cpu _ mm) ?_
  intro found here chosen
  obtain ⟨loc, pid⟩ := found
  obtain ⟨same, ages, clock, owner, tcb, search, walked, level, present⟩ := chosen
  dsimp only at owner search walked level present
  refine Meets.bind (allocSwapPage_takes fun _ => trivial) ?_
  intro slot? next taken
  obtain ⟨named, ⟨-, rfl, -⟩ | ⟨left, rfl, rfl⟩⟩ := taken
  · trivial
  have left' : mm.spgFfree < npswap := by
    rw [same] at left
    exact left
  simp only [meets_get_bind, meets_set_bind, meets_readPte_bind, meets_writePte_bind,
    localFlushTlbPage, meets_modify_bind]
  apply meets_stopIf_bind (fun _ => trivial)
  intro _
  simp only [stepClock, meets_modify_bind, meets_pure]
  subst owner
  refine ⟨fun inside => ⟨clock inside, nextClock_lt _⟩, ⟨tcb, loc, search, walked, level, present, ?_⟩,
    ?_, ?_, ?_, ?_, left', u8 _, named, ?_, ?_⟩
  · simp only [put_same]
  · rw [same]
  · rw [same]
  · rw [same]
  · rw [same]
  · rw [same]
  · rw [same]

/-- What `free_page` does when it returns. -/
theorem freePage_releases {accepted : MmStop → Prop} {pfn : Nat}
    (outside : pfn < framePfn 0 ∨ npf ≤ pfn - framePfn 0 → accepted .corrupt)
    (unused : mm.pgCharmap (pfn - framePfn 0) = cmapFree → accepted .corrupt) :
    Meets accepted (freePage pfn) mm fun _ next =>
      pfn - framePfn 0 < npf ∧
        next = { mm with
          pgCharmap := put mm.pgCharmap (pfn - framePfn 0) cmapFree
          pgFfree := if pfn - framePfn 0 < mm.pgFfree then pfn - framePfn 0 else mm.pgFfree } := by
  unfold freePage
  apply meets_stopIf_bind outside
  intro inside
  simp only [meets_get_bind]
  apply meets_stopIf_bind unused
  intro _
  rw [meets_set]
  exact ⟨by omega, rfl⟩

/-- What `free_pagetable` does when it returns. -/
theorem freePagetable_releases {accepted : MmStop → Prop} {table : Nat}
    (outside : npt ≤ table → accepted .corrupt) (kernel : mm.pgtbCharmap table = 0 → accepted .corrupt)
    (unused : mm.pgtbCharmap table = cmapFree → accepted .corrupt) :
    Meets accepted (freePagetable table) mm fun _ next =>
      table < npt ∧
        next = { mm with
          pgtbCharmap := put mm.pgtbCharmap table cmapFree
          pgtbFfree := if table < mm.pgtbFfree then table else mm.pgtbFfree } := by
  unfold freePagetable
  apply meets_stopIf_bind outside
  intro inside
  simp only [meets_get_bind]
  apply meets_stopIf_bind kernel
  intro _
  apply meets_stopIf_bind unused
  intro _
  rw [meets_set]
  exact ⟨by omega, rfl⟩

/-- What `free_swap_page` does when it returns. -/
theorem freeSwapPage_releases {accepted : MmStop → Prop} {slot : Nat}
    (outside : npswap ≤ slot → accepted .corrupt)
    (unused : mm.spgCharmap slot = cmapFree → accepted .corrupt) :
    Meets accepted (freeSwapPage slot) mm fun _ next =>
      slot < npswap ∧
        next = { mm with
          spgCharmap := put mm.spgCharmap slot cmapFree
          spgFfree := if slot < mm.spgFfree then slot else mm.spgFfree } := by
  unfold freeSwapPage
  apply meets_stopIf_bind outside
  intro inside
  simp only [meets_get_bind]
  apply meets_stopIf_bind unused
  intro _
  rw [meets_set]
  exact ⟨by omega, rfl⟩

/-- A routine that has no accepted reason to stop returns. -/
theorem Meets.returns {A : Type} {routine : MmRoutine A} {post : A → Mm → Prop}
    (meets : Meets (fun _ => False) routine mm post) :
    ∃ value next, routine mm = .ok (value, next) ∧ post value next := by
  cases ran : routine mm with
  | ok answer => exact ⟨answer.1, answer.2, rfl, meets.of_ok ran⟩
  | error reason => exact absurd (meets.of_error ran) id

end Calls

/-! ## Any sequence of calls -/

/-- What may happen to the allocators. -/
inductive AllocEvent
  /-- `alloc_page`. -/
  | allocPage (cpu pid uva : Nat)
  /-- `free_page`. -/
  | freePage (pfn : Nat)
  /-- `alloc_pagetable`. -/
  | allocPagetable (pid : Nat)
  /-- `free_pagetable`. -/
  | freePagetable (table : Nat)
  /-- `alloc_swap_page`. -/
  | allocSwapPage (pid : Nat)
  /-- `free_swap_page`. -/
  | freeSwapPage (slot : Nat)
  /-- Anything else that the kernel does. -/
  | other (next : Mm)

/-- One event, whatever the call answers. -/
def allocStep : AllocEvent → MmRoutine Unit
  | .allocPage cpu pid uva => do let _ ← allocPage cpu pid uva
  | .freePage pfn => freePage pfn
  | .allocPagetable pid => do let _ ← allocPagetable pid
  | .freePagetable table => freePagetable table
  | .allocSwapPage pid => do let _ ← allocSwapPage pid
  | .freeSwapPage slot => freeSwapPage slot
  | .other next => set next

/--
The calls may have any arguments.

The rest of the kernel writes neither the free indexes nor the char maps, but for `do_fork` and
`shm_page_get`, which mark page frames in use as shared.
-/
def AllocEvent.legal (mm : Mm) : AllocEvent → Prop
  | .other next =>
    (∀ frame, next.pgCharmap frame = mm.pgCharmap frame ∨
      (mm.pgCharmap frame ≠ cmapFree ∧ next.pgCharmap frame = cmapShared)) ∧
      next.pgFfree = mm.pgFfree ∧ next.pgtbCharmap = mm.pgtbCharmap ∧
      next.pgtbFfree = mm.pgtbFfree ∧ next.spgCharmap = mm.spgCharmap ∧
      next.spgFfree = mm.spgFfree ∧ next.clockPt = mm.clockPt
  | _ => True

/-- What `init_mm` and `init_swap` leave. -/
structure Mm.Booted (mm : Mm) : Prop where
  /-- No page frame is in use. -/
  frames : mm.pgCharmap = fun _ => cmapFree
  /-- The first free page frame. -/
  frame : mm.pgFfree = 0
  /-- The first two page tables are used by the kernel. -/
  tables : mm.pgtbCharmap = fun table => if table < 2 then 0 else cmapFree
  /-- The first free page table. -/
  table : mm.pgtbFfree = 2
  /-- No swap page is in use. -/
  slots : mm.spgCharmap = fun _ => cmapFree
  /-- The first free swap page. -/
  slot : mm.spgFfree = 0
  /-- The clock pointer. -/
  clock : mm.clockPt = 0

/-- The free indexes are those of the char maps. -/
structure IndexesOk (mm : Mm) : Prop where
  /-- That of the page frames. -/
  frames : FreeIndex mm.pgCharmap npf mm.pgFfree
  /-- That of the page tables. -/
  tables : FreeIndex mm.pgtbCharmap npt mm.pgtbFfree
  /-- That of the swap partition. -/
  slots : FreeIndex mm.spgCharmap npswap mm.spgFfree
  /-- The clock points to a frame. -/
  clock : mm.clockPt < npf

/-- They are at the start. -/
theorem Mm.Booted.indexes {mm : Mm} (booted : mm.Booted) : IndexesOk mm where
  frames := by
    rw [booted.frames, booted.frame]
    exact ⟨by decide, fun i low => absurd low (Nat.not_lt_zero i), fun _ => rfl⟩
  tables := by
    rw [booted.tables, booted.table]
    refine ⟨by decide, ?_, fun _ => rfl⟩
    intro i low
    rw [if_pos low]
    decide
  slots := by
    rw [booted.slots, booted.slot]
    exact ⟨by decide, fun i low => absurd low (Nat.not_lt_zero i), fun _ => rfl⟩
  clock := by
    rw [booted.clock]
    decide

namespace IndexesOk

variable {mm : Mm}

/-- Where an index is the size of its map, nothing is free. -/
theorem none_free (ok : IndexesOk mm) (full : npf ≤ mm.pgFfree) :
    ∀ other < npf, mm.pgCharmap other ≠ cmapFree :=
  fun other inside => ok.frames.below other (by omega)

/-- `alloc_page` keeps them, with or without an eviction. -/
theorem allocPage (ok : IndexesOk mm) (cpu pid uva : Nat) :
    Meets (fun _ => True) (GlucOS.allocPage cpu pid uva) mm fun frame next =>
      IndexesOk next ∧ frame < npf ∧ (mm.pgCharmap frame = cmapFree ∨
        ((∀ other < npf, mm.pgCharmap other ≠ cmapFree) ∧ Evicted mm next frame)) := by
  unfold GlucOS.allocPage
  apply meets_stopIf_bind (fun _ => trivial)
  intro named
  simp only [meets_get_bind]
  apply meets_ite
  · -- Every frame is in use, so the one that was evicted keeps the index at the size of the map.
    intro full
    refine Meets.bind (swapToDisk_takes cpu mm) ?_
    intro frame next taken
    obtain ⟨clock, evicted, frames, -, tables, table, left, mark, used, slots, slot⟩ := taken
    obtain ⟨inside, clock'⟩ := clock ok.clock
    have atEnd : mm.pgFfree = npf := Nat.le_antisymm ok.frames.bound full
    simp only [meets_modify_bind, meets_pure]
    refine ⟨⟨?_, ?_, ?_, clock'⟩, inside, .inr ⟨ok.none_free full, evicted⟩⟩
    · dsimp only
      rw [frames, ← atEnd]
      have kept := ok.frames.remark (ok.none_free full frame inside) named
      rwa [← atEnd] at kept
    · dsimp only
      rw [tables, table]
      exact ok.tables
    · dsimp only
      rw [slot, slots]
      exact ok.slots.take left mark
  · intro left
    have inside : mm.pgFfree < npf := by omega
    simp only [meets_set_bind, meets_pure]
    exact ⟨⟨ok.frames.take inside _, ok.tables, ok.slots, ok.clock⟩, inside,
      .inl (ok.frames.isFree inside)⟩

/-- A mark of a frame in use as shared keeps the index of the frames. -/
theorem shared (ok : IndexesOk mm) {charmap : Nat → Nat}
    (marks : ∀ frame, charmap frame = mm.pgCharmap frame ∨
      (mm.pgCharmap frame ≠ cmapFree ∧ charmap frame = cmapShared)) :
    FreeIndex charmap npf mm.pgFfree := by
  refine ⟨ok.frames.bound, ?_, ?_⟩
  · intro frame low
    rcases marks frame with same | ⟨-, marked⟩
    · rw [same]
      exact ok.frames.below frame low
    · rw [marked]
      decide
  · intro inside
    have free := ok.frames.isFree inside
    rcases marks mm.pgFfree with same | ⟨used, -⟩
    · rw [same, free]
    · exact absurd free used

/-- Every event keeps them. -/
theorem step (ok : IndexesOk mm) {event : AllocEvent} (legal : event.legal mm) :
    Meets (fun _ => True) (allocStep event) mm fun _ next => IndexesOk next := by
  cases event with
  | allocPage cpu pid uva =>
    refine Meets.bind (ok.allocPage cpu pid uva) ?_
    intro frame next kept
    exact kept.1
  | freePage pfn =>
    apply (freePage_releases (fun _ => trivial) fun _ => trivial).mono
    intro _ next freed
    obtain ⟨inside, rfl⟩ := freed
    exact { ok with frames := ok.frames.release inside }
  | allocPagetable pid =>
    refine Meets.bind (allocPagetable_takes (fun _ => trivial) fun _ => trivial) ?_
    intro table next taken
    obtain ⟨-, left, -, rfl⟩ := taken
    exact { ok with tables := ok.tables.take left _ }
  | freePagetable table =>
    apply (freePagetable_releases (fun _ => trivial) (fun _ => trivial) fun _ => trivial).mono
    intro _ next freed
    obtain ⟨inside, rfl⟩ := freed
    exact { ok with tables := ok.tables.release inside }
  | allocSwapPage pid =>
    refine Meets.bind (allocSwapPage_takes fun _ => trivial) ?_
    intro slot? next taken
    obtain ⟨-, ⟨-, -, rfl⟩ | ⟨left, -, rfl⟩⟩ := taken
    · exact ok
    · exact { ok with slots := ok.slots.take left _ }
  | freeSwapPage slot =>
    apply (freeSwapPage_releases (fun _ => trivial) fun _ => trivial).mono
    intro _ next freed
    obtain ⟨inside, rfl⟩ := freed
    exact { ok with slots := ok.slots.release inside }
  | other next =>
    obtain ⟨marks, frame, tables, table, slots, slot, clock⟩ := legal
    change IndexesOk next
    refine ⟨?_, ?_, ?_, ?_⟩
    · rw [frame]
      exact ok.shared marks
    · rw [tables, table]
      exact ok.tables
    · rw [slots, slot]
      exact ok.slots
    · rw [clock]
      exact ok.clock

/-- They hold after any sequence of calls. -/
theorem of_reached {start : Mm} (booted : start.Booted)
    (reached : Reaches allocStep AllocEvent.legal start mm) : IndexesOk mm :=
  reached.invariant booted.indexes fun _ _ ok legal => ok.step legal

end IndexesOk

/-- A free index that is not the size of its map is where something is free. -/
theorem FreeIndex.lt_of_free {charmap : Nat → Nat} {limit first entry : Nat}
    (index : FreeIndex charmap limit first) (inside : entry < limit)
    (free : charmap entry = cmapFree) : first < limit := by
  by_contra full
  exact index.below entry (by omega) free

/-- What the free indexes are for. -/
structure AllocatorsSound (mm : Mm) : Prop where
  /-- Each is the least free index of its map, or the size of the map. -/
  indexes : IndexesOk mm
  /-- `alloc_page` answers a free page frame, or one that it evicted because there was none. -/
  page : ∀ cpu pid uva frame next, allocPage cpu pid uva mm = .ok (frame, next) →
    frame < npf ∧ (mm.pgCharmap frame = cmapFree ∨
      ((∀ other < npf, mm.pgCharmap other ≠ cmapFree) ∧ Evicted mm next frame))
  /-- It returns while there is a free page frame. -/
  pageReturns : ∀ cpu pid uva, u8 pid ≠ cmapFree → (∃ frame < npf, mm.pgCharmap frame = cmapFree) →
    ∃ frame next, allocPage cpu pid uva mm = .ok (frame, next)
  /-- `alloc_pagetable` answers a free page table. -/
  table : ∀ pid table next, allocPagetable pid mm = .ok (table, next) →
    table < npt ∧ mm.pgtbCharmap table = cmapFree
  /-- It returns while there is one. -/
  tableReturns : ∀ pid, u8 pid ≠ cmapFree → (∃ table < npt, mm.pgtbCharmap table = cmapFree) →
    ∃ table next, allocPagetable pid mm = .ok (table, next)
  /-- `alloc_swap_page` answers a free swap page. -/
  slot : ∀ pid slot next, allocSwapPage pid mm = .ok (some slot, next) →
    slot < npswap ∧ mm.spgCharmap slot = cmapFree
  /-- It finds one while there is one. -/
  slotReturns : ∀ pid, u8 pid ≠ cmapFree → (∃ slot < npswap, mm.spgCharmap slot = cmapFree) →
    ∃ slot next, allocSwapPage pid mm = .ok (some slot, next)
  /-- `free_page` returns for every frame in use. -/
  freesPage : ∀ frame < npf, mm.pgCharmap frame ≠ cmapFree →
    ∃ next, freePage (framePfn frame) mm = .ok ((), next)
  /-- `free_pagetable` returns for every table in use that is not the kernel's. -/
  freesTable : ∀ table < npt, mm.pgtbCharmap table ≠ cmapFree → mm.pgtbCharmap table ≠ 0 →
    ∃ next, freePagetable table mm = .ok ((), next)
  /-- `free_swap_page` returns for every swap page in use. -/
  freesSlot : ∀ slot < npswap, mm.spgCharmap slot ≠ cmapFree →
    ∃ next, freeSwapPage slot mm = .ok ((), next)

/--
After any sequence of allocations and releases every allocator knows its first free entry, gives
out nothing that is in use, and does not fail while something is free.
-/
theorem free_index_allocators {start mm : Mm} (booted : start.Booted)
    (reached : Reaches allocStep AllocEvent.legal start mm) : AllocatorsSound mm := by
  have ok := IndexesOk.of_reached booted reached
  refine ⟨ok, ?_, ?_, ?_, ?_, ?_, ?_, ?_, ?_, ?_⟩
  · intro cpu pid uva frame next ran
    exact ((ok.allocPage cpu pid uva).of_ok ran).2
  · intro cpu pid uva named left
    obtain ⟨frame, inside, free⟩ := left
    obtain ⟨given, next, ran, -⟩ := Meets.returns (@allocPage_free (fun _ => False) mm cpu pid uva
      named (ok.frames.lt_of_free inside free))
    exact ⟨given, next, ran⟩
  · intro pid table next ran
    obtain ⟨-, left, rfl, -⟩ :=
      (@allocPagetable_takes (fun _ => True) mm pid (fun _ => trivial) fun _ => trivial).of_ok ran
    exact ⟨left, ok.tables.isFree left⟩
  · intro pid named left
    obtain ⟨table, inside, free⟩ := left
    have first := ok.tables.lt_of_free inside free
    obtain ⟨given, next, ran, -⟩ := Meets.returns (@allocPagetable_takes (fun _ => False) mm pid
      (fun invalid => named invalid) fun full => absurd first (by omega))
    exact ⟨given, next, ran⟩
  · intro pid slot next ran
    obtain ⟨-, ⟨-, none, -⟩ | ⟨left, some, -⟩⟩ :=
      (@allocSwapPage_takes mm pid (fun _ => True) fun _ => trivial).of_ok ran
    · cases none
    · cases some
      exact ⟨left, ok.slots.isFree left⟩
  · intro pid named left
    obtain ⟨slot, inside, free⟩ := left
    have first := ok.slots.lt_of_free inside free
    obtain ⟨given, next, ran, -, ⟨full, -⟩ | ⟨-, rfl, -⟩⟩ :=
      Meets.returns (@allocSwapPage_takes mm pid (fun _ => False) fun invalid => named invalid)
    · omega
    · exact ⟨_, next, ran⟩
  · intro frame inside used
    have index : framePfn frame - framePfn 0 = frame := by
      simp only [framePfn]
      omega
    obtain ⟨_, next, ran, -⟩ := Meets.returns (@freePage_releases mm (fun _ => False)
      (framePfn frame) (by simp only [framePfn]; omega) (by rw [index]; exact used))
    exact ⟨next, ran⟩
  · intro table inside used own
    obtain ⟨_, next, ran, -⟩ := Meets.returns (@freePagetable_releases mm (fun _ => False) table
      (by omega) own used)
    exact ⟨next, ran⟩
  · intro slot inside used
    obtain ⟨_, next, ran, -⟩ := Meets.returns (@freeSwapPage_releases mm (fun _ => False) slot
      (by omega) used)
    exact ⟨next, ran⟩

/-- Memory as it is at the start. -/
def bootMm : Mm :=
  { bareMm with
    pgtbCharmap := fun table => if table < 2 then 0 else cmapFree
    pgtbFfree := 2
    pcbTable := [] }

/-- It is. -/
theorem bootMm_booted : bootMm.Booted := ⟨rfl, rfl, rfl, rfl, rfl, rfl, rfl⟩

/-- So the allocators are sound once the first page frame was given away. -/
theorem free_index_allocators_first :
    ∃ mm, allocStep (.allocPage 0 2 0) bootMm = .ok ((), mm) ∧ AllocatorsSound mm := by
  have legal : AllocEvent.legal bootMm (.allocPage 0 2 0) := trivial
  exact ⟨_, rfl, free_index_allocators bootMm_booted (.step .start legal rfl)⟩

/-- A page table of the kernel is in use, but is never released. -/
theorem free_pagetable_kernel :
    ∃ mm, Reaches allocStep AllocEvent.legal bootMm mm ∧ mm.pgtbCharmap 0 ≠ cmapFree ∧
      freePagetable 0 mm = .error .corrupt :=
  ⟨bootMm, .start, by decide, rfl⟩

/-! ## The end of the clock loop -/

/-- Nothing that follows the clock loop reports that there is no victim. -/
theorem swapToDisk_noVictim (mm : Mm) (cpu : Nat) :
    swapToDisk cpu mm = .error .noVictim ↔ clockScan cpu (2 * npf + 1) mm = .error .noVictim := by
  constructor
  · intro hangs
    cases ran : clockScan cpu (2 * npf + 1) mm with
    | error reason =>
      unfold swapToDisk at hangs
      rw [bind_run_error ran] at hangs
      cases hangs
      rfl
    | ok answer =>
      obtain ⟨⟨loc, pid⟩, here⟩ := answer
      -- What comes after a victim was found has other reasons to stop.
      have rest : Meets (fun reason => reason ≠ .noVictim) (swapToDisk cpu) mm fun _ _ => True := by
        unfold swapToDisk
        unfold Meets
        rw [bind_run_ok ran]
        refine Meets.bind (allocSwapPage_takes fun _ => by decide) ?_
        intro slot? next taken
        obtain ⟨-, ⟨-, rfl, -⟩ | ⟨-, rfl, -⟩⟩ := taken
        · exact fun same => nomatch same
        · simp only [meets_get_bind, meets_set_bind, meets_readPte_bind, meets_writePte_bind,
            localFlushTlbPage, meets_modify_bind]
          apply meets_stopIf_bind (fun _ => by decide)
          intro _
          trivial
      exact absurd rfl (rest.of_error hangs)
  · intro hangs
    unfold swapToDisk
    exact bind_run_error hangs

/-- Rounds beyond two turns change nothing. -/
theorem clockScan_two_turns {mm : Mm} {cpu fuel : Nat} (inside : mm.clockPt < npf)
    (enough : 2 * npf + 1 ≤ fuel) : clockScan cpu fuel mm = clockScan cpu (2 * npf + 1) mm := by
  by_cases skips : ∀ frame < npf, mm.Skips cpu frame
  · rw [clockScan_hangs fuel inside skips, clockScan_hangs _ inside skips]
  · simp only [not_forall] at skips
    obtain ⟨frame, isFrame, stays⟩ := skips
    obtain ⟨steps, short, reaches⟩ := nextClock_reaches inside isFrame
    induction fuel, enough using Nat.le_induction with
    | base => rfl
    | succ fuel enough ih =>
      rw [← ih]
      exact clockScan_more (clockScan_ends inside isFrame reaches (by omega) stays)

/--
The clock loop of `swap_to_disk` ends exactly when some frame is neither kept in common nor used by
a process that runs on another processor, and two turns decide whether it does.
-/
theorem swap_to_disk_ends_iff {start mm : Mm} (booted : start.Booted)
    (reached : Reaches allocStep AllocEvent.legal start mm) (cpu : Nat) :
    (swapToDisk cpu mm ≠ .error .noVictim ↔ ∃ frame < npf, ¬ mm.Skips cpu frame) ∧
      ∀ fuel, 2 * npf + 1 ≤ fuel → clockScan cpu fuel mm = clockScan cpu (2 * npf + 1) mm := by
  have inside := (IndexesOk.of_reached booted reached).clock
  constructor
  · rw [ne_eq, swapToDisk_noVictim]
    constructor
    · intro ends
      by_contra none
      simp only [not_exists, not_and, not_not] at none
      exact ends (clockScan_hangs _ inside none)
    · intro some
      obtain ⟨frame, isFrame, stays⟩ := some
      obtain ⟨steps, short, reaches⟩ := nextClock_reaches inside isFrame
      exact clockScan_ends inside isFrame reaches (by omega) stays
  · exact fun fuel enough => clockScan_two_turns inside enough

/-- At the start there is no owner to be found, so the loop ends at once. -/
theorem swap_to_disk_ends_first :
    (swapToDisk 0 bootMm ≠ .error .noVictim ↔ ∃ frame < npf, ¬ bootMm.Skips 0 frame) ∧
      ∀ fuel, 2 * npf + 1 ≤ fuel →
        clockScan 0 fuel bootMm = clockScan 0 (2 * npf + 1) bootMm :=
  swap_to_disk_ends_iff bootMm_booted .start 0

/-- A free index moves up when its entry is taken. -/
theorem FreeIndex.take_lt {charmap : Nat → Nat} {limit first mark next : Nat}
    (index : FreeIndex charmap limit first) (left : first < limit) (used : mark ≠ cmapFree)
    (after : FreeIndex (put charmap first mark) limit next) : first < next := by
  by_contra low
  have free := after.isFree (by omega)
  by_cases same : next = first
  · rw [same, put_same] at free
    exact used free
  · rw [put_other _ _ same] at free
    exact index.below next (by omega) free

/-- Every page frame may be given away. -/
theorem all_frames_used {start : Mm} (booted : start.Booted) :
    ∃ mm, Reaches allocStep AllocEvent.legal start mm ∧ npf ≤ mm.pgFfree := by
  have more : ∀ left mm, Reaches allocStep AllocEvent.legal start mm → npf - mm.pgFfree = left →
      ∃ last, Reaches allocStep AllocEvent.legal start last ∧ npf ≤ last.pgFfree := by
    intro left
    -- The induction is on the frames above the free index.
    induction left using Nat.strong_induction_on with
    | _ left ih =>
      intro mm reached isLeft
      by_cases full : npf ≤ mm.pgFfree
      · exact ⟨mm, reached, full⟩
      · have first : mm.pgFfree < npf := by omega
        obtain ⟨_, next, ran, -, given⟩ := Meets.returns (@allocPage_free (fun _ => False) mm 0 2 0
          (by decide) first)
        have legal : AllocEvent.legal mm (.allocPage 0 2 0) := trivial
        have stepped : allocStep (.allocPage 0 2 0) mm = .ok ((), next) := bind_run_ok ran
        have reached' := Reaches.step reached legal stepped
        have ok := IndexesOk.of_reached booted reached
        have ok' := IndexesOk.of_reached booted reached'
        have frames : next.pgCharmap = put mm.pgCharmap mm.pgFfree (u8 2) := by rw [given]
        have higher := ok.frames.take_lt first (by decide) (frames ▸ ok'.frames)
        exact ih (npf - next.pgFfree) (by omega) next reached' rfl
  exact more _ start .start rfl

/-- When every page frame is in use and kept in common, the clock loop never ends. -/
theorem swap_to_disk_hangs :
    ∃ mm, Reaches allocStep AllocEvent.legal bootMm mm ∧
      (∀ frame < npf, mm.pgCharmap frame ≠ cmapFree) ∧
      ∀ fuel, clockScan 0 fuel mm = .error .noVictim := by
  obtain ⟨mm, reached, full⟩ := all_frames_used bootMm_booted
  have ok := IndexesOk.of_reached bootMm_booted reached
  have used := ok.none_free full
  -- All of them become copy-on-write.
  have legal : AllocEvent.legal mm (.other { mm with
      pgCharmap := fun frame => if frame < npf then cmapShared else mm.pgCharmap frame }) := by
    refine ⟨?_, rfl, rfl, rfl, rfl, rfl, rfl⟩
    intro frame
    dsimp only
    by_cases inside : frame < npf
    · rw [if_pos inside]
      exact .inr ⟨used frame inside, rfl⟩
    · rw [if_neg inside]
      exact .inl rfl
  refine ⟨_, .step reached legal rfl, ?_, ?_⟩
  · intro frame inside
    simp only [if_pos inside]
    decide
  · intro fuel
    apply clockScan_hangs fuel
    · exact ok.clock
    · intro frame inside
      exact .inl (if_pos inside)

end GlucOS
