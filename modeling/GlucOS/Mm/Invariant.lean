import GlucOS.Mm.Walk
import GlucOS.Mm.Slot

/-! The invariant of memory management, and what an eviction leaves as it was. -/

namespace GlucOS

/-- Page frames, swap pages and shared pages are consistent with these address spaces. -/
structure ResOk (mm : Mm) (space : Nat → Nat → Leaf) (procs : Finset Nat) (held : Option Nat) :
    Prop where
  /-- The page frames. -/
  frames : FramesOk mm.pgCharmap mm.pgUva space held
  /-- Their allocator. -/
  frameIndex : FreeIndex mm.pgCharmap npf mm.pgFfree
  /-- The swap partition. -/
  slots : SlotsOk mm.spgCharmap space
  /-- Its allocator. -/
  slotIndex : FreeIndex mm.spgCharmap npswap mm.spgFfree
  /-- The shared pages. -/
  shm : ShmOk mm.shmCtrl mm.pgUva space
  /-- The processes. -/
  procs : ProcsOk space procs
  /-- The clock pointer. -/
  clock : mm.clockPt < npf

/-- Memory management is consistent, with these address spaces behind the page tables. -/
structure Ok (mm : Mm) (role : Nat → Role) (space : Nat → Nat → Leaf) (procs : Finset Nat)
    (held : Option Nat) : Prop extends ResOk mm space procs held where
  /-- The page tables. -/
  shape : Shape mm.tables role space
  /-- Their allocator. -/
  tabs : TabsOk mm.pgtbCharmap mm.pgtbFfree role

/-- Every process with pages is found by its identifier, with its top page table. -/
def Homed (mm : Mm) (role : Nat → Role) (procs : Finset Nat) : Prop :=
  ∀ pid ∈ procs, ∃ tcb, mm.pcbSearch pid = some tcb ∧ role tcb.pgdir = .node pid []

/-! ## What user programs see of their pages -/

/-- A page as its process sees it. -/
inductive View
  /-- It was never touched. -/
  | none
  /-- Bytes that it may write. -/
  | own (bytes : Page)
  /-- Bytes to be copied before it writes. -/
  | cow (bytes : Page)
  /-- The bytes of a shared page. -/
  | shared (frame : Nat) (bytes : Page)

/-- The view of a page, from the bytes of frames and swap pages. -/
def Leaf.view (frames swapPages : Nat → Page) : Leaf → View
  | untouched => .none
  | priv frame => .own (frames frame)
  | cow frame => .cow (frames frame)
  | shared frame => .shared frame (frames frame)
  | swapped slot => .own (swapPages slot)

/-- All pages, as their processes see them. -/
def views (mm : Mm) (space : Nat → Nat → Leaf) (pid vpn : Nat) : View :=
  (space pid vpn).view mm.frames mm.swapPages

/-- Pages that are backed as before, by the same bytes, look as before. -/
theorem views_congr {mm next : Mm} {space space' : Nat → Nat → Leaf} {pid vpn : Nat}
    (same : space' pid vpn = space pid vpn)
    (frames : ∀ frame, space pid vpn = .priv frame ∨ (space pid vpn).Uses frame →
      next.frames frame = mm.frames frame)
    (swapPages : ∀ slot, space pid vpn = .swapped slot →
      next.swapPages slot = mm.swapPages slot) :
    views next space' pid vpn = views mm space pid vpn := by
  unfold views
  rw [same]
  cases is : space pid vpn with
  | untouched => rfl
  | priv frame => simp only [Leaf.view, frames frame (Or.inl is)]
  | cow frame => simp only [Leaf.view, frames frame (Or.inr (Or.inl is))]
  | shared frame => simp only [Leaf.view, frames frame (Or.inr (Or.inr is))]
  | swapped slot => simp only [Leaf.view, swapPages slot is]

/-! ## Cached translations -/

/-- The page is at the frame that a cached entry names, with the permissions it grants. -/
def Leaf.Allows : Leaf → Pte → Prop
  | priv frame, entry => entry.pfn = framePfn frame
  | cow frame, entry => entry.pfn = framePfn frame ∧ entry.w = false
  | shared frame, entry => entry.pfn = framePfn frame
  | _, _ => False

/-- Every cached translation of a processor is good for the process it runs. -/
def Coherent (mm : Mm) (space : Nat → Nat → Leaf) : Prop :=
  ∀ cpu < ncpu, ∀ cached ∈ mm.tlb cpu, (space (mm.current cpu).1 cached.1).Allows cached.2

/-! ## Evictions -/

/-- An operation may have moved private pages to the swap partition, and did nothing else. -/
structure Evicts (mm : Mm) (space : Nat → Nat → Leaf) (next : Mm) (space' : Nat → Nat → Leaf) :
    Prop where
  /-- No process sees a difference. -/
  views : views next space' = views mm space
  /-- Pages that are not private stay where they are. -/
  stays : ∀ pid vpn, (∀ frame, space pid vpn ≠ .priv frame) → space' pid vpn = space pid vpn
  /-- Private pages stay their process's own. -/
  owns : ∀ pid vpn frame, space pid vpn = .priv frame →
    space' pid vpn = .priv frame ∨ ∃ slot, space' pid vpn = .swapped slot
  /-- The processes. -/
  pcbTable : next.pcbTable = mm.pcbTable
  /-- What the processors run. -/
  current : next.current = mm.current
  /-- The shared pages. -/
  shmCtrl : next.shmCtrl = mm.shmCtrl
  /-- Frames keep their bytes. -/
  frames : next.frames = mm.frames
  /-- The repetition count of page faults. -/
  fault : next.fault = mm.fault
  /-- Cached translations stay good. -/
  coherent : Coherent mm space → Coherent next space'
  /-- Nothing new is cached. -/
  cached : ∀ cpu, ∀ entry ∈ next.tlb cpu, entry ∈ mm.tlb cpu

namespace Evicts

variable {mm next last : Mm} {space space' space'' : Nat → Nat → Leaf}

/-- Doing nothing. -/
theorem refl (mm : Mm) (space : Nat → Nat → Leaf) : Evicts mm space mm space :=
  ⟨rfl, fun _ _ _ => rfl, fun _ _ _ is => Or.inl is, rfl, rfl, rfl, rfl, rfl, id, fun _ _ => id⟩

/-- Evictions after evictions. -/
theorem trans (first : Evicts mm space next space') (second : Evicts next space' last space'') :
    Evicts mm space last space'' := by
  refine ⟨second.views.trans first.views, ?_, ?_, second.pcbTable.trans first.pcbTable,
    second.current.trans first.current, second.shmCtrl.trans first.shmCtrl,
    second.frames.trans first.frames, second.fault.trans first.fault,
    fun coherent => second.coherent (first.coherent coherent),
    fun cpu entry mem => first.cached cpu entry (second.cached cpu entry mem)⟩
  · intro pid vpn notPriv
    have same := first.stays pid vpn notPriv
    rw [second.stays pid vpn (by simpa only [same] using notPriv), same]
  · intro pid vpn frame priv
    -- Once a page is in the swap partition, evictions do not move it.
    rcases first.owns pid vpn frame priv with still | ⟨slot, gone⟩
    · exact second.owns pid vpn frame still
    · exact Or.inr ⟨slot, by rw [second.stays pid vpn (by simp [gone]), gone]⟩

/-- A page that has no frame of its own is where it was. -/
theorem untouched (evicts : Evicts mm space next space') {pid vpn : Nat}
    (is : space pid vpn = .untouched) : space' pid vpn = .untouched := by
  rw [evicts.stays pid vpn (by simp [is]), is]

/-- A page kept in common is where it was. -/
theorem uses (evicts : Evicts mm space next space') {pid vpn frame : Nat}
    (is : (space pid vpn).Uses frame) : space' pid vpn = space pid vpn := by
  apply evicts.stays
  rcases is with is | is <;> simp [is]

/-- Touched pages stay touched, and no others become so. -/
theorem touched_iff (evicts : Evicts mm space next space') (pid vpn : Nat) :
    space' pid vpn = .untouched ↔ space pid vpn = .untouched := by
  constructor
  · intro is
    by_cases priv : ∃ frame, space pid vpn = .priv frame
    · obtain ⟨frame, was⟩ := priv
      rcases evicts.owns pid vpn frame was with same | ⟨slot, gone⟩
      · rw [same] at is
        cases is
      · rw [gone] at is
        cases is
    · rw [← evicts.stays pid vpn fun frame was => priv ⟨frame, was⟩, is]
  · exact evicts.untouched

end Evicts

/-- Page tables that were grown or marked leave what processes see as it was. -/
theorem SameButTables.evicts {mm next : Mm} (same : SameButTables mm next)
    (space : Nat → Nat → Leaf) : Evicts mm space next space := by
  rw [same]
  exact ⟨rfl, fun _ _ _ => rfl, fun _ _ _ is => Or.inl is, rfl, rfl, rfl, rfl, rfl, id,
    fun _ _ => id⟩

end GlucOS
