import GlucOS.Mm.LoadLaws
import GlucOS.Mm.MapLaws
import GlucOS.Mm.Release
import GlucOS.Mm.SegmentLaws
import GlucOS.Mm.TaskTable

/-! `do_fork`: the child gets the pages of its parent, copy-on-write, and copies of shared pages. -/

namespace GlucOS

open Routine

variable {mm : Mm} {role : Nat → Role} {space : Nat → Nat → Leaf} {procs : Finset Nat}
  {accepted : MmStop → Prop}

/-! ## Touched pages -/

/-- Only pages of the child are touched that were not before, and those its parent has touched. -/
def Copies (space space' : Nat → Nat → Leaf) (parent child : Nat) : Prop :=
  ∀ pid vpn, space' pid vpn ≠ .untouched →
    space pid vpn ≠ .untouched ∨ (pid = child ∧ space parent vpn ≠ .untouched)

namespace Copies

variable {space' space'' : Nat → Nat → Leaf} {parent child : Nat}

/-- Doing nothing. -/
theorem refl (space : Nat → Nat → Leaf) (parent child : Nat) : Copies space space parent child :=
  fun _ _ touched => Or.inl touched

/-- One copy after the other. -/
theorem trans (first : Copies space space' parent child)
    (second : Copies space' space'' parent child) : Copies space space'' parent child := by
  intro pid vpn touched
  obtain before | ⟨isChild, before⟩ := second pid vpn touched
  · exact first pid vpn before
  · obtain parents | ⟨-, parents⟩ := first parent vpn before
    · exact Or.inr ⟨isChild, parents⟩
    · exact Or.inr ⟨isChild, parents⟩

/-- A page of the child that its parent has touched. -/
theorem setLeaf (copies : Copies space space' parent child) {vpn : Nat}
    (touched : space parent vpn ≠ .untouched) (leaf : Leaf) :
    Copies space (GlucOS.setLeaf space' child vpn leaf) parent child := by
  intro pid other now
  by_cases here : pid = child ∧ other = vpn
  · exact Or.inr ⟨here.1, by rw [here.2]; exact touched⟩
  · rw [setLeaf_other here] at now
    exact copies pid other now

/-- A page of the parent that it has touched. -/
theorem setParent (copies : Copies space space' parent child) {vpn : Nat}
    (touched : space parent vpn ≠ .untouched) (leaf : Leaf) :
    Copies space (GlucOS.setLeaf space' parent vpn leaf) parent child := by
  intro pid other now
  by_cases here : pid = parent ∧ other = vpn
  · exact Or.inl (by rw [here.1, here.2]; exact touched)
  · rw [setLeaf_other here] at now
    exact copies pid other now

end Copies

/-- Evictions touch nothing. -/
theorem Evicts.copies {next : Mm} {space' : Nat → Nat → Leaf}
    (evicts : Evicts mm space next space') (parent child : Nat) :
    Copies space space' parent child := by
  intro pid vpn touched
  left
  intro was
  exact touched (evicts.untouched was)

/-- Only one page may be touched that was not before. -/
theorem Touches.touched {next : Mm} {space' : Nat → Nat → Leaf} {pid vpn : Nat} {leaf : Leaf}
    {view : View} (touches : Touches mm space pid vpn leaf view next space') {other page : Nat}
    (apart : ¬ (other = pid ∧ page = vpn)) (now : space' other page ≠ .untouched) :
    space other page ≠ .untouched := by
  intro was
  exact now (by rw [touches.stays other page apart (by simp [was]), was])

/-- A page kept in common is where it was. -/
theorem Touches.uses {next : Mm} {space' : Nat → Nat → Leaf} {pid vpn : Nat} {leaf : Leaf}
    {view : View} {other page frame : Nat}
    (touches : Touches mm space pid vpn leaf view next space')
    (apart : ¬ (other = pid ∧ page = vpn)) (is : (space other page).Uses frame) :
    space' other page = space other page := by
  apply touches.stays other page apart
  obtain cow | shared := is
  · simp [cow]
  · simp [shared]

/-- No other page comes to be kept in common. -/
theorem Touches.uses_before {next : Mm} {space' : Nat → Nat → Leaf} {pid vpn : Nat} {leaf : Leaf}
    {view : View} {other page frame : Nat}
    (touches : Touches mm space pid vpn leaf view next space')
    (apart : ¬ (other = pid ∧ page = vpn)) (now : (space' other page).Uses frame) :
    (space other page).Uses frame := by
  by_cases isPriv : ∃ own, space other page = .priv own
  · obtain ⟨own, is⟩ := isPriv
    obtain same | ⟨slot, gone⟩ := touches.owns other page own apart is
    · simp [same, Leaf.Uses] at now
    · simp [gone, Leaf.Uses] at now
  · rw [← touches.stays other page apart fun own is => isPriv ⟨own, is⟩]
    exact now

/-- Evictions bring no page to be kept in common. -/
theorem Evicts.uses_before {next : Mm} {space' : Nat → Nat → Leaf}
    (evicts : Evicts mm space next space') {pid vpn frame : Nat}
    (now : (space' pid vpn).Uses frame) : (space pid vpn).Uses frame := by
  by_cases isPriv : ∃ own, space pid vpn = .priv own
  · obtain ⟨own, is⟩ := isPriv
    obtain same | ⟨slot, gone⟩ := evicts.owns pid vpn own is
    · simp [same, Leaf.Uses] at now
    · simp [gone, Leaf.Uses] at now
  · rw [← evicts.stays pid vpn fun own is => isPriv ⟨own, is⟩]
    exact now

/-- Processes are found by their identifiers as before. -/
theorem Homed.later {next : Mm} {role' : Nat → Role} (homed : Homed mm role procs)
    (grows : Grows role role') (same : next.pcbTable = mm.pcbTable) : Homed next role' procs := by
  intro pid mem
  obtain ⟨tcb, found, isRoot⟩ := homed pid mem
  refine ⟨tcb, ?_, ?_⟩
  · unfold Mm.pcbSearch at *
    rw [same]
    exact found
  · rw [grows _ (by simp [isRoot]), isRoot]

/-! ## One page -/

/-- Storing twice to one entry. -/
@[simp] theorem put_put {A : Type} (array : Nat → A) (index : Nat) (first second : A) :
    put (put array index first) index second = put array index second := by
  funext other
  by_cases here : other = index
  · rw [here, put_same, put_same]
  · rw [put_other _ _ here, put_other _ _ here, put_other _ _ here]

/-- A private page may be taken from its process, whose frame is then held. -/
theorem Ok.unmap (ok : Ok mm role space procs none) {pid vpn frame : Nat} {loc : PteLoc}
    (is : space pid vpn = .priv frame) (here : AtLeaf role pid vpn loc) :
    Ok { mm with tables := writeAt mm.tables loc Pte.zero } role
      (setLeaf space pid vpn .untouched) procs (some frame) := by
  have mem := ok.procs.touched pid vpn (by simp [is])
  constructor
  · constructor
    · exact ok.frames.evict .untouched is (Or.inl rfl)
    · exact ok.frameIndex
    · exact ok.slots.keep (by simp [is]) (by simp)
    · exact ok.slotIndex
    · exact ok.shm.keep .untouched (by simp [is]) (by simp) (by simp) fun _ _ _ => rfl
    · exact ok.procs.set mem
    · exact ok.clock
  · exact ok.shape.write here Leaf.untouched_holds
  · exact ok.tabs

/-- A frame that is held becomes that of a copy-on-write page of two processes. -/
theorem Ok.shareTwo {parent child vpn frame : Nat} {ploc cloc : PteLoc} {entry : Pte}
    (ok : Ok { mm with tables := writeAt mm.tables ploc Pte.zero } role
      (setLeaf space parent vpn .untouched) procs (some frame))
    (holds : (Leaf.cow frame).Holds entry) (here : AtLeaf role parent vpn ploc)
    (there : AtLeaf role child vpn cloc) (differ : child ≠ parent)
    (fresh : space child vpn = .untouched) (mem : parent ∈ procs) (childMem : child ∈ procs) :
    Ok { mm with
      tables := writeAt (writeAt mm.tables ploc entry) cloc entry
      pgCharmap := put mm.pgCharmap frame cmapShared
      pgUva := put mm.pgUva frame 2 } role
      (setLeaf (setLeaf space parent vpn (.cow frame)) child vpn (.cow frame)) procs none := by
  obtain ⟨inside, used, alone⟩ := ok.frames.holds frame rfl
  have apart : ∀ page, ¬ (child = parent ∧ page = vpn) := fun _ both => differ both.1
  have fresh' : setLeaf space parent vpn (.cow frame) child vpn = .untouched := by
    rw [setLeaf_other (apart vpn), fresh]
  -- The parent is the first user of the frame, and the child the second.
  have first : FramesOk (put mm.pgCharmap frame cmapShared) (put mm.pgUva frame 1)
      (setLeaf space parent vpn (.cow frame)) none := by
    have shared := ok.frames.share (setLeaf_same space parent vpn .untouched)
      (Or.inl rfl : (Leaf.cow frame).Uses frame)
    rwa [setLeaf_setLeaf] at shared
  have unused : ∀ page, ¬ (setLeaf space parent vpn (.cow frame) child page).Uses frame := by
    intro page
    have before := (ok.frames.held_unused child page).2
    rw [setLeaf_other (apart page)] at before ⊢
    exact before
  have second := first.addUse fresh' (Or.inl rfl : (Leaf.cow frame).Uses frame) inside
    (put_same ..) unused
  rw [put_same, put_put] at second
  -- No shared page has the frame, which was in nobody's use.
  have notShm : ∀ id < nshm, (mm.shmCtrl id).Active → (mm.shmCtrl id).pgidx ≠ frame := by
    intro id small active same
    have marked := (ok.shm.marked ok.frames small active).2
    exact alone (by rw [← same]; exact marked)
  have shm : ShmOk mm.shmCtrl (put mm.pgUva frame 2) (setLeaf space parent vpn (.cow frame)) := by
    rw [← setLeaf_setLeaf space parent vpn .untouched (.cow frame)]
    apply ok.shm.keep (.cow frame)
    · simp
    · simp
    · intro id small active same
      cases same
      exact notShm id small active rfl
    · intro id small active
      exact put_other _ _ (notShm id small active)
  have slots : SlotsOk mm.spgCharmap (setLeaf space parent vpn (.cow frame)) := by
    rw [← setLeaf_setLeaf space parent vpn .untouched (.cow frame)]
    exact ok.slots.keep (by simp) (by simp)
  have procsOk : ProcsOk (setLeaf space parent vpn (.cow frame)) procs := by
    rw [← setLeaf_setLeaf space parent vpn .untouched (.cow frame)]
    exact ok.procs.set mem
  constructor
  · constructor
    · exact second
    · exact ok.frameIndex.remark used shared_ne_free
    · exact slots.keep (by simp [fresh']) (by simp)
    · exact ok.slotIndex
    · apply shm.keep (.cow frame)
      · simp [fresh']
      · simp
      · intro id small active same
        cases same
        exact notShm id small active rfl
      · exact fun _ _ _ => rfl
    · exact procsOk.set childMem
    · exact ok.clock
  · have written := ok.shape.write here holds
    rw [setLeaf_setLeaf] at written
    have same := writeAt_writeAt mm.tables ploc Pte.zero entry
    simp only [writeAt] at same written ⊢
    rw [same] at written
    exact written.write there holds
  · exact ok.tabs

/-- One more process uses a copy-on-write frame. -/
theorem Ok.shareMore {child vpn frame : Nat} {cloc : PteLoc} {entry : Pte}
    (ok : Ok mm role space procs none) (holds : (Leaf.cow frame).Holds entry)
    (there : AtLeaf role child vpn cloc) (fresh : space child vpn = .untouched)
    (unused : ∀ page, ¬ (space child page).Uses frame) {owner page : Nat}
    (is : space owner page = .cow frame) (childMem : child ∈ procs) :
    Ok { mm with
      tables := writeAt mm.tables cloc entry
      pgUva := put mm.pgUva frame (mm.pgUva frame + 1) } role
      (setLeaf space child vpn (.cow frame)) procs none := by
  obtain ⟨inside, marked⟩ := ok.frames.multi owner page frame (Or.inl is)
  have notShm : ∀ id < nshm, (mm.shmCtrl id).Active → (mm.shmCtrl id).pgidx ≠ frame := by
    intro id small active same
    exact ok.shm.notCow id small active owner page (by rw [same, is])
  constructor
  · constructor
    · exact ok.frames.addUse fresh (Or.inl rfl) inside marked unused
    · exact ok.frameIndex
    · exact ok.slots.keep (by simp [fresh]) (by simp)
    · exact ok.slotIndex
    · apply ok.shm.keep (.cow frame)
      · simp [fresh]
      · simp
      · intro id small active same
        cases same
        exact notShm id small active rfl
      · intro id small active
        exact put_other _ _ (notShm id small active)
    · exact ok.procs.set childMem
    · exact ok.clock
  · exact ok.shape.write there holds
  · exact ok.tabs

/-! ## One entry -/

/-- The part of `forkLeaf` about an entry that is present. -/
def forkPresent (cpu pid uva : Nat) (child parent : PteLoc) : MmRoutine Unit := do
  let entry ← readPte parent
  stopIf (entry.xwr = false) .corrupt
  if entry.shared then
    stopIf (entry.cow = true) .corrupt
    let frame ← allocPage cpu pid uva
    let entry ← readPte parent
    modify fun mm => { mm with frames := put mm.frames frame (mm.frames entry.pgidx) }
    let new ← readPte child
    writePte child ({ new with pfn := framePfn frame }).setVurwxad
  else if entry.cow then
    writePte child entry
    let pgidx := entry.pgidx
    let mm ← get
    stopIf (mm.pgCharmap pgidx ≠ cmapShared ∨ uprocMax < mm.pgUva pgidx) .corrupt
    set { mm with pgUva := put mm.pgUva pgidx (mm.pgUva pgidx + 1) }
  else
    let entry := { entry with cow := true, w := false }
    writePte parent entry
    writePte child entry
    modify fun mm =>
      { mm with
        pgCharmap := put mm.pgCharmap entry.pgidx cmapShared
        pgUva := put mm.pgUva entry.pgidx 2 }

/-- A page in the swap partition is brought back first. -/
theorem forkLeaf_eq (cpu pid uva : Nat) (child parent : PteLoc) :
    forkLeaf cpu pid uva child parent = (do
      let entry ← readPte parent
      if entry = Pte.zero then return ()
      else
        if entry.v = false then discard (swapFromDisk cpu parent uva) else pure ()
        forkPresent cpu pid uva child parent) := rfl

/--
How far `do_fork` has come: the child has no pages from a bound on, and only some tables.

Frames that the child keeps in common are those of its parent, page for page.
-/
structure Forked (role : Nat → Role) (space : Nat → Nat → Leaf) (procs : Finset Nat)
    (parent child : Nat) (made : List Nat → Bool) (bound : Nat) (mm : Mm) : Prop where
  /-- The state is consistent. -/
  ok : Ok mm role space procs none
  /-- Frames in common are common to both. -/
  common : ∀ vpn frame, (space child vpn).Uses frame → (space parent vpn).Uses frame
  /-- The child has no page from the bound on. -/
  fresh : ∀ vpn, bound ≤ vpn → space child vpn = .untouched
  /-- The child's tables are those made so far. -/
  nodes : ∀ table path, role table = .node child path → made path = true

section Entries

variable {cpu uva parent child bound : Nat} {made : List Nat → Bool} {ploc cloc : PteLoc}

/-- The next page is done in both processes. -/
theorem Forked.settle {next : Mm} (differ : child ≠ parent) {pleaf cleaf : Leaf}
    (common : ∀ vpn frame, vpn ≠ bound → (space child vpn).Uses frame →
      (space parent vpn).Uses frame)
    (fresh : ∀ vpn, bound ≤ vpn → space child vpn = .untouched)
    (nodes : ∀ table path, role table = .node child path → made path = true)
    (both : ∀ frame, cleaf.Uses frame → pleaf.Uses frame)
    (ok : Ok next role (setLeaf (setLeaf space parent bound pleaf) child bound cleaf) procs none) :
    Forked role (setLeaf (setLeaf space parent bound pleaf) child bound cleaf) procs parent child
      made (bound + 1) next := by
  have parents : ∀ vpn, ¬ (parent = child ∧ vpn = bound) := fun _ same => differ same.1.symm
  have childs : ∀ vpn, ¬ (child = parent ∧ vpn = bound) := fun _ same => differ same.1
  refine ⟨ok, ?_, ?_, nodes⟩
  · intro vpn frame uses
    rw [setLeaf_other (parents vpn)]
    by_cases here : vpn = bound
    · subst here
      rw [setLeaf_same] at uses ⊢
      exact both frame uses
    · rw [setLeaf_other (fun same => here same.2), setLeaf_other (childs vpn)] at uses
      rw [setLeaf_other (fun same => here same.2)]
      exact common vpn frame here uses
  · intro vpn above
    rw [setLeaf_other (fun same => by omega), setLeaf_other (childs vpn)]
    exact fresh vpn (by omega)

/-- A page of the parent alone becomes copy-on-write in both processes. -/
theorem forkPresent_private {frame : Nat} (differ : child ≠ parent)
    (common : ∀ vpn frame, vpn ≠ bound → (space child vpn).Uses frame →
      (space parent vpn).Uses frame)
    (fresh : ∀ vpn, bound ≤ vpn → space child vpn = .untouched)
    (nodes : ∀ table path, role table = .node child path → made path = true)
    (ok : Ok { mm with tables := writeAt mm.tables ploc Pte.zero } role
      (setLeaf space parent bound .untouched) procs (some frame))
    (holds : (Leaf.priv frame).Holds (mm.tables ploc.table ploc.index))
    (here : AtLeaf role parent bound ploc) (there : AtLeaf role child bound cloc)
    (mem : parent ∈ procs) (childMem : child ∈ procs) :
    Meets accepted (forkPresent cpu child uva cloc ploc) mm fun _ next =>
      Forked role (setLeaf (setLeaf space parent bound (.cow frame)) child bound (.cow frame)) procs
        parent child made (bound + 1) next ∧ next.shmCtrl = mm.shmCtrl := by
  obtain ⟨a, d, entry⟩ := holds
  unfold forkPresent
  simp only [meets_readPte_bind]
  rw [entry]
  apply meets_stopIf_bind
  · simp [Leaf.pte, userPte, Pte.xwr]
  intro _
  rw [if_neg (by simp [Leaf.pte, userPte]), if_neg (by simp [Leaf.pte, userPte])]
  have pgidx : ((Leaf.cow frame).pte a d).pgidx = frame := pgidx_userPte frame a d
  -- With the bits changed, the entry is that of a copy-on-write page.
  change Meets accepted (do
    writePte ploc ((Leaf.cow frame).pte a d)
    writePte cloc ((Leaf.cow frame).pte a d)
    modify fun mm =>
      { mm with
        pgCharmap := put mm.pgCharmap ((Leaf.cow frame).pte a d).pgidx cmapShared
        pgUva := put mm.pgUva ((Leaf.cow frame).pte a d).pgidx 2 }) mm _
  rw [pgidx]
  simp only [meets_writePte_bind, meets_modify]
  refine ⟨?_, trivial⟩
  apply Forked.settle differ common fresh nodes (fun _ uses => uses)
  exact ok.shareTwo ⟨a, d, rfl⟩ here there differ (fresh bound (Nat.le_refl _)) mem childMem

/-- The child joins the users of a copy-on-write page. -/
theorem forkPresent_cow {frame : Nat} (differ : child ≠ parent)
    (forked : Forked role space procs parent child made bound mm)
    (is : space parent bound = .cow frame) (here : AtLeaf role parent bound ploc)
    (there : AtLeaf role child bound cloc) (childMem : child ∈ procs) :
    Meets accepted (forkPresent cpu child uva cloc ploc) mm fun _ next =>
      Forked role (setLeaf space child bound (.cow frame)) procs parent child made (bound + 1)
        next ∧ next.shmCtrl = mm.shmCtrl := by
  have ok := forked.ok
  obtain ⟨a, d, entry⟩ := ok.shape.holds_at here
  rw [is] at entry
  have pgidx : ((Leaf.cow frame).pte a d).pgidx = frame := pgidx_userPte frame a d
  obtain ⟨inside, marked⟩ := ok.frames.multi parent bound frame (Or.inl is)
  obtain ⟨-, few⟩ := ok.count_bounds (Or.inl is)
  unfold forkPresent
  simp only [meets_readPte_bind]
  rw [entry]
  apply meets_stopIf_bind
  · simp [Leaf.pte, userPte, Pte.xwr]
  intro _
  rw [if_neg (by simp [Leaf.pte, userPte]), if_pos (by simp [Leaf.pte])]
  rw [pgidx]
  simp only [meets_writePte_bind, meets_get_bind]
  apply meets_stopIf_bind
  · intro fails
    obtain unmarked | many := fails
    · exact absurd marked unmarked
    · omega
  intro _
  simp only [meets_set]
  -- The child uses no frame at another page than its parent does.
  have unused : ∀ page, ¬ (space child page).Uses frame := by
    intro page uses
    have same := ok.frames.once parent page bound frame (forked.common page frame uses) (Or.inl is)
    subst same
    rw [forked.fresh page (Nat.le_refl _)] at uses
    simp [Leaf.Uses] at uses
  have more := ok.shareMore ⟨a, d, rfl⟩ there (forked.fresh bound (Nat.le_refl _)) unused is
    childMem
  have same := setLeaf_self is
  rw [← same] at more
  have settled := Forked.settle differ (fun vpn frame _ => forked.common vpn frame) forked.fresh
    forked.nodes (fun _ uses => uses) more
  rw [same] at settled
  exact ⟨settled, trivial⟩

/-- The child gets a copy of a shared page. -/
theorem forkPresent_shared {frame : Nat} (hang : accepted .noVictim) (full : accepted .noSwapPage)
    (differ : child ≠ parent) (forked : Forked role space procs parent child made bound mm)
    (homed : Homed mm role procs) (is : space parent bound = .shared frame)
    (here : AtLeaf role parent bound ploc) (there : AtLeaf role child bound cloc)
    (childMem : child ∈ procs) (addr : bound < 2 ^ 20 → uva / normalPageSize = bound) :
    Meets accepted (forkPresent cpu child uva cloc ploc) mm fun _ next => ∃ space',
      Forked role space' procs parent child made (bound + 1) next ∧
        Copies space space' parent child ∧ next.shmCtrl = mm.shmCtrl := by
  have ok := forked.ok
  obtain ⟨a, d, entry⟩ := ok.shape.holds_at here
  rw [is] at entry
  unfold forkPresent
  simp only [meets_readPte_bind]
  rw [entry]
  apply meets_stopIf_bind
  · simp [Leaf.pte, userPte, Pte.xwr]
  intro _
  rw [if_pos (by simp [Leaf.pte])]
  apply meets_stopIf_bind
  · simp [Leaf.pte, userPte]
  intro _
  apply Meets.bind (allocPage_meets hang full uva (ok.procs.named child childMem) ok homed)
  intro fresh next allocated
  obtain ⟨space', gives⟩ := allocated
  simp only [meets_readPte_bind, meets_modify_bind, meets_writePte]
  have fresh' : ∀ vpn, bound ≤ vpn → space' child vpn = .untouched := by
    intro vpn above
    exact gives.evicts.untouched (forked.fresh vpn above)
  have small : bound < 2 ^ 20 := ok.shm.low parent bound frame is
  have zero : next.tables cloc.table cloc.index = Pte.zero :=
    (gives.ok.shape.holds_at there).zero_iff.mpr (fresh' bound (Nat.le_refl _))
  have mapped := (gives.ok.withFrames (put next.frames fresh
      (next.frames (next.tables ploc.table ploc.index).pgidx))).map childMem gives.owner
    (by rw [gives.addr, addr small]) (fresh' bound (Nat.le_refl _)) there
    (⟨true, true, by rw [zero]; rfl⟩ : (Leaf.priv fresh).Holds
      ({ next.tables cloc.table cloc.index with pfn := framePfn fresh }).setVurwxad)
  refine ⟨setLeaf space' child bound (.priv fresh), ⟨mapped, ?_, ?_, forked.nodes⟩, ?_,
    gives.evicts.shmCtrl⟩
  · intro vpn other uses
    have parents : ¬ (parent = child ∧ vpn = bound) := fun same => differ same.1.symm
    rw [setLeaf_other parents]
    by_cases same : vpn = bound
    · subst same
      rw [setLeaf_same] at uses
      simp [Leaf.Uses] at uses
    · rw [setLeaf_other (fun both => same both.2)] at uses
      have before := forked.common vpn other (gives.evicts.uses_before uses)
      rw [gives.evicts.uses before]
      exact before
  · intro vpn above
    rw [setLeaf_other (fun both => by omega)]
    exact fresh' vpn (by omega)
  · exact (gives.evicts.copies parent child).setLeaf (by simp [is]) _

/-- One entry of the last level: the child gets what its parent has. -/
theorem forkLeaf_meets {tcb : Tcb} (hang : accepted .noVictim) (full : accepted .noSwapPage)
    (differ : child ≠ tcb.pid) (forked : Forked role space procs tcb.pid child made bound mm)
    (homed : Homed mm role procs) (runs : mm.curCpu cpu = some tcb)
    (here : AtLeaf role tcb.pid bound ploc) (there : AtLeaf role child bound cloc)
    (childMem : child ∈ procs) (addr : bound < 2 ^ 20 → uva / normalPageSize = bound) :
    Meets accepted (forkLeaf cpu child uva cloc ploc) mm fun _ next => ∃ space',
      Forked role space' procs tcb.pid child made (bound + 1) next ∧
        Copies space space' tcb.pid child ∧ next.shmCtrl = mm.shmCtrl := by
  have ok := forked.ok
  have holds := ok.shape.holds_at here
  rw [forkLeaf_eq]
  simp only [meets_readPte_bind]
  cases is : space tcb.pid bound with
  | untouched =>
    rw [if_pos (holds.zero_iff.mpr is)]
    refine ⟨space, ⟨ok, forked.common, ?_, forked.nodes⟩, .refl space tcb.pid child, rfl⟩
    intro vpn above
    exact forked.fresh vpn (by omega)
  | priv frame =>
    have mem := ok.procs.touched tcb.pid bound (by simp [is])
    rw [is] at holds
    rw [if_neg (by rw [holds.zero_iff]; simp), if_neg (by simp [holds.v_iff])]
    apply Meets.mono (forkPresent_private differ (fun vpn frame _ => forked.common vpn frame)
      forked.fresh forked.nodes (ok.unmap is here) holds here there mem childMem)
    intro _ next settled
    refine ⟨_, settled.1, ?_, settled.2⟩
    exact ((Copies.refl space tcb.pid child).setParent (by simp [is]) _).setLeaf (by simp [is]) _
  | cow frame =>
    rw [is] at holds
    rw [if_neg (by rw [holds.zero_iff]; simp), if_neg (by simp [holds.v_iff])]
    apply Meets.mono (forkPresent_cow differ forked is here there childMem)
    intro _ next settled
    exact ⟨_, settled.1, (Copies.refl space tcb.pid child).setLeaf (by simp [is]) _, settled.2⟩
  | shared frame =>
    rw [is] at holds
    rw [if_neg (by rw [holds.zero_iff]; simp), if_neg (by simp [holds.v_iff])]
    exact forkPresent_shared hang full differ forked homed is here there childMem addr
  | swapped slot =>
    have mem := ok.procs.touched tcb.pid bound (by simp [is])
    rw [is] at holds
    rw [if_neg (by rw [holds.zero_iff]; simp), if_pos (by simp [← Bool.not_eq_true, holds.v_iff])]
    have reload : Meets accepted (discard (swapFromDisk cpu ploc uva)) mm fun _ next =>
        ∃ frame space', Reloads mm role space procs tcb.pid bound uva ploc frame next space' := by
      apply meets_discard
      apply Meets.mono (swapFromDisk_meets hang full ok homed runs is here)
      intro _ next reloaded
      obtain ⟨frame, space', -, reloads⟩ := reloaded
      exact ⟨frame, space', reloads⟩
    apply Meets.bind reload
    intro _ next reloaded
    obtain ⟨frame, space', reloads⟩ := reloaded
    have touches := reloads.touches
    -- Reloading touched no other page.
    have others : ∀ pid vpn, ¬ (pid = tcb.pid ∧ vpn = bound) →
        space' pid vpn ≠ .untouched → space pid vpn ≠ .untouched := by
      intro pid vpn apart now
      apply touches.touched apart
      rw [setLeaf_other apart]
      exact now
    have childs : ∀ vpn, ¬ (child = tcb.pid ∧ vpn = bound) := fun _ same => differ same.1
    have fresh : ∀ vpn, bound ≤ vpn → space' child vpn = .untouched := by
      intro vpn above
      by_contra now
      exact others child vpn (childs vpn) now (forked.fresh vpn above)
    have common : ∀ vpn frame, vpn ≠ bound → (space' child vpn).Uses frame →
        (space' tcb.pid vpn).Uses frame := by
      intro vpn frame apart uses
      have before := forked.common vpn frame (touches.uses_before (childs vpn)
        (by rw [setLeaf_other (childs vpn)]; exact uses))
      have stays := touches.uses (fun same => apart same.2) before
      rw [setLeaf_other (fun same => apart same.2)] at stays
      rw [stays]
      exact before
    apply Meets.mono (forkPresent_private differ common fresh forked.nodes reloads.ok reloads.entry
      here there mem childMem)
    intro _ last settled
    have copied : Copies space space' tcb.pid child := by
      intro pid vpn now
      left
      by_cases same : pid = tcb.pid ∧ vpn = bound
      · rw [same.1, same.2, is]
        simp
      · exact others pid vpn same now
    exact ⟨_, settled.1, (copied.setParent (by simp [is]) _).setLeaf (by simp [is]) _,
      settled.2.trans touches.shmCtrl⟩

end Entries

/-! ## The three loops -/

/-- The child's tables before an entry of the top level. -/
def madeBelow (vpn2 : Nat) : List Nat → Bool
  | [] => true
  | top :: _ => top < vpn2

/-- The child's tables before an entry of the middle level. -/
def madeWithin (vpn2 vpn1 : Nat) : List Nat → Bool
  | [] => true
  | [top] => top ≤ vpn2
  | top :: mid :: _ => top < vpn2 || (top == vpn2 && mid < vpn1)

/-- The middle loop starts with the tables of earlier entries. -/
theorem madeBelow_within (vpn2 : Nat) (path : List Nat) (was : madeBelow vpn2 path = true) :
    madeWithin vpn2 0 path = true := by
  match path with
  | [] => rfl
  | [top] =>
    simp only [madeBelow, madeWithin, decide_eq_true_eq] at was ⊢
    omega
  | top :: mid :: _ =>
    simp only [madeBelow, madeWithin, decide_eq_true_eq, Bool.or_eq_true] at was ⊢
    exact Or.inl was

/-- What the loops of `do_fork` have done since they started. -/
def ForkedFrom (start : Mm) (role : Nat → Role) (space : Nat → Nat → Leaf) (procs : Finset Nat)
    (parent child : Nat) (made : List Nat → Bool) (bound : Nat) (mm : Mm) : Prop :=
  ∃ role' space', Forked role' space' procs parent child made bound mm ∧ Grows role role' ∧
    NoRoots role role' ∧ Copies space space' parent child ∧ mm.tasks = start.tasks ∧
    mm.shmCtrl = start.shmCtrl

-- The bounds of the loops are numerals, which nothing should unroll.
attribute [local irreducible] forUpto

section Loops

variable {start mid : Mm} {role' : Nat → Role} {space' : Nat → Nat → Leaf} {parent child : Nat}
  {made made' : List Nat → Bool} {bound bound' : Nat} {tcb : Tcb} {cpu : Nat}

/-- Nothing done yet. -/
theorem Forked.begin (forked : Forked role space procs parent child made bound mm) :
    ForkedFrom mm role space procs parent child made bound mm :=
  ⟨role, space, forked, fun _ _ => rfl, fun _ _ is => is, .refl space parent child, rfl, rfl⟩

/-- A later start, with more tables. -/
theorem ForkedFrom.after (grows : Grows role role') (noRoots : NoRoots role role')
    (copies : Copies space space' parent child) (tasks : mid.tasks = start.tasks)
    (shm : mid.shmCtrl = start.shmCtrl)
    (done : ForkedFrom mid role' space' procs parent child made bound mm) :
    ForkedFrom start role space procs parent child made bound mm := by
  obtain ⟨last, lastSpace, forked, further, fewRoots, more, same, shm'⟩ := done
  exact ⟨last, lastSpace, forked, grows.trans further, noRoots.trans fewRoots, copies.trans more,
    same.trans tasks, shm'.trans shm⟩

/-- A larger bound. -/
theorem ForkedFrom.weaken (later : bound ≤ bound')
    (more : ∀ path, made path = true → made' path = true)
    (done : ForkedFrom start role space procs parent child made bound mm) :
    ForkedFrom start role space procs parent child made' bound' mm := by
  obtain ⟨last, lastSpace, forked, rest⟩ := done
  refine ⟨last, lastSpace, ⟨forked.ok, forked.common, ?_, ?_⟩, rest⟩
  · intro vpn above
    exact forked.fresh vpn (by omega)
  · intro table path is
    exact more path (forked.nodes table path is)

/-- A table of the child is entered below another one. -/
theorem Forked.link (forked : Forked role space procs parent child made bound mm)
    {fresh above i : Nat} {path : List Nat} {next : Mm} (free : role fresh = .free)
    (inside : fresh < npt) (same : SameButTables mm next)
    (cleared : next.tables = put mm.tables fresh fun _ => Pte.zero)
    (tabs : TabsOk next.pgtbCharmap next.pgtbFfree (put role fresh (.node child (path ++ [i]))))
    (node : role above = .node child path) (short : path.length < 2) (fits : i < room path)
    (unmade : made (path ++ [i]) = false) (more : ∀ path, made path = true → made' path = true)
    (now : made' (path ++ [i]) = true) :
    Forked (put role fresh (.node child (path ++ [i]))) space procs parent child made' bound
      { next with
        tables := put next.tables above (put (next.tables above) i
          { next.tables above i with pfn := tablePfn fresh, v := true }) } := by
  have missing : ∀ other, role other ≠ .node child (path ++ [i]) := by
    intro other is
    rw [forked.nodes other _ is] at unmade
    cases unmade
  have apart : above ≠ fresh := by
    intro same
    rw [same, free] at node
    cases node
  have zero : mm.tables above i = Pte.zero := by
    obtain ⟨zero, -⟩ | ⟨table, is, -⟩ := forked.ok.shape.inner above child path i node short fits
    · exact zero
    · exact absurd is (missing table)
  have grown := forked.ok.shape.grow free inside node short fits missing
  refine ⟨?_, forked.common, forked.fresh, ?_⟩
  · rw [same] at tabs ⊢
    refine { forked.ok with shape := ?_, tabs := tabs }
    simpa only [cleared, put_other _ _ apart, zero, tablePte] using grown
  · intro table owned is
    by_cases here : table = fresh
    · rw [here, put_same] at is
      cases is
      exact now
    · rw [put_other _ _ here] at is
      exact more owned (forked.nodes table owned is)

/-- The processes run as before. -/
theorem curCpu_of_tasks {next : Mm} (same : next.tasks = mm.tasks) :
    next.curCpu cpu = mm.curCpu cpu := by
  have tables : next.pcbTable = mm.pcbTable := congrArg Prod.fst same
  have current : next.current = mm.current := congrArg (fun part => part.2.1) same
  unfold Mm.curCpu
  rw [tables, current]

/-- The entry of a page in the table of its last level. -/
theorem atLeaf_vpnOf {table pid vpn2 vpn1 vpn0 : Nat} (node : role table = .node pid [vpn2, vpn1])
    (mid : vpn1 < numPteEntry) (low : vpn0 < numPteEntry) :
    AtLeaf role pid (vpnOf vpn2 vpn1 vpn0) ⟨0, table, vpn0⟩ := by
  refine ⟨rfl, ?_, (vpnOf_low low).symm⟩
  rw [vpnOf_top mid low, vpnOf_mid mid low]
  exact node

/-- One round of the innermost loop. -/
theorem forkStep_meets (hang : accepted .noVictim) (full : accepted .noSwapPage)
    {vpn2 vpn1 vpn0 l0 l0p : Nat} (differ : child ≠ tcb.pid) (homed : Homed start role procs)
    (runs : start.curCpu cpu = some tcb) (childMem : child ∈ procs)
    (node : role l0 = .node child [vpn2, vpn1]) (pnode : role l0p = .node tcb.pid [vpn2, vpn1])
    (mid : vpn1 < numPteEntry) (low : vpn0 < numPteEntry)
    (done : ForkedFrom start role space procs tcb.pid child made (vpnOf vpn2 vpn1 0 + vpn0) mm) :
    Meets accepted (forkLeaf cpu child (vpn2va vpn2 vpn1 vpn0) ⟨0, l0, vpn0⟩ ⟨0, l0p, vpn0⟩) mm
      fun _ => ForkedFrom start role space procs tcb.pid child made
        (vpnOf vpn2 vpn1 0 + (vpn0 + 1)) := by
  obtain ⟨role', space', forked, grows, noRoots, copies, tasks, shm⟩ := done
  have node' : role' l0 = .node child [vpn2, vpn1] := by rw [grows _ (by simp [node]), node]
  have pnode' : role' l0p = .node tcb.pid [vpn2, vpn1] := by
    rw [grows _ (by simp [pnode]), pnode]
  have bound : vpnOf vpn2 vpn1 0 + vpn0 = vpnOf vpn2 vpn1 vpn0 := by
    simp only [vpnOf]
    omega
  have addr : vpnOf vpn2 vpn1 vpn0 < 2 ^ 20 →
      vpn2va vpn2 vpn1 vpn0 / normalPageSize = vpnOf vpn2 vpn1 vpn0 := by
    intro small
    simp only [vpn2va, vpnOf, u32, normalPageSize] at *
    omega
  have runs' : mm.curCpu cpu = some tcb := by rw [curCpu_of_tasks tasks, runs]
  rw [bound] at forked
  apply Meets.mono (meets_both (forkLeaf_meets hang full differ forked
    (homed.later grows (congrArg Prod.fst tasks)) runs' (atLeaf_vpnOf pnode' mid low)
    (atLeaf_vpnOf node' mid low) childMem addr) ((forkLeaf_tasks _ _ _ _ _).meets mm))
  intro _ next both
  obtain ⟨⟨space'', forked', more, shm'⟩, same⟩ := both
  rw [← bound, Nat.add_assoc] at forked'
  exact ⟨role', space'', forked', grows, noRoots, copies.trans more, same.trans tasks,
    shm'.trans shm⟩

/-- One entry of the middle level: a table of the last level for the child. -/
theorem forkL1Entry_meets (exhausted : accepted .noPageTable) (hang : accepted .noVictim)
    (full : accepted .noSwapPage) {vpn2 vpn1 l1 l1p : Nat} (differ : child ≠ tcb.pid)
    (homed : Homed start role procs) (runs : start.curCpu cpu = some tcb)
    (childMem : child ∈ procs) (node : role l1 = .node child [vpn2])
    (pnode : role l1p = .node tcb.pid [vpn2]) (fits : vpn1 < numPteEntry)
    (done : ForkedFrom start role space procs tcb.pid child (madeWithin vpn2 vpn1)
      (vpnOf vpn2 vpn1 0) mm) :
    Meets accepted (forkL1Entry cpu child vpn2 vpn1 l1 l1p) mm fun _ =>
      ForkedFrom start role space procs tcb.pid child (madeWithin vpn2 (vpn1 + 1))
        (vpnOf vpn2 (vpn1 + 1) 0) := by
  have more : ∀ path, madeWithin vpn2 vpn1 path = true →
      madeWithin vpn2 (vpn1 + 1) path = true := by
    intro path was
    match path with
    | [] => rfl
    | [_] => exact was
    | top :: mid :: _ =>
      simp only [madeWithin, Bool.or_eq_true, Bool.and_eq_true, decide_eq_true_eq, beq_iff_eq]
        at was ⊢
      omega
  have later : vpnOf vpn2 vpn1 0 ≤ vpnOf vpn2 (vpn1 + 1) 0 := by
    simp only [vpnOf]
    omega
  obtain ⟨role', space', forked, grows, noRoots, copies, tasks, shm⟩ := id done
  have node' : role' l1 = .node child [vpn2] := by rw [grows _ (by simp [node]), node]
  have pnode' : role' l1p = .node tcb.pid [vpn2] := by rw [grows _ (by simp [pnode]), pnode]
  have inRoom : vpn1 < room [vpn2] := by simpa [room] using fits
  unfold forkL1Entry
  simp only [meets_readPte_bind]
  obtain ⟨zero, -⟩ | ⟨l0p, is, leads⟩ := forked.ok.shape.inner l1p tcb.pid [vpn2] vpn1 pnode'
    (by simp) inRoom
  · rw [zero]
    exact done.weaken later more
  · rw [leads, if_pos (tablePte_v l0p)]
    apply meets_stopIf_bind
    · simp
    intro _
    have named := forked.ok.procs.named child childMem
    apply Meets.bind (meets_both (allocPagetable_meets forked.ok.tabs named.1 named.2 exhausted)
      ((allocPagetable_tasks child).meets mm))
    intro l0 next allocated
    obtain ⟨⟨free, inside, same, cleared, tabs⟩, nextTasks⟩ := allocated
    have nextShm : next.shmCtrl = mm.shmCtrl := by rw [same]
    have inTables : l0p < npt := forked.ok.shape.inside l0p (by rw [is]; simp)
    rw [meets_tableOf_bind (tablePte_table inTables)]
    simp only [meets_readPte_bind, meets_writePte_bind]
    have linked := forked.link free inside same cleared (tabs _) node' (by simp) inRoom
      (by simp [madeWithin]) more (by simp [madeWithin])
    -- From here on the loop starts afresh, with the new table.
    have node0 : put role' l0 (.node child [vpn2, vpn1]) l0 = .node child [vpn2, vpn1] :=
      put_same ..
    have pnode0 : put role' l0 (.node child [vpn2, vpn1]) l0p = .node tcb.pid [vpn2, vpn1] := by
      rw [grows_put free _ _ (by rw [is]; simp), is]
      rfl
    have homed' := (homed.later grows (congrArg Prod.fst tasks)).later
      (grows_put free (.node child [vpn2, vpn1])) (congrArg Prod.fst nextTasks)
    have runs' : next.curCpu cpu = some tcb := by
      rw [curCpu_of_tasks (nextTasks.trans tasks), runs]
    rw [← Nat.add_zero (vpnOf vpn2 vpn1 0)] at linked
    apply Meets.mono (meets_forUpto (fun vpn0 here => ForkedFrom _ _ _ procs tcb.pid child
      (madeWithin vpn2 (vpn1 + 1)) (vpnOf vpn2 vpn1 0 + vpn0) here) numPteEntry linked.begin ?_)
    swap
    · intro vpn0 low here done
      exact forkStep_meets hang full differ homed' runs' childMem node0 pnode0 fits low done
    intro _ last finished
    have bound : vpnOf vpn2 vpn1 0 + numPteEntry = vpnOf vpn2 (vpn1 + 1) 0 := by
      simp only [vpnOf, numPteEntry]
      omega
    rw [bound] at finished
    exact (finished.after (grows_put free _) noRoots_put (.refl space' tcb.pid child)
      nextTasks nextShm).after grows noRoots copies tasks shm

/-- One entry of the top level: a table of the middle level for the child. -/
theorem forkL2Entry_meets (exhausted : accepted .noPageTable) (hang : accepted .noVictim)
    (full : accepted .noSwapPage) {vpn2 pgdir pgdirp : Nat} (differ : child ≠ tcb.pid)
    (homed : Homed start role procs) (runs : start.curCpu cpu = some tcb)
    (childMem : child ∈ procs) (node : role pgdir = .node child [])
    (pnode : role pgdirp = .node tcb.pid []) (fits : vpn2 < numPteEntry / 2)
    (done : ForkedFrom start role space procs tcb.pid child (madeBelow vpn2) (vpnOf vpn2 0 0) mm) :
    Meets accepted (forkL2Entry cpu child vpn2 pgdir pgdirp) mm fun _ =>
      ForkedFrom start role space procs tcb.pid child (madeBelow (vpn2 + 1))
        (vpnOf (vpn2 + 1) 0 0) := by
  have later : vpnOf vpn2 0 0 ≤ vpnOf (vpn2 + 1) 0 0 := by
    simp only [vpnOf]
    omega
  obtain ⟨role', space', forked, grows, noRoots, copies, tasks, shm⟩ := id done
  have node' : role' pgdir = .node child [] := by rw [grows _ (by simp [node]), node]
  have pnode' : role' pgdirp = .node tcb.pid [] := by rw [grows _ (by simp [pnode]), pnode]
  have inRoom : vpn2 < room [] := by simpa [room] using fits
  unfold forkL2Entry
  simp only [meets_readPte_bind]
  obtain ⟨zero, -⟩ | ⟨l1p, is, leads⟩ := forked.ok.shape.inner pgdirp tcb.pid [] vpn2 pnode'
    (by simp) inRoom
  · rw [zero]
    apply done.weaken later
    intro path was
    cases path with
    | nil => rfl
    | cons top _ =>
      simp only [madeBelow, decide_eq_true_eq] at was ⊢
      omega
  · rw [leads, if_pos (tablePte_v l1p)]
    apply meets_stopIf_bind
    · simp
    intro _
    have named := forked.ok.procs.named child childMem
    apply Meets.bind (meets_both (allocPagetable_meets forked.ok.tabs named.1 named.2 exhausted)
      ((allocPagetable_tasks child).meets mm))
    intro l1 next allocated
    obtain ⟨⟨free, inside, same, cleared, tabs⟩, nextTasks⟩ := allocated
    have nextShm : next.shmCtrl = mm.shmCtrl := by rw [same]
    have inTables : l1p < npt := forked.ok.shape.inside l1p (by rw [is]; simp)
    rw [meets_tableOf_bind (tablePte_table inTables)]
    simp only [meets_readPte_bind, meets_writePte_bind]
    have linked := forked.link free inside same cleared (tabs _) node' (by simp) inRoom
      (by simp [madeBelow]) (madeBelow_within vpn2) (by simp [madeWithin])
    have node1 : put role' l1 (.node child [vpn2]) l1 = .node child [vpn2] := put_same ..
    have pnode1 : put role' l1 (.node child [vpn2]) l1p = .node tcb.pid [vpn2] := by
      rw [grows_put free _ _ (by rw [is]; simp), is]
      rfl
    have homed' := (homed.later grows (congrArg Prod.fst tasks)).later
      (grows_put free (.node child [vpn2])) (congrArg Prod.fst nextTasks)
    have runs' : next.curCpu cpu = some tcb := by
      rw [curCpu_of_tasks (nextTasks.trans tasks), runs]
    apply Meets.mono (meets_forUpto (fun vpn1 here => ForkedFrom _ _ _ procs tcb.pid child
      (madeWithin vpn2 vpn1) (vpnOf vpn2 vpn1 0) here) numPteEntry linked.begin ?_)
    swap
    · intro vpn1 low here done
      exact forkL1Entry_meets exhausted hang full differ homed' runs' childMem node1 pnode1 low done
    intro _ last finished
    have bound : vpnOf vpn2 numPteEntry 0 = vpnOf (vpn2 + 1) 0 0 := by
      simp only [vpnOf, numPteEntry]
      omega
    rw [bound] at finished
    apply ((finished.after (grows_put free _) noRoots_put (.refl space' tcb.pid child)
      nextTasks nextShm).after grows noRoots copies tasks shm).weaken (Nat.le_refl _)
    intro path was
    cases path with
    | nil => rfl
    | cons top below =>
      cases below with
      | nil =>
        simp only [madeWithin, madeBelow, decide_eq_true_eq] at was ⊢
        omega
      | cons mid _ =>
        simp only [madeWithin, madeBelow, Bool.or_eq_true, Bool.and_eq_true, decide_eq_true_eq,
          beq_iff_eq] at was ⊢
        omega

end Loops

/-! ## The whole call -/

/-- A free identifier is one of a user process. -/
theorem allocPid_named {pid : Nat} (found : allocPid mm = some pid) : Named pid := by
  unfold allocPid at found
  have test := List.find?_some found
  have inRange := List.mem_range.mp (List.mem_of_find?_eq_some found)
  simp only [decide_eq_true_eq] at test
  exact ⟨test.1, by omega⟩

/-- A PCB is added while there is room. -/
theorem meets_pcbTableAdd_bind {B : Type} {tcb : Tcb} {rest : Unit → MmRoutine B}
    {after : B → Mm → Prop} (room : mm.procNum < uprocMax + ncpu) :
    Meets accepted (pcbTableAdd tcb >>= rest) mm after ↔
      Meets accepted (rest ()) { mm with pcbTable := mm.pcbTable ++ [tcb] } after := by
  unfold pcbTableAdd
  have passes : ¬ uprocMax + ncpu ≤ mm.procNum := by omega
  simp only [bind_assoc, meets_get_bind, stopIf, if_neg passes, meets_pure_bind, meets_set_bind]

/-- A process that does not live has no page tables. -/
theorem TasksOk.absent {tables : Nat → Nat → Pte} (tasks : TasksOk mm role procs)
    (shape : Shape tables role space) {pid : Nat} (fresh : ∀ tcb ∈ mm.pcbTable, tcb.pid ≠ pid)
    (table : Nat) (path : List Nat) : role table ≠ .node pid path := by
  intro node
  obtain ⟨top, isTop⟩ := shape.root_of_node node
  obtain ⟨tcb, inTable, isPid⟩ := tasks.alive pid (tasks.roots top pid isTop)
  exact fresh tcb inTable isPid

/-- One more process, which has no pages yet. -/
theorem ProcsOk.insert (procsOk : ProcsOk space procs) {pid : Nat} (named : Named pid)
    (room : procs.card < uprocMax) : ProcsOk space (insert pid procs) where
  touched other vpn touched := Finset.mem_insert_of_mem (procsOk.touched other vpn touched)
  named other mem := by
    obtain rfl | old := Finset.mem_insert.mp mem
    · exact named
    · exact procsOk.named other old
  few := Nat.le_trans (Finset.card_insert_le pid procs) room

/-- A new process gets a top table, with the kernel's half of another one. -/
theorem Ok.plant {mid : Mm} {pgdir src pid : Nat} (ok : Ok mm role space procs none)
    (free : role pgdir = .free) (inside : pgdir < npt) (same : SameButTables mm mid)
    (cleared : mid.tables = put mm.tables pgdir fun _ => Pte.zero)
    (tabs : TabsOk mid.pgtbCharmap mid.pgtbFfree (put role pgdir (.node pid [])))
    (absent : ∀ table path, role table ≠ .node pid path) (named : Named pid)
    (room : procs.card < uprocMax) (kernel : src = 0 ∨ ∃ other, role src = .node other [])
    (pcbTable : List Tcb) :
    Ok { mid with
      pcbTable
      tables := put mid.tables pgdir fun index =>
        if numPteEntry / 2 ≤ index then mid.tables src index else mid.tables pgdir index }
      (put role pgdir (.node pid [])) space (insert pid procs) none := by
  have planted := ok.shape.plant free inside absent
  have kernel' : src = 0 ∨ ∃ other, put role pgdir (.node pid []) src = .node other [] := by
    obtain zero | ⟨other, is⟩ := kernel
    · exact Or.inl zero
    · exact Or.inr ⟨other, by rw [grows_put free _ _ (by rw [is]; simp), is]⟩
  have shared := planted.share (put_same ..) kernel'
  rw [← cleared] at shared
  rw [same] at tabs ⊢
  exact
    { ok with
      procs := ok.procs.insert named room
      shape := shared
      tabs := tabs }

/-- What a `do_fork` that succeeds does. -/
structure DidFork (mm : Mm) (role : Nat → Role) (space : Nat → Nat → Leaf) (procs : Finset Nat)
    (ccpu : Tcb) (child : Nat) (next : Mm) (role' : Nat → Role) (space' : Nat → Nat → Leaf) :
    Prop where
  /-- The state is consistent, with one more process. -/
  ok : Ok next role' space' (insert child procs) none
  /-- So are the PCBs. -/
  tasks : TasksOk next role' (insert child procs)
  /-- The child's identifier was free. -/
  fresh : ∀ tcb ∈ mm.pcbTable, tcb.pid ≠ child
  /-- The child's PCB is the last one. -/
  pcbTable : ∃ pgdir,
    next.pcbTable = mm.pcbTable ++ [⟨child, 0, pgdir, ccpu.segStart, ccpu.segEnd⟩]
  /-- The processors run what they did. -/
  current : next.current = mm.current
  /-- The repetition count of page faults. -/
  fault : next.fault = mm.fault
  /-- The child has touched nothing that its parent has not. -/
  copies : Copies space space' ccpu.pid child
  /-- Shared pages have the users they had. -/
  shmCtrl : next.shmCtrl = mm.shmCtrl

/-- `do_fork` adds a process with copies of the pages of its parent, or does nothing. -/
theorem doFork_meets (exhausted : accepted .noPageTable) (hang : accepted .noVictim)
    (full : accepted .noSwapPage) {cpu : Nat} {ccpu : Tcb} (noHeap : Bool)
    (ok : Ok mm role space procs none) (tasks : TasksOk mm role procs)
    (runs : mm.curCpu cpu = some ccpu) (isUser : ncpu ≤ ccpu.pid) :
    Meets accepted (doFork cpu noHeap) mm fun out next =>
      (out = none ∧ next = mm) ∨ ∃ child role' space', out = some child ∧
        DidFork mm role space procs ccpu child next role' space' := by
  obtain ⟨-, proot⟩ := tasks.home ccpu (TasksOk.current_mem runs) isUser
  unfold doFork
  rw [meets_curCpu_bind runs]
  simp only [meets_get_bind]
  apply meets_ite
  · intro _
    exact Or.inl ⟨rfl, rfl⟩
  intro _
  apply meets_ite
  · intro _
    exact Or.inl ⟨rfl, rfl⟩
  intro room
  cases found : allocPid mm with
  | none => exact Or.inl ⟨rfl, rfl⟩
  | some child =>
    apply meets_ite
    · intro _
      exact Or.inl ⟨rfl, rfl⟩
    intro _
    have named := allocPid_named found
    have fresh := allocPid_fresh found
    have few : procs.card < uprocMax := by
      have := tasks.card_le
      omega
    have absent := tasks.absent ok.shape fresh
    have differ : child ≠ ccpu.pid := fun same => fresh ccpu (TasksOk.current_mem runs) same.symm
    apply Meets.bind (meets_both (allocPagetable_meets ok.tabs named.1 named.2 exhausted)
      ((allocPagetable_tasks child).meets mm))
    intro pgdir mid allocated
    obtain ⟨⟨free, inside, same, cleared, tabs⟩, midTasks⟩ := allocated
    have midTable : mid.pcbTable = mm.pcbTable := congrArg Prod.fst midTasks
    have midCurrent : mid.current = mm.current := congrArg (fun part => part.2.1) midTasks
    have midShm : mid.shmCtrl = mm.shmCtrl := by rw [same]
    have midRoom : mid.procNum < uprocMax + ncpu := by
      unfold Mm.procNum at room ⊢
      rw [midTable]
      omega
    rw [meets_pcbTableAdd_bind midRoom]
    unfold sharePgtable
    simp only [meets_modify_bind]
    have planted := ok.plant free inside same cleared (tabs []) absent named few
      (Or.inr ⟨ccpu.pid, proot⟩)
      (mid.pcbTable ++ [⟨child, 0, pgdir, ccpu.segStart, ccpu.segEnd⟩])
    have untouched : ∀ vpn, space child vpn = .untouched := by
      intro vpn
      by_contra touched
      obtain ⟨tcb, inTable, isPid⟩ := tasks.alive child (ok.procs.touched child vpn touched)
      exact fresh tcb inTable isPid
    have common : ∀ vpn frame, (space child vpn).Uses frame → (space ccpu.pid vpn).Uses frame := by
      intro vpn frame uses
      simp [untouched, Leaf.Uses] at uses
    have nodes : ∀ table path, put role pgdir (.node child []) table = .node child path →
        madeBelow 0 path = true := by
      intro table path is
      by_cases here : table = pgdir
      · rw [here, put_same] at is
        cases is
        rfl
      · rw [put_other _ _ here] at is
        exact absurd is (absent table path)
    have roots : ∀ table pid, put role pgdir (.node child []) table = .node pid [] →
        pid = child ∨ role table = .node pid [] := by
      intro table pid is
      by_cases here : table = pgdir
      · rw [here, put_same] at is
        cases is
        exact Or.inl rfl
      · rw [put_other _ _ here] at is
        exact Or.inr is
    have begun : ForkedFrom _ (put role pgdir (.node child [])) space (insert child procs) ccpu.pid
        child (madeBelow 0) (vpnOf 0 0 0) _ :=
      (Forked.mk planted common (fun vpn _ => untouched vpn) nodes).begin
    have added : TasksOk { mid with
        pcbTable := mid.pcbTable ++ [⟨child, 0, pgdir, ccpu.segStart, ccpu.segEnd⟩]
        tables := put mid.tables pgdir fun index =>
          if numPteEntry / 2 ≤ index then mid.tables ccpu.pgdir index else mid.tables pgdir index }
        (put role pgdir (.node child [])) (insert child procs) := by
      apply @TasksOk.add mm _ role _ procs tasks ⟨child, 0, pgdir, ccpu.segStart, ccpu.segEnd⟩
        (grows_put free _) roots named.1 (put_same ..)
      · rw [midTable]
      · exact midCurrent
    have pnode : put role pgdir (.node child []) ccpu.pgdir = .node ccpu.pid [] := by
      rw [grows_put free _ _ (by rw [proot]; simp), proot]
    have runs' : Mm.curCpu { mid with
        pcbTable := mid.pcbTable ++ [⟨child, 0, pgdir, ccpu.segStart, ccpu.segEnd⟩]
        tables := put mid.tables pgdir fun index =>
          if numPteEntry / 2 ≤ index then mid.tables ccpu.pgdir index else mid.tables pgdir index }
        cpu = some ccpu := by
      have before : mid.curCpu cpu = some ccpu := by rw [curCpu_of_tasks midTasks, runs]
      unfold Mm.curCpu at before ⊢
      rw [List.find?_append, before]
      rfl
    apply Meets.bind (meets_forUpto (fun vpn2 here => ForkedFrom _ _ _ _ ccpu.pid child
      (madeBelow vpn2) (vpnOf vpn2 0 0) here) (numPteEntry / 2) begun ?_)
    swap
    · intro vpn2 low here done
      exact forkL2Entry_meets exhausted hang full differ added.homed runs'
        (Finset.mem_insert_self _ _) (put_same ..) pnode low done
    intro _ next finished
    obtain ⟨role', space', forked, grows, noRoots, copies, nextTasks, nextShm⟩ := finished
    refine Or.inr ⟨child, role', space', rfl, forked.ok, added.later grows noRoots nextTasks, fresh,
      ⟨pgdir, ?_⟩, ?_, ?_, copies, nextShm.trans midShm⟩
    · have table := congrArg Prod.fst nextTasks
      exact table.trans (congrArg (· ++ _) midTable)
    · have current := congrArg (fun part => part.2.1) nextTasks
      exact current.trans midCurrent
    · have fault := congrArg (fun part => part.2.2) nextTasks
      exact fault.trans (congrArg (fun part => part.2.2) midTasks)

end GlucOS
