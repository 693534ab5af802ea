import GlucOS.Mm.PageLaws
import GlucOS.Mm.Process

/-! Loading a program: its pages are mapped one after another, and hold the bytes of the image. -/

namespace GlucOS

open Routine

variable {accepted : MmStop → Prop} {mm : Mm} {role : Nat → Role} {space : Nat → Nat → Leaf}
  {procs : Finset Nat}

/-- Only a page that was never touched shows nothing. -/
theorem view_none {frames swapPages : Nat → Page} {leaf : Leaf} :
    leaf.view frames swapPages = .none ↔ leaf = .untouched := by
  cases leaf <;> simp [Leaf.view]

/-- Writing to the frame of a private page changes what its process sees there, and nothing else. -/
theorem views_write {charmap uva : Nat → Nat} (frames : FramesOk charmap uva space none)
    {pid vpn frame : Nat} (is : space pid vpn = .priv frame) (bytes : Page) :
    views { mm with frames := put mm.frames frame bytes } space =
      setView (views mm space) pid vpn (.own bytes) := by
  obtain ⟨named, -, owner, addr, -⟩ := frames.priv pid vpn frame is
  funext otherPid otherVpn
  by_cases here : otherPid = pid ∧ otherVpn = vpn
  · obtain ⟨rfl, rfl⟩ := here
    rw [setView_same, views, is]
    simp [Leaf.view, put]
  · rw [setView_other here]
    refine @views_congr mm { mm with frames := put mm.frames frame bytes } space space otherPid
      otherVpn rfl ?_ fun _ _ => rfl
    intro other uses
    -- No other page is at this frame.
    have apart : other ≠ frame := by
      rintro rfl
      rcases uses with priv | common
      · obtain ⟨-, -, owner', addr', -⟩ := frames.priv _ _ _ priv
        apply here
        refine ⟨owner'.symm.trans owner, ?_⟩
        simp only [normalPageSize] at addr addr'
        omega
      · obtain ⟨-, common'⟩ := frames.multi _ _ _ common
        exact named.not_shared (owner.symm.trans common')
    simp [put, apart]

/-- Bytes of a frame play no part in the invariant. -/
theorem Ok.withFrames {held : Option Nat} (ok : Ok mm role space procs held)
    (frames : Nat → Page) : Ok { mm with frames } role space procs held := by
  exact { ok with }

/-- The first pages of a program are mapped, and those filled hold the bytes of the image. -/
def LoadedTo (img : TaskImg) (pgdir pid : Nat) (procs : Finset Nat) (old : Nat → Nat → View)
    (pages : Nat) (mm : Mm) : Prop :=
  ∃ role space, Ok mm role space procs none ∧ Homed mm role procs ∧
    role pgdir = .node pid [] ∧
    -- Only the pages loaded look different.
    (∀ otherPid vpn, ¬ (otherPid = pid ∧ img.vaddr / normalPageSize ≤ vpn ∧
      vpn < img.vaddr / normalPageSize + pages) → views mm space otherPid vpn = old otherPid vpn) ∧
    ∀ k < pages, ∃ bytes, views mm space pid (img.vaddr / normalPageSize + k) = .own bytes ∧
      ∀ offset < normalPageSize, k * normalPageSize + offset < img.fsize →
        bytes offset = img.byte (k * normalPageSize + offset)

/-- The address of a page of a program. -/
theorem page_addr {vaddr : Nat} (aligned : vaddr % normalPageSize = 0) (i : Nat) :
    (vaddr + i * normalPageSize) / normalPageSize = vaddr / normalPageSize + i := by
  simp only [normalPageSize] at *
  omega

/-- One more page is mapped, and written with these bytes where the image has any. -/
theorem LoadedTo.next (exhausted : accepted .noPageTable) (hang : accepted .noVictim)
    (full : accepted .noSwapPage) {cpu pgdir pid pages : Nat} {img : TaskImg}
    {old : Nat → Nat → View} (loaded : LoadedTo img pgdir pid procs old pages mm)
    (aligned : img.vaddr % normalPageSize = 0) (mem : pid ∈ procs)
    (user : img.vaddr + pages * normalPageSize < userVpns * normalPageSize)
    (fresh : old pid (img.vaddr / normalPageSize + pages) = .none) :
    Meets accepted (allocPageHelper cpu (img.vaddr + pages * normalPageSize) pgdir pid) mm
      fun frame next => ∀ bytes : Page,
        (∀ offset < normalPageSize, pages * normalPageSize + offset < img.fsize →
          bytes offset = img.byte (pages * normalPageSize + offset)) →
        LoadedTo img pgdir pid procs old (pages + 1)
          { next with frames := put next.frames frame bytes } := by
  obtain ⟨role, space, ok, homed, root, others, own⟩ := loaded
  have untouched : space pid ((img.vaddr + pages * normalPageSize) / normalPageSize) =
      .untouched := by
    apply view_none.mp
    change views mm space pid _ = .none
    rw [page_addr aligned, others pid _ (by omega)]
    exact fresh
  apply Meets.mono (allocPageHelper_meets exhausted hang full ok homed mem root user untouched)
  rintro frame next ⟨role', space', ok', grows, frames, touches, -⟩ bytes right
  rw [page_addr aligned] at touches
  have homed' : Homed next role' procs := by
    intro other member
    obtain ⟨tcb, found, isRoot⟩ := homed other member
    refine ⟨tcb, ?_, ?_⟩
    · rw [Mm.pcbSearch, touches.pcbTable]
      exact found
    · rw [grows _ (by simp [isRoot]), isRoot]
  have look : views { next with frames := put next.frames frame bytes } space' =
      setView (views mm space) pid (img.vaddr / normalPageSize + pages) (.own bytes) := by
    rw [views_write ok'.frames touches.backed, touches.views]
    funext otherPid otherVpn
    by_cases here : otherPid = pid ∧ otherVpn = img.vaddr / normalPageSize + pages
    · rw [here.1, here.2, setView_same, setView_same]
    · rw [setView_other here, setView_other here, setView_other here]
  refine ⟨role', space', ok'.withFrames _, homed', by rw [grows _ (by simp [root]), root], ?_, ?_⟩
  · intro otherPid vpn apart
    rw [look, setView_other (by omega)]
    exact others otherPid vpn (by omega)
  · intro k small
    rw [look]
    by_cases last : k = pages
    · subst last
      exact ⟨bytes, setView_same _ _ _ _, right⟩
    · obtain ⟨held, is, holds⟩ := own k (by omega)
      exact ⟨held, by rw [setView_other (by omega), is], holds⟩

/-- A routine whose answer is not used. -/
theorem meets_discard {A : Type} {routine : MmRoutine A} {post : Unit → Mm → Prop}
    (meets : Meets accepted routine mm fun _ => post ()) :
    Meets accepted (discard routine) mm post := by
  change Meets accepted (routine >>= fun _ => pure ()) mm post
  apply meets.bind
  intro _ next reached
  rw [meets_pure]
  exact reached

/-- Writing nothing new to a frame. -/
theorem put_self {A : Type} (array : Nat → A) (index : Nat) :
    put array index (array index) = array := by
  funext other
  unfold put
  split
  · rename_i same
    rw [same]
  · rfl

/-- A page of a program begins before its end. -/
theorem page_lt {pages bytes : Nat} (inside : pages < pagesFor bytes) :
    pages * normalPageSize < bytes := by
  simp only [pagesFor, normalPageSize] at *
  omega

/-- Behind the pages that the image fills it has no bytes. -/
theorem pagesFor_le {pages bytes : Nat} (outside : pagesFor bytes ≤ pages) :
    bytes ≤ pages * normalPageSize := by
  simp only [pagesFor, normalPageSize] at *
  omega

/--
A loaded program has all its pages, and they hold its bytes.

They are counted by the larger one of the sizes.
-/
theorem loadTaskImg_meets (exhausted : accepted .noPageTable) (hang : accepted .noVictim)
    (full : accepted .noSwapPage) {cpu pgdir pid : Nat} {img : TaskImg}
    (ok : Ok mm role space procs none) (homed : Homed mm role procs) (mem : pid ∈ procs)
    (root : role pgdir = .node pid []) (aligned : img.vaddr % normalPageSize = 0)
    (user : img.vaddr + max img.fsize img.msize ≤ userVpns * normalPageSize)
    (fresh : ∀ k < max (pagesFor img.fsize) (pagesFor img.msize),
      space pid (img.vaddr / normalPageSize + k) = .untouched) :
    Meets accepted (loadTaskImg cpu img pgdir pid) mm fun value next =>
      value = (img.vaddr, roundUp (img.vaddr + img.msize) 8) ∧
        LoadedTo img pgdir pid procs (views mm space)
          (max (pagesFor img.fsize) (pagesFor img.msize)) next := by
  have unseen : ∀ k < max (pagesFor img.fsize) (pagesFor img.msize),
      views mm space pid (img.vaddr / normalPageSize + k) = .none := by
    intro k small
    exact view_none.mpr (fresh k small)
  have inUser : ∀ k < max (pagesFor img.fsize) (pagesFor img.msize),
      img.vaddr + k * normalPageSize < userVpns * normalPageSize := by
    intro k small
    rcases lt_max_iff.mp small with file | memory
    · have := page_lt file
      omega
    · have := page_lt memory
      omega
  have start : LoadedTo img pgdir pid procs (views mm space) 0 mm :=
    ⟨role, space, ok, homed, root, fun _ _ _ => rfl, fun k none_ => absurd none_ (Nat.not_lt_zero k)⟩
  unfold loadTaskImg
  apply Meets.bind (meets_forUpto (LoadedTo img pgdir pid procs (views mm space)) _ start _)
  · -- The pages behind the image's bytes are left as they are.
    intro _ filled loaded
    apply Meets.bind (meets_forUpto (fun i => LoadedTo img pgdir pid procs (views mm space)
      (pagesFor img.fsize + i)) _ loaded _)
    · intro _ last loaded
      rw [meets_pure]
      refine ⟨rfl, ?_⟩
      have total : pagesFor img.fsize + (pagesFor img.msize - pagesFor img.fsize) =
          max (pagesFor img.fsize) (pagesFor img.msize) := by omega
      rw [← total]
      exact loaded
    · intro i small here loaded
      have inside : pagesFor img.fsize + i < max (pagesFor img.fsize) (pagesFor img.msize) := by
        omega
      apply meets_discard
      apply Meets.mono (loaded.next exhausted hang full aligned mem (inUser _ inside)
        (unseen _ inside))
      intro frame next written
      have same := written (next.frames frame) (by
        intro offset _ more
        have := pagesFor_le (Nat.le_add_right (pagesFor img.fsize) i)
        omega)
      rw [put_self] at same
      exact same
  · intro i small here loaded
    have inside : i < max (pagesFor img.fsize) (pagesFor img.msize) := by omega
    apply Meets.bind (loaded.next exhausted hang full aligned mem (inUser i inside)
      (unseen i inside))
    intro frame next written
    rw [meets_modify]
    apply written
    intro offset small more
    exact if_pos ⟨more, small⟩

end GlucOS
