import GlucOS.Mm.SpaceLaws

/-! Page frames, swap pages and shared pages, against the pages that use them. -/

namespace GlucOS

/-- The page keeps this frame in common with others. -/
def Leaf.Uses (leaf : Leaf) (frame : Nat) : Prop := leaf = .cow frame ∨ leaf = .shared frame

/-- The pages that keep a frame in common. -/
def users (space : Nat → Nat → Leaf) (frame : Nat) : Set (Nat × Nat) :=
  {page | (space page.1 page.2).Uses frame}

/-- A process identifier that user processes may have. -/
def Named (pid : Nat) : Prop := ncpu ≤ pid ∧ pid ≤ 2 * uprocMax

/-- An identifier fits in a char map. -/
theorem Named.u8 {pid : Nat} (named : Named pid) : u8 pid = pid := by
  have := named.2
  simp only [GlucOS.u8, uprocMax] at *
  omega

/-- No identifier is the mark of a free entry. -/
theorem Named.not_free {pid : Nat} (named : Named pid) : pid ≠ cmapFree := by
  have := named.2
  simp only [cmapFree, uprocMax] at *
  omega

/-- No identifier is the mark of a shared frame. -/
theorem Named.not_shared {pid : Nat} (named : Named pid) : pid ≠ cmapShared := by
  have := named.2
  simp only [cmapShared, uprocMax] at *
  omega

/-- The two reserved marks differ. -/
theorem shared_ne_free : cmapShared ≠ cmapFree := by decide

/--
The frame map agrees with the address spaces.

A held frame has been taken for a process and is not mapped yet.
-/
structure FramesOk (charmap uva : Nat → Nat) (space : Nat → Nat → Leaf) (held : Option Nat) :
    Prop where
  /-- Private frames carry their owner and their address. -/
  priv : ∀ pid vpn frame, space pid vpn = .priv frame →
    Named pid ∧ frame < npf ∧ charmap frame = pid ∧ uva frame = vpn * normalPageSize ∧
      held ≠ some frame
  /-- Frames kept in common are marked. -/
  multi : ∀ pid vpn frame, (space pid vpn).Uses frame → frame < npf ∧ charmap frame = cmapShared
  /-- A process keeps a frame in common with others at one address only. -/
  once : ∀ pid vpn vpn' frame, (space pid vpn).Uses frame → (space pid vpn').Uses frame →
    vpn = vpn'
  /-- A frame that carries an owner backs one of its pages. -/
  owned : ∀ frame < npf, charmap frame ≠ cmapFree → charmap frame ≠ cmapShared →
    held ≠ some frame → ∃ pid vpn, space pid vpn = .priv frame
  /-- Frames kept in common have finitely many users. -/
  finite : ∀ frame, (users space frame).Finite
  /-- The address of a frame kept in common counts its users. -/
  counted : ∀ frame < npf, charmap frame = cmapShared →
    0 < uva frame ∧ (users space frame).ncard = uva frame
  /-- The held frame is neither free nor kept in common. -/
  holds : ∀ frame, held = some frame →
    frame < npf ∧ charmap frame ≠ cmapFree ∧ charmap frame ≠ cmapShared

/-- The map of the swap partition agrees with the address spaces. -/
structure SlotsOk (charmap : Nat → Nat) (space : Nat → Nat → Leaf) : Prop where
  /-- A page that was swapped out names a swap page marked with its owner. -/
  marked : ∀ pid vpn slot, space pid vpn = .swapped slot → slot < npswap ∧ charmap slot = pid
  /-- Different pages name different swap pages. -/
  once : ∀ pid vpn pid' vpn' slot, space pid vpn = .swapped slot → space pid' vpn' = .swapped slot →
    pid = pid' ∧ vpn = vpn'
  /-- A swap page in use is named by a page. -/
  used : ∀ slot < npswap, charmap slot ≠ cmapFree → ∃ pid vpn, space pid vpn = .swapped slot

/-- The shared page is in use. -/
def ShmCtrl.Active (ctrl : ShmCtrl) : Prop := 0 < ctrl.nproc

/-- The shared pages agree with the address spaces. -/
structure ShmOk (shm : Nat → ShmCtrl) (uva : Nat → Nat) (space : Nat → Nat → Leaf) : Prop where
  /-- The users listed are the processes that map the frame. -/
  listed : ∀ id < nshm, (shm id).Active → ∀ pid,
    (∃ i < npshm, (shm id).opid i = some pid) ↔ ∃ vpn, space pid vpn = .shared (shm id).pgidx
  /-- Every user is listed once. -/
  distinct : ∀ id < nshm, (shm id).Active → ∀ pid i j, i < npshm → j < npshm →
    (shm id).opid i = some pid → (shm id).opid j = some pid → i = j
  /-- A shared page in use has a user. -/
  nonempty : ∀ id < nshm, (shm id).Active → ∃ pid vpn, space pid vpn = .shared (shm id).pgidx
  /-- Both counts of the users agree. -/
  count : ∀ id < nshm, (shm id).Active → uva (shm id).pgidx = (shm id).nproc
  /-- Different shared pages in use have different frames. -/
  apart : ∀ id < nshm, ∀ id' < nshm, (shm id).Active → (shm id').Active →
    (shm id).pgidx = (shm id').pgidx → id = id'
  /-- No copy-on-write page maps the frame of a shared page. -/
  notCow : ∀ id < nshm, (shm id).Active → ∀ pid vpn, space pid vpn ≠ .cow (shm id).pgidx
  /-- Every shared mapping is that of a shared page in use. -/
  known : ∀ pid vpn frame, space pid vpn = .shared frame →
    ∃ id < nshm, (shm id).Active ∧ (shm id).pgidx = frame
  /-- Shared pages are mapped at 32-bit addresses. -/
  low : ∀ pid vpn frame, space pid vpn = .shared frame → vpn < 2 ^ 20

/-- The processes that may have pages are few and have proper identifiers. -/
structure ProcsOk (space : Nat → Nat → Leaf) (procs : Finset Nat) : Prop where
  /-- Nobody else has pages. -/
  touched : ∀ pid vpn, space pid vpn ≠ .untouched → pid ∈ procs
  /-- Their identifiers. -/
  named : ∀ pid ∈ procs, Named pid
  /-- Their number. -/
  few : procs.card ≤ uprocMax

/-! ## Users of a frame -/

section Users

variable {space : Nat → Nat → Leaf} {pid vpn frame : Nat} {leaf : Leaf}

/-- A page that starts to use a frame becomes one of its users. -/
theorem users_add (uses : leaf.Uses frame) :
    users (setLeaf space pid vpn leaf) frame = insert (pid, vpn) (users space frame) := by
  ext ⟨otherPid, otherVpn⟩
  simp only [users, Set.mem_ofPred_eq, Set.mem_insert_iff, Prod.mk.injEq]
  by_cases here : otherPid = pid ∧ otherVpn = vpn
  · simp [here.1, here.2, uses]
  · rw [setLeaf_other here]
    simp [here]

/-- A page that uses another frame, or none, is no user. -/
theorem users_drop (uses : ¬ leaf.Uses frame) :
    users (setLeaf space pid vpn leaf) frame = users space frame \ {(pid, vpn)} := by
  ext ⟨otherPid, otherVpn⟩
  simp only [users, Set.mem_ofPred_eq, Set.mem_sdiff, Set.mem_singleton_iff, Prod.mk.injEq]
  by_cases here : otherPid = pid ∧ otherVpn = vpn
  · simp [here.1, here.2, uses]
  · rw [setLeaf_other here]
    simp [here]

/-- The users of a frame that the page neither used nor uses. -/
theorem users_same (before : ¬ (space pid vpn).Uses frame) (after : ¬ leaf.Uses frame) :
    users (setLeaf space pid vpn leaf) frame = users space frame := by
  rw [users_drop after]
  exact Set.sdiff_singleton_eq_self before

/-- A process counts once among the users, so there are at most as many as processes. -/
theorem users_le {charmap uva : Nat → Nat} {held : Option Nat} {procs : Finset Nat}
    (frames : FramesOk charmap uva space held) (procsOk : ProcsOk space procs) (frame : Nat) :
    (users space frame).ncard ≤ procs.card := by
  rw [← Set.ncard_coe_finset procs]
  refine Set.ncard_le_ncard_of_injOn Prod.fst ?_ ?_ (Finset.finite_toSet procs)
  · rintro ⟨otherPid, otherVpn⟩ uses
    apply procsOk.touched otherPid otherVpn
    rcases uses with is | is <;> simp_all
  · rintro ⟨leftPid, leftVpn⟩ left ⟨rightPid, rightVpn⟩ right same
    obtain rfl : leftPid = rightPid := same
    obtain rfl : leftVpn = rightVpn := frames.once _ _ _ _ left right
    rfl

end Users

/-! ## Changes of the frame map -/

namespace FramesOk

variable {charmap uva : Nat → Nat} {space : Nat → Nat → Leaf} {held : Option Nat}

/-- A frame that is free, or held already, is held for a process. -/
theorem hold (frames : FramesOk charmap uva space held) {frame mark : Nat} (addr : Nat)
    (inside : frame < npf) (was : (charmap frame = cmapFree ∧ held = none) ∨ held = some frame)
    (owner : mark ≠ cmapFree) (alone : mark ≠ cmapShared) :
    FramesOk (put charmap frame mark) (put uva frame addr) space (some frame) := by
  -- No page uses the frame so far.
  have notPriv : ∀ pid vpn, space pid vpn ≠ .priv frame := by
    intro pid vpn is
    obtain ⟨named, -, own, -, notHeld⟩ := frames.priv _ _ _ is
    rcases was with ⟨free, -⟩ | isHeld
    · exact named.not_free (own.symm.trans free)
    · exact notHeld isHeld
  have notUses : ∀ pid vpn, ¬ (space pid vpn).Uses frame := by
    intro pid vpn uses
    have marked := (frames.multi _ _ _ uses).2
    rcases was with ⟨free, -⟩ | isHeld
    · exact shared_ne_free (marked.symm.trans free)
    · exact (frames.holds _ isHeld).2.2 marked
  refine ⟨?_, ?_, frames.once, ?_, frames.finite, ?_, ?_⟩
  · intro pid vpn other is
    have differ : other ≠ frame := by
      rintro rfl
      exact notPriv pid vpn is
    obtain ⟨named, small, own, addr', -⟩ := frames.priv _ _ _ is
    rw [put_other _ _ differ, put_other _ _ differ]
    exact ⟨named, small, own, addr', by simpa using Ne.symm differ⟩
  · intro pid vpn other uses
    have differ : other ≠ frame := by
      rintro rfl
      exact notUses pid vpn uses
    rw [put_other _ _ differ]
    exact frames.multi _ _ _ uses
  · intro other small used common notHeld
    have differ : other ≠ frame := by
      rintro rfl
      exact notHeld rfl
    rw [put_other _ _ differ] at used common
    refine frames.owned other small used common ?_
    rcases was with ⟨-, none⟩ | isHeld
    · simp [none]
    · simpa [isHeld] using Ne.symm differ
  · intro other small common
    have differ : other ≠ frame := by
      rintro rfl
      rw [put_same] at common
      exact alone common
    rw [put_other _ _ differ] at common ⊢
    exact frames.counted other small common
  · intro other same
    cases same
    rw [put_same]
    exact ⟨inside, owner, alone⟩

/-- The held frame becomes the private frame of a page that had no frame. -/
theorem fill {frame pid vpn : Nat} (frames : FramesOk charmap uva space (some frame))
    (named : Named pid) (own : charmap frame = pid) (addr : uva frame = vpn * normalPageSize)
    (was : space pid vpn = .untouched ∨ ∃ slot, space pid vpn = .swapped slot) :
    FramesOk charmap uva (setLeaf space pid vpn (.priv frame)) none := by
  have noUse : ∀ other, ¬ (space pid vpn).Uses other := by
    rintro other (is | is) <;> rcases was with gone | ⟨slot, gone⟩ <;> simp [gone] at is
  have noUse' : ∀ other, ¬ (Leaf.priv frame).Uses other := by simp [Leaf.Uses]
  obtain ⟨inside, notFree, notShared⟩ := frames.holds frame rfl
  have keeps : ∀ {otherPid otherVpn other}, (setLeaf space pid vpn (.priv frame) otherPid
      otherVpn).Uses other → (space otherPid otherVpn).Uses other := by
    intro otherPid otherVpn other uses
    by_cases here : otherPid = pid ∧ otherVpn = vpn
    · rw [here.1, here.2, setLeaf_same] at uses
      exact absurd uses (noUse' other)
    · rwa [setLeaf_other here] at uses
  refine ⟨?_, fun _ _ _ uses => frames.multi _ _ _ (keeps uses), fun _ _ _ _ left right =>
    frames.once _ _ _ _ (keeps left) (keeps right), ?_, ?_, ?_, by simp⟩
  · intro otherPid otherVpn other is
    by_cases here : otherPid = pid ∧ otherVpn = vpn
    · rw [here.1, here.2, setLeaf_same] at is
      cases is
      rw [here.1, here.2]
      exact ⟨named, inside, own, addr, by simp⟩
    · rw [setLeaf_other here] at is
      obtain ⟨named', small, own', addr', -⟩ := frames.priv _ _ _ is
      exact ⟨named', small, own', addr', by simp⟩
  · intro other small used common _
    by_cases same : other = frame
    · exact ⟨pid, vpn, by rw [setLeaf_same, same]⟩
    · obtain ⟨otherPid, otherVpn, is⟩ :=
        frames.owned other small used common (by simpa using Ne.symm same)
      have apart : ¬ (otherPid = pid ∧ otherVpn = vpn) := by
        rintro ⟨rfl, rfl⟩
        rcases was with gone | ⟨slot, gone⟩ <;> simp [gone] at is
      exact ⟨otherPid, otherVpn, by rw [setLeaf_other apart, is]⟩
  · intro other
    rw [users_same (noUse other) (noUse' other)]
    exact frames.finite other
  · intro other small common
    rw [users_same (noUse other) (noUse' other)]
    exact frames.counted other small common

/-- A change between pages that have no frame leaves the frames alone. -/
theorem keep (frames : FramesOk charmap uva space held) {pid vpn : Nat} {leaf : Leaf}
    (before : ∀ frame, space pid vpn ≠ .priv frame ∧ ¬ (space pid vpn).Uses frame)
    (after : ∀ frame, leaf ≠ .priv frame ∧ ¬ leaf.Uses frame) :
    FramesOk charmap uva (setLeaf space pid vpn leaf) held := by
  have keeps : ∀ {otherPid otherVpn other}, (setLeaf space pid vpn leaf otherPid
      otherVpn).Uses other → (space otherPid otherVpn).Uses other := by
    intro otherPid otherVpn other uses
    by_cases here : otherPid = pid ∧ otherVpn = vpn
    · rw [here.1, here.2, setLeaf_same] at uses
      exact absurd uses (after other).2
    · rwa [setLeaf_other here] at uses
  refine ⟨?_, fun _ _ _ uses => frames.multi _ _ _ (keeps uses), fun _ _ _ _ left right =>
    frames.once _ _ _ _ (keeps left) (keeps right), ?_, ?_, ?_, frames.holds⟩
  · intro otherPid otherVpn other is
    by_cases here : otherPid = pid ∧ otherVpn = vpn
    · rw [here.1, here.2, setLeaf_same] at is
      exact absurd is (after other).1
    · rw [setLeaf_other here] at is
      exact frames.priv _ _ _ is
  · intro other small used alone notHeld
    obtain ⟨otherPid, otherVpn, is⟩ := frames.owned other small used alone notHeld
    have apart : ¬ (otherPid = pid ∧ otherVpn = vpn) := by
      rintro ⟨rfl, rfl⟩
      exact (before other).1 is
    exact ⟨otherPid, otherVpn, by rw [setLeaf_other apart, is]⟩
  · intro other
    rw [users_same (before other).2 (after other).2]
    exact frames.finite other
  · intro other small common
    rw [users_same (before other).2 (after other).2]
    exact frames.counted other small common

/-- No page uses the held frame. -/
theorem held_unused {frame : Nat} (frames : FramesOk charmap uva space (some frame))
    (pid vpn : Nat) : space pid vpn ≠ .priv frame ∧ ¬ (space pid vpn).Uses frame := by
  constructor
  · intro is
    exact (frames.priv _ _ _ is).2.2.2.2 rfl
  · intro uses
    exact (frames.holds frame rfl).2.2 (frames.multi _ _ _ uses).2

/-- A private page gives its frame up, which is then held for the next owner. -/
theorem evict {frame pid vpn : Nat} (frames : FramesOk charmap uva space none) (leaf : Leaf)
    (is : space pid vpn = .priv frame)
    (becomes : leaf = .untouched ∨ ∃ slot, leaf = .swapped slot) :
    FramesOk charmap uva (setLeaf space pid vpn leaf) (some frame) := by
  obtain ⟨named, inside, own, addr, -⟩ := frames.priv _ _ _ is
  have noUse : ∀ other, ¬ (space pid vpn).Uses other := by simp [is, Leaf.Uses]
  have noUse' : ∀ other, ¬ leaf.Uses other := by
    rintro other (uses | uses) <;> rcases becomes with gone | ⟨slot, gone⟩ <;> simp [gone] at uses
  have notPriv : ∀ other, leaf ≠ .priv other := by
    rintro other same
    rcases becomes with gone | ⟨slot, gone⟩ <;> simp [gone] at same
  have keeps : ∀ {otherPid otherVpn other}, (setLeaf space pid vpn leaf otherPid
      otherVpn).Uses other → (space otherPid otherVpn).Uses other := by
    intro otherPid otherVpn other uses
    by_cases here : otherPid = pid ∧ otherVpn = vpn
    · rw [here.1, here.2, setLeaf_same] at uses
      exact absurd uses (noUse' other)
    · rwa [setLeaf_other here] at uses
  refine ⟨?_, fun _ _ _ uses => frames.multi _ _ _ (keeps uses), fun _ _ _ _ left right =>
    frames.once _ _ _ _ (keeps left) (keeps right), ?_, ?_, ?_, ?_⟩
  · intro otherPid otherVpn other isPriv
    by_cases here : otherPid = pid ∧ otherVpn = vpn
    · rw [here.1, here.2, setLeaf_same] at isPriv
      exact absurd isPriv (notPriv other)
    · rw [setLeaf_other here] at isPriv
      obtain ⟨named', small, own', addr', -⟩ := frames.priv _ _ _ isPriv
      refine ⟨named', small, own', addr', ?_⟩
      -- A private frame backs one page, since its owner and its address are recorded.
      rintro same
      cases same
      apply here
      have apart : otherVpn * normalPageSize = vpn * normalPageSize := addr'.symm.trans addr
      exact ⟨own'.symm.trans own, Nat.eq_of_mul_eq_mul_right (by decide) apart⟩
  · intro other small used common notHeld
    obtain ⟨otherPid, otherVpn, isPriv⟩ := frames.owned other small used common (by simp)
    have apart : ¬ (otherPid = pid ∧ otherVpn = vpn) := by
      rintro ⟨rfl, rfl⟩
      rw [is] at isPriv
      cases isPriv
      exact notHeld rfl
    exact ⟨otherPid, otherVpn, by rw [setLeaf_other apart, isPriv]⟩
  · intro other
    rw [users_same (noUse other) (noUse' other)]
    exact frames.finite other
  · intro other small common
    rw [users_same (noUse other) (noUse' other)]
    exact frames.counted other small common
  · intro other same
    cases same
    exact ⟨inside, by rw [own]; exact named.not_free, by rw [own]; exact named.not_shared⟩

/-- The held frame is given back. -/
theorem free {frame : Nat} (frames : FramesOk charmap uva space (some frame)) :
    FramesOk (put charmap frame cmapFree) uva space none := by
  obtain ⟨inside, notFree, notShared⟩ := frames.holds frame rfl
  refine ⟨?_, ?_, frames.once, ?_, frames.finite, ?_, by simp⟩
  · intro pid vpn other is
    obtain ⟨named, small, own, addr, notHeld⟩ := frames.priv _ _ _ is
    rw [put_other _ _ (by rintro rfl; exact notHeld rfl)]
    exact ⟨named, small, own, addr, by simp⟩
  · intro pid vpn other uses
    obtain ⟨small, common⟩ := frames.multi _ _ _ uses
    rw [put_other _ _ (by rintro rfl; exact notShared common)]
    exact ⟨small, common⟩
  · intro other small used common _
    by_cases same : other = frame
    · rw [same, put_same] at used
      exact absurd rfl used
    · rw [put_other _ _ same] at used common
      exact frames.owned other small used common (by simpa using Ne.symm same)
  · intro other small common
    have differ : other ≠ frame := by
      rintro rfl
      rw [put_same] at common
      exact shared_ne_free common.symm
    rw [put_other _ _ differ] at common
    exact frames.counted other small common

/-- The held frame becomes one that a page keeps in common, as its only user so far. -/
theorem share {frame pid vpn : Nat} {leaf : Leaf} (frames : FramesOk charmap uva space (some frame))
    (was : space pid vpn = .untouched) (uses : leaf.Uses frame) :
    FramesOk (put charmap frame cmapShared) (put uva frame 1) (setLeaf space pid vpn leaf) none := by
  obtain ⟨inside, notFree, notShared⟩ := frames.holds frame rfl
  have notUsed : ∀ page, page ∉ users space frame := by
    rintro ⟨otherPid, otherVpn⟩ is
    exact notShared (frames.multi _ _ _ is).2
  have noUse : ∀ other, ¬ (space pid vpn).Uses other := by simp [was, Leaf.Uses]
  have only : ∀ other, leaf.Uses other → other = frame := by
    rintro other (is | is) <;> rcases uses with is' | is' <;> simp_all
  have notPriv : ∀ other, leaf ≠ .priv other := by
    rintro other is
    rcases uses with is' | is' <;> simp [is'] at is
  refine ⟨?_, ?_, ?_, ?_, ?_, ?_, by simp⟩
  · intro otherPid otherVpn other is
    by_cases here : otherPid = pid ∧ otherVpn = vpn
    · rw [here.1, here.2, setLeaf_same] at is
      exact absurd is (notPriv other)
    · rw [setLeaf_other here] at is
      obtain ⟨named, small, own, addr, notHeld⟩ := frames.priv _ _ _ is
      have differ : other ≠ frame := by
        rintro rfl
        exact notHeld rfl
      rw [put_other _ _ differ, put_other _ _ differ]
      exact ⟨named, small, own, addr, by simp⟩
  · intro otherPid otherVpn other isUse
    by_cases here : otherPid = pid ∧ otherVpn = vpn
    · rw [here.1, here.2, setLeaf_same] at isUse
      rw [only other isUse, put_same]
      exact ⟨inside, rfl⟩
    · rw [setLeaf_other here] at isUse
      obtain ⟨small, common⟩ := frames.multi _ _ _ isUse
      by_cases same : other = frame
      · rw [same, put_same]
        exact ⟨inside, rfl⟩
      · rw [put_other _ _ same]
        exact ⟨small, common⟩
  · intro otherPid left right other isLeft isRight
    -- Before, nobody used the frame, so the page added is its only user.
    by_cases same : other = frame
    · subst same
      have mem : ∀ vpn', (setLeaf space pid vpn leaf otherPid vpn').Uses other → vpn' = vpn := by
        intro vpn' use
        by_cases here : otherPid = pid ∧ vpn' = vpn
        · exact here.2
        · rw [setLeaf_other here] at use
          exact absurd use (notUsed (otherPid, vpn'))
      rw [mem left isLeft, mem right isRight]
    · have old : ∀ vpn', (setLeaf space pid vpn leaf otherPid vpn').Uses other →
          (space otherPid vpn').Uses other := by
        intro vpn' use
        by_cases here : otherPid = pid ∧ vpn' = vpn
        · rw [here.1, here.2, setLeaf_same] at use
          exact absurd (only other use) same
        · rwa [setLeaf_other here] at use
      exact frames.once _ _ _ _ (old left isLeft) (old right isRight)
  · intro other small used common _
    by_cases same : other = frame
    · rw [same, put_same] at common
      exact absurd rfl common
    · rw [put_other _ _ same] at used common
      obtain ⟨otherPid, otherVpn, is⟩ :=
        frames.owned other small used common (by simpa using Ne.symm same)
      have apart : ¬ (otherPid = pid ∧ otherVpn = vpn) := by
        rintro ⟨rfl, rfl⟩
        simp [was] at is
      exact ⟨otherPid, otherVpn, by rw [setLeaf_other apart, is]⟩
  · intro other
    by_cases same : leaf.Uses other
    · rw [users_add same]
      exact (frames.finite other).insert _
    · rw [users_drop same]
      exact (frames.finite other).subset Set.sdiff_subset
  · intro other small common
    by_cases same : other = frame
    · subst same
      have empty : users space other = ∅ := Set.eq_empty_of_forall_notMem notUsed
      rw [users_add uses, empty, put_same]
      simp
    · rw [put_other _ _ same] at common
      rw [put_other _ _ same, users_same (noUse other) (fun use => same (only other use))]
      exact frames.counted other small common

/-- One more page keeps a frame in common. -/
theorem addUse {frame pid vpn : Nat} {leaf : Leaf} (frames : FramesOk charmap uva space held)
    (was : space pid vpn = .untouched) (uses : leaf.Uses frame) (inside : frame < npf)
    (common : charmap frame = cmapShared) (fresh : ∀ vpn', ¬ (space pid vpn').Uses frame) :
    FramesOk charmap (put uva frame (uva frame + 1)) (setLeaf space pid vpn leaf) held := by
  have noUse : ∀ other, ¬ (space pid vpn).Uses other := by simp [was, Leaf.Uses]
  have only : ∀ other, leaf.Uses other → other = frame := by
    rintro other (is | is) <;> rcases uses with is' | is' <;> simp_all
  have notPriv : ∀ other, leaf ≠ .priv other := by
    rintro other is
    rcases uses with is' | is' <;> simp [is'] at is
  refine ⟨?_, ?_, ?_, ?_, ?_, ?_, frames.holds⟩
  · intro otherPid otherVpn other is
    by_cases here : otherPid = pid ∧ otherVpn = vpn
    · rw [here.1, here.2, setLeaf_same] at is
      exact absurd is (notPriv other)
    · rw [setLeaf_other here] at is
      obtain ⟨named, small, own, addr, notHeld⟩ := frames.priv _ _ _ is
      have differ : other ≠ frame := by
        rintro rfl
        exact named.not_shared (own.symm.trans common)
      rw [put_other _ _ differ]
      exact ⟨named, small, own, addr, notHeld⟩
  · intro otherPid otherVpn other isUse
    by_cases here : otherPid = pid ∧ otherVpn = vpn
    · rw [here.1, here.2, setLeaf_same] at isUse
      rw [only other isUse]
      exact ⟨inside, common⟩
    · rw [setLeaf_other here] at isUse
      exact frames.multi _ _ _ isUse
  · intro otherPid left right other isLeft isRight
    have uses' : ∀ {vpn'}, (setLeaf space pid vpn leaf otherPid vpn').Uses other →
        (otherPid = pid ∧ vpn' = vpn ∧ other = frame) ∨ (space otherPid vpn').Uses other := by
      intro vpn' use
      by_cases here : otherPid = pid ∧ vpn' = vpn
      · rw [here.1, here.2, setLeaf_same] at use
        exact Or.inl ⟨here.1, here.2, only other use⟩
      · rw [setLeaf_other here] at use
        exact Or.inr use
    -- The process did not use the frame before, so both uses are new or both are old.
    rcases uses' isLeft with ⟨own, here, same⟩ | old <;>
      rcases uses' isRight with ⟨own', here', same'⟩ | old'
    · rw [here, here']
    · subst own same
      exact absurd old' (fresh right)
    · subst own' same'
      exact absurd old (fresh left)
    · exact frames.once _ _ _ _ old old'
  · intro other small used alone notHeld
    obtain ⟨otherPid, otherVpn, is⟩ := frames.owned other small used alone notHeld
    have apart : ¬ (otherPid = pid ∧ otherVpn = vpn) := by
      rintro ⟨rfl, rfl⟩
      simp [was] at is
    exact ⟨otherPid, otherVpn, by rw [setLeaf_other apart, is]⟩
  · intro other
    by_cases same : leaf.Uses other
    · rw [users_add same]
      exact (frames.finite other).insert _
    · rw [users_drop same]
      exact (frames.finite other).subset Set.sdiff_subset
  · intro other small isCommon
    obtain ⟨positive, counted⟩ := frames.counted other small isCommon
    by_cases same : other = frame
    · subst same
      have new : (pid, vpn) ∉ users space other := noUse other
      rw [users_add uses, put_same, Set.ncard_insert_of_notMem new (frames.finite other), counted]
      exact ⟨by omega, rfl⟩
    · rw [put_other _ _ same, users_same (noUse other) (fun use => same (only other use))]
      exact ⟨positive, counted⟩

/-- A page stops using a frame, and the last one to do so frees it. -/
theorem dropUse {frame pid vpn : Nat} (frames : FramesOk charmap uva space held)
    (uses : (space pid vpn).Uses frame) :
    FramesOk (if uva frame - 1 = 0 then put charmap frame cmapFree else charmap)
      (put uva frame (uva frame - 1)) (setLeaf space pid vpn .untouched) held := by
  obtain ⟨inside, common⟩ := frames.multi _ _ _ uses
  obtain ⟨positive, counted⟩ := frames.counted frame inside common
  have noUse : ∀ other, ¬ Leaf.untouched.Uses other := by simp [Leaf.Uses]
  have only : ∀ other, (space pid vpn).Uses other → other = frame := by
    rintro other (is | is) <;> rcases uses with is' | is' <;> simp_all
  have keeps : ∀ {otherPid otherVpn other}, (setLeaf space pid vpn .untouched otherPid
      otherVpn).Uses other → (space otherPid otherVpn).Uses other := by
    intro otherPid otherVpn other use
    by_cases here : otherPid = pid ∧ otherVpn = vpn
    · rw [here.1, here.2, setLeaf_same] at use
      exact absurd use (noUse other)
    · rwa [setLeaf_other here] at use
  -- One user less is left.
  have left : (users (setLeaf space pid vpn .untouched) frame).ncard = uva frame - 1 := by
    have mem : (pid, vpn) ∈ users space frame := uses
    rw [users_drop (noUse frame), Set.ncard_sdiff_singleton_of_mem mem, counted]
  have finite : ∀ other, (users (setLeaf space pid vpn .untouched) other).Finite := by
    intro other
    rw [users_drop (noUse other)]
    exact (frames.finite other).subset Set.sdiff_subset
  have mark : ∀ other, other ≠ frame →
      (if uva frame - 1 = 0 then put charmap frame cmapFree else charmap) other =
        charmap other := by
    intro other differ
    by_cases last : uva frame - 1 = 0
    · rw [if_pos last, put_other _ _ differ]
    · rw [if_neg last]
  have notPriv : ∀ otherPid otherVpn other, space otherPid otherVpn = .priv other →
      other ≠ frame := by
    rintro otherPid otherVpn other is rfl
    obtain ⟨named, -, own, -⟩ := frames.priv _ _ _ is
    exact named.not_shared (own.symm.trans common)
  refine ⟨?_, ?_, fun _ _ _ _ isLeft isRight => frames.once _ _ _ _ (keeps isLeft) (keeps isRight),
    ?_, finite, ?_, ?_⟩
  · intro otherPid otherVpn other is
    by_cases here : otherPid = pid ∧ otherVpn = vpn
    · rw [here.1, here.2, setLeaf_same] at is
      cases is
    · rw [setLeaf_other here] at is
      rw [mark _ (notPriv _ _ _ is), put_other _ _ (notPriv _ _ _ is)]
      exact frames.priv _ _ _ is
  · intro otherPid otherVpn other use
    by_cases same : other = frame
    · subst same
      -- As long as the frame has a user, it is not freed.
      have mem : (otherPid, otherVpn) ∈ users (setLeaf space pid vpn .untouched) other := use
      have some : 0 < (users (setLeaf space pid vpn .untouched) other).ncard :=
        (Set.ncard_pos (finite other)).mpr ⟨_, mem⟩
      rw [if_neg (by omega)]
      exact ⟨inside, common⟩
    · rw [mark _ same]
      exact frames.multi _ _ _ (keeps use)
  · intro other small used alone notHeld
    by_cases same : other = frame
    · subst same
      by_cases last : uva other - 1 = 0
      · rw [if_pos last, put_same] at used
        exact absurd rfl used
      · rw [if_neg last] at alone
        exact absurd common alone
    · rw [mark _ same] at used alone
      obtain ⟨otherPid, otherVpn, is⟩ := frames.owned other small used alone notHeld
      have apart : ¬ (otherPid = pid ∧ otherVpn = vpn) := by
        rintro ⟨rfl, rfl⟩
        rcases uses with use | use <;> simp [use] at is
      exact ⟨otherPid, otherVpn, by rw [setLeaf_other apart, is]⟩
  · intro other small isCommon
    by_cases same : other = frame
    · subst same
      have more : ¬ (uva other - 1 = 0) := by
        intro last
        rw [if_pos last, put_same] at isCommon
        exact shared_ne_free isCommon.symm
      rw [put_same]
      exact ⟨by omega, left⟩
    · rw [mark _ same] at isCommon
      rw [put_other _ _ same, users_same (fun use => same (only other use)) (noUse other)]
      exact frames.counted other small isCommon
  · intro other isHeld
    obtain ⟨small, used, alone⟩ := frames.holds other isHeld
    have differ : other ≠ frame := by
      rintro rfl
      exact alone common
    rw [mark _ differ]
    exact ⟨small, used, alone⟩

end FramesOk

end GlucOS
