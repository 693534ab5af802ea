import GlucOS.Mm.Frame

/-! Changes of the swap map and of the shared pages, against the pages that use them. -/

namespace GlucOS

namespace SlotsOk

variable {charmap : Nat → Nat} {space : Nat → Nat → Leaf}

/-- A change between pages in memory leaves the swap partition alone. -/
theorem keep (slots : SlotsOk charmap space) {pid vpn : Nat} {leaf : Leaf}
    (before : ∀ slot, space pid vpn ≠ .swapped slot) (after : ∀ slot, leaf ≠ .swapped slot) :
    SlotsOk charmap (setLeaf space pid vpn leaf) := by
  have keeps : ∀ {otherPid otherVpn slot}, setLeaf space pid vpn leaf otherPid otherVpn =
      .swapped slot → space otherPid otherVpn = .swapped slot := by
    intro otherPid otherVpn slot is
    by_cases here : otherPid = pid ∧ otherVpn = vpn
    · rw [here.1, here.2, setLeaf_same] at is
      exact absurd is (after slot)
    · rwa [setLeaf_other here] at is
  refine ⟨fun _ _ _ is => slots.marked _ _ _ (keeps is), fun _ _ _ _ _ left right =>
    slots.once _ _ _ _ _ (keeps left) (keeps right), ?_⟩
  intro slot small used
  obtain ⟨otherPid, otherVpn, is⟩ := slots.used slot small used
  have apart : ¬ (otherPid = pid ∧ otherVpn = vpn) := by
    rintro ⟨rfl, rfl⟩
    exact before slot is
  exact ⟨otherPid, otherVpn, by rw [setLeaf_other apart, is]⟩

/-- A page moves to a free swap page. -/
theorem swapOut (slots : SlotsOk charmap space) (pid vpn : Nat) {slot : Nat} (inside : slot < npswap)
    (free : charmap slot = cmapFree) (touched : ∀ pid vpn, space pid vpn ≠ .untouched → Named pid)
    (before : ∀ slot, space pid vpn ≠ .swapped slot) :
    SlotsOk (put charmap slot pid) (setLeaf space pid vpn (.swapped slot)) := by
  -- A page in the swap partition names a page marked with its owner, which is not the free one.
  have differ : ∀ {otherPid otherVpn other}, space otherPid otherVpn = .swapped other →
      other ≠ slot := by
    rintro otherPid otherVpn other is rfl
    have named : Named otherPid := touched otherPid otherVpn (by simp [is])
    exact named.not_free ((slots.marked _ _ _ is).2.symm.trans free)
  have split : ∀ {otherPid otherVpn other}, setLeaf space pid vpn (.swapped slot) otherPid otherVpn =
      .swapped other → (otherPid = pid ∧ otherVpn = vpn ∧ other = slot) ∨
        space otherPid otherVpn = .swapped other := by
    intro otherPid otherVpn other is
    by_cases here : otherPid = pid ∧ otherVpn = vpn
    · rw [here.1, here.2, setLeaf_same] at is
      cases is
      exact Or.inl ⟨here.1, here.2, rfl⟩
    · rw [setLeaf_other here] at is
      exact Or.inr is
  refine ⟨?_, ?_, ?_⟩
  · intro otherPid otherVpn other is
    rcases split is with ⟨rfl, rfl, rfl⟩ | old
    · exact ⟨inside, put_same ..⟩
    · rw [put_other _ _ (differ old)]
      exact slots.marked _ _ _ old
  · intro leftPid leftVpn rightPid rightVpn other isLeft isRight
    rcases split isLeft with ⟨rfl, rfl, same⟩ | old <;>
      rcases split isRight with ⟨rfl, rfl, same'⟩ | old'
    · exact ⟨rfl, rfl⟩
    · exact absurd same (differ old')
    · exact absurd same' (differ old)
    · exact slots.once _ _ _ _ _ old old'
  · intro other small used
    by_cases same : other = slot
    · exact ⟨pid, vpn, by rw [setLeaf_same, same]⟩
    · rw [put_other _ _ same] at used
      obtain ⟨otherPid, otherVpn, is⟩ := slots.used other small used
      have apart : ¬ (otherPid = pid ∧ otherVpn = vpn) := by
        rintro ⟨rfl, rfl⟩
        exact before other is
      exact ⟨otherPid, otherVpn, by rw [setLeaf_other apart, is]⟩

/-- A page leaves its swap page, which is released. -/
theorem swapIn (slots : SlotsOk charmap space) {pid vpn slot : Nat} {leaf : Leaf}
    (was : space pid vpn = .swapped slot) (after : ∀ slot, leaf ≠ .swapped slot) :
    SlotsOk (put charmap slot cmapFree) (setLeaf space pid vpn leaf) := by
  have split : ∀ {otherPid otherVpn other}, setLeaf space pid vpn leaf otherPid otherVpn =
      .swapped other → space otherPid otherVpn = .swapped other ∧ other ≠ slot := by
    intro otherPid otherVpn other is
    by_cases here : otherPid = pid ∧ otherVpn = vpn
    · rw [here.1, here.2, setLeaf_same] at is
      exact absurd is (after other)
    · rw [setLeaf_other here] at is
      refine ⟨is, ?_⟩
      -- No other page names the swap page that is released.
      rintro rfl
      exact here (slots.once _ _ _ _ _ is was)
  refine ⟨?_, ?_, ?_⟩
  · intro otherPid otherVpn other is
    obtain ⟨old, differ⟩ := split is
    rw [put_other _ _ differ]
    exact slots.marked _ _ _ old
  · intro leftPid leftVpn rightPid rightVpn other isLeft isRight
    exact slots.once _ _ _ _ _ (split isLeft).1 (split isRight).1
  · intro other small used
    have differ : other ≠ slot := by
      rintro rfl
      exact used (put_same ..)
    rw [put_other _ _ differ] at used
    obtain ⟨otherPid, otherVpn, is⟩ := slots.used other small used
    have apart : ¬ (otherPid = pid ∧ otherVpn = vpn) := by
      rintro ⟨rfl, rfl⟩
      rw [is] at was
      cases was
      exact differ rfl
    exact ⟨otherPid, otherVpn, by rw [setLeaf_other apart, is]⟩

end SlotsOk

namespace ShmOk

variable {shm : Nat → ShmCtrl} {uva : Nat → Nat} {space : Nat → Nat → Leaf}

/-- Changes that concern no shared mapping leave the shared pages alone. -/
theorem transfer (ok : ShmOk shm uva space) {uva' : Nat → Nat} {space' : Nat → Nat → Leaf}
    (same : ∀ pid vpn frame, space' pid vpn = .shared frame ↔ space pid vpn = .shared frame)
    (cow : ∀ id < nshm, (shm id).Active → ∀ pid vpn, space' pid vpn ≠ .cow (shm id).pgidx)
    (counts : ∀ id < nshm, (shm id).Active → uva' (shm id).pgidx = uva (shm id).pgidx) :
    ShmOk shm uva' space' := by
  refine ⟨?_, ok.distinct, ?_, ?_, ok.apart, cow, ?_, ?_⟩
  · intro id small active pid
    simp only [same]
    exact ok.listed id small active pid
  · intro id small active
    simp only [same]
    exact ok.nonempty id small active
  · intro id small active
    rw [counts id small active]
    exact ok.count id small active
  · intro pid vpn frame is
    exact ok.known pid vpn frame ((same _ _ _).mp is)
  · intro pid vpn frame is
    exact ok.low pid vpn frame ((same _ _ _).mp is)

/-- A change between pages that are no shared memory leaves the shared pages alone. -/
theorem keep (ok : ShmOk shm uva space) {uva' : Nat → Nat} {pid vpn : Nat} (leaf : Leaf)
    (before : ∀ frame, space pid vpn ≠ .shared frame) (after : ∀ frame, leaf ≠ .shared frame)
    (cow : ∀ id < nshm, (shm id).Active → leaf ≠ .cow (shm id).pgidx)
    (counts : ∀ id < nshm, (shm id).Active → uva' (shm id).pgidx = uva (shm id).pgidx) :
    ShmOk shm uva' (setLeaf space pid vpn leaf) := by
  refine ok.transfer ?_ ?_ counts
  · intro otherPid otherVpn frame
    by_cases here : otherPid = pid ∧ otherVpn = vpn
    · rw [here.1, here.2, setLeaf_same]
      exact ⟨fun is => absurd is (after frame), fun is => absurd is (before frame)⟩
    · rw [setLeaf_other here]
  · intro id small active otherPid otherVpn
    by_cases here : otherPid = pid ∧ otherVpn = vpn
    · rw [here.1, here.2, setLeaf_same]
      exact cow id small active
    · rw [setLeaf_other here]
      exact ok.notCow id small active otherPid otherVpn

/-- The frame of a shared page in use is marked as kept in common. -/
theorem marked (ok : ShmOk shm uva space) {charmap : Nat → Nat} {held : Option Nat}
    (frames : FramesOk charmap uva space held) {id : Nat} (small : id < nshm)
    (active : (shm id).Active) :
    (shm id).pgidx < npf ∧ charmap (shm id).pgidx = cmapShared := by
  obtain ⟨pid, vpn, is⟩ := ok.nonempty id small active
  exact frames.multi pid vpn _ (Or.inr is)

/-- A process becomes the first user of a shared page. -/
theorem first (ok : ShmOk shm uva space) {id frame pid vpn : Nat}
    (idle : ¬ (shm id).Active) (small : vpn < 2 ^ 20) (was : space pid vpn = .untouched)
    (fresh : ∀ pid vpn, ¬ (space pid vpn).Uses frame) (inside : id < nshm) :
    ShmOk (put shm id ⟨1, frame, fun i => if i = 0 then some pid else none⟩) (put uva frame 1)
      (setLeaf space pid vpn (.shared frame)) := by
  have others : ∀ {other}, other ≠ id → put shm id
      ⟨1, frame, fun i => if i = 0 then some pid else none⟩ other = shm other := by
    intro other differ
    exact put_other _ _ differ
  have other_frame : ∀ other < nshm, (shm other).Active → (shm other).pgidx ≠ frame := by
    rintro other small' active rfl
    obtain ⟨otherPid, otherVpn, is⟩ := ok.nonempty other small' active
    exact fresh otherPid otherVpn (Or.inr is)
  have split : ∀ {otherPid otherVpn other}, setLeaf space pid vpn (.shared frame) otherPid otherVpn =
      .shared other ↔ (otherPid = pid ∧ otherVpn = vpn ∧ other = frame) ∨
        space otherPid otherVpn = .shared other := by
    intro otherPid otherVpn other
    by_cases here : otherPid = pid ∧ otherVpn = vpn
    · rw [here.1, here.2, setLeaf_same, was]
      simp [eq_comm]
    · rw [setLeaf_other here]
      constructor
      · exact Or.inr
      · rintro (⟨own, at_, -⟩ | is)
        · exact absurd ⟨own, at_⟩ here
        · exact is
  refine ⟨?_, ?_, ?_, ?_, ?_, ?_, ?_, ?_⟩
  · intro other small' active otherPid
    by_cases same : other = id
    · subst same
      rw [put_same]
      constructor
      · rintro ⟨i, -, is⟩
        by_cases zero : i = 0
        · simp only [if_pos zero, Option.some.injEq] at is
          exact ⟨vpn, by rw [← is, setLeaf_same]⟩
        · simp [if_neg zero] at is
      · rintro ⟨otherVpn, is⟩
        rcases split.mp is with ⟨rfl, -, -⟩ | old
        · exact ⟨0, by decide, rfl⟩
        · exact absurd (Or.inr old) (fresh otherPid otherVpn)
    · rw [others same] at active ⊢
      rw [ok.listed other small' active otherPid]
      constructor
      · rintro ⟨otherVpn, is⟩
        exact ⟨otherVpn, split.mpr (Or.inr is)⟩
      · rintro ⟨otherVpn, is⟩
        rcases split.mp is with ⟨-, -, equal⟩ | old
        · exact absurd equal (other_frame other small' active)
        · exact ⟨otherVpn, old⟩
  · intro other small' active otherPid i j inI inJ isI isJ
    by_cases same : other = id
    · subst same
      rw [put_same] at isI isJ
      by_cases zeroI : i = 0 <;> by_cases zeroJ : j = 0 <;> simp_all
    · rw [others same] at active isI isJ
      exact ok.distinct other small' active otherPid i j inI inJ isI isJ
  · intro other small' active
    by_cases same : other = id
    · subst same
      rw [put_same]
      exact ⟨pid, vpn, setLeaf_same ..⟩
    · rw [others same] at active ⊢
      obtain ⟨otherPid, otherVpn, is⟩ := ok.nonempty other small' active
      exact ⟨otherPid, otherVpn, split.mpr (Or.inr is)⟩
  · intro other small' active
    by_cases same : other = id
    · subst same
      rw [put_same, put_same]
    · rw [others same] at active ⊢
      rw [put_other _ _ (other_frame other small' active)]
      exact ok.count other small' active
  · intro left smallLeft right smallRight activeLeft activeRight equal
    by_cases sameLeft : left = id <;> by_cases sameRight : right = id
    · rw [sameLeft, sameRight]
    · rw [others sameRight] at activeRight equal
      rw [sameLeft, put_same] at equal
      exact absurd equal.symm (other_frame right smallRight activeRight)
    · rw [others sameLeft] at activeLeft equal
      rw [sameRight, put_same] at equal
      exact absurd equal (other_frame left smallLeft activeLeft)
    · rw [others sameLeft] at activeLeft equal
      rw [others sameRight] at activeRight equal
      exact ok.apart left smallLeft right smallRight activeLeft activeRight equal
  · intro other small' active otherPid otherVpn is
    have old : space otherPid otherVpn = .cow (put shm id
        ⟨1, frame, fun i => if i = 0 then some pid else none⟩ other).pgidx := by
      by_cases here : otherPid = pid ∧ otherVpn = vpn
      · rw [here.1, here.2, setLeaf_same] at is
        cases is
      · rwa [setLeaf_other here] at is
    by_cases same : other = id
    · subst same
      rw [put_same] at old
      exact fresh otherPid otherVpn (Or.inl old)
    · rw [others same] at active old
      exact ok.notCow other small' active otherPid otherVpn old
  · intro otherPid otherVpn other is
    rcases split.mp is with ⟨-, -, rfl⟩ | old
    · refine ⟨id, inside, ?_, ?_⟩ <;> rw [put_same]
      exact Nat.one_pos
    · obtain ⟨known, small', active, names⟩ := ok.known otherPid otherVpn other old
      have differ : known ≠ id := by
        rintro rfl
        exact idle active
      exact ⟨known, small', by rwa [others differ], by rwa [others differ]⟩
  · intro otherPid otherVpn other is
    rcases split.mp is with ⟨-, rfl, -⟩ | old
    · exact small
    · exact ok.low otherPid otherVpn other old

/-- One more process uses a shared page. -/
theorem join (ok : ShmOk shm uva space) {id pid vpn slot : Nat} (inside : id < nshm)
    (active : (shm id).Active) (small : vpn < 2 ^ 20) (was : space pid vpn = .untouched)
    (room : slot < npshm) (empty : (shm id).opid slot = none)
    (unlisted : ∀ i < npshm, (shm id).opid i ≠ some pid) :
    ShmOk (put shm id
        { shm id with nproc := (shm id).nproc + 1, opid := put (shm id).opid slot (some pid) })
      (put uva (shm id).pgidx (uva (shm id).pgidx + 1))
      (setLeaf space pid vpn (.shared (shm id).pgidx)) := by
  -- The frames and which pages are in use stay as they were.
  have pgidx : ∀ other, (put shm id
      { shm id with nproc := (shm id).nproc + 1, opid := put (shm id).opid slot (some pid) }
        other).pgidx = (shm other).pgidx := by
    intro other
    by_cases same : other = id
    · rw [same, put_same]
    · rw [put_other _ _ same]
  have actives : ∀ {other}, (put shm id
      { shm id with nproc := (shm id).nproc + 1, opid := put (shm id).opid slot (some pid) }
        other).Active → (shm other).Active := by
    intro other is
    by_cases same : other = id
    · rw [same]
      exact active
    · rwa [put_other _ _ same] at is
  have split : ∀ {otherPid otherVpn other}, setLeaf space pid vpn (.shared (shm id).pgidx) otherPid
      otherVpn = .shared other ↔ (otherPid = pid ∧ otherVpn = vpn ∧ other = (shm id).pgidx) ∨
        space otherPid otherVpn = .shared other := by
    intro otherPid otherVpn other
    by_cases here : otherPid = pid ∧ otherVpn = vpn
    · rw [here.1, here.2, setLeaf_same, was]
      simp [eq_comm]
    · rw [setLeaf_other here]
      constructor
      · exact Or.inr
      · rintro (⟨own, at_, -⟩ | is)
        · exact absurd ⟨own, at_⟩ here
        · exact is
  refine ⟨?_, ?_, ?_, ?_, ?_, ?_, ?_, ?_⟩
  · intro other small' isActive otherPid
    have old := ok.listed other small' (actives isActive) otherPid
    rw [pgidx]
    by_cases same : other = id
    · subst same
      rw [put_same]
      simp only
      constructor
      · rintro ⟨i, inI, is⟩
        by_cases new : i = slot
        · rw [new, put_same, Option.some.injEq] at is
          exact ⟨vpn, by rw [← is, setLeaf_same]⟩
        · rw [put_other _ _ new] at is
          obtain ⟨otherVpn, mapped⟩ := old.mp ⟨i, inI, is⟩
          exact ⟨otherVpn, split.mpr (Or.inr mapped)⟩
      · rintro ⟨otherVpn, is⟩
        rcases split.mp is with ⟨rfl, -, -⟩ | mapped
        · exact ⟨slot, room, put_same ..⟩
        · obtain ⟨i, inI, isListed⟩ := old.mpr ⟨otherVpn, mapped⟩
          have differ : i ≠ slot := by
            rintro rfl
            rw [empty] at isListed
            cases isListed
          exact ⟨i, inI, by rw [put_other _ _ differ, isListed]⟩
    · rw [put_other _ _ same, old]
      constructor
      · rintro ⟨otherVpn, mapped⟩
        exact ⟨otherVpn, split.mpr (Or.inr mapped)⟩
      · rintro ⟨otherVpn, is⟩
        rcases split.mp is with ⟨-, -, equal⟩ | mapped
        · exact absurd (ok.apart other small' id inside (actives isActive) active equal) same
        · exact ⟨otherVpn, mapped⟩
  · intro other small' isActive otherPid i j inI inJ isI isJ
    by_cases same : other = id
    · subst same
      rw [put_same] at isI isJ
      simp only at isI isJ
      by_cases newI : i = slot <;> by_cases newJ : j = slot
      · rw [newI, newJ]
      · rw [newI, put_same] at isI
        rw [put_other _ _ newJ, ← isI] at isJ
        exact absurd isJ (unlisted j inJ)
      · rw [newJ, put_same] at isJ
        rw [put_other _ _ newI, ← isJ] at isI
        exact absurd isI (unlisted i inI)
      · rw [put_other _ _ newI] at isI
        rw [put_other _ _ newJ] at isJ
        exact ok.distinct other inside active otherPid i j inI inJ isI isJ
    · rw [put_other _ _ same] at isActive isI isJ
      exact ok.distinct other small' isActive otherPid i j inI inJ isI isJ
  · intro other small' isActive
    obtain ⟨otherPid, otherVpn, is⟩ := ok.nonempty other small' (actives isActive)
    exact ⟨otherPid, otherVpn, by rw [pgidx]; exact split.mpr (Or.inr is)⟩
  · intro other small' isActive
    have count := ok.count other small' (actives isActive)
    rw [pgidx]
    by_cases same : other = id
    · subst same
      rw [put_same, put_same, count]
    · have apart : (shm other).pgidx ≠ (shm id).pgidx := fun equal =>
        same (ok.apart other small' id inside (actives isActive) active equal)
      rw [put_other _ _ apart, put_other _ _ same, count]
  · intro left smallLeft right smallRight activeLeft activeRight equal
    rw [pgidx, pgidx] at equal
    exact ok.apart left smallLeft right smallRight (actives activeLeft) (actives activeRight) equal
  · intro other small' isActive otherPid otherVpn is
    rw [pgidx] at is
    by_cases here : otherPid = pid ∧ otherVpn = vpn
    · rw [here.1, here.2, setLeaf_same] at is
      cases is
    · rw [setLeaf_other here] at is
      exact ok.notCow other small' (actives isActive) otherPid otherVpn is
  · intro otherPid otherVpn other is
    have old : ∃ known < nshm, (shm known).Active ∧ (shm known).pgidx = other := by
      rcases split.mp is with ⟨-, -, rfl⟩ | mapped
      · exact ⟨id, inside, active, rfl⟩
      · exact ok.known otherPid otherVpn other mapped
    obtain ⟨known, small', isActive, names⟩ := old
    refine ⟨known, small', ?_, by rw [pgidx, names]⟩
    by_cases same : known = id
    · rw [same, put_same]
      exact Nat.succ_pos _
    · rwa [put_other _ _ same]
  · intro otherPid otherVpn other is
    rcases split.mp is with ⟨-, rfl, -⟩ | mapped
    · exact small
    · exact ok.low otherPid otherVpn other mapped

/-- A process stops using a shared page. -/
theorem leave (ok : ShmOk shm uva space) {charmap : Nat → Nat} {held : Option Nat}
    (frames : FramesOk charmap uva space held) {id pid vpn slot : Nat} (inside : id < nshm)
    (active : (shm id).Active) (was : space pid vpn = .shared (shm id).pgidx)
    (room : slot < npshm) (isListed : (shm id).opid slot = some pid) :
    ShmOk (put shm id
        { shm id with nproc := (shm id).nproc - 1, opid := put (shm id).opid slot none })
      (put uva (shm id).pgidx (uva (shm id).pgidx - 1))
      (setLeaf space pid vpn .untouched) := by
  have pgidx : ∀ other, (put shm id
      { shm id with nproc := (shm id).nproc - 1, opid := put (shm id).opid slot none }
        other).pgidx = (shm other).pgidx := by
    intro other
    by_cases same : other = id
    · rw [same, put_same]
    · rw [put_other _ _ same]
  have actives : ∀ {other}, (put shm id
      { shm id with nproc := (shm id).nproc - 1, opid := put (shm id).opid slot none }
        other).Active → (shm other).Active := by
    intro other is
    by_cases same : other = id
    · rw [same]
      exact active
    · rwa [put_other _ _ same] at is
  -- The process maps the frame at this address only, so only its own mapping goes.
  have split : ∀ {otherPid otherVpn other}, setLeaf space pid vpn .untouched otherPid otherVpn =
      .shared other ↔ space otherPid otherVpn = .shared other ∧
        ¬ (otherPid = pid ∧ otherVpn = vpn) := by
    intro otherPid otherVpn other
    by_cases here : otherPid = pid ∧ otherVpn = vpn
    · rw [here.1, here.2, setLeaf_same]
      simp
    · rw [setLeaf_other here]
      simp [here]
  have one : ∀ otherVpn, space pid otherVpn = .shared (shm id).pgidx → otherVpn = vpn :=
    fun otherVpn is => frames.once pid otherVpn vpn _ (Or.inr is) (Or.inr was)
  have counted : (users space (shm id).pgidx).ncard = (shm id).nproc := by
    obtain ⟨small, common⟩ := ok.marked frames inside active
    rw [(frames.counted _ small common).2, ok.count id inside active]
  refine ⟨?_, ?_, ?_, ?_, ?_, ?_, ?_, ?_⟩
  · intro other small' isActive otherPid
    have old := ok.listed other small' (actives isActive) otherPid
    rw [pgidx]
    by_cases same : other = id
    · subst same
      rw [put_same]
      simp only
      constructor
      · rintro ⟨i, inI, is⟩
        have differ : i ≠ slot := by
          rintro rfl
          rw [put_same] at is
          cases is
        rw [put_other _ _ differ] at is
        obtain ⟨otherVpn, mapped⟩ := old.mp ⟨i, inI, is⟩
        refine ⟨otherVpn, split.mpr ⟨mapped, ?_⟩⟩
        rintro ⟨rfl, -⟩
        exact differ (ok.distinct other inside active otherPid i slot inI room is isListed)
      · rintro ⟨otherVpn, is⟩
        obtain ⟨mapped, apart⟩ := split.mp is
        obtain ⟨i, inI, isListed'⟩ := old.mpr ⟨otherVpn, mapped⟩
        have differ : i ≠ slot := by
          rintro rfl
          rw [isListed, Option.some.injEq] at isListed'
          subst isListed'
          exact apart ⟨rfl, one otherVpn mapped⟩
        exact ⟨i, inI, by rw [put_other _ _ differ, isListed']⟩
    · rw [put_other _ _ same, old]
      constructor
      · rintro ⟨otherVpn, mapped⟩
        refine ⟨otherVpn, split.mpr ⟨mapped, ?_⟩⟩
        rintro ⟨rfl, rfl⟩
        rw [was, Leaf.shared.injEq] at mapped
        exact same (ok.apart other small' id inside (actives isActive) active mapped.symm)
      · rintro ⟨otherVpn, is⟩
        exact ⟨otherVpn, (split.mp is).1⟩
  · intro other small' isActive otherPid i j inI inJ isI isJ
    by_cases same : other = id
    · subst same
      rw [put_same] at isI isJ
      simp only at isI isJ
      have old : ∀ {k}, put (shm other).opid slot none k = some otherPid →
          (shm other).opid k = some otherPid := by
        intro k is
        by_cases gone : k = slot
        · rw [gone, put_same] at is
          cases is
        · rwa [put_other _ _ gone] at is
      exact ok.distinct other inside active otherPid i j inI inJ (old isI) (old isJ)
    · rw [put_other _ _ same] at isActive isI isJ
      exact ok.distinct other small' isActive otherPid i j inI inJ isI isJ
  · intro other small' isActive
    rw [pgidx]
    by_cases same : other = id
    · subst same
      -- The count says that somebody else still uses the page.
      have more : 1 < (users space (shm other).pgidx).ncard := by
        rw [put_same] at isActive
        have : 0 < (shm other).nproc - 1 := isActive
        omega
      have finite := frames.finite (shm other).pgidx
      obtain ⟨page, mem, differ⟩ := (Set.one_lt_ncard_iff_nontrivial_and_finite.mp more).1.exists_ne
        (pid, vpn)
      have notCow := ok.notCow other inside active page.1 page.2
      have mapped : space page.1 page.2 = .shared (shm other).pgidx := by
        rcases mem with cow | mapped
        · exact absurd cow notCow
        · exact mapped
      exact ⟨page.1, page.2, split.mpr ⟨mapped, fun both => differ (Prod.ext both.1 both.2)⟩⟩
    · obtain ⟨otherPid, otherVpn, is⟩ := ok.nonempty other small' (actives isActive)
      refine ⟨otherPid, otherVpn, split.mpr ⟨is, ?_⟩⟩
      rintro ⟨rfl, rfl⟩
      rw [was, Leaf.shared.injEq] at is
      exact same (ok.apart other small' id inside (actives isActive) active is.symm)
  · intro other small' isActive
    have count := ok.count other small' (actives isActive)
    rw [pgidx]
    by_cases same : other = id
    · subst same
      rw [put_same, put_same, count]
    · have apart : (shm other).pgidx ≠ (shm id).pgidx := fun equal =>
        same (ok.apart other small' id inside (actives isActive) active equal)
      rw [put_other _ _ apart, put_other _ _ same, count]
  · intro left smallLeft right smallRight activeLeft activeRight equal
    rw [pgidx, pgidx] at equal
    exact ok.apart left smallLeft right smallRight (actives activeLeft) (actives activeRight) equal
  · intro other small' isActive otherPid otherVpn is
    rw [pgidx] at is
    by_cases here : otherPid = pid ∧ otherVpn = vpn
    · rw [here.1, here.2, setLeaf_same] at is
      cases is
    · rw [setLeaf_other here] at is
      exact ok.notCow other small' (actives isActive) otherPid otherVpn is
  · intro otherPid otherVpn other is
    obtain ⟨mapped, apart⟩ := split.mp is
    obtain ⟨known, small', isActive, names⟩ := ok.known otherPid otherVpn other mapped
    refine ⟨known, small', ?_, by rw [pgidx, names]⟩
    by_cases same : known = id
    · subst same
      rw [put_same]
      -- This mapping is another one than the one that goes.
      have two : 1 < (users space (shm known).pgidx).ncard := by
        apply Set.one_lt_ncard_iff_nontrivial_and_finite.mpr
        refine ⟨⟨(pid, vpn), Or.inr was, (otherPid, otherVpn), Or.inr (by rw [names]; exact mapped),
          ?_⟩, frames.finite _⟩
        intro equal
        simp only [Prod.mk.injEq] at equal
        exact apart ⟨equal.1.symm, equal.2.symm⟩
      show 0 < (shm known).nproc - 1
      omega
    · rwa [put_other _ _ same]
  · intro otherPid otherVpn other is
    exact ok.low otherPid otherVpn other (split.mp is).1

end ShmOk

end GlucOS
