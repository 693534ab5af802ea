import GlucOS.Mm.ShmLaws

/-! The reverse map of page frames, and what a process leaves behind when it terminates. -/

namespace GlucOS

open Routine

variable {mm next : Mm} {role : Nat → Role} {space : Nat → Nat → Leaf} {procs : Finset Nat}

/-! ## The reverse map -/

/-- What the maps say about a page frame is so. -/
structure FrameSound (mm : Mm) (frame : Nat) : Prop where
  /-- A free frame is mapped nowhere. -/
  free : mm.pgCharmap frame = cmapFree → ∀ pid vpn entry, ¬ mm.Maps pid vpn frame entry
  /-- A frame of one process is mapped by it at the address recorded, and nowhere else. -/
  own : mm.pgCharmap frame ≠ cmapFree → mm.pgCharmap frame ≠ cmapShared →
    ∃ vpn entry, mm.pgUva frame = vpn * normalPageSize ∧
      mm.Maps (mm.pgCharmap frame) vpn frame entry ∧ entry.shared = false ∧ entry.cow = false ∧
      ∀ pid' vpn' entry', mm.Maps pid' vpn' frame entry' →
        pid' = mm.pgCharmap frame ∧ vpn' = vpn ∧ entry' = entry
  /-- The count of a frame in common is that of the entries that map it. -/
  shared : mm.pgCharmap frame = cmapShared → 0 < mm.pgUva frame ∧ mm.pgUva frame ≤ uprocMax ∧
    {page : Nat × Nat | ∃ entry, mm.Maps page.1 page.2 frame entry}.ncard = mm.pgUva frame ∧
    ∀ pid vpn entry, mm.Maps pid vpn frame entry → entry.shared = true ∨ entry.cow = true

/-- The entry at the end of a walk depends on the process and the page only. -/
theorem Mm.Maps.same_entry {pid vpn frame frame' : Nat} {entry entry' : Pte}
    (sound : Consistent mm role space procs) (maps : mm.Maps pid vpn frame entry)
    (maps' : mm.Maps pid vpn frame' entry') : entry = entry' := by
  obtain ⟨tcb, mem, isPid, loc, found, -, is⟩ := maps.walk
  obtain ⟨tcb', mem', isPid', loc', found', -, is'⟩ := maps'.walk
  obtain ⟨-, root⟩ := sound.tasks.home tcb mem (by rw [isPid]; exact maps.isUser)
  obtain ⟨-, root'⟩ := sound.tasks.home tcb' mem' (by rw [isPid']; exact maps.isUser)
  rw [isPid] at root
  rw [isPid'] at root'
  -- All threads of a process have its top table.
  have sameRoot := sound.ok.shape.unique _ _ pid [] root root'
  rw [sameRoot, found', Option.some_inj] at found
  rw [← is, ← is', found]

/-- The pages that a process maps to a frame are those that the frame backs. -/
theorem Consistent.users_eq (sound : Consistent mm role space procs) {frame : Nat}
    (common : mm.pgCharmap frame = cmapShared) :
    {page : Nat × Nat | ∃ entry, mm.Maps page.1 page.2 frame entry} = users space frame := by
  ext page
  constructor
  · intro mapped
    obtain ⟨entry, maps⟩ := mapped
    obtain ⟨-, own | uses⟩ := maps.leaf sound
    · obtain ⟨named, -, owner, -⟩ := sound.ok.frames.priv _ _ _ own
      rw [common] at owner
      exact absurd owner.symm named.not_shared
    · exact uses
  · intro uses
    obtain ⟨entry, maps, -⟩ := sound.maps (Or.inr uses)
    exact ⟨entry, maps⟩

/-- In a consistent state the maps are right about every frame. -/
theorem Consistent.frame_sound (sound : Consistent mm role space procs) {frame : Nat}
    (inside : frame < npf) : FrameSound mm frame where
  free := by
    intro isFree pid vpn entry maps
    obtain ⟨-, own | uses⟩ := maps.leaf sound
    · obtain ⟨named, -, owner, -⟩ := sound.ok.frames.priv pid vpn frame own
      rw [isFree] at owner
      exact named.not_free owner.symm
    · obtain ⟨-, common⟩ := sound.ok.frames.multi pid vpn frame uses
      rw [isFree] at common
      exact shared_ne_free common.symm
  own := by
    intro used alone
    obtain ⟨pid, vpn, is⟩ := sound.ok.frames.owned frame inside used alone (by simp)
    obtain ⟨-, -, owner, addr, -⟩ := sound.ok.frames.priv pid vpn frame is
    obtain ⟨entry, maps, holds⟩ := sound.maps (Or.inl is)
    rw [is] at holds
    obtain ⟨a, d, isEntry⟩ := holds
    refine ⟨vpn, entry, addr, by rw [owner]; exact maps, ?_, ?_, ?_⟩
    · rw [isEntry]
      rfl
    · rw [isEntry]
      rfl
    · intro pid' vpn' entry' maps'
      obtain ⟨-, own | uses⟩ := maps'.leaf sound
      · obtain ⟨-, -, owner', addr', -⟩ := sound.ok.frames.priv pid' vpn' frame own
        rw [addr] at addr'
        have samePage : vpn' = vpn := by
          simp only [normalPageSize] at addr'
          omega
        have samePid : pid' = pid := owner'.symm.trans owner
        subst samePage samePid
        exact ⟨owner.symm, rfl, maps'.same_entry sound maps⟩
      · exact absurd (sound.ok.frames.multi pid' vpn' frame uses).2 alone
  shared := by
    intro common
    obtain ⟨some_, counted⟩ := sound.ok.frames.counted frame inside common
    have few := users_le sound.ok.frames sound.ok.procs frame
    have procsFew := sound.ok.procs.few
    rw [sound.users_eq common]
    refine ⟨some_, by omega, counted, ?_⟩
    intro pid vpn entry maps
    obtain ⟨holds, own | cow | isShared⟩ := maps.leaf sound
    · obtain ⟨named, -, owner, -⟩ := sound.ok.frames.priv pid vpn frame own
      rw [common] at owner
      exact absurd owner.symm named.not_shared
    · rw [cow] at holds
      obtain ⟨a, d, rfl⟩ := holds
      exact Or.inr rfl
    · rw [isShared] at holds
      obtain ⟨a, d, rfl⟩ := holds
      exact Or.inl rfl

/-- A check of memory management that failed, or a page fault of the kernel. -/
def MmStop.Inconsistent (reason : MmStop) : Prop := reason = .corrupt ∨ reason = .kernelFault

/--
In every run the maps of page frames are right about every frame, so that no consistency check of
memory management ever fails.
-/
theorem frames_sound {start : Mm} (started : start.Started)
    (reached : Reaches mmMachine MmLegal start mm) :
    (∀ frame < npf, FrameSound mm frame) ∧
    ∀ event, MmLegal mm event →
      Meets (fun reason => ¬ reason.Inconsistent) (mmMachine event) mm fun _ _ => True := by
  have isSound := Mm.Sound.of_reached started reached
  constructor
  · obtain ⟨role, space, procs, sound⟩ := isSound
    intro frame inside
    exact sound.frame_sound inside
  · intro event legal
    apply Meets.mono (Mm.Sound.step (by simp [MmStop.Inconsistent]) (by simp [MmStop.Inconsistent])
      (by simp [MmStop.Inconsistent]) isSound legal fun _ => by simp [MmStop.Inconsistent])
    intro _ _ _
    trivial

/-- A page that parent and child have in common has two users. -/
theorem frames_sound_forked : ∃ mm, mm.pgUva 0 = 2 ∧ FrameSound mm 0 := by
  have left : (runWhere mmMachine mmLegalTest idleMm (touchForkWrite.take 5)).map (fun mm =>
      mm.pgUva 0) = some 2 := by
    decide +kernel
  obtain ⟨mm, ran, uses⟩ := Option.map_eq_some_iff.mp left
  have reached : Reaches mmMachine MmLegal idleMm mm := .of_events_where mmLegalTest_sound ran
  exact ⟨mm, uses, (frames_sound idleMm_started reached).1 0 (by decide)⟩

/-! ## Terminated processes -/

/-- The state after a process has terminated: nothing of it is left, and nothing else has changed. -/
structure LeavesNothing (mm next : Mm) (pid : Nat) : Prop where
  /-- Its own page frames are free. -/
  frames : ∀ frame < npf, mm.pgCharmap frame = pid → next.pgCharmap frame = cmapFree
  /-- Its page tables are free. -/
  tables : ∀ table < npt, mm.pgtbCharmap table = pid → next.pgtbCharmap table = cmapFree
  /-- Its pages of the swap partition are free. -/
  slots : ∀ slot < npswap, mm.spgCharmap slot = pid → next.spgCharmap slot = cmapFree
  /-- Frames in common have as many users less as it had entries, and are freed with the last. -/
  counts : ∀ frame < npf, mm.pgCharmap frame = cmapShared → ∀ own,
    {vpn | ∃ entry, mm.Maps pid vpn frame entry}.ncard = own →
      (mm.pgUva frame = own ∧ next.pgCharmap frame = cmapFree) ∨
        (own < mm.pgUva frame ∧ next.pgCharmap frame = cmapShared ∧
          next.pgUva frame + own = mm.pgUva frame)
  /-- Frames of others stay as they are. -/
  otherFrames : ∀ frame < npf, mm.pgCharmap frame ≠ pid → mm.pgCharmap frame ≠ cmapShared →
    next.pgCharmap frame = mm.pgCharmap frame ∧
      (mm.pgCharmap frame ≠ cmapFree → next.pgUva frame = mm.pgUva frame)
  /-- So do their page tables. -/
  otherTables : ∀ table < npt, mm.pgtbCharmap table ≠ pid →
    next.pgtbCharmap table = mm.pgtbCharmap table ∧ next.tables table = mm.tables table
  /-- So do their pages of the swap partition. -/
  otherSlots : ∀ slot < npswap, mm.spgCharmap slot ≠ pid →
    next.spgCharmap slot = mm.spgCharmap slot
  /-- No frame and no page of the swap partition has other bytes. -/
  bytes : next.frames = mm.frames ∧ next.swapPages = mm.swapPages
  /-- Others map what they mapped. -/
  maps : ∀ other, other ≠ pid → ∀ vpn frame entry,
    next.Maps other vpn frame entry ↔ mm.Maps other vpn frame entry

/-- A frame is used exactly when it backs a page, and its mark says how. -/
theorem FramesOk.used_iff {charmap uva : Nat → Nat} (frames : FramesOk charmap uva space none)
    {frame : Nat} (inside : frame < npf) :
    charmap frame ≠ cmapFree ↔
      ∃ pid vpn, space pid vpn = .priv frame ∨ (space pid vpn).Uses frame := by
  constructor
  · intro used
    by_cases common : charmap frame = cmapShared
    · obtain ⟨some_, counted⟩ := frames.counted frame inside common
      have nonempty : (users space frame).Nonempty := by
        apply Set.nonempty_of_ncard_ne_zero
        omega
      obtain ⟨page, uses⟩ := nonempty
      exact ⟨page.1, page.2, Or.inr uses⟩
    · obtain ⟨pid, vpn, own⟩ := frames.owned frame inside used common (by simp)
      exact ⟨pid, vpn, Or.inl own⟩
  · intro backs
    obtain ⟨pid, vpn, own | uses⟩ := backs
    · obtain ⟨named, -, owner, -⟩ := frames.priv pid vpn frame own
      rw [owner]
      exact named.not_free
    · rw [(frames.multi pid vpn frame uses).2]
      exact shared_ne_free

/-- The page of another process is not touched when a process gives up its pages. -/
theorem dropSpace_other {pid other : Nat} (differ : other ≠ pid) (vpn : Nat) :
    dropSpace space pid other vpn = space other vpn := if_neg differ

/-- A page that is left is one of another process. -/
theorem dropSpace_foreign {pid other vpn : Nat} (now : dropSpace space pid other vpn ≠ .untouched) :
    other ≠ pid := by
  intro same
  apply now
  exact if_pos same

/-- An entry that maps a frame is at the end of its page's walk. -/
theorem Mm.Maps.at_leaf {pid vpn frame : Nat} {entry : Pte} (maps : mm.Maps pid vpn frame entry)
    (sound : Consistent mm role space procs) : ∃ tcb ∈ mm.pcbTable, tcb.pid = pid ∧
      ∃ loc, AtLeaf role pid vpn loc ∧ mm.tables loc.table loc.index = entry := by
  obtain ⟨tcb, mem, rfl, loc, found, level, isEntry⟩ := maps.walk
  obtain ⟨-, root⟩ := sound.tasks.home tcb mem maps.isUser
  have located := Meets.of_ok (@va2pte_lookup mm role space (fun _ => True) sound.ok.shape
    tcb.pgdir tcb.pid _ root) (va2pte_of_lookup found)
  rw [walkVpn_page maps.user] at located
  obtain ⟨-, ⟨-, -, table, index⟩ | ⟨above, -⟩⟩ := located
  · exact ⟨tcb, mem, rfl, loc, ⟨level, table, index⟩, isEntry⟩
  · exact absurd level above

/-- What the walk of a page ends at is mapped. -/
theorem Mm.Maps.of_leaf {pid vpn frame : Nat} {entry : Pte} {tcb : Tcb} {loc : PteLoc}
    (sound : Consistent mm role space procs) (isUser : ncpu ≤ pid) (user : vpn < userVpns)
    (mem : tcb ∈ mm.pcbTable) (isPid : tcb.pid = pid) (here : AtLeaf role pid vpn loc)
    (is : mm.tables loc.table loc.index = entry) (present : entry.v = true)
    (names : entry.pfn = framePfn frame) : mm.Maps pid vpn frame entry := by
  subst isPid
  obtain ⟨-, root⟩ := sound.tasks.home tcb mem isUser
  rw [← walkVpn_page user] at here
  exact ⟨isUser, user, ⟨tcb, mem, rfl, loc, sound.ok.shape.lookup_leaf root here, here.1, is⟩,
    present, names⟩

section Terminated

variable {pid : Nat}

/-- Others map what they mapped. -/
theorem Terminates.maps (before : Consistent mm role space procs)
    (ends : Terminates mm role space procs pid next) {other : Nat} (differ : other ≠ pid)
    (vpn frame : Nat) (entry : Pte) :
    next.Maps other vpn frame entry ↔ mm.Maps other vpn frame entry := by
  -- The tables of others are the same ones, with the same entries.
  have same : ∀ {loc : PteLoc} {path}, role loc.table = .node other path →
      next.tables loc.table = mm.tables loc.table := by
    intro loc path node
    apply ends.gives.tables
    intro own is
    rw [node] at is
    cases is
    exact differ rfl
  constructor
  · intro maps
    obtain ⟨tcb, mem, isPid, loc, ⟨level, node, index⟩, is⟩ := maps.at_leaf ends.sound
    obtain ⟨node, -⟩ := dropRoles_node.mp node
    rw [same node] at is
    exact .of_leaf before maps.isUser maps.user ((ends.members tcb).mp mem).1 isPid
      ⟨level, node, index⟩ is maps.present maps.names
  · intro maps
    obtain ⟨tcb, mem, isPid, loc, ⟨level, node, index⟩, is⟩ := maps.at_leaf before
    rw [← same node] at is
    exact .of_leaf ends.sound maps.isUser maps.user
      ((ends.members tcb).mpr ⟨mem, by rw [isPid]; exact differ⟩) isPid
      ⟨level, dropRoles_node.mpr ⟨node, differ⟩, index⟩ is maps.present maps.names

/-- The users of a frame in common are those that stay and the pages that the process has. -/
theorem Consistent.users_split (before : Consistent mm role space procs) {frame : Nat}
    (common : mm.pgCharmap frame = cmapShared) :
    (users space frame).ncard = (users (dropSpace space pid) frame).ncard +
      {vpn | ∃ entry, mm.Maps pid vpn frame entry}.ncard := by
  have own : users space frame = users (dropSpace space pid) frame ∪
      Prod.mk pid '' {vpn | ∃ entry, mm.Maps pid vpn frame entry} := by
    ext page
    constructor
    · intro uses
      by_cases mine : page.1 = pid
      · right
        obtain ⟨entry, maps, -⟩ := before.maps (Or.inr uses)
        rw [mine] at maps
        exact ⟨page.2, ⟨entry, maps⟩, Prod.ext mine.symm rfl⟩
      · left
        change (dropSpace space pid page.1 page.2).Uses frame
        rw [dropSpace_other mine]
        exact uses
    · intro either
      obtain uses | ⟨vpn, ⟨entry, maps⟩, rfl⟩ := either
      · have uses : (dropSpace space pid page.1 page.2).Uses frame := uses
        have touched : dropSpace space pid page.1 page.2 ≠ .untouched := by
          intro gone
          rw [gone] at uses
          simp [Leaf.Uses] at uses
        rw [dropSpace_kept touched] at uses
        exact uses
      · rw [← before.users_eq common]
        exact ⟨entry, maps⟩
  have apart : Disjoint (users (dropSpace space pid) frame)
      (Prod.mk pid '' {vpn | ∃ entry, mm.Maps pid vpn frame entry}) := by
    rw [Set.disjoint_left]
    intro page uses mine
    obtain ⟨vpn, -, rfl⟩ := mine
    have uses : (dropSpace space pid pid vpn).Uses frame := uses
    have gone : dropSpace space pid pid vpn = .untouched := if_pos rfl
    rw [gone] at uses
    simp [Leaf.Uses] at uses
  have finite := before.ok.frames.finite frame
  rw [own] at finite ⊢
  rw [Set.ncard_union_eq apart (finite.subset Set.subset_union_left)
    (finite.subset Set.subset_union_right),
    Set.ncard_image_of_injective _ (Prod.mk_right_injective pid)]

/-- Nothing is left of a process that has terminated. -/
theorem Terminates.leavesNothing (before : Consistent mm role space procs)
    (ends : Terminates mm role space procs pid next) (named : Named pid) :
    LeavesNothing mm next pid := by
  have frames := before.ok.frames
  have frames' := ends.sound.ok.frames
  -- A frame that is still used is one that another process used before.
  have foreign : ∀ {frame}, frame < npf → next.pgCharmap frame ≠ cmapFree →
      ∃ other vpn, other ≠ pid ∧ (space other vpn = .priv frame ∨ (space other vpn).Uses frame) := by
    intro frame inside used
    obtain ⟨other, vpn, backs⟩ := (frames'.used_iff inside).mp used
    have touched : dropSpace space pid other vpn ≠ .untouched := by
      intro gone
      rw [gone] at backs
      simp [Leaf.Uses] at backs
    rw [dropSpace_kept touched] at backs
    exact ⟨other, vpn, dropSpace_foreign touched, backs⟩
  constructor
  · intro frame inside mine
    by_contra used
    obtain ⟨other, vpn, differ, own | uses⟩ := foreign inside used
    · obtain ⟨-, -, owner, -⟩ := frames.priv other vpn frame own
      exact differ (owner.symm.trans mine)
    · rw [(frames.multi other vpn frame uses).2] at mine
      exact named.not_shared mine.symm
  · intro table inside mine
    rw [before.ok.tabs.marked table inside] at mine
    rw [ends.sound.ok.tabs.marked table inside]
    cases is : role table with
    | free =>
      rw [is] at mine
      exact absurd mine.symm named.not_free
    | kernel =>
      rw [is] at mine
      have zero : 0 = pid := mine
      have low := named.1
      simp only [ncpu] at low
      omega
    | node owner path =>
      rw [is] at mine
      have same : owner = pid := mine
      simp [dropRoles, is, same, Role.mark]
  · intro slot inside mine
    by_contra used
    obtain ⟨other, vpn, is⟩ := ends.sound.ok.slots.used slot inside used
    have touched : dropSpace space pid other vpn ≠ .untouched := by simp [is]
    rw [dropSpace_kept touched] at is
    have owner := (before.ok.slots.marked other vpn slot is).2
    exact dropSpace_foreign touched (owner.symm.trans mine)
  · intro frame inside common own isOwn
    have counted := (frames.counted frame inside common).2
    have total := @Consistent.users_split mm role space procs pid before frame common
    rw [isOwn, counted] at total
    by_cases left : (users (dropSpace space pid) frame).ncard = 0
    · left
      refine ⟨by omega, ?_⟩
      by_contra used
      obtain ⟨other, vpn, backs⟩ := (frames'.used_iff inside).mp used
      have nobody := (Set.ncard_eq_zero (frames'.finite frame)).mp left
      have touched : dropSpace space pid other vpn ≠ .untouched := by
        intro gone
        rw [gone] at backs
        simp [Leaf.Uses] at backs
      obtain mine | uses := backs
      · rw [dropSpace_kept touched] at mine
        obtain ⟨ownerNamed, -, owner, -⟩ := frames.priv other vpn frame mine
        rw [common] at owner
        exact ownerNamed.not_shared owner.symm
      · have member : (other, vpn) ∈ users (dropSpace space pid) frame := uses
        rw [nobody] at member
        exact member
    · right
      obtain ⟨page, uses⟩ := Set.nonempty_of_ncard_ne_zero left
      have common' := (frames'.multi page.1 page.2 frame uses).2
      have counted' := (frames'.counted frame inside common').2
      refine ⟨by omega, common', by omega⟩
  · intro frame inside notMine alone
    by_cases used : mm.pgCharmap frame = cmapFree
    · refine ⟨?_, fun contra => absurd used contra⟩
      rw [used]
      by_contra used'
      obtain ⟨other, vpn, -, backs⟩ := foreign inside used'
      exact (frames.used_iff inside).mpr ⟨other, vpn, backs⟩ used
    · obtain ⟨other, vpn, own⟩ := frames.owned frame inside used alone (by simp)
      obtain ⟨-, -, owner, addr, -⟩ := frames.priv other vpn frame own
      have differ : other ≠ pid := fun same => notMine (owner.trans same)
      have own' : dropSpace space pid other vpn = .priv frame := by
        rw [dropSpace_other differ, own]
      obtain ⟨-, -, owner', addr', -⟩ := frames'.priv other vpn frame own'
      exact ⟨owner'.trans owner.symm, fun _ => addr'.trans addr.symm⟩
  · intro table inside notMine
    have differ : ∀ path, role table ≠ .node pid path := by
      intro path is
      apply notMine
      rw [before.ok.tabs.marked table inside, is]
      rfl
    refine ⟨?_, ends.gives.tables table differ⟩
    rw [before.ok.tabs.marked table inside, ends.sound.ok.tabs.marked table inside]
    unfold dropRoles
    cases is : role table with
    | free => rfl
    | kernel => rfl
    | node owner path =>
      have notOwn : owner ≠ pid := by
        intro same
        subst same
        exact differ path is
      simp [notOwn]
  · intro slot inside notMine
    by_cases used : mm.spgCharmap slot = cmapFree
    · rw [used]
      by_contra used'
      obtain ⟨other, vpn, is⟩ := ends.sound.ok.slots.used slot inside used'
      have touched : dropSpace space pid other vpn ≠ .untouched := by simp [is]
      rw [dropSpace_kept touched] at is
      have owner := (before.ok.slots.marked other vpn slot is).2
      have mem := before.ok.procs.touched other vpn (by simp [is])
      rw [used] at owner
      exact (before.ok.procs.named other mem).not_free owner.symm
    · obtain ⟨other, vpn, is⟩ := before.ok.slots.used slot inside used
      have owner := (before.ok.slots.marked other vpn slot is).2
      have differ : other ≠ pid := fun same => notMine (owner.trans same)
      have is' : dropSpace space pid other vpn = .swapped slot := by
        rw [dropSpace_other differ, is]
      exact (ends.sound.ok.slots.marked other vpn slot is').2.trans owner.symm
  · rw [ends.gives.same]
    exact ⟨rfl, rfl⟩
  · intro other differ vpn frame entry
    exact ends.maps before differ vpn frame entry

end Terminated

end GlucOS
