import GlucOS.Mm.RepeatLaws

/-! Shared pages over whole runs: control blocks, page tables and frame maps agree. -/

namespace GlucOS

open Routine

variable {mm : Mm} {role : Nat → Role} {space : Nat → Nat → Leaf} {procs : Finset Nat}

/-- An entry of a user process maps a page frame at a page. -/
structure Mm.Maps (mm : Mm) (pid vpn frame : Nat) (entry : Pte) : Prop where
  /-- The process is no idle one. -/
  isUser : ncpu ≤ pid
  /-- The page is one of user space. -/
  user : vpn < userVpns
  /-- The walk of the page ends at the entry. -/
  walk : ∃ tcb ∈ mm.pcbTable, tcb.pid = pid ∧ ∃ loc,
    lookup mm.tables (vpn * normalPageSize) 2 tcb.pgdir = some loc ∧ loc.level = 0 ∧
      mm.tables loc.table loc.index = entry
  /-- It is present. -/
  present : entry.v = true
  /-- It names the frame. -/
  names : entry.pfn = framePfn frame

/-- The page number of the address of a page of user space. -/
theorem walkVpn_page {vpn : Nat} (user : vpn < userVpns) :
    walkVpn (vpn * normalPageSize) = vpn := by
  simp only [walkVpn, normalPageSize, userVpns] at *
  omega

/-- An entry that maps a frame is that of a page with a frame. -/
theorem Mm.Maps.leaf {pid vpn frame : Nat} {entry : Pte} (maps : mm.Maps pid vpn frame entry)
    (sound : Consistent mm role space procs) :
    (space pid vpn).Holds entry ∧ (space pid vpn = .priv frame ∨ (space pid vpn).Uses frame) := by
  obtain ⟨tcb, mem, rfl, loc, found, level, isEntry⟩ := maps.walk
  obtain ⟨-, root⟩ := sound.tasks.home tcb mem maps.isUser
  have located := Meets.of_ok (@va2pte_lookup mm role space (fun _ => True) sound.ok.shape
    tcb.pgdir tcb.pid _ root) (va2pte_of_lookup found)
  rw [walkVpn_page maps.user] at located
  obtain ⟨-, ⟨-, -, table, index⟩ | ⟨above, -⟩⟩ := located
  swap
  · exact absurd level above
  have holds := sound.ok.shape.holds_at ⟨level, table, index⟩
  rw [isEntry] at holds
  refine ⟨holds, ?_⟩
  obtain ⟨a, d, is⟩ := holds
  have present := maps.present
  have names := maps.names
  rw [is] at present names
  cases leaf : space tcb.pid vpn with
  | untouched =>
    rw [leaf] at present
    cases present
  | priv other =>
    rw [leaf] at names
    have same : other = frame := by
      simp only [Leaf.pte, userPte, framePfn] at names
      omega
    rw [same]
    exact Or.inl rfl
  | cow other =>
    rw [leaf] at names
    have same : other = frame := by
      simp only [Leaf.pte, userPte, framePfn] at names
      omega
    rw [same]
    exact Or.inr (Or.inl rfl)
  | shared other =>
    rw [leaf] at names
    have same : other = frame := by
      simp only [Leaf.pte, userPte, framePfn] at names
      omega
    rw [same]
    exact Or.inr (Or.inr rfl)
  | swapped slot =>
    rw [leaf] at present
    cases present

/-- A page with a frame has an entry that maps it. -/
theorem Consistent.maps (sound : Consistent mm role space procs) {pid vpn frame : Nat}
    (is : space pid vpn = .priv frame ∨ (space pid vpn).Uses frame) :
    ∃ entry, mm.Maps pid vpn frame entry ∧ (space pid vpn).Holds entry := by
  have touched : space pid vpn ≠ .untouched := by
    obtain own | cow | isShared := is
    · simp [own]
    · simp [cow]
    · simp [isShared]
  have inProcs := sound.ok.procs.touched pid vpn touched
  have user : vpn < userVpns := sound.ok.inUser pid vpn touched
  have isUser := sound.tasks.user pid inProcs
  obtain ⟨tcb, mem, rfl⟩ := sound.tasks.alive pid inProcs
  obtain ⟨-, root⟩ := sound.tasks.home tcb mem isUser
  obtain ⟨table, node⟩ := sound.ok.shape.table_of_touched touched
  have here : AtLeaf role tcb.pid (walkVpn (vpn * normalPageSize)) ⟨0, table, vpn % 2 ^ 9⟩ := by
    rw [walkVpn_page user]
    exact ⟨rfl, node, rfl⟩
  have found := sound.ok.shape.lookup_leaf root here
  have holds := sound.ok.shape.holds_at here
  rw [walkVpn_page user] at holds
  refine ⟨_, ⟨isUser, user, ⟨tcb, mem, rfl, _, found, rfl, rfl⟩, ?_, ?_⟩, holds⟩
  · obtain ⟨a, d, isEntry⟩ := holds
    rw [isEntry]
    obtain own | cow | isShared := is
    · rw [own]
      rfl
    · rw [cow]
      rfl
    · rw [isShared]
      rfl
  · obtain ⟨a, d, isEntry⟩ := holds
    rw [isEntry]
    obtain own | cow | isShared := is
    · rw [own]
      rfl
    · rw [cow]
      rfl
    · rw [isShared]
      rfl

/-- What is so of a shared page that is in use. -/
structure ShmSound (mm : Mm) (id : Nat) : Prop where
  /-- Its control block lists as many users as it counts. -/
  count : ((Finset.range npshm).filter fun i => (mm.shmCtrl id).opid i ≠ none).card =
    (mm.shmCtrl id).nproc
  /-- They are different ones. -/
  distinct : ∀ i < npshm, ∀ j < npshm, ∀ pid, (mm.shmCtrl id).opid i = some pid →
    (mm.shmCtrl id).opid j = some pid → i = j
  /-- They are processes that live. -/
  alive : ∀ i < npshm, ∀ pid, (mm.shmCtrl id).opid i = some pid →
    ncpu ≤ pid ∧ ∃ tcb ∈ mm.pcbTable, tcb.pid = pid
  /-- Each of them maps the frame at one page, as a shared one. -/
  once : ∀ i < npshm, ∀ pid, (mm.shmCtrl id).opid i = some pid →
    ∃! vpn, ∃ entry, mm.Maps pid vpn (mm.shmCtrl id).pgidx entry ∧ entry.shared = true
  /-- No other entry maps the frame. -/
  only : ∀ pid vpn entry, mm.Maps pid vpn (mm.shmCtrl id).pgidx entry →
    entry.shared = true ∧ ∃ i < npshm, (mm.shmCtrl id).opid i = some pid
  /-- The frame is marked as shared. -/
  marked : (mm.shmCtrl id).pgidx < npf ∧ mm.pgCharmap (mm.shmCtrl id).pgidx = cmapShared
  /-- Its other count agrees. -/
  agree : mm.pgUva (mm.shmCtrl id).pgidx = (mm.shmCtrl id).nproc

/-- The list of users is as long as the count says. -/
theorem Consistent.listed_count (sound : Consistent mm role space procs) {id : Nat}
    (small : id < nshm) (active : (mm.shmCtrl id).Active) :
    ((Finset.range npshm).filter fun i => (mm.shmCtrl id).opid i ≠ none).card =
      (mm.shmCtrl id).nproc := by
  have shm := sound.ok.shm
  obtain ⟨inside, marked⟩ := shm.marked sound.ok.frames small active
  obtain ⟨-, counted⟩ := sound.ok.frames.counted _ inside marked
  rw [← shm.count id small active, ← counted]
  -- A place of the list and a page with the frame belong together when they have one process.
  have places : Set.InjOn (fun i => ((mm.shmCtrl id).opid i).getD 0)
      ((Finset.range npshm).filter fun i => (mm.shmCtrl id).opid i ≠ none) := by
    intro i mem j mem' same
    rw [Finset.mem_coe, Finset.mem_filter, Finset.mem_range] at mem mem'
    obtain ⟨left, isLeft⟩ := Option.ne_none_iff_exists'.mp mem.2
    obtain ⟨right, isRight⟩ := Option.ne_none_iff_exists'.mp mem'.2
    simp only [isLeft, isRight, Option.getD_some] at same
    rw [same] at isLeft
    exact shm.distinct id small active right i j mem.1 mem'.1 isLeft isRight
  have pages : Set.InjOn Prod.fst (users space (mm.shmCtrl id).pgidx) := by
    intro page uses other uses' same
    apply Prod.ext same
    have uses : (space page.1 page.2).Uses (mm.shmCtrl id).pgidx := uses
    have uses' : (space other.1 other.2).Uses (mm.shmCtrl id).pgidx := uses'
    rw [← same] at uses'
    exact sound.ok.frames.once page.1 page.2 other.2 _ uses uses'
  have shared : ∀ {pid vpn}, (space pid vpn).Uses (mm.shmCtrl id).pgidx →
      space pid vpn = .shared (mm.shmCtrl id).pgidx := by
    intro pid vpn uses
    obtain cow | isShared := uses
    · exact absurd cow (shm.notCow id small active pid vpn)
    · exact isShared
  rw [← Set.ncard_coe_finset, ← places.ncard_image, ← pages.ncard_image]
  congr 1
  ext pid
  simp only [Set.mem_image, Finset.mem_coe, Finset.mem_filter, Finset.mem_range]
  constructor
  · intro listed
    obtain ⟨i, ⟨room, some_⟩, isPid⟩ := listed
    obtain ⟨user, isUser⟩ := Option.ne_none_iff_exists'.mp some_
    rw [isUser, Option.getD_some] at isPid
    subst isPid
    obtain ⟨vpn, is⟩ := (shm.listed id small active user).mp ⟨i, room, isUser⟩
    exact ⟨(user, vpn), Or.inr is, rfl⟩
  · intro mapped
    obtain ⟨page, uses, rfl⟩ := mapped
    obtain ⟨i, room, isPid⟩ := (shm.listed id small active page.1).mpr ⟨page.2, shared uses⟩
    exact ⟨i, ⟨room, by simp [isPid]⟩, by simp [isPid]⟩

/-- In a consistent state the books about every shared page in use are right. -/
theorem Consistent.shm_sound (sound : Consistent mm role space procs) {id : Nat}
    (small : id < nshm) (active : (mm.shmCtrl id).Active) : ShmSound mm id := by
  have shm := sound.ok.shm
  have pages : ∀ {pid}, (∃ i < npshm, (mm.shmCtrl id).opid i = some pid) →
      ∃ vpn, space pid vpn = .shared (mm.shmCtrl id).pgidx := by
    intro pid listed
    exact (shm.listed id small active pid).mp listed
  refine ⟨sound.listed_count small active, ?_, ?_, ?_, ?_, shm.marked sound.ok.frames small active,
    shm.count id small active⟩
  · intro i room j room' pid left right
    exact shm.distinct id small active pid i j room room' left right
  · intro i room pid isPid
    obtain ⟨vpn, is⟩ := pages ⟨i, room, isPid⟩
    have inProcs := sound.ok.procs.touched pid vpn (by simp [is])
    exact ⟨sound.tasks.user pid inProcs, sound.tasks.alive pid inProcs⟩
  · intro i room pid isPid
    obtain ⟨vpn, is⟩ := pages ⟨i, room, isPid⟩
    obtain ⟨entry, maps, holds⟩ := sound.maps (Or.inr (Or.inr is))
    refine ⟨vpn, ⟨entry, maps, holds.shared_iff.mpr ⟨_, is⟩⟩, ?_⟩
    intro other mapped
    obtain ⟨entry, maps, isShared⟩ := mapped
    obtain ⟨holds, own | uses⟩ := maps.leaf sound
    · rw [own] at holds
      obtain ⟨a, d, rfl⟩ := holds
      simp [Leaf.pte, userPte] at isShared
    · exact sound.ok.frames.once pid other vpn _ uses (Or.inr is)
  · intro pid vpn entry maps
    obtain ⟨holds, own | cow | isShared⟩ := maps.leaf sound
    · -- The frame of a shared page is nobody's own.
      obtain ⟨named, -, owner, -⟩ := sound.ok.frames.priv pid vpn _ own
      rw [(shm.marked sound.ok.frames small active).2] at owner
      exact absurd owner.symm named.not_shared
    · exact absurd cow (shm.notCow id small active pid vpn)
    · exact ⟨holds.shared_iff.mpr ⟨_, isShared⟩,
        (shm.listed id small active pid).mpr ⟨vpn, isShared⟩⟩

/-- At an address of a process there is no page yet. -/
def NoPageAt (mm : Mm) (ccpu : Tcb) (va : Nat) : Prop :=
  ∃ loc, lookup mm.tables va 2 ccpu.pgdir = some loc ∧
    mm.tables loc.table loc.index = Pte.zero

/--
In every run the books about shared pages are right, different ones have different frames, a frame
is freed when and only when its last user goes, and no call fails a check or maps over a page.
-/
theorem shm_books_hold {start : Mm} (started : start.Started)
    (reached : Reaches mmMachine MmLegal start mm) :
    (∀ id < nshm, (mm.shmCtrl id).Active → ShmSound mm id) ∧
    (∀ id < nshm, ∀ id' < nshm, (mm.shmCtrl id).Active → (mm.shmCtrl id').Active →
      (mm.shmCtrl id).pgidx = (mm.shmCtrl id').pgidx → id = id') ∧
    (∀ event out next, MmLegal mm event → mmMachine event mm = .ok (out, next) →
      SharesOn mm next) ∧
    ∀ cpu ccpu, mm.curCpu cpu = some ccpu → ncpu ≤ ccpu.pid →
      (∀ key, Meets MmStop.Exhausted (shmPageGet cpu key) mm fun va _ =>
        va = 0 ∨ NoPageAt mm ccpu va) ∧
      ∀ addr, Meets (fun _ => False) (doShmPageDt cpu addr) mm fun _ _ => True := by
  have isSound := Mm.Sound.of_reached started reached
  obtain ⟨role, space, procs, sound⟩ := id isSound
  refine ⟨?_, ?_, ?_, ?_⟩
  · intro id small active
    exact sound.shm_sound small active
  · intro id small id' small' active active' same
    exact sound.ok.shm.apart id small id' small' active active' same
  · intro event out next legal ran
    have leads := @Mm.Sound.step mm (fun _ => True) trivial trivial trivial event isSound legal
      fun _ => trivial
    exact (leads.of_ok ran).shares
  · intro cpu ccpu runs isUser
    obtain ⟨-, root⟩ := sound.tasks.home ccpu (TasksOk.current_mem runs) isUser
    constructor
    · intro key
      apply Meets.mono (shmPageGet_sound (Or.inl rfl) (Or.inr (Or.inl rfl)) (Or.inr (Or.inr rfl))
        key sound runs isUser)
      intro va next done
      obtain ⟨-, rfl | ⟨low, untouched⟩⟩ := done
      · exact Or.inl rfl
      right
      have walk : walkVpn va = va / normalPageSize := walkVpn_user (by omega)
      have user : walkVpn va < userVpns := by
        rw [walk]
        simp only [userVpns, normalPageSize]
        omega
      rw [← walk] at untouched
      obtain ⟨loc, found, -⟩ := sound.ok.shape.ends_user root user
      exact ⟨loc, found, sound.ok.shape.zero_end root user untouched found⟩
    · intro addr
      apply Meets.mono (doShmPageDt_sound addr sound runs isUser)
      intro _ _ _
      trivial

/-- A process that attaches a shared page twice, and detaches it in between. -/
def attachAgain : List (Nat × MmEvent) :=
  [(0, .exec (some ⟨0x10000, 0x10000, 0, 8, fun _ => 0⟩) ⟨false, false⟩ 0 []), (0, .switchTo 2 0),
    (0, .shmPageGet 7), (0, .shmPageDt 0x11000), (0, .shmPageGet 4)]

/-- It uses the page that both keys name. -/
theorem shm_books_hold_again : ∃ mm, (mm.shmCtrl 1).nproc = 1 ∧ (mm.shmCtrl 1).opid 0 = some 2 ∧
    ∀ id < nshm, (mm.shmCtrl id).Active → ShmSound mm id := by
  have left : (runWhere mmMachine mmLegalTest idleMm attachAgain).map (fun mm =>
      ((mm.shmCtrl 1).nproc, (mm.shmCtrl 1).opid 0)) = some (1, some 2) := by
    decide +kernel
  obtain ⟨mm, ran, uses⟩ := Option.map_eq_some_iff.mp left
  simp only [Prod.mk.injEq] at uses
  have reached : Reaches mmMachine MmLegal idleMm mm := .of_events_where mmLegalTest_sound ran
  exact ⟨mm, uses.1, uses.2, (shm_books_hold idleMm_started reached).1⟩

end GlucOS
