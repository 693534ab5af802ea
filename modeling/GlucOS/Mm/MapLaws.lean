import GlucOS.Mm.PageLaws
import GlucOS.Mm.Translate

/-! Mapping one page: the translations that it adds, and all those that it leaves as they were. -/

namespace GlucOS

open Routine

/-! ## Walks that allocate -/

/-- Entries of tables in use keep their value, but for the one at which a walk ended. -/
def KeepsEntries (charmap : Nat → Nat) (tables tables' : Nat → Nat → Pte) (last : PteLoc) : Prop :=
  ∀ table i, charmap table ≠ cmapFree → ¬ (table = last.table ∧ i = last.index) →
    tables' table i = tables table i

/-- What `alloc_pagetable` does when it returns. -/
theorem allocPagetable_takes {accepted : MmStop → Prop} {mm : Mm} {pid : Nat}
    (invalid : u8 pid = cmapFree → accepted .corrupt)
    (exhausted : npt ≤ mm.pgtbFfree → accepted .noPageTable) :
    Meets accepted (allocPagetable pid) mm fun table next =>
      u8 pid ≠ cmapFree ∧ mm.pgtbFfree < npt ∧ table = mm.pgtbFfree ∧
        next = { mm with
          tables := put mm.tables mm.pgtbFfree fun _ => Pte.zero
          pgtbCharmap := put mm.pgtbCharmap mm.pgtbFfree (u8 pid)
          pgtbFfree := nextFree (put mm.pgtbCharmap mm.pgtbFfree (u8 pid))
            (npt - mm.pgtbFfree) mm.pgtbFfree } := by
  unfold allocPagetable
  apply meets_stopIf_bind invalid
  intro named
  simp only [meets_get_bind]
  apply meets_stopIf_bind exhausted
  intro left
  simp only [meets_set_bind, meets_pure]
  exact ⟨named, by omega, trivial, trivial⟩

/-- `va2pte` writes nothing but fresh tables and the entry at which it had no table to follow. -/
theorem va2pteFrom_keeps {mm : Mm} {va pid level table : Nat} {last : PteLoc}
    (index : FreeIndex mm.pgtbCharmap npt mm.pgtbFfree)
    (found : lookup mm.tables va level table = some last)
    (used : mm.pgtbCharmap last.table ≠ cmapFree) :
    Meets (fun _ => True) (va2pteFrom va true pid level table) mm fun loc next =>
      KeepsEntries mm.pgtbCharmap mm.tables next.tables last ∧
        (loc = last ∨ mm.pgtbCharmap loc.table = cmapFree) := by
  induction level generalizing mm table last with
  | zero =>
    unfold va2pteFrom
    unfold lookup at found
    dsimp only at found
    simp only [meets_readPte_bind]
    generalize isEntry : mm.tables table (vpnAt va 0) = entry at found ⊢
    -- The last level allocates nothing.
    by_cases present : entry.v = true
    · by_cases isLeaf : entry.xwr = true
      · rw [if_neg (by simp [isLeaf]), Option.some_inj] at found
        rw [if_pos present, if_pos isLeaf, meets_pure]
        exact ⟨fun _ _ _ _ => rfl, .inl found⟩
      · rw [if_pos present, if_neg isLeaf, meets_stop]
        trivial
    · rw [if_neg (by simp [present]), Option.some_inj] at found
      rw [if_neg present, meets_pure]
      exact ⟨fun _ _ _ _ => rfl, .inl found⟩
  | succ level ih =>
    unfold va2pteFrom
    unfold lookup at found
    dsimp only at found
    simp only [meets_readPte_bind]
    generalize isEntry : mm.tables table (vpnAt va (level + 1)) = entry at found ⊢
    by_cases present : entry.v = true
    · by_cases isLeaf : entry.xwr = true
      · rw [if_neg (by simp [isLeaf]), Option.some_inj] at found
        rw [if_pos present, if_pos isLeaf, meets_pure]
        exact ⟨fun _ _ _ _ => rfl, .inl found⟩
      · -- The entry is followed as it is.
        rw [if_pos present, if_neg isLeaf]
        have inner : entry.xwr = false := by simpa using isLeaf
        rw [if_pos ⟨present, inner⟩] at found
        cases leads : entry.table? with
        | none =>
          rw [leads] at found
          cases found
        | some below =>
          rw [leads, Option.bind_some] at found
          rw [meets_tableOf_bind leads]
          exact ih index found used
    · rw [if_neg (by simp [present]), Option.some_inj] at found
      subst found
      rw [if_neg present]
      simp only [if_true]
      apply meets_stopIf_bind (fun _ => trivial)
      intro _
      refine Meets.bind (allocPagetable_takes (fun _ => trivial) fun _ => trivial) ?_
      intro next taken rest
      obtain ⟨named, left, rfl, rfl⟩ := rest
      simp only [meets_writePte_bind]
      have free : mm.pgtbCharmap mm.pgtbFfree = cmapFree := index.isFree (by omega)
      have apart : ∀ other, mm.pgtbCharmap other ≠ cmapFree → other ≠ mm.pgtbFfree := by
        intro other isUsed same
        rw [same] at isUsed
        exact isUsed free
      have fresh : mm.pgtbFfree ≠ table := fun same => apart table used same.symm
      -- The walk goes on in the fresh table, whose entries are all zero.
      apply (@ih _ mm.pgtbFfree ⟨level, mm.pgtbFfree, vpnAt va level⟩
        (index.take (by omega) (u8 pid)) ?_ ?_).mono
      · intro loc next kept
        obtain ⟨entries, ended⟩ := kept
        dsimp only at entries ended
        constructor
        · intro other i isUsed differ
          have stillUsed : put mm.pgtbCharmap mm.pgtbFfree (u8 pid) other ≠ cmapFree := by
            rwa [put_other _ _ (apart other isUsed)]
          rw [entries other i stillUsed (fun both => apart other isUsed both.1)]
          dsimp only at differ
          by_cases same : other = table
          · rw [same] at differ ⊢
            rw [put_same, put_other _ _ fun here => differ ⟨rfl, here⟩,
              put_other _ _ fresh.symm]
          · rw [put_other _ _ same, put_other _ _ (apart other isUsed)]
        · right
          rcases ended with same | gone
          · rw [same]
            exact free
          · by_cases same : loc.table = mm.pgtbFfree
            · rw [same]
              exact free
            · rwa [put_other _ _ same] at gone
      · unfold lookup
        dsimp only
        rw [put_other _ _ fresh, put_same, if_neg (by simp)]
      · dsimp only
        rw [put_same]
        exact named

/-! ## Walks of well-formed tables -/

/-- A table in use is marked so. -/
theorem TabsOk.used {charmap : Nat → Nat} {first table : Nat} {role : Nat → Role}
    {tables : Nat → Nat → Pte} {space : Nat → Nat → Leaf} (tabs : TabsOk charmap first role)
    (shape : Shape tables role space) (inUse : role table ≠ .free) : charmap table ≠ cmapFree := by
  rw [tabs.marked table (shape.inside table inUse)]
  cases is : role table with
  | free => exact absurd is inUse
  | kernel => decide
  | node pid path =>
    have named := tabs.named table pid path is
    simp only [Role.mark, cmapFree, uprocMax] at *
    omega

/-- The tables that a walk from a page directory enters at each level. -/
def Entered (role : Nat → Role) (tables : Nat → Nat → Pte) (va level table : Nat) : Prop :=
  (∃ pid path, role table = .node pid path ∧ path.length + level = 2) ∨
    (table = 1 ∧ level = 1) ∨ (table = 0 ∧ level = 2 ∧ KernelEntry (tables 0 (vpnAt va 2)))

section Walks

variable {tables : Nat → Nat → Pte} {role : Nat → Role} {space : Nat → Nat → Leaf}
  {va level table : Nat}

/-- Tables that a walk enters are in use. -/
theorem Entered.used (shape : Shape tables role space) (entered : Entered role tables va level table) :
    role table ≠ .free := by
  rcases entered with ⟨pid, path, is, -⟩ | ⟨rfl, -⟩ | ⟨rfl, -⟩
  · simp [is]
  · rw [(shape.kernel 1).mpr (.inr rfl)]
    simp
  · rw [(shape.kernel 0).mpr (.inl rfl)]
    simp

/-- An entry of the kernel's half leads to the kernel's other table, if anywhere. -/
theorem KernelEntry.leads {entry : Pte} (kernel : KernelEntry entry) (present : entry.v = true)
    (inner : entry.xwr = false) : entry.table? = some 1 := by
  rcases kernel with gone | large | rfl
  · rw [gone] at present
    cases present
  · rw [large] at inner
    cases inner
  · exact tablePte_table (by decide)

/-- An entry that a walk follows leads to the next table. -/
theorem Entered.follow (shape : Shape tables role space)
    (entered : Entered role tables va (level + 1) table)
    (present : (tables table (vpnAt va (level + 1))).v = true)
    (inner : (tables table (vpnAt va (level + 1))).xwr = false) :
    ∃ below, (tables table (vpnAt va (level + 1))).table? = some below ∧
      Entered role tables va level below := by
  rcases entered with ⟨pid, path, is, depth⟩ | ⟨rfl, last⟩ | ⟨rfl, top, kernel⟩
  · by_cases fits : vpnAt va (level + 1) < room path
    · rcases shape.inner table pid path _ is (by omega) fits with ⟨zero, -⟩ | ⟨below, isBelow, points⟩
      · rw [zero] at present
        cases present
      · refine ⟨below, ?_, .inl ⟨pid, _, isBelow, ?_⟩⟩
        · rw [points]
          exact tablePte_table (shape.inside below (by simp [isBelow]))
        · rw [List.length_append, List.length_singleton]
          omega
    · -- Only the top table has entries that are not the process's.
      have root : path = [] := by
        by_contra inside
        rw [room, if_neg inside] at fits
        exact fits (vpnAt_lt va _)
      subst root
      rw [room, if_pos rfl, Nat.not_lt] at fits
      rw [List.length_nil, Nat.zero_add] at depth
      exact ⟨1, (shape.kernelHalf table pid _ is fits).leads present inner,
        .inr (.inl ⟨rfl, by omega⟩)⟩
  · rcases shape.kernelPages (vpnAt va (level + 1)) with gone | large
    · rw [gone] at present
      cases present
    · rw [large] at inner
      cases inner
  · rw [top] at present inner ⊢
    exact ⟨1, kernel.leads present inner, .inr (.inl ⟨rfl, by omega⟩)⟩

/-- A walk from a page directory ends at an entry of a table in use. -/
theorem Entered.ends (shape : Shape tables role space)
    (entered : Entered role tables va level table) :
    ∃ loc, lookup tables va level table = some loc ∧ loc.index = vpnAt va loc.level ∧
      Entered role tables va loc.level loc.table := by
  induction level generalizing table with
  | zero =>
    refine ⟨⟨0, table, vpnAt va 0⟩, ?_, rfl, entered⟩
    unfold lookup
    dsimp only
    rw [if_neg]
    intro both
    -- A present entry of the last level is a page.
    rcases entered with ⟨pid, path, is, depth⟩ | ⟨-, level⟩ | ⟨-, level, -⟩
    · obtain ⟨vpn2, vpn1, rfl⟩ := List.length_eq_two.mp (show path.length = 2 from depth)
      have holds := shape.leaf table pid vpn2 vpn1 _ is (vpnAt_lt va 0)
      rw [holds.xwr both.1] at both
      cases both.2
    · cases level
    · cases level
  | succ level ih =>
    by_cases both : (tables table (vpnAt va (level + 1))).v = true ∧
        (tables table (vpnAt va (level + 1))).xwr = false
    · obtain ⟨below, leads, enters⟩ := entered.follow shape both.1 both.2
      obtain ⟨loc, found, rest⟩ := ih enters
      refine ⟨loc, ?_, rest⟩
      unfold lookup
      dsimp only
      rw [if_pos both, leads, Option.bind_some, found]
    · refine ⟨⟨level + 1, table, vpnAt va (level + 1)⟩, ?_, rfl, entered⟩
      unfold lookup
      dsimp only
      rw [if_neg both]

/-- A walk that does not end at the entry that was changed is the same as before. -/
theorem Entered.same (shape : Shape tables role space) {tables' : Nat → Nat → Pte} {last : PteLoc}
    (entered : Entered role tables va level table)
    (kept : ∀ other i, role other ≠ .free → ¬ (other = last.table ∧ i = last.index) →
      tables' other i = tables other i)
    (absent : (tables last.table last.index).v = false) :
    lookup tables' va level table = lookup tables va level table ∨
      ∃ loc, lookup tables va level table = some loc ∧ loc.table = last.table ∧
        loc.index = last.index := by
  induction level generalizing table with
  | zero =>
    by_cases here : table = last.table ∧ vpnAt va 0 = last.index
    · right
      refine ⟨⟨0, table, vpnAt va 0⟩, ?_, here⟩
      unfold lookup
      dsimp only
      rw [here.1, here.2, if_neg (by simp [absent])]
    · left
      unfold lookup
      dsimp only
      rw [kept table _ (entered.used shape) here]
  | succ level ih =>
    by_cases here : table = last.table ∧ vpnAt va (level + 1) = last.index
    · right
      refine ⟨⟨level + 1, table, vpnAt va (level + 1)⟩, ?_, here⟩
      unfold lookup
      dsimp only
      rw [here.1, here.2, if_neg (by simp [absent])]
    · have entry := kept table _ (entered.used shape) here
      by_cases both : (tables table (vpnAt va (level + 1))).v = true ∧
          (tables table (vpnAt va (level + 1))).xwr = false
      · obtain ⟨below, leads, enters⟩ := entered.follow shape both.1 both.2
        unfold lookup
        dsimp only
        rw [entry, if_pos both, if_pos both, leads, Option.bind_some, Option.bind_some]
        exact ih enters
      · left
        unfold lookup
        dsimp only
        rw [entry, if_neg both, if_neg both]

/-- The entry above a table points to it. -/
theorem Shape.points (shape : Shape tables role space) {above below pid i : Nat} {path : List Nat}
    (node : role above = .node pid path) (isBelow : role below = .node pid (path ++ [i])) :
    tables above i = tablePte below := by
  obtain ⟨short, fits, -⟩ := shape.parent below pid path i isBelow
  rcases shape.inner above pid path i node short fits with ⟨-, none⟩ | ⟨other, isOther, points⟩
  · exact absurd isBelow (none below)
  · rw [points, shape.unique other below pid _ isOther isBelow]

/-- A walk follows an entry that points to a table. -/
theorem lookup_follow {below : Nat} (points : tables table (vpnAt va (level + 1)) = tablePte below)
    (inside : below < npt) : lookup tables va (level + 1) table = lookup tables va level below := by
  rw [lookup]
  rw [points, if_pos ⟨rfl, rfl⟩, tablePte_table inside, Option.bind_some]

/-- A walk reaches the entry of a page that has one. -/
theorem Shape.lookup_leaf (shape : Shape tables role space) {pgdir pid : Nat} {loc : PteLoc}
    (root : role pgdir = .node pid []) (here : AtLeaf role pid (walkVpn va) loc) :
    lookup tables va 2 pgdir = some loc := by
  have holds := shape.holds_at here
  obtain ⟨level, node, index⟩ := here
  rw [← vpnAt_two, ← vpnAt_one] at node
  obtain ⟨-, -, middle, isMid⟩ := shape.parent loc.table pid [vpnAt va 2] (vpnAt va 1) node
  have top := shape.points root (by simpa using isMid)
  have mid := shape.points isMid (by simpa using node)
  rw [lookup_follow top (shape.inside middle (by simp [isMid])),
    lookup_follow mid (shape.inside loc.table (by simp [node])), lookup]
  rw [← vpnAt_zero] at index
  rw [← index, if_neg]
  · rw [← level]
  · intro both
    rw [holds.xwr both.1] at both
    cases both.2

/-- A walk of a user address ends at the table of its indexes so far. -/
theorem Shape.ends_user (shape : Shape tables role space) {pgdir pid : Nat}
    (root : role pgdir = .node pid []) (user : walkVpn va < userVpns) :
    ∃ loc, lookup tables va 2 pgdir = some loc ∧ loc.level ≤ 2 ∧ loc.index = vpnAt va loc.level ∧
      role loc.table = .node pid ([vpnAt va 2, vpnAt va 1].take (2 - loc.level)) := by
  have top : vpnAt va 2 < numPteEntry / 2 := by
    rw [vpnAt_two]
    simp only [numPteEntry, userVpns] at *
    omega
  rcases shape.inner pgdir pid [] _ root (by decide) (by simpa [room] using top) with
    ⟨zero, -⟩ | ⟨middle, isMid, points⟩
  · refine ⟨⟨2, pgdir, vpnAt va 2⟩, ?_, Nat.le_refl 2, rfl, root⟩
    rw [lookup, zero]
    rfl
  · rw [lookup_follow points (shape.inside middle (by simp [isMid]))]
    rcases shape.inner middle pid [vpnAt va 2] _ isMid (by simp)
      (by simpa [room] using vpnAt_lt va 1) with ⟨zero, -⟩ | ⟨last, isLast, points'⟩
    · refine ⟨⟨1, middle, vpnAt va 1⟩, ?_, by simp, rfl, isMid⟩
      rw [lookup, zero]
      rfl
    · rw [lookup_follow points' (shape.inside last (by simp [isLast]))]
      have holds := shape.leaf last pid (vpnAt va 2) (vpnAt va 1) _ isLast (vpnAt_lt va 0)
      refine ⟨⟨0, last, vpnAt va 0⟩, ?_, by simp, rfl, isLast⟩
      rw [lookup, if_neg]
      intro both
      rw [holds.xwr both.1] at both
      cases both.2

/-- A walk through the kernel's half ends there or in the kernel's other table. -/
theorem Shape.ends_kernel (shape : Shape tables role space) {dir : Nat}
    (kernel : KernelEntry (tables dir (vpnAt va 2))) :
    ∃ loc, lookup tables va 2 dir = some loc ∧
      (loc = ⟨2, dir, vpnAt va 2⟩ ∨ loc.table = 1) := by
  by_cases both : (tables dir (vpnAt va 2)).v = true ∧ (tables dir (vpnAt va 2)).xwr = false
  · rw [lookup, if_pos both, kernel.leads both.1 both.2, Option.bind_some, lookup, if_neg]
    · exact ⟨_, rfl, .inr rfl⟩
    · -- The kernel's other table holds large pages.
      intro inner
      rcases shape.kernelPages (vpnAt va 1) with gone | large
      · rw [gone] at inner
        cases inner.1
      · rw [large] at inner
        cases inner.2
  · rw [lookup, if_neg both]
    exact ⟨_, rfl, .inl rfl⟩

end Walks

/-! ## Mapping a page -/

/-- `va2pte` without allocation answers where the walk ends. -/
theorem va2pte_of_lookup {mm : Mm} {va pgdir : Nat} {loc : PteLoc}
    (found : lookup mm.tables va 2 pgdir = some loc) :
    va2pte va pgdir false 0 mm = .ok (loc, mm) := by
  rw [va2pte, va2pteFrom_lookup, found]

/-- What `alloc_page` does when a page frame is free. -/
theorem allocPage_free {accepted : MmStop → Prop} {mm : Mm} {cpu pid uva : Nat}
    (named : u8 pid ≠ cmapFree) (fits : mm.pgFfree < npf) :
    Meets accepted (allocPage cpu pid uva) mm fun frame next =>
      frame = mm.pgFfree ∧
        next = { mm with
          pgCharmap := put mm.pgCharmap mm.pgFfree (u8 pid)
          pgUva := put mm.pgUva mm.pgFfree (uva / normalPageSize * normalPageSize)
          pgFfree := nextFree (put mm.pgCharmap mm.pgFfree (u8 pid)) (npf - mm.pgFfree)
            mm.pgFfree } := by
  unfold allocPage
  apply meets_stopIf_bind (fun taken => absurd taken named)
  intro _
  simp only [meets_get_bind]
  rw [if_neg (by omega)]
  simp only [meets_set_bind, meets_pure]
  exact ⟨trivial, trivial⟩

/-- The page of an address was mapped at a page frame, and nothing else changed its translation. -/
structure MapsOne (mm : Mm) (role : Nat → Role) (space : Nat → Nat → Leaf) (va pgdir pid : Nat)
    (frame : Nat) (next : Mm) : Prop where
  /-- The tables stay well-formed, and those in use keep their place. -/
  wellFormed : ∃ role', Shape next.tables role'
      (setLeaf space pid (va / normalPageSize) (.priv frame)) ∧
    TabsOk next.pgtbCharmap next.pgtbFfree role' ∧ Grows role role'
  /-- Every address of the page has an entry of the last level, which leads to the frame. -/
  here : ∀ other, other / normalPageSize = va / normalPageSize →
    ∃ table answer, va2pte other pgdir false 0 next = .ok (⟨0, table, vpnAt other 0⟩, next) ∧
      va2kva other pgdir next = .ok (answer, next) ∧
      kvaOf answer = pa2kva (framePfn frame * normalPageSize) + other % normalPageSize
  /-- Every other address of every page directory is translated as before. -/
  translates : ∀ dir other, dir = 0 ∨ (∃ owner, role dir = .node owner []) →
    ¬ (dir = pgdir ∧ walkVpn other = va / normalPageSize) →
    ∃ answer, va2kva other dir mm = .ok (answer, mm) ∧ va2kva other dir next = .ok (answer, next)
  /-- Its walk ends at the same entry, unless it ended at the very entry above the last level that
  the page had no table below, and then it ends at another zero entry. -/
  walks : ∀ dir other, dir = 0 ∨ (∃ owner, role dir = .node owner []) →
    ¬ (dir = pgdir ∧ walkVpn other = va / normalPageSize) →
    ∃ loc loc', va2pte other dir false 0 mm = .ok (loc, mm) ∧
      va2pte other dir false 0 next = .ok (loc', next) ∧
      next.tables loc'.table loc'.index = mm.tables loc.table loc.index ∧
      (loc' = loc ∨ (loc.level ≠ 0 ∧ va2pte va pgdir false 0 mm = .ok (loc, mm) ∧
        mm.tables loc.table loc.index = Pte.zero))

section Mapping

variable {mm next : Mm} {role role' : Nat → Role} {space : Nat → Nat → Leaf}
  {va other pgdir dir pid : Nat} {loc last : PteLoc} {leaf : Leaf}

/-- Two walks that end at one entry of a process start at its page directory. -/
theorem Shape.same_end {tables : Nat → Nat → Pte} (shape : Shape tables role space)
    (root : role pgdir = .node pid []) (small : walkVpn va < userVpns)
    (found : lookup tables va 2 pgdir = some last) (isDir : dir = 0 ∨ ∃ owner, role dir = .node owner [])
    (kernel : dir = 0 → KernelEntry (tables dir (vpnAt other 2)))
    (isLoc : lookup tables other 2 dir = some loc) (table : loc.table = last.table)
    (index : loc.index = last.index) : dir = pgdir ∧ loc = last ∧ walkVpn other < userVpns := by
  obtain ⟨ends, isEnd, level, lastIndex, node⟩ := shape.ends_user root small
  rw [found, Option.some_inj] at isEnd
  subst isEnd
  rw [← table] at node
  -- The tables of the kernel are not those of a process.
  have notKernel : loc.table ≠ 0 ∧ loc.table ≠ 1 := by
    constructor
    · intro same
      rw [(shape.kernel loc.table).mpr (.inl same)] at node
      cases node
    · intro same
      rw [(shape.kernel loc.table).mpr (.inr same)] at node
      cases node
  have notHalf : KernelEntry (tables dir (vpnAt other 2)) → loc = ⟨2, dir, vpnAt other 2⟩ := by
    intro half
    obtain ⟨loc', isLoc', ends⟩ := shape.ends_kernel half
    rw [isLoc, Option.some_inj] at isLoc'
    subst isLoc'
    exact ends.resolve_right notKernel.2
  obtain ⟨owner, isRoot⟩ : ∃ owner, role dir = .node owner [] := by
    apply isDir.resolve_left
    intro isZero
    exact notKernel.1 ((congrArg PteLoc.table (notHalf (kernel isZero))).trans isZero)
  have low : vpnAt other 2 < numPteEntry / 2 := by
    -- Otherwise the entry of the top table would be in both halves.
    by_contra high
    have same := notHalf (shape.kernelHalf dir owner _ isRoot (by omega))
    rw [same] at node index
    rw [isRoot] at node
    have length := congrArg List.length (Role.node.inj node).2
    have top : last.level = 2 := by
      simp at length
      omega
    rw [top, vpnAt_two] at lastIndex
    dsimp only at index
    simp only [numPteEntry, userVpns] at *
    omega
  have otherUser : walkVpn other < userVpns := by
    rw [vpnAt_two] at low
    simp only [numPteEntry, userVpns] at *
    omega
  obtain ⟨loc', isLoc', level', -, node'⟩ := shape.ends_user isRoot otherUser
  rw [isLoc, Option.some_inj] at isLoc'
  subst isLoc'
  rw [node] at node'
  obtain ⟨rfl, path⟩ := Role.node.inj node'
  have sameLevel : loc.level = last.level := by
    have length := congrArg List.length path
    simp at length
    omega
  refine ⟨shape.unique dir pgdir pid [] isRoot root, ?_, otherUser⟩
  cases loc
  cases last
  simp only at table index sameLevel
  rw [table, index, sameLevel]

/-- Two walks from one directory that end at one entry of the last level are those of one page. -/
theorem Shape.same_page {tables : Nat → Nat → Pte} (shape : Shape tables role space)
    (root : role pgdir = .node pid []) (small : walkVpn va < userVpns)
    (otherSmall : walkVpn other < userVpns) (found : lookup tables va 2 pgdir = some loc)
    (found' : lookup tables other 2 pgdir = some loc) (level : loc.level = 0) :
    walkVpn other = walkVpn va := by
  obtain ⟨ends, isEnd, -, index, node⟩ := shape.ends_user root small
  rw [found, Option.some_inj] at isEnd
  subst isEnd
  obtain ⟨ends, isEnd, -, index', node'⟩ := shape.ends_user root otherSmall
  rw [found', Option.some_inj] at isEnd
  subst isEnd
  rw [node] at node'
  have path := (Role.node.inj node').2
  rw [level] at path index index'
  simp only [Nat.sub_zero, List.take_succ_cons, List.take_zero, List.cons.injEq, and_true] at path
  rw [vpnAt_two, vpnAt_two, vpnAt_one, vpnAt_one] at path
  rw [vpnAt_zero] at index index'
  omega

/-- A page that has nothing has a zero entry at the end of its walk. -/
theorem Shape.zero_end (shape : Shape mm.tables role space) (root : role pgdir = .node pid [])
    (small : walkVpn va < userVpns) (untouched : space pid (walkVpn va) = .untouched)
    (found : lookup mm.tables va 2 pgdir = some loc) :
    mm.tables loc.table loc.index = Pte.zero := by
  have located := Meets.of_ok (@va2pte_lookup mm role space (fun _ => True) shape pgdir pid
    va root) (va2pte_of_lookup found)
  rcases located.2 with ⟨level, -, atLeaf, index⟩ | ⟨-, empty⟩
  · exact (shape.holds_at ⟨level, atLeaf, index⟩).zero_iff.mpr untouched
  · exact (empty small).2

/-- A page whose walk ends above the last level has nothing. -/
theorem Shape.untouched_above (shape : Shape mm.tables role space) (root : role pgdir = .node pid [])
    (small : walkVpn va < userVpns) (found : lookup mm.tables va 2 pgdir = some loc)
    (above : loc.level ≠ 0) : space pid (walkVpn va) = .untouched := by
  have located := Meets.of_ok (@va2pte_lookup mm role space (fun _ => True) shape pgdir pid
    va root) (va2pte_of_lookup found)
  rcases located.2 with ⟨level, -⟩ | ⟨-, empty⟩
  · exact absurd level above
  · exact (empty small).1

/-- What other walks do once the entry has changed at which a page had nothing. -/
theorem walks_after (shape : Shape mm.tables role space)
    (shape' : Shape next.tables role' (setLeaf space pid (walkVpn va) leaf))
    (grows : Grows role role') (revoked : ∀ i < numPteEntry / 2, (mm.tables 0 i).v = false)
    (root : role pgdir = .node pid []) (small : walkVpn va < userVpns)
    (found : lookup mm.tables va 2 pgdir = some last)
    (zero : mm.tables last.table last.index = Pte.zero)
    (kept : ∀ table i, role table ≠ .free → ¬ (table = last.table ∧ i = last.index) →
      next.tables table i = mm.tables table i)
    (isDir : dir = 0 ∨ ∃ owner, role dir = .node owner [])
    (apart : ¬ (dir = pgdir ∧ walkVpn other = walkVpn va)) :
    ∃ loc loc', lookup mm.tables other 2 dir = some loc ∧
      lookup next.tables other 2 dir = some loc' ∧
      next.tables loc'.table loc'.index = mm.tables loc.table loc.index ∧
      (loc' = loc ∨ (loc.level ≠ 0 ∧ loc = last)) := by
  have kernel : dir = 0 → KernelEntry (mm.tables dir (vpnAt other 2)) := by
    intro isZero
    rw [isZero]
    by_cases high : numPteEntry / 2 ≤ vpnAt other 2
    · exact shape.kernelTop _ high
    · exact .inl (revoked _ (by omega))
  have entered : Entered role mm.tables other 2 dir := by
    rcases isDir with isZero | ⟨owner, is⟩
    · subst isZero
      exact .inr (.inr ⟨rfl, rfl, kernel rfl⟩)
    · exact .inl ⟨owner, [], is, rfl⟩
  obtain ⟨loc, isLoc, -, locEntered⟩ := entered.ends shape
  by_cases here : loc.table = last.table ∧ loc.index = last.index
  · obtain ⟨rfl, rfl, otherSmall⟩ :=
      shape.same_end root small found isDir kernel isLoc here.1 here.2
    have above : loc.level ≠ 0 := by
      intro level
      exact apart ⟨rfl, shape.same_page root small otherSmall found isLoc level⟩
    -- Neither before nor afterwards does the other page have anything.
    have untouched : setLeaf space pid (walkVpn va) leaf pid (walkVpn other) = .untouched := by
      rw [setLeaf_other fun both => apart ⟨rfl, both.2⟩]
      exact shape.untouched_above root otherSmall isLoc above
    have root' : role' dir = .node pid [] := by
      rw [grows dir (by simp [root]), root]
    obtain ⟨after, isAfter, -⟩ := shape'.ends_user root' otherSmall
    refine ⟨loc, after, isLoc, isAfter, ?_, .inr ⟨above, rfl⟩⟩
    rw [zero]
    exact shape'.zero_end root' otherSmall untouched isAfter
  · -- A walk that ends elsewhere meets no entry that was changed.
    rcases entered.same shape kept (by simp [zero]) with same | ⟨loc', isLoc', ends⟩
    · exact ⟨loc, loc, isLoc, same.trans isLoc, kept _ _ (locEntered.used shape) here, .inl rfl⟩
    · rw [isLoc, Option.some_inj] at isLoc'
      rw [← isLoc'] at ends
      exact absurd ends here

/-- Both postconditions are met at once. -/
theorem meets_both {A : Type} {accepted : MmStop → Prop} {routine : MmRoutine A}
    {post post' : A → Mm → Prop} (left : Meets accepted routine mm post)
    (right : Meets (fun _ => True) routine mm post') :
    Meets accepted routine mm fun value next => post value next ∧ post' value next := by
  unfold Meets at *
  cases ran : routine mm with
  | ok answer =>
    simp only [ran] at left right ⊢
    exact ⟨left, right⟩
  | error reason => simpa only [ran] using left

/-- `va2kva` of two walks that end alike. -/
theorem va2kva_alike {loc' : PteLoc} (found : lookup mm.tables other 2 dir = some loc)
    (found' : lookup next.tables other 2 dir = some loc')
    (entry : next.tables loc'.table loc'.index = mm.tables loc.table loc.index)
    (ends : loc' = loc ∨ (mm.tables loc.table loc.index).v = false) :
    ∃ answer, va2kva other dir mm = .ok (answer, mm) ∧
      va2kva other dir next = .ok (answer, next) := by
  refine ⟨_, va2kva_at found, ?_⟩
  rw [va2kva_at found', entry]
  rcases ends with rfl | absent
  · rfl
  · simp only [va2kvaAt, absent, Bool.false_eq_true, if_false]

/-- The address of a page frame in the kernel's half, with an offset. -/
theorem kvaOf_frame {frame offset : Nat} (inside : frame < npf) (small : offset < normalPageSize) :
    kvaOf (some (framePfn frame * normalPageSize + offset)) =
      pa2kva (framePfn frame * normalPageSize) + offset := by
  have limit : frame < 50 * 1024 := inside
  simp only [kvaOf, pa2kva, framePfn, normalPageSize, kvaOffset] at small ⊢
  omega

/--
`alloc_page_helper` without an eviction maps the page it is asked for, and changes the translation
of no other address in any page directory.
-/
theorem alloc_page_helper_maps_one (cpu : Nat) (shape : Shape mm.tables role space)
    (tabs : TabsOk mm.pgtbCharmap mm.pgtbFfree role)
    (revoked : ∀ i < numPteEntry / 2, (mm.tables 0 i).v = false)
    (root : role pgdir = .node pid []) (user : va < userVpns * normalPageSize)
    (unmapped : space pid (va / normalPageSize) = .untouched) (fits : mm.pgFfree < npf) :
    Meets (fun reason => reason = .noPageTable) (allocPageHelper cpu va pgdir pid) mm
      (MapsOne mm role space va pgdir pid) := by
  have walk : walkVpn va = va / normalPageSize := by
    apply walkVpn_user
    simp only [userVpns, normalPageSize] at user
    omega
  have small : walkVpn va < userVpns := by
    rw [walk]
    exact (Nat.div_lt_iff_lt_mul (by decide)).mpr user
  have named := tabs.named pgdir pid [] root
  have mark : u8 pid ≠ cmapFree := by
    simp only [u8, cmapFree, uprocMax] at *
    omega
  obtain ⟨last, found, -, -, lastNode⟩ := shape.ends_user root small
  have zero := shape.zero_end root small (by rw [walk]; exact unmapped) found
  have lastUsed : mm.pgtbCharmap last.table ≠ cmapFree := tabs.used shape (by simp [lastNode])
  unfold allocPageHelper
  refine Meets.bind (meets_both (va2pte_alloc shape tabs named.1 named.2 rfl root small)
    (va2pteFrom_keeps tabs.index found lastUsed)) ?_
  intro loc mid walked
  obtain ⟨⟨role', shape', tabs', grows, -, same, here⟩, kept, ended⟩ := walked
  apply meets_stopIf_bind (fun level => absurd here.1 level)
  intro _
  simp only [meets_readPte_bind]
  have midZero : mid.tables loc.table loc.index = Pte.zero :=
    (shape'.holds_at here).zero_iff.mpr (by rw [walk]; exact unmapped)
  apply meets_stopIf_bind (fun differ => absurd midZero differ)
  intro _
  have fits' : mid.pgFfree < npf := by
    rw [same]
    exact fits
  refine Meets.bind (allocPage_free mark fits') ?_
  intro frame after given
  obtain ⟨rfl, rfl⟩ := given
  simp only [meets_readPte_bind, meets_writePte_bind, meets_pure]
  rw [midZero]
  -- All that is left to show is about the tables of the state reached.
  generalize isEntry : ({ Pte.zero with pfn := framePfn mid.pgFfree }).setVurwxad = entry
  have holds : (Leaf.priv mid.pgFfree).Holds entry := ⟨true, true, by rw [← isEntry]; rfl⟩
  have final := shape'.write here holds
  generalize isNext : ({ mid with
    tables := put mid.tables loc.table (put (mid.tables loc.table) loc.index entry)
    pgCharmap := put mid.pgCharmap mid.pgFfree (u8 pid)
    pgUva := put mid.pgUva mid.pgFfree (va / normalPageSize * normalPageSize)
    pgFfree := nextFree (put mid.pgCharmap mid.pgFfree (u8 pid)) (npf - mid.pgFfree)
      mid.pgFfree } : Mm) = next
  have nextTables : next.tables =
      put mid.tables loc.table (put (mid.tables loc.table) loc.index entry) := by rw [← isNext]
  have nextTabs : TabsOk next.pgtbCharmap next.pgtbFfree role' := by
    rw [← isNext]
    exact tabs'
  rw [← nextTables] at final
  -- Tables in use keep every entry but the one at which the walk of the address ended.
  have keeps : ∀ table i, role table ≠ .free → ¬ (table = last.table ∧ i = last.index) →
      next.tables table i = mm.tables table i := by
    intro table i inUse differ
    have used := tabs.used shape inUse
    rw [← kept table i used differ, nextTables]
    by_cases sameTable : table = loc.table
    · rcases ended with atLast | fresh
      · rw [atLast] at sameTable ⊢
        rw [sameTable, put_same, put_other _ _ fun sameIndex => differ ⟨sameTable, sameIndex⟩]
      · rw [sameTable] at used
        exact absurd fresh used
    · rw [put_other _ _ sameTable]
  have root' : role' pgdir = .node pid [] := by
    rw [grows pgdir (by simp [root]), root]
  have walks : ∀ dir other, dir = 0 ∨ (∃ owner, role dir = .node owner []) →
      ¬ (dir = pgdir ∧ walkVpn other = va / normalPageSize) → _ :=
    fun dir other isDir apart => @walks_after mm next role role' space va other pgdir dir pid last _
      shape final grows revoked root small found zero keeps isDir (by rw [walk]; exact apart)
  constructor
  · exact ⟨role', by rw [← walk]; exact final, nextTabs, grows⟩
  · intro other samePage
    have otherWalk : walkVpn other = walkVpn va := by
      simp only [walkVpn, samePage]
    have isLoc : lookup next.tables other 2 pgdir = some loc :=
      final.lookup_leaf root' (by rw [otherWalk]; exact here)
    obtain ⟨level, -, index⟩ := here
    have place : loc = ⟨0, loc.table, vpnAt other 0⟩ := by
      rw [vpnAt_zero, otherWalk, ← index, ← level]
    have isFrame : va2kvaAt other loc.level (next.tables loc.table loc.index) =
        some (framePfn mid.pgFfree * normalPageSize + other % 2 ^ 39 % normalPageSize) := by
      rw [nextTables, put_same, put_same, ← isEntry, level]
      rfl
    refine ⟨loc.table, _, ?_, va2kva_at isLoc, ?_⟩
    · rw [← place]
      exact va2pte_of_lookup isLoc
    · have offset : other % 2 ^ 39 % normalPageSize = other % normalPageSize :=
        Nat.mod_mod_of_dvd _ (by decide)
      rw [isFrame, offset]
      exact kvaOf_frame fits' (Nat.mod_lt _ (by decide))
  · intro dir other isDir apart
    obtain ⟨loc', loc'', isLoc, isLoc', alike, ends⟩ := walks dir other isDir apart
    apply va2kva_alike isLoc isLoc' alike
    rcases ends with same' | ⟨-, rfl⟩
    · exact .inl same'
    · exact .inr (by simp [zero])
  · intro dir other isDir apart
    obtain ⟨loc', loc'', isLoc, isLoc', alike, ends⟩ := walks dir other isDir apart
    refine ⟨loc', loc'', va2pte_of_lookup isLoc, va2pte_of_lookup isLoc', alike, ?_⟩
    rcases ends with same' | ⟨above, rfl⟩
    · exact .inl same'
    · exact .inr ⟨above, va2pte_of_lookup found, zero⟩

/-- The first page of a process is mapped in this way. -/
theorem alloc_page_helper_maps_first :
    Meets (fun reason => reason = .noPageTable) (allocPageHelper 0 0 2 2) bareMm
      (MapsOne bareMm bareRole (fun _ _ => .untouched) 0 2 2) :=
  alloc_page_helper_maps_one 0 bareMm_ok.shape bareMm_ok.tabs (fun _ _ => rfl) rfl (by decide) rfl
    (by decide)

/-- Mapping the first page moves the end of the walk of the second page to another entry. -/
theorem alloc_page_helper_moves_walk :
    (va2pte 4096 2 false 0 bareMm).map (fun answer => answer.1) = .ok ⟨2, 2, 0⟩ ∧
      (allocPageHelper 0 0 2 2 bareMm).map
        (fun answer => (va2pte 4096 2 false 0 answer.2).map fun walked => walked.1) =
          .ok (.ok ⟨0, 4, 1⟩) :=
  ⟨rfl, rfl⟩

end Mapping

end GlucOS
