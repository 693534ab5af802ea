import GlucOS.Mm.Release

/-! `free_pages_of_proc`: a process gives up all its pages and page tables. -/

namespace GlucOS

open Routine

variable {mm : Mm} {role : Nat → Role} {space : Nat → Nat → Leaf} {procs : Finset Nat}
  {accepted : MmStop → Prop}

/-! ## Address spaces that are given up in part -/

/-- The address spaces after a process gave up its pages below this one. -/
def dropBelow (space : Nat → Nat → Leaf) (pid bound : Nat) : Nat → Nat → Leaf := fun other vpn =>
  if other = pid ∧ vpn < bound then .untouched else space other vpn

/-- Nothing is given up at first. -/
theorem dropBelow_zero (space : Nat → Nat → Leaf) (pid : Nat) : dropBelow space pid 0 = space := by
  funext other vpn
  simp [dropBelow]

/-- Pages that the release has not come to yet. -/
theorem dropBelow_above {space : Nat → Nat → Leaf} {pid bound vpn : Nat} (above : bound ≤ vpn) :
    dropBelow space pid bound pid vpn = space pid vpn := by
  simp [dropBelow, Nat.not_lt.mpr above]

/-- One more page. -/
theorem dropBelow_succ (space : Nat → Nat → Leaf) (pid bound : Nat) :
    dropBelow space pid (bound + 1) = setLeaf (dropBelow space pid bound) pid bound .untouched := by
  funext other vpn
  simp only [dropBelow, setLeaf]
  by_cases own : other = pid
  · -- The page is below the new bound when it is the last one, or below the old bound.
    by_cases last : vpn = bound
    · simp [own, last]
    · have same : vpn < bound + 1 ↔ vpn < bound := by omega
      simp [own, last, same]
  · simp [own]

/-- Pages that were never touched may be skipped. -/
theorem dropBelow_skip {space : Nat → Nat → Leaf} {pid bound bound' : Nat} (later : bound ≤ bound')
    (bare : ∀ vpn, bound ≤ vpn → vpn < bound' → space pid vpn = .untouched) :
    dropBelow space pid bound' = dropBelow space pid bound := by
  funext other vpn
  simp only [dropBelow]
  by_cases own : other = pid
  · by_cases early : vpn < bound
    · have early' : vpn < bound' := by omega
      simp [own, early, early']
    · by_cases skipped : vpn < bound'
      · rw [if_pos ⟨own, skipped⟩, if_neg (fun both => early both.2), own]
        exact (bare vpn (Nat.le_of_not_lt early) skipped).symm
      · simp [early, skipped]
  · simp [own]

/-- In the end the whole address space is given up. -/
theorem dropBelow_all {tables : Nat → Nat → Pte} (shape : Shape tables role space) (pid : Nat) :
    dropBelow space pid userVpns = dropSpace space pid := by
  funext other vpn
  simp only [dropBelow, dropSpace]
  by_cases own : other = pid
  · by_cases inside : vpn < userVpns
    · simp [own, inside]
    · rw [if_neg (fun both => inside both.2), if_pos own]
      exact shape.beyond (Nat.le_of_not_lt inside)
  · simp [own]

/-! ## Page tables that are given up in part -/

/-- The roles after a process gave up its tables along these paths. -/
def dropPaths (role : Nat → Role) (pid : Nat) (gone : List Nat → Bool) : Nat → Role := fun table =>
  match role table with
  | .node owner path => if owner = pid ∧ gone path = true then .free else .node owner path
  | other => other

/-- Tables that the outer loop has given up: those below its earlier entries. -/
def goneBelow (vpn2 : Nat) : List Nat → Bool
  | [] => false
  | top :: _ => top < vpn2

/-- Tables that the middle loop has given up, besides those of earlier entries of the outer loop. -/
def goneWithin (vpn2 vpn1 : Nat) : List Nat → Bool
  | [] => false
  | [top] => top < vpn2
  | top :: mid :: _ => top < vpn2 || (top == vpn2 && mid < vpn1)

/-- Only the tables of the process matter. -/
theorem dropPaths_congr {pid : Nat} {gone gone' : List Nat → Bool}
    (same : ∀ table path, role table = .node pid path → gone path = gone' path) :
    dropPaths role pid gone = dropPaths role pid gone' := by
  funext table
  unfold dropPaths
  cases is : role table with
  | free => rfl
  | kernel => rfl
  | node owner path =>
    by_cases own : owner = pid
    · subst own
      simp [same table path is]
    · simp [own]

/-- No table is given up at first. -/
theorem dropPaths_none {pid : Nat} {gone : List Nat → Bool}
    (none : ∀ table path, role table = .node pid path → gone path = false) :
    dropPaths role pid gone = role := by
  funext table
  unfold dropPaths
  cases is : role table with
  | free => rfl
  | kernel => rfl
  | node owner path =>
    by_cases own : owner = pid
    · subst own
      simp [none table path is]
    · simp [own]

/-- In the end all tables are given up. -/
theorem dropPaths_all {pid : Nat} {gone : List Nat → Bool}
    (all : ∀ table path, role table = .node pid path → gone path = true) :
    dropPaths role pid gone = dropRoles role pid := by
  funext table
  unfold dropPaths dropRoles
  cases is : role table with
  | free => rfl
  | kernel => rfl
  | node owner path =>
    by_cases own : owner = pid
    · subst own
      simp [all table path is]
    · simp [own]

/-- A table that was not given up yet has its role. -/
theorem dropPaths_kept {pid table : Nat} {path : List Nat} {gone : List Nat → Bool}
    (node : role table = .node pid path) (kept : gone path = false) :
    dropPaths role pid gone table = .node pid path := by
  simp [dropPaths, node, kept]

/-- One more table is given up. -/
theorem dropPaths_put {pid table : Nat} {path : List Nat} {gone gone' : List Nat → Bool}
    (node : role table = .node pid path)
    (unique : ∀ other, role other = .node pid path → other = table)
    (now : gone' path = true)
    (same : ∀ other path', role other = .node pid path' → path' ≠ path → gone' path' = gone path') :
    dropPaths role pid gone' = put (dropPaths role pid gone) table .free := by
  funext other
  by_cases here : other = table
  · rw [here, put_same]
    simp [dropPaths, node, now]
  · rw [put_other _ _ here]
    unfold dropPaths
    cases is : role other with
    | free => rfl
    | kernel => rfl
    | node owner path' =>
      by_cases own : owner = pid
      · subst own
        -- Another table has another path.
        have differ : path' ≠ path := by
          rintro rfl
          exact here (unique other is)
        simp [same other path' is differ]
      · simp [own]

/-- `free_pagetable` of a table in use. -/
theorem freePagetable_meets {table pid : Nat} {path : List Nat} {roles : Nat → Role}
    (tabs : TabsOk mm.pgtbCharmap mm.pgtbFfree roles) (inside : table < npt)
    (node : roles table = .node pid path) :
    Meets accepted (freePagetable table) mm fun _ next =>
      TabsOk next.pgtbCharmap next.pgtbFfree (put roles table .free) ∧
        next = { mm with pgtbCharmap := next.pgtbCharmap, pgtbFfree := next.pgtbFfree } := by
  have marked : mm.pgtbCharmap table = pid := by
    rw [tabs.marked table inside, node]
    rfl
  have named : Named pid := tabs.named table pid path node
  unfold freePagetable
  apply meets_stopIf_bind (fun outside => absurd inside (Nat.not_lt.mpr outside))
  intro _
  simp only [meets_get_bind]
  apply meets_stopIf_bind
  · -- The kernel's mark is no process identifier.
    intro zero
    have := named.1
    simp only [marked, ncpu] at *
    omega
  intro _
  apply meets_stopIf_bind
  · intro free
    rw [marked] at free
    exact absurd free named.not_free
  intro _
  refine ⟨⟨?_, ?_, tabs.index.release inside⟩, rfl⟩
  · intro other small
    by_cases same : other = table
    · simp [same, Role.mark]
    · simp only [put_other _ _ same]
      exact tabs.marked other small
  · intro other owner ownPath is
    by_cases same : other = table
    · rw [same, put_same] at is
      cases is
    · rw [put_other _ _ same] at is
      exact tabs.named other owner ownPath is

/-! ## The three loops -/

/--
How far `free_pages_of_proc` has come: the pages below a bound and some tables are given up.

The entries of pages given up stay in tables that are about to be given up too, except those of
shared pages, so the tables are those of an address space of their own.
-/
structure Torn (start : Mm) (role : Nat → Role) (space : Nat → Nat → Leaf) (procs : Finset Nat)
    (pid : Nat) (gone : List Nat → Bool) (bound : Nat) (mm : Mm) : Prop where
  /-- The tables still hold the pages that are left, and all pages of others. -/
  shape : ∃ left, Shape mm.tables role left ∧
    ∀ other vpn, other ≠ pid ∨ bound ≤ vpn → left other vpn = space other vpn
  /-- Page frames, swap pages and shared pages. -/
  res : ResOk mm (dropBelow space pid bound) procs none
  /-- The owners of page tables. -/
  tabs : TabsOk mm.pgtbCharmap mm.pgtbFfree (dropPaths role pid gone)
  /-- What has changed so far. -/
  gives : GivesUp role pid start mm

section Loops

variable {start : Mm} {pid bound : Nat} {gone : List Nat → Bool}

/-- One more page is given up, whose entry stays as it is. -/
theorem Torn.leave (torn : Torn start role space procs pid gone bound mm) {next : Mm}
    (res : ResOk next (setLeaf (dropBelow space pid bound) pid bound .untouched) procs none)
    (tables : next.tables = mm.tables) (charmap : next.pgtbCharmap = mm.pgtbCharmap)
    (first : next.pgtbFfree = mm.pgtbFfree) (gives : GivesUp role pid mm next) :
    Torn start role space procs pid gone (bound + 1) next := by
  obtain ⟨left, shape, same⟩ := torn.shape
  refine ⟨⟨left, by rw [tables]; exact shape, ?_⟩, ?_, by rw [charmap, first]; exact torn.tabs,
    torn.gives.trans gives⟩
  · intro other vpn outside
    apply same
    rcases outside with differ | above
    · exact Or.inl differ
    · exact Or.inr (by omega)
  · rw [dropBelow_succ]
    exact res

/-- The address of a page below 4 GiB survives the computation in 32 bits. -/
theorem walkVpn_vpn2va {vpn2 vpn1 vpn0 : Nat} (low : vpnOf vpn2 vpn1 vpn0 < 2 ^ 20) :
    walkVpn (vpn2va vpn2 vpn1 vpn0) = vpnOf vpn2 vpn1 vpn0 := by
  simp only [vpn2va, vpnOf, u32, walkVpn, normalPageSize] at *
  omega

/-- One entry of the last level: whatever backs the page is released. -/
theorem freeLeaf_meets (torn : Torn start role space procs pid gone bound mm)
    {cpu pgdir l0 vpn2 vpn1 vpn0 : Nat} (root : role pgdir = .node pid [])
    (node : role l0 = .node pid [vpn2, vpn1]) (low : vpn0 < numPteEntry)
    (here : vpnOf vpn2 vpn1 vpn0 = bound) :
    Meets accepted (freeLeaf cpu pid pgdir (vpn2va vpn2 vpn1 vpn0) ⟨0, l0, vpn0⟩) mm
      fun _ => Torn start role space procs pid gone (bound + 1) := by
  obtain ⟨left, shape, same⟩ := torn.shape
  -- The page has not been given up yet, neither in the tables nor in the maps.
  have holds := shape.leaf l0 pid vpn2 vpn1 vpn0 node low
  rw [here] at holds
  have backed : left pid bound = space pid bound := same pid bound (Or.inr (Nat.le_refl _))
  have kept : dropBelow space pid bound pid bound = space pid bound :=
    dropBelow_above (Nat.le_refl _)
  unfold freeLeaf
  simp only [meets_readPte_bind]
  cases is : space pid bound with
  | untouched =>
    rw [backed, is] at holds
    rw [holds.zero_iff.mpr rfl]
    refine torn.leave ?_ rfl rfl rfl (.refl role pid mm)
    rw [setLeaf_self (kept.trans is)]
    exact torn.res
  | priv frame =>
    obtain ⟨a, d, entry⟩ := holds
    rw [backed, is] at entry
    rw [entry]
    simp only [Leaf.pte]
    refine (freePriv_meets torn.res (kept.trans is)).mono ?_
    intro _ next freed
    refine torn.leave freed.1 ?_ ?_ ?_ (freed.2.givesUp role pid) <;> rw [freed.2.same]
  | cow frame =>
    obtain ⟨a, d, entry⟩ := holds
    rw [backed, is] at entry
    have pgidx : (Leaf.cow frame |>.pte a d).pgidx = frame := pgidx_userPte frame a d
    rw [entry, pgidx]
    simp only [Leaf.pte]
    refine (releaseCow_meets torn.res (kept.trans is)).mono ?_
    intro _ next freed
    refine torn.leave freed.1 ?_ ?_ ?_ (freed.2.givesUp role pid) <;> rw [freed.2.same]
  | swapped slot =>
    obtain ⟨a, d, entry⟩ := holds
    rw [backed, is] at entry
    rw [entry]
    -- The entry is not zero, though it is not present.
    have nonzero : (Leaf.swapped slot).pte a d ≠ Pte.zero := by simp [Leaf.pte, userPte, Pte.zero]
    rw [if_neg (by simp [Leaf.pte, userPte]), if_pos nonzero]
    refine (freeSwapped_meets torn.res (kept.trans is)).mono ?_
    intro _ next freed
    obtain ⟨res, only⟩ := freed
    refine torn.leave res ?_ ?_ ?_ ?_
    · rw [only]
    · rw [only]
    · rw [only]
    · rw [only]
      exact ⟨rfl, fun _ _ => rfl, fun _ _ => id, fun _ => ⟨rfl, Nat.le_refl _⟩⟩
  | shared frame =>
    have isShared : left pid bound = .shared frame := backed.trans is
    have small : bound < 2 ^ 20 := torn.res.shm.low _ _ _ (kept.trans is)
    have walk : walkVpn (vpn2va vpn2 vpn1 vpn0) = bound := by
      rw [← here]
      exact walkVpn_vpn2va (by rw [here]; exact small)
    obtain ⟨a, d, entry⟩ := holds
    rw [isShared] at entry
    rw [entry]
    simp only [Leaf.pte]
    rw [if_pos (by simp [userPte])]
    apply meets_stopIf_bind
    · simp [userPte, Pte.xwr]
    intro _
    rw [if_pos (by simp)]
    have agrees : left pid (walkVpn (vpn2va vpn2 vpn1 vpn0)) =
        dropBelow space pid bound pid (walkVpn (vpn2va vpn2 vpn1 vpn0)) := by
      rw [walk, backed, kept]
    apply Meets.bind (shmDetach_meets shape torn.res root agrees)
    intro value next canceled
    rw [walk] at canceled
    rcases canceled with ⟨-, -, notShared⟩ | did
    · exact absurd isShared (notShared frame)
    · have passes : ¬ value < 0 := Int.not_lt.mpr did.code
      unfold stopIf
      rw [if_neg passes]
      -- The entry of a shared page is cleared, unlike those of other pages.
      refine ⟨⟨_, did.shape, ?_⟩, ?_, ?_, torn.gives.trans did.gives⟩
      · intro other vpn outside
        have apart : ¬ (other = pid ∧ vpn = bound) := by
          rintro ⟨rfl, rfl⟩
          rcases outside with differ | above
          · exact differ rfl
          · omega
        rw [setLeaf_other apart]
        apply same
        rcases outside with differ | above
        · exact Or.inl differ
        · exact Or.inr (by omega)
      · rw [dropBelow_succ]
        exact did.res
      · rw [did.pgtbCharmap, did.pgtbFfree]
        exact torn.tabs

end Loops

/-- Before its first entry the middle loop has given up no table. -/
theorem goneWithin_zero (vpn2 : Nat) : goneWithin vpn2 0 = goneBelow vpn2 := by
  funext path
  match path with
  | [] => rfl
  | [_] => rfl
  | _ :: _ :: _ => simp [goneWithin, goneBelow]

/-- Only page frames, swap pages, shared pages and processes matter. -/
theorem ResOk.withTables {held : Option Nat} (res : ResOk mm space procs held)
    (tables : Nat → Nat → Pte) (pgtbCharmap : Nat → Nat) (pgtbFfree : Nat) :
    ResOk { mm with tables, pgtbCharmap, pgtbFfree } space procs held :=
  ⟨res.frames, res.frameIndex, res.slots, res.slotIndex, res.shm, res.procs, res.clock⟩

-- The bounds of the loops are numerals, which nothing should unroll.
attribute [local irreducible] forUpto

section Levels

variable {start : Mm} {pid bound : Nat} {gone gone' : List Nat → Bool}

/-- Entries that lead to no table are passed over. -/
theorem Torn.skip (torn : Torn start role space procs pid gone bound mm) {bound' : Nat}
    (later : bound ≤ bound')
    (bare : ∀ left, Shape mm.tables role left → ∀ vpn, bound ≤ vpn → vpn < bound' →
      left pid vpn = .untouched)
    (same : ∀ table path, role table = .node pid path → gone' path = gone path) :
    Torn start role space procs pid gone' bound' mm := by
  obtain ⟨left, shape, agrees⟩ := torn.shape
  have skipped : dropBelow space pid bound' = dropBelow space pid bound := by
    apply dropBelow_skip later
    intro vpn low high
    rw [← agrees pid vpn (Or.inr low)]
    exact bare left shape vpn low high
  refine ⟨⟨left, shape, ?_⟩, ?_, ?_, torn.gives⟩
  · intro other vpn outside
    apply agrees
    obtain differ | above := outside
    · exact Or.inl differ
    · exact Or.inr (by omega)
  · rw [skipped]
    exact torn.res
  · rw [dropPaths_congr same]
    exact torn.tabs

/-- A table whose pages are given up is given up itself. -/
theorem Torn.freeTable (torn : Torn start role space procs pid gone bound mm) {table : Nat}
    {path : List Nat} (node : role table = .node pid path) (kept : gone path = false)
    (now : gone' path = true)
    (same : ∀ other path', role other = .node pid path' → path' ≠ path → gone' path' = gone path') :
    Meets accepted (freePagetable table) mm fun _ =>
      Torn start role space procs pid gone' bound := by
  obtain ⟨left, shape, agrees⟩ := torn.shape
  have inside : table < npt := shape.inside table (by rw [node]; simp)
  apply (freePagetable_meets torn.tabs inside (dropPaths_kept node kept)).mono
  intro _ next freed
  obtain ⟨tabs, only⟩ := freed
  have unique : ∀ other, role other = .node pid path → other = table := by
    intro other is
    exact shape.unique other table pid path is node
  rw [only]
  refine ⟨⟨left, shape, agrees⟩, torn.res.withTables _ _ _, ?_, torn.gives.trans ?_⟩
  · rw [dropPaths_put node unique now same]
    exact tabs
  · exact ⟨rfl, fun _ _ => rfl, fun _ _ => id, fun _ => ⟨rfl, Nat.le_refl _⟩⟩

/-- One entry of the middle level: a table of the last level and all its pages. -/
theorem freeL1Entry_meets {cpu pgdir l1 vpn2 vpn1 : Nat}
    (torn : Torn start role space procs pid (goneWithin vpn2 vpn1) (vpnOf vpn2 vpn1 0) mm)
    (root : role pgdir = .node pid []) (node : role l1 = .node pid [vpn2])
    (fits : vpn1 < numPteEntry) :
    Meets accepted (freeL1Entry cpu pid pgdir vpn2 vpn1 l1) mm
      fun _ => Torn start role space procs pid (goneWithin vpn2 (vpn1 + 1))
        (vpnOf vpn2 (vpn1 + 1) 0) := by
  obtain ⟨left, shape, agrees⟩ := torn.shape
  have same : ∀ other path, role other = .node pid path → path ≠ [vpn2, vpn1] →
      goneWithin vpn2 (vpn1 + 1) path = goneWithin vpn2 vpn1 path := by
    intro other path is differ
    obtain rfl | ⟨top, -, rfl⟩ | ⟨top, mid, -, -, rfl⟩ := shape.path_cases is
    · rfl
    · rfl
    · -- The bound passes the index of this entry alone.
      simp only [goneWithin]
      congr 1
      by_cases here : top = vpn2
      · have other : mid ≠ vpn1 := by
          intro same
          exact differ (by rw [here, same])
        have bounds : mid < vpn1 + 1 ↔ mid < vpn1 := by omega
        simp [bounds]
      · have elsewhere : (top == vpn2) = false := by simpa using here
        simp [elsewhere]
  unfold freeL1Entry
  simp only [meets_readPte_bind]
  obtain ⟨zero, none⟩ | ⟨l0, is, leads⟩ := shape.inner l1 pid [vpn2] vpn1 node (by simp)
    (by simpa [room] using fits)
  · -- Without a table, none of its pages was touched.
    rw [zero]
    apply torn.skip
    · simp only [vpnOf]
      omega
    · intro left' shape' vpn low high
      apply shape'.bare
      have top : vpn / 2 ^ 18 = vpn2 := by
        simp only [vpnOf, numPteEntry] at *
        omega
      have mid : vpn / 2 ^ 9 % 2 ^ 9 = vpn1 := by
        simp only [vpnOf, numPteEntry] at *
        omega
      rw [top, mid]
      exact none
    · intro table path isNode
      apply same table path isNode
      intro here
      exact none table (by rw [isNode, here]; rfl)
  · rw [leads, if_pos (tablePte_v l0)]
    apply meets_stopIf_bind
    · simp
    intro _
    have inside : l0 < npt := shape.inside l0 (by rw [is]; simp)
    rw [meets_tableOf_bind (tablePte_table inside)]
    rw [← Nat.add_zero (vpnOf vpn2 vpn1 0)] at torn
    apply Meets.bind (meets_forUpto (fun vpn0 here => Torn start role space procs pid
      (goneWithin vpn2 vpn1) (vpnOf vpn2 vpn1 0 + vpn0) here) numPteEntry torn ?_)
    swap
    · intro vpn0 low here torn
      have page : vpnOf vpn2 vpn1 vpn0 = vpnOf vpn2 vpn1 0 + vpn0 := by
        simp only [vpnOf]
        omega
      rw [← Nat.add_assoc]
      exact freeLeaf_meets torn root is low page
    intro _ next emptied
    have bound : vpnOf vpn2 vpn1 0 + numPteEntry = vpnOf vpn2 (vpn1 + 1) 0 := by
      simp only [vpnOf, numPteEntry]
      omega
    rw [bound] at emptied
    apply emptied.freeTable is
    · simp [goneWithin]
    · simp [goneWithin]
    · exact same

/-- One entry of the top level: a table of the middle level and all below it. -/
theorem freeL2Entry_meets {cpu pgdir vpn2 : Nat}
    (torn : Torn start role space procs pid (goneBelow vpn2) (vpnOf vpn2 0 0) mm)
    (root : role pgdir = .node pid []) (fits : vpn2 < numPteEntry / 2) :
    Meets accepted (freeL2Entry cpu pid pgdir vpn2) mm
      fun _ => Torn start role space procs pid (goneBelow (vpn2 + 1)) (vpnOf (vpn2 + 1) 0 0) := by
  obtain ⟨left, shape, agrees⟩ := torn.shape
  unfold freeL2Entry
  simp only [meets_readPte_bind]
  obtain ⟨zero, none⟩ | ⟨l1, is, leads⟩ := shape.inner pgdir pid [] vpn2 root (by simp)
    (by simpa [room] using fits)
  · -- Without a table, there are no tables below it either.
    rw [zero]
    have noTop : ∀ table top mid, role table = .node pid [top, mid] → top ≠ vpn2 := by
      intro table top mid isNode here
      obtain ⟨-, -, above, isAbove⟩ := shape.parent table pid [top] mid isNode
      exact none above (by rw [isAbove, here]; rfl)
    apply torn.skip
    · simp only [vpnOf]
      omega
    · intro left' shape' vpn low high
      apply shape'.bare
      intro table isNode
      apply noTop table _ _ isNode
      simp only [vpnOf] at *
      omega
    · intro table path isNode
      obtain rfl | ⟨top, -, rfl⟩ | ⟨top, mid, -, -, rfl⟩ := shape.path_cases isNode
      · rfl
      · have differ : top ≠ vpn2 := by
          intro here
          exact none table (by rw [isNode, here]; rfl)
        have bounds : top < vpn2 + 1 ↔ top < vpn2 := by omega
        simp [goneBelow, bounds]
      · have differ := noTop table top mid isNode
        have bounds : top < vpn2 + 1 ↔ top < vpn2 := by omega
        simp [goneBelow, bounds]
  · rw [leads, if_pos (tablePte_v l1)]
    apply meets_stopIf_bind
    · simp
    intro _
    have inside : l1 < npt := shape.inside l1 (by rw [is]; simp)
    rw [meets_tableOf_bind (tablePte_table inside)]
    rw [← goneWithin_zero] at torn
    apply Meets.bind (meets_forUpto (fun vpn1 here => Torn start role space procs pid
      (goneWithin vpn2 vpn1) (vpnOf vpn2 vpn1 0) here) numPteEntry torn ?_)
    swap
    · intro vpn1 low here torn
      exact freeL1Entry_meets torn root is low
    intro _ next emptied
    have bound : vpnOf vpn2 numPteEntry 0 = vpnOf (vpn2 + 1) 0 0 := by
      simp only [vpnOf, numPteEntry]
      omega
    rw [bound] at emptied
    apply emptied.freeTable is
    · simp [goneWithin]
    · simp [goneBelow]
    · intro other path isNode differ
      obtain rfl | ⟨top, -, rfl⟩ | ⟨top, mid, -, low, rfl⟩ := shape.path_cases isNode
      · rfl
      · have apart : top ≠ vpn2 := by
          intro here
          exact differ (by rw [here]; rfl)
        have bounds : top < vpn2 + 1 ↔ top < vpn2 := by omega
        simp [goneBelow, goneWithin, bounds]
      · -- All tables below this entry are gone by now.
        have inTable : mid < numPteEntry := low
        have bounds : top < vpn2 + 1 ↔ top < vpn2 ∨ top = vpn2 := by omega
        simp only [goneBelow, goneWithin, inTable, bounds, decide_true, Bool.and_true,
          Bool.decide_or]
        rfl

end Levels

/-- Two address spaces that agree about every other process. -/
theorem dropSpace_congr {left : Nat → Nat → Leaf} {pid : Nat}
    (agrees : ∀ other vpn, other ≠ pid → left other vpn = space other vpn) :
    dropSpace left pid = dropSpace space pid := by
  funext other vpn
  unfold dropSpace
  by_cases own : other = pid
  · rw [if_pos own, if_pos own]
  · rw [if_neg own, if_neg own]
    exact agrees other vpn own

/-- A process without pages may be left out. -/
theorem ProcsOk.erase (procsOk : ProcsOk space procs) {pid : Nat}
    (bare : ∀ vpn, space pid vpn = .untouched) : ProcsOk space (procs.erase pid) where
  touched := by
    intro other vpn touched
    refine Finset.mem_erase.mpr ⟨?_, procsOk.touched other vpn touched⟩
    intro same
    exact touched (by rw [same]; exact bare vpn)
  named other mem := procsOk.named other (Finset.mem_of_mem_erase mem)
  few := Nat.le_trans (Finset.card_le_card (Finset.erase_subset pid procs)) procsOk.few

/-- `free_pages_of_proc` gives up all pages and page tables of a process, and nothing else. -/
theorem freePagesOfProc_meets {cpu pgdir pid : Nat} (ok : Ok mm role space procs none)
    (root : role pgdir = .node pid []) :
    Meets accepted (freePagesOfProc cpu pgdir pid) mm fun _ next =>
      Ok next (dropRoles role pid) (dropSpace space pid) (procs.erase pid) none ∧
        GivesUp role pid mm next := by
  have none : ∀ table path, role table = .node pid path → goneBelow 0 path = false := by
    intro table path _
    cases path <;> simp [goneBelow]
  have torn : Torn mm role space procs pid (goneBelow 0) (vpnOf 0 0 0) mm := by
    refine ⟨⟨space, ok.shape, fun _ _ _ => rfl⟩, ?_, ?_, .refl role pid mm⟩
    · rw [show vpnOf 0 0 0 = 0 from rfl, dropBelow_zero]
      exact ok.toResOk
    · rw [dropPaths_none none]
      exact ok.tabs
  unfold freePagesOfProc
  apply Meets.bind (meets_forUpto (fun vpn2 here => Torn mm role space procs pid
    (goneBelow vpn2) (vpnOf vpn2 0 0) here) (numPteEntry / 2) torn ?_)
  swap
  · intro vpn2 low here torn
    exact freeL2Entry_meets torn root low
  intro _ next emptied
  obtain ⟨left, shape, -⟩ := emptied.shape
  have bound : vpnOf (numPteEntry / 2) 0 0 = userVpns := by decide
  rw [bound] at emptied
  have allGone : ∀ other path, role other = .node pid path → path ≠ [] →
      (fun _ => true) path = goneBelow (numPteEntry / 2) path := by
    intro other path isNode differ
    obtain rfl | ⟨top, high, rfl⟩ | ⟨top, mid, high, -, rfl⟩ := shape.path_cases isNode
    · exact absurd rfl differ
    · exact (decide_eq_true high).symm
    · exact (decide_eq_true high).symm
  apply (emptied.freeTable root rfl rfl allGone).mono
  intro _ last torn
  obtain ⟨left, shape, agrees⟩ := torn.shape
  have others : dropSpace left pid = dropSpace space pid :=
    dropSpace_congr fun other vpn differ => agrees other vpn (Or.inl differ)
  have res := torn.res
  rw [dropBelow_all ok.shape] at res
  have bare : ∀ vpn, dropSpace space pid pid vpn = .untouched := fun vpn => if_pos rfl
  refine ⟨{ res with procs := res.procs.erase bare, shape := ?_, tabs := ?_ }, torn.gives⟩
  · rw [← others]
    exact shape.drop pid
  · have all : dropPaths role pid (fun _ => true) = dropRoles role pid :=
      dropPaths_all fun _ _ _ => rfl
    rw [← all]
    exact torn.tabs

end GlucOS
