import GlucOS.Mm.Machine

/-! Address spaces behind the page tables: what every table is for, and what backs every page. -/

namespace GlucOS

open Routine

/-- What a page table is used for. -/
inductive Role
  /-- Nothing. -/
  | free
  /-- The kernel. -/
  | kernel
  /-- The table of a process that a walk reaches along these indexes. -/
  | node (pid : Nat) (path : List Nat)
deriving DecidableEq

/-- What backs a user page. -/
inductive Leaf
  /-- Nothing yet. -/
  | untouched
  /-- A page frame of its own. -/
  | priv (frame : Nat)
  /-- A page frame kept in common since a fork. -/
  | cow (frame : Nat)
  /-- A shared memory page. -/
  | shared (frame : Nat)
  /-- A page of the swap partition. -/
  | swapped (slot : Nat)
deriving DecidableEq

/-- An entry of every permission, with these accessed and dirty bits. -/
def userPte (pfn : Nat) (a d : Bool) : Pte :=
  { pfn, v := true, r := true, w := true, x := true, u := true, g := false, a, d,
    shared := false, cow := false }

/-- The entry of a page, with these accessed and dirty bits. -/
def Leaf.pte : Leaf → Bool → Bool → Pte
  | untouched, _, _ => Pte.zero
  | priv frame, a, d => userPte (framePfn frame) a d
  | cow frame, a, d => { userPte (framePfn frame) a d with w := false, cow := true }
  | shared frame, a, d => { userPte (framePfn frame) a d with shared := true }
  | swapped slot, a, d => { userPte slot a d with v := false }

/-- The entry is that of the page, whatever its accessed and dirty bits. -/
def Leaf.Holds (leaf : Leaf) (entry : Pte) : Prop := ∃ a d, entry = leaf.pte a d

/-- The entry that points to a page table. -/
def tablePte (table : Nat) : Pte := { Pte.zero with pfn := tablePfn table, v := true }

/-- An entry of the kernel's half of a top table, below which no walk reaches the last level. -/
def KernelEntry (entry : Pte) : Prop :=
  entry.v = false ∨ entry.xwr = true ∨ entry = tablePte 1

/-- The entries of a table that belong to user space. -/
def room (path : List Nat) : Nat := if path = [] then numPteEntry / 2 else numPteEntry

/-- The virtual page number of three indexes. -/
def vpnOf (vpn2 vpn1 vpn0 : Nat) : Nat := vpn2 * 2 ^ 18 + vpn1 * 2 ^ 9 + vpn0

/-- The entry points to the table of this node, or is zero when there is none. -/
def Points (role : Nat → Role) (entry : Pte) (pid : Nat) (path : List Nat) : Prop :=
  (entry = Pte.zero ∧ ∀ table, role table ≠ .node pid path) ∨
    ∃ table, role table = .node pid path ∧ entry = tablePte table

/--
The tables form one tree for each process, and its leaves are the pages of an address space.

Every node of a tree is one table, and every table is at most one node.
-/
structure Shape (tables : Nat → Nat → Pte) (role : Nat → Role) (space : Nat → Nat → Leaf) :
    Prop where
  /-- The two tables of the kernel. -/
  kernel : ∀ table, role table = .kernel ↔ table = 0 ∨ table = 1
  /-- The kernel's half of the kernel's top table. -/
  kernelTop : ∀ i, numPteEntry / 2 ≤ i → KernelEntry (tables 0 i)
  /-- The kernel's half of a process's top table. -/
  kernelHalf : ∀ table pid i, role table = .node pid [] → numPteEntry / 2 ≤ i →
    KernelEntry (tables table i)
  /-- The other table of the kernel holds large pages. -/
  kernelPages : ∀ i, (tables 1 i).v = false ∨ (tables 1 i).xwr = true
  /-- Inner entries point to the tables below. -/
  inner : ∀ table pid path i, role table = .node pid path → path.length < 2 → i < room path →
    Points role (tables table i) pid (path ++ [i])
  /-- Entries of the last level are those of the pages. -/
  leaf : ∀ table pid vpn2 vpn1 vpn0, role table = .node pid [vpn2, vpn1] → vpn0 < numPteEntry →
    (space pid (vpnOf vpn2 vpn1 vpn0)).Holds (tables table vpn0)
  /-- Pages without a table were never touched. -/
  bare : ∀ pid vpn, (∀ table, role table ≠ .node pid [vpn / 2 ^ 18, vpn / 2 ^ 9 % 2 ^ 9]) →
    space pid vpn = .untouched
  /-- Every node but the root lies below a node. -/
  parent : ∀ table pid path i, role table = .node pid (path ++ [i]) →
    path.length < 2 ∧ i < room path ∧ ∃ above, role above = .node pid path
  /-- A node is one table. -/
  unique : ∀ table other pid path, role table = .node pid path → role other = .node pid path →
    table = other
  /-- Tables in use lie in the table area. -/
  inside : ∀ table, role table ≠ .free → table < npt

/-- What the char map of the page tables says about a table of this role. -/
def Role.mark : Role → Nat
  | free => cmapFree
  | kernel => 0
  | node pid _ => pid

/-- A char map's index of its first free entry. -/
structure FreeIndex (charmap : Nat → Nat) (limit first : Nat) : Prop where
  /-- The index may be the size of the map. -/
  bound : first ≤ limit
  /-- Nothing below it is free. -/
  below : ∀ i < first, charmap i ≠ cmapFree
  /-- It is free itself. -/
  isFree : first < limit → charmap first = cmapFree

/-- The page table allocator agrees with the roles. -/
structure TabsOk (charmap : Nat → Nat) (first : Nat) (role : Nat → Role) : Prop where
  /-- Every entry of the char map is the mark of the table's role. -/
  marked : ∀ table < npt, charmap table = (role table).mark
  /-- The processes' marks are none of the reserved ones. -/
  named : ∀ table pid path, role table = .node pid path → ncpu ≤ pid ∧ pid ≤ 2 * uprocMax
  /-- The first free table. -/
  index : FreeIndex charmap npt first

/-! ## First free entries -/

/-- The scan stops at its bound or at the first free entry. -/
theorem nextFree_spec (charmap : Nat → Nat) :
    ∀ fuel start, start ≤ nextFree charmap fuel start ∧
      nextFree charmap fuel start ≤ start + fuel ∧
      (∀ i, start ≤ i → i < nextFree charmap fuel start → charmap i ≠ cmapFree) ∧
      (nextFree charmap fuel start < start + fuel →
        charmap (nextFree charmap fuel start) = cmapFree) := by
  -- The induction follows the scan, which moves its start by one in every round.
  intro fuel
  induction fuel with
  | zero =>
    intro start
    refine ⟨Nat.le_refl _, Nat.le_refl _, ?_, fun small => absurd small (Nat.lt_irrefl _)⟩
    intro i low high
    exact absurd high (Nat.not_lt.mpr low)
  | succ fuel ih =>
    intro start
    unfold nextFree
    by_cases found : charmap start = cmapFree
    · -- A free entry ends the scan at once.
      simp only [if_pos found]
      refine ⟨by omega, by omega, fun i low high => by omega, fun _ => found⟩
    · simp only [if_neg found]
      obtain ⟨above, bound, used, stops⟩ := ih (start + 1)
      refine ⟨by omega, by omega, ?_, fun small => stops (by omega)⟩
      intro i low high
      -- The entry just passed was checked, and later ones by the rest of the scan.
      by_cases first : i = start
      · simpa only [first] using found
      · exact used i (by omega) high

namespace FreeIndex

variable {charmap : Nat → Nat} {limit first : Nat}

/-- Taking the first free entry moves the index to the next one. -/
theorem take (index : FreeIndex charmap limit first) (free : first < limit) (mark : Nat) :
    FreeIndex (put charmap first mark) limit
      (nextFree (put charmap first mark) (limit - first) first) := by
  obtain ⟨above, bound, scanned, stops⟩ :=
    nextFree_spec (put charmap first mark) (limit - first) first
  refine ⟨by omega, ?_, fun small => stops (by omega)⟩
  intro i small
  by_cases early : i < first
  · -- Entries below the old index were in use before.
    rw [put_other _ _ (by omega)]
    exact index.below i early
  · exact scanned i (by omega) small

/-- Releasing an entry lowers the index to it. -/
theorem release (index : FreeIndex charmap limit first) {freed : Nat} (inside : freed < limit) :
    FreeIndex (put charmap freed cmapFree) limit (if freed < first then freed else first) := by
  by_cases lower : freed < first
  · simp only [if_pos lower]
    refine ⟨by omega, ?_, fun _ => put_same ..⟩
    intro i small
    rw [put_other _ _ (by omega)]
    exact index.below i (by omega)
  · simp only [if_neg lower]
    refine ⟨index.bound, ?_, ?_⟩
    · intro i small
      rw [put_other _ _ (by omega)]
      exact index.below i small
    · intro small
      -- The index itself may be the entry that is released.
      by_cases same : first = freed
      · rw [same, put_same]
      · rw [put_other _ _ same]
        exact index.isFree small

/-- A change of one mark between marks in use leaves the index alone. -/
theorem remark (index : FreeIndex charmap limit first) {entry mark : Nat}
    (old : charmap entry ≠ cmapFree) (new : mark ≠ cmapFree) :
    FreeIndex (put charmap entry mark) limit first := by
  refine ⟨index.bound, ?_, ?_⟩
  · intro i small
    by_cases same : i = entry
    · rw [same, put_same]
      exact new
    · rw [put_other _ _ same]
      exact index.below i small
  · intro small
    have free := index.isFree small
    rw [put_other _ _ (by rintro rfl; exact old free)]
    exact free

end FreeIndex

/-! ## Entries -/

/-- An entry that points to a table is not a leaf. -/
@[simp] theorem tablePte_xwr (table : Nat) : (tablePte table).xwr = false := rfl

/-- An entry that points to a table is present. -/
@[simp] theorem tablePte_v (table : Nat) : (tablePte table).v = true := rfl

/-- An entry that points to a table names its page. -/
@[simp] theorem tablePte_pfn (table : Nat) : (tablePte table).pfn = tablePfn table := rfl

/-- An entry that points to a table leads to it. -/
theorem tablePte_table {table : Nat} (inside : table < npt) :
    (tablePte table).table? = some table := by
  have low : tablePfn 0 ≤ (tablePte table).pfn := by simp [tablePfn]
  have high : (tablePte table).pfn < tablePfn npt := by simpa [tablePfn] using inside
  rw [Pte.table?, if_pos ⟨low, high⟩]
  simp [tablePfn]

/-- The zero entry is not present. -/
@[simp] theorem zero_v : Pte.zero.v = false := rfl

/-- The zero entry is that of a page never touched. -/
theorem Leaf.untouched_holds : Leaf.untouched.Holds Pte.zero := ⟨false, false, rfl⟩

/-- A page is present unless it was never touched or is in the swap partition. -/
theorem Leaf.Holds.v_iff {leaf : Leaf} {entry : Pte} (holds : leaf.Holds entry) :
    entry.v = true ↔ (∃ f, leaf = .priv f) ∨ (∃ f, leaf = .cow f) ∨ ∃ f, leaf = .shared f := by
  obtain ⟨a, d, rfl⟩ := holds
  cases leaf <;> simp [Leaf.pte, userPte]

/-- A present page is a leaf. -/
theorem Leaf.Holds.xwr {leaf : Leaf} {entry : Pte} (holds : leaf.Holds entry)
    (present : entry.v = true) : entry.xwr = true := by
  obtain ⟨a, d, rfl⟩ := holds
  cases leaf <;> simp_all [Leaf.pte, userPte, Pte.xwr]

/-- Only a page that was never touched has the zero entry. -/
theorem Leaf.Holds.zero_iff {leaf : Leaf} {entry : Pte} (holds : leaf.Holds entry) :
    entry = Pte.zero ↔ leaf = .untouched := by
  obtain ⟨a, d, rfl⟩ := holds
  cases leaf <;> simp [Leaf.pte, userPte, Pte.zero]

/-- The accessed and dirty bits do not matter. -/
theorem Leaf.Holds.marks {leaf : Leaf} {entry : Pte} (holds : leaf.Holds entry)
    (touched : leaf ≠ .untouched) (a d : Bool) : leaf.Holds { entry with a, d } := by
  obtain ⟨a', d', rfl⟩ := holds
  refine ⟨a, d, ?_⟩
  cases leaf <;> simp_all [Leaf.pte, userPte]

end GlucOS
