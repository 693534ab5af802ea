import GlucOS.Mm.Space

/-! Walks and changes of the page tables, in terms of the address spaces behind them. -/

namespace GlucOS

open Routine

/-- An address space map with one page backed differently. -/
def setLeaf (space : Nat → Nat → Leaf) (pid vpn : Nat) (leaf : Leaf) : Nat → Nat → Leaf :=
  fun otherPid otherVpn => if otherPid = pid ∧ otherVpn = vpn then leaf else space otherPid otherVpn

/-- The page changed. -/
@[simp] theorem setLeaf_same (space : Nat → Nat → Leaf) (pid vpn : Nat) (leaf : Leaf) :
    setLeaf space pid vpn leaf pid vpn = leaf := if_pos ⟨rfl, rfl⟩

/-- Every other page. -/
theorem setLeaf_other {space : Nat → Nat → Leaf} {pid vpn : Nat} {leaf : Leaf}
    {otherPid otherVpn : Nat} (differ : ¬ (otherPid = pid ∧ otherVpn = vpn)) :
    setLeaf space pid vpn leaf otherPid otherVpn = space otherPid otherVpn := if_neg differ

/-- Setting a page to what it is changes nothing. -/
theorem setLeaf_self {space : Nat → Nat → Leaf} {pid vpn : Nat} {leaf : Leaf}
    (same : space pid vpn = leaf) : setLeaf space pid vpn leaf = space := by
  funext otherPid otherVpn
  by_cases here : otherPid = pid ∧ otherVpn = vpn
  · rw [here.1, here.2, setLeaf_same, same]
  · rw [setLeaf_other here]

/-! ## Rules for the entry routines -/

section Rules

variable {B : Type} {accepted : MmStop → Prop} {mm : Mm} {after : B → Mm → Prop}

/-- Reading an entry passes it on. -/
@[simp] theorem meets_readPte_bind (loc : PteLoc) (rest : Pte → MmRoutine B) :
    Meets accepted (readPte loc >>= rest) mm after ↔
      Meets accepted (rest (mm.tables loc.table loc.index)) mm after := Iff.rfl

/-- Writing an entry changes the tables. -/
@[simp] theorem meets_writePte_bind (loc : PteLoc) (entry : Pte) (rest : Unit → MmRoutine B) :
    Meets accepted (writePte loc entry >>= rest) mm after ↔
      Meets accepted (rest ())
        { mm with tables := put mm.tables loc.table (put (mm.tables loc.table) loc.index entry) }
        after := Iff.rfl

/-- Writing an entry at the end of a routine. -/
@[simp] theorem meets_writePte (loc : PteLoc) (entry : Pte) (post : Unit → Mm → Prop) :
    Meets accepted (writePte loc entry) mm post ↔
      post ()
        { mm with tables := put mm.tables loc.table (put (mm.tables loc.table) loc.index entry) } :=
  Iff.rfl

/-- Following an entry that points to a table. -/
theorem meets_tableOf_bind {entry : Pte} {table : Nat} {rest : Nat → MmRoutine B}
    (leads : entry.table? = some table) :
    Meets accepted (tableOf entry >>= rest) mm after ↔ Meets accepted (rest table) mm after := by
  unfold tableOf
  rw [leads]
  exact Iff.rfl

end Rules

/-! ## Indexes of an address -/

/-- The virtual page number that a walk of an address sees. -/
def walkVpn (va : Nat) : Nat := va / normalPageSize % 2 ^ 27

/-- An index names an entry of a table. -/
theorem vpnAt_lt (va level : Nat) : vpnAt va level < numPteEntry := Nat.mod_lt _ (by decide)

/-- The top index of an address. -/
theorem vpnAt_two (va : Nat) : vpnAt va 2 = walkVpn va / 2 ^ 18 := by
  simp only [vpnAt, walkVpn, numPteEntry, normalPageSize]
  omega

/-- The middle index of an address. -/
theorem vpnAt_one (va : Nat) : vpnAt va 1 = walkVpn va / 2 ^ 9 % 2 ^ 9 := by
  simp only [vpnAt, walkVpn, numPteEntry, normalPageSize]
  omega

/-- The last index of an address. -/
theorem vpnAt_zero (va : Nat) : vpnAt va 0 = walkVpn va % 2 ^ 9 := by
  simp only [vpnAt, walkVpn, numPteEntry, normalPageSize]
  omega

/-- A virtual page number is that of its indexes. -/
theorem vpnOf_split (vpn : Nat) :
    vpnOf (vpn / 2 ^ 18) (vpn / 2 ^ 9 % 2 ^ 9) (vpn % 2 ^ 9) = vpn := by
  simp only [vpnOf]
  omega

/-- The top index of a virtual page number. -/
theorem vpnOf_top {vpn2 vpn1 vpn0 : Nat} (mid : vpn1 < 2 ^ 9) (low : vpn0 < 2 ^ 9) :
    vpnOf vpn2 vpn1 vpn0 / 2 ^ 18 = vpn2 := by
  simp only [vpnOf]
  omega

/-- The middle index of a virtual page number. -/
theorem vpnOf_mid {vpn2 vpn1 vpn0 : Nat} (mid : vpn1 < 2 ^ 9) (low : vpn0 < 2 ^ 9) :
    vpnOf vpn2 vpn1 vpn0 / 2 ^ 9 % 2 ^ 9 = vpn1 := by
  simp only [vpnOf]
  omega

/-- The last index of a virtual page number. -/
theorem vpnOf_low {vpn2 vpn1 vpn0 : Nat} (low : vpn0 < 2 ^ 9) :
    vpnOf vpn2 vpn1 vpn0 % 2 ^ 9 = vpn0 := by
  simp only [vpnOf]
  omega

/-- An address below the end of user space has the page number one expects. -/
theorem walkVpn_user {va : Nat} (user : va < 2 ^ 39) : walkVpn va = va / normalPageSize := by
  simp only [walkVpn, normalPageSize]
  omega

/-- Where a walk of a page ends: at its entry, or higher up because it has none. -/
def Located (tables : Nat → Nat → Pte) (role : Nat → Role) (space : Nat → Nat → Leaf)
    (pid vpn : Nat) (loc : PteLoc) : Prop :=
  (loc.level = 0 ∧ vpn < userVpns ∧ role loc.table = .node pid [vpn / 2 ^ 18, vpn / 2 ^ 9 % 2 ^ 9] ∧
    loc.index = vpn % 2 ^ 9) ∨
  (loc.level ≠ 0 ∧ (vpn < userVpns →
    space pid vpn = .untouched ∧ tables loc.table loc.index = Pte.zero))

/-- The entry at which a walk of a page ends, when it reaches the last level. -/
def AtLeaf (role : Nat → Role) (pid vpn : Nat) (loc : PteLoc) : Prop :=
  loc.level = 0 ∧ role loc.table = .node pid [vpn / 2 ^ 18, vpn / 2 ^ 9 % 2 ^ 9] ∧
    loc.index = vpn % 2 ^ 9

namespace Shape

variable {tables : Nat → Nat → Pte} {role : Nat → Role} {space : Nat → Nat → Leaf}

/-- The indexes on the way to a leaf table are those of user space. -/
theorem path_bounds (shape : Shape tables role space) {table pid vpn2 vpn1 : Nat}
    (node : role table = .node pid [vpn2, vpn1]) : vpn2 < 2 ^ 8 ∧ vpn1 < 2 ^ 9 := by
  obtain ⟨-, low, above, mid⟩ := shape.parent table pid [vpn2] vpn1 node
  obtain ⟨-, high, -⟩ := shape.parent above pid [] vpn2 mid
  exact ⟨by simpa [room, numPteEntry] using high, by simpa [room, numPteEntry] using low⟩

/-- A node is a top table, or below one by one or two indexes. -/
theorem path_cases (shape : Shape tables role space)
    {table pid : Nat} {path : List Nat} (node : role table = .node pid path) :
    path = [] ∨ (∃ top < 2 ^ 8, path = [top]) ∨
      ∃ top mid, top < 2 ^ 8 ∧ mid < 2 ^ 9 ∧ path = [top, mid] := by
  match path with
  | [] => exact Or.inl rfl
  | [top] =>
    obtain ⟨-, fits, -⟩ := shape.parent table pid [] top node
    exact Or.inr (Or.inl ⟨top, by simpa [room, numPteEntry] using fits, rfl⟩)
  | [top, mid] =>
    obtain ⟨high, low⟩ := shape.path_bounds node
    exact Or.inr (Or.inr ⟨top, mid, high, low, rfl⟩)
  | top :: mid :: low :: rest =>
    -- No table lies below the last level.
    obtain ⟨above, last, split⟩ : ∃ above last, low :: rest = above ++ [last] :=
      ⟨_, _, (List.dropLast_append_getLast (List.cons_ne_nil low rest)).symm⟩
    have deep : role table = .node pid ((top :: mid :: above) ++ [last]) := by
      rw [node, split]
      rfl
    obtain ⟨short, -, -⟩ := shape.parent table pid _ last deep
    simp at short

/-- Every node lies below a top table of its process. -/
theorem root_of_node (shape : Shape tables role space)
    {table pid : Nat} {path : List Nat} (node : role table = .node pid path) :
    ∃ top, role top = .node pid [] := by
  obtain rfl | ⟨i, -, rfl⟩ | ⟨i, j, -, -, rfl⟩ := shape.path_cases node
  · exact ⟨table, node⟩
  · obtain ⟨-, -, above, is⟩ := shape.parent table pid [] i node
    exact ⟨above, is⟩
  · obtain ⟨-, -, above, is⟩ := shape.parent table pid [i] j node
    obtain ⟨-, -, top, isTop⟩ := shape.parent above pid [] i is
    exact ⟨top, isTop⟩

/-- The entry that a walk reaches is that of its page. -/
theorem holds_at (shape : Shape tables role space) {pid vpn : Nat} {loc : PteLoc}
    (here : AtLeaf role pid vpn loc) : (space pid vpn).Holds (tables loc.table loc.index) := by
  obtain ⟨-, node, index⟩ := here
  have small : vpn % 2 ^ 9 < numPteEntry := Nat.mod_lt _ (by decide)
  have holds := shape.leaf _ _ _ _ _ node small
  rwa [vpnOf_split, ← index] at holds

/-- Pages outside user space are untouched. -/
theorem beyond (shape : Shape tables role space) {pid vpn : Nat} (outside : userVpns ≤ vpn) :
    space pid vpn = .untouched := by
  apply shape.bare
  intro table node
  have := (shape.path_bounds node).1
  simp only [userVpns] at outside
  omega

/-- A page that was touched has an entry. -/
theorem table_of_touched (shape : Shape tables role space) {pid vpn : Nat}
    (touched : space pid vpn ≠ .untouched) :
    ∃ table, role table = .node pid [vpn / 2 ^ 18, vpn / 2 ^ 9 % 2 ^ 9] := by
  by_contra missing
  exact touched (shape.bare pid vpn fun table node => missing ⟨table, node⟩)

/-- An entry of a leaf table belongs to no other page. -/
theorem leaf_injective {table pid other vpn2 vpn1 vpn2' vpn1' : Nat} (vpn0 vpn0' : Nat)
    (node : role table = .node pid [vpn2, vpn1])
    (node' : role table = .node other [vpn2', vpn1']) :
    (other = pid ∧ vpnOf vpn2' vpn1' vpn0' = vpnOf vpn2 vpn1 vpn0) ↔ vpn0' = vpn0 := by
  rw [node] at node'
  simp only [Role.node.injEq, List.cons.injEq, and_true] at node'
  obtain ⟨rfl, rfl, rfl⟩ := node'
  simp [vpnOf]

/-- Writing the entry of a page changes how that page is backed. -/
theorem write (shape : Shape tables role space) {pid vpn : Nat} {loc : PteLoc} {leaf : Leaf}
    {entry : Pte} (here : AtLeaf role pid vpn loc) (holds : leaf.Holds entry) :
    Shape (put tables loc.table (put (tables loc.table) loc.index entry)) role
      (setLeaf space pid vpn leaf) := by
  obtain ⟨-, node, index⟩ := here
  -- The table written is neither a kernel table nor an inner one.
  have notKernel : ∀ table, table = 0 ∨ table = 1 → table ≠ loc.table := by
    rintro table kernel rfl
    rw [(shape.kernel _).mpr kernel] at node
    cases node
  have notInner : ∀ table other path, role table = .node other path → path.length < 2 →
      table ≠ loc.table := by
    rintro table other path inner short rfl
    rw [node] at inner
    simp only [Role.node.injEq] at inner
    rw [← inner.2] at short
    simp at short
  refine
    { shape with
      kernelTop := ?_, kernelHalf := ?_, kernelPages := ?_, inner := ?_, leaf := ?_, bare := ?_ }
  · intro i high
    rw [put_other _ _ (notKernel 0 (by simp))]
    exact shape.kernelTop i high
  · intro table other i root high
    rw [put_other _ _ (notInner table other [] root (by simp))]
    exact shape.kernelHalf table other i root high
  · intro i
    rw [put_other _ _ (notKernel 1 (by simp))]
    exact shape.kernelPages i
  · intro table other path i inner short fits
    rw [put_other _ _ (notInner table other path inner short)]
    exact shape.inner table other path i inner short fits
  · -- Of all leaf entries, exactly the one written belongs to the page.
    intro table other vpn2 vpn1 vpn0 leafTable low
    by_cases same : table = loc.table
    · subst same
      have match_iff := leaf_injective (vpn % 2 ^ 9) vpn0 node leafTable
      rw [vpnOf_split] at match_iff
      rw [put_same, setLeaf]
      by_cases entryHere : vpn0 = vpn % 2 ^ 9
      · rw [if_pos (match_iff.mpr entryHere), entryHere, ← index, put_same]
        exact holds
      · rw [if_neg (fun both => entryHere (match_iff.mp both)), put_other _ _ (by omega)]
        exact shape.leaf _ other vpn2 vpn1 vpn0 leafTable low
    · rw [put_other _ _ same]
      have apart : ¬ (other = pid ∧ vpnOf vpn2 vpn1 vpn0 = vpn) := by
        rintro ⟨rfl, rfl⟩
        obtain ⟨-, mid⟩ := shape.path_bounds leafTable
        rw [vpnOf_top mid low, vpnOf_mid mid low] at node
        exact same (shape.unique _ _ _ _ leafTable node)
      rw [setLeaf_other apart]
      exact shape.leaf table other vpn2 vpn1 vpn0 leafTable low
  · intro other otherVpn missing
    have apart : ¬ (other = pid ∧ otherVpn = vpn) := by
      rintro ⟨rfl, rfl⟩
      exact missing _ node
    rw [setLeaf_other apart]
    exact shape.bare other otherVpn missing

/-- Accessed and dirty bits are no part of the address space. -/
theorem mark (shape : Shape tables role space) {pid vpn : Nat} {loc : PteLoc}
    (here : AtLeaf role pid vpn loc) (touched : space pid vpn ≠ .untouched) (a d : Bool) :
    Shape (put tables loc.table (put (tables loc.table) loc.index
      { tables loc.table loc.index with a, d })) role space := by
  have marked := shape.write here ((shape.holds_at here).marks touched a d)
  rwa [setLeaf_self rfl] at marked

/-- A fresh table below a node that had none there. -/
theorem grow (shape : Shape tables role space) {fresh table pid i : Nat} {path : List Nat}
    (free : role fresh = .free) (inside : fresh < npt) (node : role table = .node pid path)
    (short : path.length < 2) (fits : i < room path)
    (missing : ∀ other, role other ≠ .node pid (path ++ [i])) :
    Shape (put (put tables fresh fun _ => Pte.zero) table (put (tables table) i (tablePte fresh)))
      (put role fresh (.node pid (path ++ [i]))) space := by
  have apart : table ≠ fresh := by
    rintro rfl
    rw [free] at node
    cases node
  -- Tables in use keep their role.
  have keeps : ∀ {other r}, role other = r → r ≠ .free →
      put role fresh (.node pid (path ++ [i])) other = r := by
    intro other r is used
    rw [put_other _ _ (by rintro rfl; exact used (is.symm.trans free)), is]
  have notKernel : ∀ {other}, other = 0 ∨ other = 1 → other ≠ fresh ∧ other ≠ table := by
    intro other kernel
    have is := (shape.kernel other).mpr kernel
    constructor
    · rintro rfl
      rw [free] at is
      cases is
    · rintro rfl
      rw [node] at is
      cases is
  have tablesOther : ∀ {other}, other ≠ fresh → other ≠ table →
      put (put tables fresh fun _ => Pte.zero) table (put (tables table) i (tablePte fresh)) other =
        tables other := by
    intro other notFresh notTable
    rw [put_other _ _ notTable, put_other _ _ notFresh]
  -- Entries of other nodes point where they did.
  have points : ∀ {entry other path'}, Points role entry other path' →
      ¬ (other = pid ∧ path' = path ++ [i]) →
      Points (put role fresh (.node pid (path ++ [i]))) entry other path' := by
    rintro entry other path' (⟨zero, none⟩ | ⟨below, is, leads⟩) differ
    · refine Or.inl ⟨zero, ?_⟩
      intro any
      by_cases same : any = fresh
      · rw [same, put_same]
        intro equal
        simp only [Role.node.injEq] at equal
        exact differ ⟨equal.1.symm, equal.2.symm⟩
      · rw [put_other _ _ same]
        exact none any
    · exact Or.inr ⟨below, keeps is (by simp), leads⟩
  refine ⟨?_, ?_, ?_, ?_, ?_, ?_, ?_, ?_, ?_, ?_⟩
  · intro other
    by_cases same : other = fresh
    · subst same
      rw [put_same, ← shape.kernel, free]
      simp
    · rw [put_other _ _ same]
      exact shape.kernel other
  · intro j high
    obtain ⟨notFresh, notTable⟩ := notKernel (Or.inl rfl : 0 = 0 ∨ 0 = 1)
    rw [tablesOther notFresh notTable]
    exact shape.kernelTop j high
  · intro other otherPid j root high
    by_cases same : other = fresh
    · -- The fresh table is no root.
      rw [same, put_same] at root
      simp at root
    · rw [put_other _ _ same] at root
      by_cases here : other = table
      · subst here
        rw [node] at root
        simp only [Role.node.injEq] at root
        have low : i < numPteEntry / 2 := by simpa [room, root.2] using fits
        rw [put_same, put_other _ _ (by omega)]
        exact shape.kernelHalf other pid j (by rw [node, root.2]) high
      · rw [tablesOther same here]
        exact shape.kernelHalf other otherPid j root high
  · intro j
    obtain ⟨notFresh, notTable⟩ := notKernel (Or.inr rfl : 1 = 0 ∨ 1 = 1)
    rw [tablesOther notFresh notTable]
    exact shape.kernelPages j
  · intro other otherPid path' j inner short' fits'
    by_cases same : other = fresh
    · -- The fresh table is empty, and nothing lies below it yet.
      subst same
      rw [put_same] at inner
      simp only [Role.node.injEq] at inner
      obtain ⟨rfl, rfl⟩ := inner
      rw [put_other _ _ (Ne.symm apart), put_same]
      refine Or.inl ⟨rfl, ?_⟩
      intro any
      by_cases fresh' : any = other
      · rw [fresh', put_same]
        intro equal
        simp at equal
      · rw [put_other _ _ fresh']
        intro below
        obtain ⟨-, -, above, is⟩ := shape.parent _ _ _ _ below
        exact missing above is
    · rw [put_other _ _ same] at inner
      by_cases here : other = table
      · subst here
        rw [node] at inner
        simp only [Role.node.injEq] at inner
        obtain ⟨rfl, rfl⟩ := inner
        rw [put_same]
        by_cases entry : j = i
        · -- This is the entry written.
          rw [entry, put_same]
          exact Or.inr ⟨fresh, put_same .., rfl⟩
        · rw [put_other _ _ entry]
          apply points (shape.inner _ _ _ _ node short' fits')
          rintro ⟨-, equal⟩
          simp only [List.append_cancel_left_eq, List.cons.injEq, and_true] at equal
          exact entry equal
      · rw [tablesOther same here]
        apply points (shape.inner _ _ _ _ inner short' fits')
        rintro ⟨rfl, equal⟩
        simp only [List.append_inj_left' equal rfl] at inner
        exact here (shape.unique _ _ _ _ inner node)
  · intro other otherPid vpn2 vpn1 vpn0 leafTable low
    by_cases same : other = fresh
    · subst same
      rw [put_same] at leafTable
      simp only [Role.node.injEq] at leafTable
      obtain ⟨rfl, equal⟩ := leafTable
      rw [put_other _ _ (Ne.symm apart), put_same]
      -- Its pages had no table, so they were never touched.
      have mid : vpn1 < 2 ^ 9 := by
        have path' : path = [vpn2] := List.append_inj_left' (equal.trans (by rfl : [vpn2, vpn1] = [vpn2] ++ [vpn1])) rfl
        have last : i = vpn1 := by simpa [path'] using equal
        simpa [room, path', last, numPteEntry] using fits
      have untouched : space pid (vpnOf vpn2 vpn1 vpn0) = .untouched := by
        apply shape.bare
        rw [vpnOf_top mid low, vpnOf_mid mid low, ← equal]
        exact missing
      rw [untouched]
      exact ⟨false, false, rfl⟩
    · rw [put_other _ _ same] at leafTable
      have here : other ≠ table := by
        rintro rfl
        rw [node] at leafTable
        simp only [Role.node.injEq] at leafTable
        simp [leafTable.2] at short
      rw [tablesOther same here]
      exact shape.leaf _ _ _ _ _ leafTable low
  · intro otherPid otherVpn none
    apply shape.bare
    intro other is
    exact none other (keeps is (by simp))
  · intro other otherPid path' j is
    by_cases same : other = fresh
    · rw [same, put_same] at is
      simp only [Role.node.injEq] at is
      obtain ⟨rfl, equal⟩ := is
      obtain rfl : path = path' := List.append_inj_left' equal rfl
      obtain rfl : i = j := by simpa using equal
      exact ⟨short, fits, table, keeps node (by simp)⟩
    · rw [put_other _ _ same] at is
      obtain ⟨short', fits', above, parent⟩ := shape.parent _ _ _ _ is
      exact ⟨short', fits', above, keeps parent (by simp)⟩
  · intro left right otherPid path' isLeft isRight
    by_cases sameLeft : left = fresh <;> by_cases sameRight : right = fresh
    · rw [sameLeft, sameRight]
    · rw [sameLeft, put_same] at isLeft
      rw [put_other _ _ sameRight, ← isLeft] at isRight
      exact absurd isRight (missing right)
    · rw [sameRight, put_same] at isRight
      rw [put_other _ _ sameLeft, ← isRight] at isLeft
      exact absurd isLeft (missing left)
    · rw [put_other _ _ sameLeft] at isLeft
      rw [put_other _ _ sameRight] at isRight
      exact shape.unique _ _ _ _ isLeft isRight
  · intro other used
    by_cases same : other = fresh
    · rw [same]
      exact inside
    · rw [put_other _ _ same] at used
      exact shape.inside other used

/-- A fresh top table for a process that had none. -/
theorem plant (shape : Shape tables role space) {fresh pid : Nat} (free : role fresh = .free)
    (inside : fresh < npt) (absent : ∀ table path, role table ≠ .node pid path) :
    Shape (put tables fresh fun _ => Pte.zero) (put role fresh (.node pid [])) space := by
  have keeps : ∀ {other r}, role other = r → r ≠ .free →
      put role fresh (.node pid []) other = r := by
    intro other r is used
    rw [put_other _ _ (by rintro rfl; exact used (is.symm.trans free)), is]
  have notKernel : ∀ {other}, other = 0 ∨ other = 1 → other ≠ fresh := by
    rintro other kernel rfl
    rw [(shape.kernel other).mpr kernel] at free
    cases free
  -- The new node is no other process's, and nothing points to it.
  have points : ∀ {entry other path}, Points role entry other path → path ≠ [] →
      Points (put role fresh (.node pid [])) entry other path := by
    rintro entry other path (⟨zero, none⟩ | ⟨below, is, leads⟩) inner
    · refine Or.inl ⟨zero, ?_⟩
      intro any
      by_cases same : any = fresh
      · rw [same, put_same]
        intro equal
        simp only [Role.node.injEq] at equal
        exact inner equal.2.symm
      · rw [put_other _ _ same]
        exact none any
    · exact Or.inr ⟨below, keeps is (by simp), leads⟩
  refine ⟨?_, ?_, ?_, ?_, ?_, ?_, ?_, ?_, ?_, ?_⟩
  · intro other
    by_cases same : other = fresh
    · subst same
      rw [put_same, ← shape.kernel, free]
      simp
    · rw [put_other _ _ same]
      exact shape.kernel other
  · intro j high
    rw [put_other _ _ (notKernel (Or.inl rfl))]
    exact shape.kernelTop j high
  · intro other otherPid j root high
    by_cases same : other = fresh
    · rw [same, put_same]
      exact Or.inl rfl
    · rw [put_other _ _ same] at root ⊢
      exact shape.kernelHalf other otherPid j root high
  · intro j
    rw [put_other _ _ (notKernel (Or.inr rfl))]
    exact shape.kernelPages j
  · intro other otherPid path j inner short fits
    by_cases same : other = fresh
    · subst same
      rw [put_same] at inner
      simp only [Role.node.injEq] at inner
      obtain ⟨rfl, rfl⟩ := inner
      rw [put_same]
      -- Nothing lies below the fresh table.
      refine Or.inl ⟨rfl, ?_⟩
      intro any
      by_cases fresh' : any = other
      · rw [fresh', put_same]
        simp
      · rw [put_other _ _ fresh']
        exact absent any _
    · rw [put_other _ _ same] at inner ⊢
      exact points (shape.inner _ _ _ _ inner short fits) (by simp)
  · intro other otherPid vpn2 vpn1 vpn0 leafTable low
    by_cases same : other = fresh
    · rw [same, put_same] at leafTable
      simp at leafTable
    · rw [put_other _ _ same] at leafTable ⊢
      exact shape.leaf _ _ _ _ _ leafTable low
  · intro otherPid otherVpn none
    apply shape.bare
    intro other is
    exact none other (keeps is (by simp))
  · intro other otherPid path j is
    by_cases same : other = fresh
    · rw [same, put_same] at is
      simp at is
    · rw [put_other _ _ same] at is
      obtain ⟨short, fits, above, parent⟩ := shape.parent _ _ _ _ is
      exact ⟨short, fits, above, keeps parent (by simp)⟩
  · intro left right otherPid path isLeft isRight
    by_cases sameLeft : left = fresh <;> by_cases sameRight : right = fresh
    · rw [sameLeft, sameRight]
    · rw [sameLeft, put_same] at isLeft
      rw [put_other _ _ sameRight, ← isLeft] at isRight
      exact absurd isRight (absent right [])
    · rw [sameRight, put_same] at isRight
      rw [put_other _ _ sameLeft, ← isRight] at isLeft
      exact absurd isLeft (absent left [])
    · rw [put_other _ _ sameLeft] at isLeft
      rw [put_other _ _ sameRight] at isRight
      exact shape.unique _ _ _ _ isLeft isRight
  · intro other used
    by_cases same : other = fresh
    · rw [same]
      exact inside
    · rw [put_other _ _ same] at used
      exact shape.inside other used

/-- Mapping the kernel in a top table is of no concern to the user pages. -/
theorem share (shape : Shape tables role space) {dest src pid : Nat}
    (root : role dest = .node pid []) (kernel : src = 0 ∨ ∃ other, role src = .node other []) :
    Shape (put tables dest fun index =>
      if numPteEntry / 2 ≤ index then tables src index else tables dest index) role space := by
  have notKernel : ∀ {other}, other = 0 ∨ other = 1 → other ≠ dest := by
    rintro other is rfl
    rw [(shape.kernel other).mpr is] at root
    cases root
  refine
    { shape with
      kernelTop := ?_, kernelHalf := ?_, kernelPages := ?_, inner := ?_, leaf := ?_ }
  · intro i high
    rw [put_other _ _ (notKernel (Or.inl rfl))]
    exact shape.kernelTop i high
  · intro table other i isRoot high
    by_cases same : table = dest
    · rw [same, put_same, if_pos high]
      -- The source is a top table itself.
      rcases kernel with rfl | ⟨owner, isSrc⟩
      · exact shape.kernelTop i high
      · exact shape.kernelHalf src owner i isSrc high
    · rw [put_other _ _ same]
      exact shape.kernelHalf table other i isRoot high
  · intro i
    rw [put_other _ _ (notKernel (Or.inr rfl))]
    exact shape.kernelPages i
  · intro table other path i node short fits
    by_cases same : table = dest
    · -- The user half of the top table is as it was.
      subst same
      have top : path = [] := by
        rw [root] at node
        simp only [Role.node.injEq] at node
        exact node.2.symm
      have low : i < numPteEntry / 2 := by simpa [room, top] using fits
      rw [put_same, if_neg (by omega)]
      exact shape.inner _ _ _ _ node short fits
    · rw [put_other _ _ same]
      exact shape.inner _ _ _ _ node short fits
  · intro table other vpn2 vpn1 vpn0 node low
    have same : table ≠ dest := by
      rintro rfl
      rw [root] at node
      simp at node
    rw [put_other _ _ same]
    exact shape.leaf _ _ _ _ _ node low

end Shape

/-- The roles after a process gave up its tables. -/
def dropRoles (role : Nat → Role) (pid : Nat) : Nat → Role := fun table =>
  match role table with
  | .node owner path => if owner = pid then .free else .node owner path
  | other => other

/-- The address spaces after a process gave up its own. -/
def dropSpace (space : Nat → Nat → Leaf) (pid : Nat) : Nat → Nat → Leaf := fun other vpn =>
  if other = pid then .untouched else space other vpn

/-- The nodes that are left are those of other processes. -/
theorem dropRoles_node {role : Nat → Role} {pid table other : Nat} {path : List Nat} :
    dropRoles role pid table = .node other path ↔ role table = .node other path ∧ other ≠ pid := by
  unfold dropRoles
  cases is : role table with
  | free => simp
  | kernel => simp
  | node owner ownPath =>
    by_cases own : owner = pid
    · simp only [if_pos own, reduceCtorEq, false_iff]
      rintro ⟨equal, differ⟩
      simp only [Role.node.injEq] at equal
      exact differ (equal.1.symm.trans own)
    · simp only [if_neg own, Role.node.injEq]
      constructor
      · rintro ⟨rfl, rfl⟩
        exact ⟨⟨rfl, rfl⟩, own⟩
      · rintro ⟨⟨rfl, rfl⟩, -⟩
        exact ⟨rfl, rfl⟩

/-- The kernel's tables stay. -/
theorem dropRoles_kernel {role : Nat → Role} {pid table : Nat} :
    dropRoles role pid table = .kernel ↔ role table = .kernel := by
  unfold dropRoles
  cases is : role table with
  | node owner path => by_cases own : owner = pid <;> simp [own]
  | _ => simp

/-- A table is free when it was, or belonged to the process. -/
theorem dropRoles_free {role : Nat → Role} {pid table : Nat} :
    dropRoles role pid table = .free ↔
      role table = .free ∨ ∃ path, role table = .node pid path := by
  unfold dropRoles
  cases is : role table with
  | node owner path => by_cases own : owner = pid <;> simp [own]
  | _ => simp

/-- A process's tables may be given up together. -/
theorem Shape.drop {tables : Nat → Nat → Pte} {role : Nat → Role} {space : Nat → Nat → Leaf}
    (shape : Shape tables role space) (pid : Nat) :
    Shape tables (dropRoles role pid) (dropSpace space pid) := by
  refine ⟨?_, shape.kernelTop, ?_, shape.kernelPages, ?_, ?_, ?_, ?_, ?_, ?_⟩
  · intro table
    rw [dropRoles_kernel]
    exact shape.kernel table
  · intro table other i root high
    exact shape.kernelHalf table other i (dropRoles_node.mp root).1 high
  · intro table other path i node short fits
    obtain ⟨node, alive⟩ := dropRoles_node.mp node
    -- Entries of living processes point to tables of the same process.
    rcases shape.inner table other path i node short fits with ⟨zero, none⟩ | ⟨below, is, leads⟩
    · exact Or.inl ⟨zero, fun any is => none any (dropRoles_node.mp is).1⟩
    · exact Or.inr ⟨below, dropRoles_node.mpr ⟨is, alive⟩, leads⟩
  · intro table other vpn2 vpn1 vpn0 node low
    obtain ⟨node, alive⟩ := dropRoles_node.mp node
    rw [dropSpace, if_neg alive]
    exact shape.leaf _ _ _ _ _ node low
  · intro other vpn none
    by_cases own : other = pid
    · exact if_pos own
    · rw [dropSpace, if_neg own]
      exact shape.bare other vpn fun table is => none table (dropRoles_node.mpr ⟨is, own⟩)
  · intro table other path i node
    obtain ⟨node, alive⟩ := dropRoles_node.mp node
    obtain ⟨short, fits, above, is⟩ := shape.parent _ _ _ _ node
    exact ⟨short, fits, above, dropRoles_node.mpr ⟨is, alive⟩⟩
  · intro left right other path isLeft isRight
    exact shape.unique _ _ _ _ (dropRoles_node.mp isLeft).1 (dropRoles_node.mp isRight).1
  · intro table used
    apply shape.inside
    intro free
    exact used (dropRoles_free.mpr (Or.inl free))

end GlucOS
