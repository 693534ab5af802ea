import GlucOS.Mm.Invariant

/-! Translation of addresses: what `va2pte` and `va2kva` answer without allocating a table. -/

namespace GlucOS

open Routine

/-! ## Walks that change nothing -/

/-- Where a walk ends that allocates nothing, if its entries lead to tables. -/
def lookup (tables : Nat → Nat → Pte) (va : Nat) : Nat → Nat → Option PteLoc
  | level, table =>
    let entry := tables table (vpnAt va level)
    if entry.v = true ∧ entry.xwr = false then
      match level with
      | 0 => none
      | level + 1 => entry.table?.bind (lookup tables va level)
    else some ⟨level, table, vpnAt va level⟩

/-- `va2pte` without allocation is such a walk. -/
theorem va2pteFrom_lookup (mm : Mm) (va pid level table : Nat) :
    va2pteFrom va false pid level table mm =
      match lookup mm.tables va level table with
      | some loc => .ok (loc, mm)
      | none => .error .corrupt := by
  induction level generalizing table with
  | zero =>
    unfold va2pteFrom lookup
    change (if (mm.tables table (vpnAt va 0)).v = true then
        if (mm.tables table (vpnAt va 0)).xwr = true then
          (pure ⟨0, table, vpnAt va 0⟩ : MmRoutine PteLoc) else stop .corrupt
      else pure ⟨0, table, vpnAt va 0⟩) mm = _
    dsimp only
    generalize mm.tables table (vpnAt va 0) = entry
    cases present : entry.v with
    | false => simp; rfl
    | true =>
      cases isLeaf : entry.xwr with
      | true => simp; rfl
      | false => simp; rfl
  | succ level ih =>
    unfold va2pteFrom lookup
    change (if (mm.tables table (vpnAt va (level + 1))).v = true then
        if (mm.tables table (vpnAt va (level + 1))).xwr = true then
          (pure ⟨level + 1, table, vpnAt va (level + 1)⟩ : MmRoutine PteLoc)
        else tableOf (mm.tables table (vpnAt va (level + 1))) >>= fun next =>
          va2pteFrom va false pid level next
      else pure ⟨level + 1, table, vpnAt va (level + 1)⟩) mm = _
    dsimp only
    generalize mm.tables table (vpnAt va (level + 1)) = entry
    cases present : entry.v with
    | false => simp; rfl
    | true =>
      cases isLeaf : entry.xwr with
      | true => simp; rfl
      | false =>
        -- The entry leads to the next table, or nowhere.
        unfold tableOf
        cases leads : entry.table? with
        | none => simp; rfl
        | some next =>
          simp only [if_true, Bool.false_eq_true, if_false, and_self, Option.bind_some]
          exact ih next

/-! ## The translation of the hardware -/

/-- How a walk of the hardware ends. -/
inductive WalkEnd
  /-- At an entry that is not present. -/
  | absent
  /-- At a leaf. -/
  | leaf (level : Nat) (entry : Pte)
  /-- At an entry that may not be there, such as one that is writable but not readable. -/
  | invalid

/-- The Sv39 walk, from the table of one level on. -/
def sv39Walk (tables : Nat → Nat → Pte) (va : Nat) : Nat → Nat → WalkEnd
  | level, table =>
    let entry := tables table (vpnAt va level)
    if entry.v = false then .absent
    else if entry.r = false ∧ entry.w = true then .invalid
    else if entry.r = true ∨ entry.x = true then .leaf level entry
    else
      match level with
      | 0 => .invalid
      | level + 1 =>
        match entry.table? with
        | none => .invalid
        | some next => sv39Walk tables va level next

/-- The physical address of the Sv39 translation: what the leaf does not cover is the offset. -/
def sv39Pa (level : Nat) (entry : Pte) (va : Nat) : Nat :=
  entry.pfn * normalPageSize + va % (normalPageSize * numPteEntry ^ level)

/-- `pa2kva`. -/
def pa2kva (pa : Nat) : Nat := (pa + kvaOffset) % 2 ^ 64

/-- What `va2kva` returns for the physical address that the model of it answers. -/
def kvaOf : Option Nat → Nat
  | none => 0
  | some pa => pa2kva pa

/-- The kernel's alias of what the hardware makes of an address. -/
def sv39Kva (va : Nat) : WalkEnd → Nat
  | .leaf level entry => pa2kva (sv39Pa level entry va)
  | _ => 0

/-- Both walks end at the same entry. -/
theorem sv39Walk_lookup (tables : Nat → Nat → Pte) (va level table : Nat)
    (ends : sv39Walk tables va level table ≠ .invalid) :
    ∃ loc, lookup tables va level table = some loc ∧ loc.level ≤ level ∧
      ((sv39Walk tables va level table = .absent ∧ (tables loc.table loc.index).v = false) ∨
        (sv39Walk tables va level table = .leaf loc.level (tables loc.table loc.index) ∧
          (tables loc.table loc.index).v = true)) := by
  induction level generalizing table with
  | zero =>
    unfold sv39Walk at ends ⊢
    unfold lookup
    dsimp only at ends ⊢
    generalize isEntry : tables table (vpnAt va 0) = entry at ends ⊢
    by_cases present : entry.v = false
    · exact ⟨⟨0, table, vpnAt va 0⟩, by simp [present], Nat.le_refl 0,
        .inl ⟨by simp [present], by rw [isEntry, present]⟩⟩
    · rw [if_neg present] at ends ⊢
      by_cases reserved : entry.r = false ∧ entry.w = true
      · rw [if_pos reserved] at ends
        exact absurd rfl ends
      · rw [if_neg reserved] at ends ⊢
        by_cases isLeaf : entry.r = true ∨ entry.x = true
        · have xwr : entry.xwr ≠ false := by
            rcases isLeaf with is | is <;> simp [Pte.xwr, is]
          refine ⟨⟨0, table, vpnAt va 0⟩, by simp [xwr], Nat.le_refl 0, .inr ⟨?_, ?_⟩⟩
          · rw [if_pos isLeaf, isEntry]
          · rw [isEntry]
            simpa using present
        · rw [if_neg isLeaf] at ends
          exact absurd rfl ends
  | succ level ih =>
    unfold sv39Walk at ends ⊢
    unfold lookup
    dsimp only at ends ⊢
    generalize isEntry : tables table (vpnAt va (level + 1)) = entry at ends ⊢
    by_cases present : entry.v = false
    · exact ⟨⟨level + 1, table, vpnAt va (level + 1)⟩, by simp [present], Nat.le_refl _,
        .inl ⟨by simp [present], by rw [isEntry, present]⟩⟩
    · rw [if_neg present] at ends ⊢
      by_cases reserved : entry.r = false ∧ entry.w = true
      · rw [if_pos reserved] at ends
        exact absurd rfl ends
      · rw [if_neg reserved] at ends ⊢
        by_cases isLeaf : entry.r = true ∨ entry.x = true
        · have xwr : entry.xwr ≠ false := by
            rcases isLeaf with is | is <;> simp [Pte.xwr, is]
          refine ⟨⟨level + 1, table, vpnAt va (level + 1)⟩, by simp [xwr], Nat.le_refl _,
            .inr ⟨?_, ?_⟩⟩
          · rw [if_pos isLeaf, isEntry]
          · rw [isEntry]
            simpa using present
        · -- The entry leads to the table of the level below.
          rw [if_neg isLeaf] at ends ⊢
          have xwr : entry.xwr = false := by
            rw [not_or] at isLeaf
            simp only [Bool.not_eq_true] at isLeaf
            have notW : entry.w = false := by
              simpa [isLeaf.1] using reserved
            simp [Pte.xwr, isLeaf.1, isLeaf.2, notW]
          have isPresent : entry.v = true := by simpa using present
          rw [if_pos ⟨isPresent, xwr⟩]
          cases leads : entry.table? with
          | none =>
            rw [leads] at ends
            exact absurd rfl ends
          | some next =>
            rw [leads] at ends
            obtain ⟨loc, found, low, rest⟩ := ih next ends
            exact ⟨loc, found, Nat.le_succ_of_le low, rest⟩

/-! ## `va2kva` -/

/-- What `va2kva` makes of the entry it finds. -/
def va2kvaAt (va : Nat) (level : Nat) (entry : Pte) : Option Nat :=
  let masked := va % 2 ^ 39
  let vpn1 := (masked / 2 ^ 30 * 2 ^ 9) ^^^ (masked / 2 ^ 21)
  let vpn0 := masked / 2 ^ 12 % 2 ^ 12
  let offset := masked % normalPageSize
  if entry.v then
    match level with
    | 2 => some (entry.pfn * normalPageSize + vpn1 * 2 ^ 21 + vpn0 * 2 ^ 12 + offset)
    | 1 => some (entry.pfn * normalPageSize + vpn0 * 2 ^ 12 + offset)
    | _ => some (entry.pfn * normalPageSize + offset)
  else none

/-- An answer that depends on the level of an entry that is present. -/
theorem answer_by_level (mm : Mm) (present : Bool) (level a b c : Nat) :
    (if present = true then
        match level with
        | 2 => pure (some a)
        | 1 => pure (some b)
        | _ => pure (some c)
      else pure none : MmRoutine (Option Nat)) mm =
    .ok (if present = true then
        match level with
        | 2 => some a
        | 1 => some b
        | _ => some c
      else none, mm) := by
  cases present with
  | false => rfl
  | true => rcases level with _ | _ | _ | level <;> rfl

/-- `va2kva` computes its answer from the entry at which the walk ends. -/
theorem va2kva_at {mm : Mm} {va pgdir : Nat} {loc : PteLoc}
    (found : lookup mm.tables va 2 pgdir = some loc) :
    va2kva va pgdir mm = .ok (va2kvaAt va loc.level (mm.tables loc.table loc.index), mm) := by
  have walked : va2pte va pgdir false 0 mm = .ok (loc, mm) := by
    rw [va2pte, va2pteFrom_lookup, found]
  have passes : ∀ rest : PteLoc → MmRoutine (Option Nat),
      (va2pte va pgdir false 0 >>= rest) mm = rest loc mm := by
    intro rest
    change (va2pte va pgdir false 0 mm).bind _ = _
    rw [walked]
    rfl
  unfold va2kva
  rw [passes]
  exact answer_by_level mm (mm.tables loc.table loc.index).v loc.level _ _ _

/-- The middle index comes out of the exclusive or. -/
theorem xor_index (va : Nat) : (va / 2 ^ 30 * 2 ^ 9) ^^^ (va / 2 ^ 21) = va / 2 ^ 21 % 2 ^ 9 := by
  have split := Nat.div_add_mod ((va / 2 ^ 30 * 2 ^ 9) ^^^ (va / 2 ^ 21)) (2 ^ 9)
  have high : ((va / 2 ^ 30 * 2 ^ 9) ^^^ (va / 2 ^ 21)) / 2 ^ 9 = 0 := by
    have upper : va / 2 ^ 21 / 2 ^ 9 = va / 2 ^ 30 := by omega
    rw [Nat.xor_div_two_pow, Nat.mul_div_cancel _ (by decide), upper, Nat.xor_self]
  have low : ((va / 2 ^ 30 * 2 ^ 9) ^^^ (va / 2 ^ 21)) % 2 ^ 9 = va / 2 ^ 21 % 2 ^ 9 := by
    rw [Nat.xor_mod_two_pow, Nat.mul_mod_left, Nat.zero_xor]
  omega

/-- Physical addresses with different aliases differ. -/
theorem pa2kva_inj {pa pa' : Nat} (small : pa < 2 ^ 64) (small' : pa' < 2 ^ 64) :
    pa2kva pa = pa2kva pa' ↔ pa = pa' := by
  simp only [pa2kva, kvaOffset]
  omega

/-- `va2kva` answers the address of the hardware, but for three bits that it adds to large pages. -/
theorem va2kvaAt_eq {va level : Nat} {entry : Pte} (word : va < 2 ^ 39) (small : level ≤ 2)
    (present : entry.v = true) :
    va2kvaAt va level entry =
      some (sv39Pa level entry va + if level = 0 then 0 else va / 2 ^ 21 % 8 * 2 ^ 21) := by
  have masked : va % 2 ^ 39 = va := Nat.mod_eq_of_lt word
  have page : normalPageSize = 4096 := rfl
  have entries : numPteEntry = 512 := rfl
  unfold va2kvaAt sv39Pa
  simp only [masked, xor_index, present, if_true, page, entries]
  rcases level with _ | _ | _ | level
  · simp
  · simp only [Nat.zero_add, Nat.pow_one, Nat.one_ne_zero, if_false, Option.some_inj]
    omega
  · simp only [Nat.zero_add, Nat.reduceAdd, Nat.reducePow, Nat.reduceMul, OfNat.ofNat_ne_zero,
      if_false, Option.some_inj]
    omega
  · omega

/--
`va2kva` is the translation of the hardware exactly when the leaf is a page of the last level, or
the low three bits of the middle index are zero.
-/
theorem va2kva_sv39_iff (mm : Mm) (va pgdir : Nat) (word : va < 2 ^ 39)
    (ends : sv39Walk mm.tables va 2 pgdir ≠ .invalid)
    (leaves : ∀ level entry, sv39Walk mm.tables va 2 pgdir = .leaf level entry →
      entry.pfn < 2 ^ 44 ∧ entry.pfn % numPteEntry ^ level = 0) :
    ∃ answer, va2kva va pgdir mm = .ok (answer, mm) ∧
      (kvaOf answer = sv39Kva va (sv39Walk mm.tables va 2 pgdir) ↔
        ∀ level entry, sv39Walk mm.tables va 2 pgdir = .leaf level entry →
          level = 0 ∨ va / 2 ^ 21 % 8 = 0) := by
  obtain ⟨loc, found, low, outcome⟩ := sv39Walk_lookup mm.tables va 2 pgdir ends
  refine ⟨_, va2kva_at found, ?_⟩
  rcases outcome with ⟨walk, absent⟩ | ⟨walk, present⟩
  · -- Both say that there is no translation.
    have nothing : va2kvaAt va loc.level (mm.tables loc.table loc.index) = none := by
      unfold va2kvaAt
      dsimp only
      rw [absent]
      exact if_neg Bool.false_ne_true
    rw [walk, nothing]
    apply iff_of_true rfl
    intro level entry same
    cases same
  · obtain ⟨wide, -⟩ := leaves _ _ walk
    rw [walk, va2kvaAt_eq word low present]
    have offset : va % (normalPageSize * numPteEntry ^ loc.level) < 2 ^ 39 :=
      Nat.lt_of_le_of_lt (Nat.mod_le _ _) word
    have page : normalPageSize = 4096 := rfl
    have inRange : sv39Pa loc.level (mm.tables loc.table loc.index) va < 2 ^ 60 := by
      rw [sv39Pa, page]
      rw [page] at offset
      omega
    simp only [kvaOf, sv39Kva]
    rw [pa2kva_inj (by split <;> omega) (by omega)]
    constructor
    · intro same level entry is
      cases is
      by_cases last : loc.level = 0
      · exact .inl last
      · right
        rw [if_neg last] at same
        omega
    · intro condition
      rcases condition _ _ rfl with last | zero
      · rw [if_pos last, Nat.add_zero]
      · rw [zero, Nat.zero_mul, ite_self, Nat.add_zero]

/-! ## The addresses of the scans -/

section Scans

variable {mm : Mm} {role : Nat → Role} {space : Nat → Nat → Leaf}

/-- The scans compute the address of a page in 32 bits, which is enough below 4 GiB. -/
theorem vpn2va_eq {vpn2 vpn1 vpn0 : Nat} (mid : vpn1 < numPteEntry) (low : vpn0 < numPteEntry) :
    vpn2va vpn2 vpn1 vpn0 = vpnOf (vpn2 % 4) vpn1 vpn0 * normalPageSize := by
  simp only [vpn2va, vpnOf, u32, numPteEntry, normalPageSize] at *
  omega

/-- The indexes of such an address. -/
theorem vpn2va_indexes {vpn2 vpn1 vpn0 : Nat} (mid : vpn1 < numPteEntry) (low : vpn0 < numPteEntry) :
    vpnAt (vpn2va vpn2 vpn1 vpn0) 2 = vpn2 % 4 ∧ vpnAt (vpn2va vpn2 vpn1 vpn0) 1 = vpn1 ∧
      vpnAt (vpn2va vpn2 vpn1 vpn0) 0 = vpn0 := by
  rw [vpn2va_eq mid low]
  simp only [vpnAt, vpnOf, numPteEntry, normalPageSize] at *
  omega

/-- Entries that a scan follows lead to the tables of the process. -/
theorem Shape.follow (shape : Shape mm.tables role space) {table pid i below : Nat}
    {path : List Nat} (node : role table = .node pid path) (short : path.length < 2)
    (fits : i < room path) (present : (mm.tables table i).v = true)
    (leads : (mm.tables table i).table? = some below) :
    role below = .node pid (path ++ [i]) ∧ (mm.tables table i).xwr = false := by
  rcases shape.inner table pid path i node short fits with ⟨zero, -⟩ | ⟨other, isNode, points⟩
  · rw [zero] at present
    cases present
  · rw [points, tablePte_table (shape.inside other (by simp [isNode])), Option.some_inj] at leads
    rw [points, ← leads]
    exact ⟨isNode, rfl⟩

/--
The address that `do_fork` and `free_pages_of_proc` compute for an entry of the last level is the
one whose walk reaches this entry exactly when the page lies below 4 GiB.
-/
theorem vpn2va_reaches_iff (shape : Shape mm.tables role space) {pgdir pid : Nat}
    (root : role pgdir = .node pid []) {vpn2 vpn1 vpn0 l1 l0 : Nat} (top : vpn2 < numPteEntry / 2)
    (mid : vpn1 < numPteEntry) (low : vpn0 < numPteEntry)
    (present2 : (mm.tables pgdir vpn2).v = true)
    (leads2 : (mm.tables pgdir vpn2).table? = some l1)
    (present1 : (mm.tables l1 vpn1).v = true) (leads1 : (mm.tables l1 vpn1).table? = some l0) :
    va2pte (vpn2va vpn2 vpn1 vpn0) pgdir false 0 mm = .ok (⟨0, l0, vpn0⟩, mm) ↔
      vpn2 * 2 ^ 30 + vpn1 * 2 ^ 21 + vpn0 * 2 ^ 12 < 2 ^ 32 := by
  obtain ⟨index2, index1, index0⟩ := @vpn2va_indexes vpn2 vpn1 vpn0 mid low
  have below4 : vpn2 * 2 ^ 30 + vpn1 * 2 ^ 21 + vpn0 * 2 ^ 12 < 2 ^ 32 ↔ vpn2 < 4 := by
    simp only [numPteEntry] at *
    omega
  obtain ⟨node1, notLeaf2⟩ := shape.follow root (by decide) (by simpa [room] using top) present2 leads2
  obtain ⟨node0, notLeaf1⟩ := shape.follow node1 (by simp) (by simpa [room] using mid)
    present1 leads1
  rw [below4]
  constructor
  · intro reached
    have found := Meets.of_ok (@va2pte_lookup mm role space (fun _ => True) shape pgdir pid
      (vpn2va vpn2 vpn1 vpn0) root) reached
    rcases found.2 with ⟨-, -, isNode, -⟩ | ⟨inner, -⟩
    · -- The table reached is the one of this page alone.
      rw [node0] at isNode
      simp only [List.nil_append, List.cons_append, Role.node.injEq, List.cons.injEq, true_and,
        and_true] at isNode
      rw [← vpnAt_two, index2] at isNode
      omega
    · exact absurd rfl inner
  · intro small
    have same : vpn2 % 4 = vpn2 := Nat.mod_eq_of_lt small
    rw [va2pte, va2pteFrom_lookup]
    have last : lookup mm.tables (vpn2va vpn2 vpn1 vpn0) 0 l0 = some ⟨0, l0, vpn0⟩ := by
      have holds := shape.leaf l0 pid vpn2 vpn1 vpn0 node0 low
      unfold lookup
      dsimp only
      rw [index0, if_neg]
      intro both
      rw [holds.xwr both.1] at both
      cases both.2
    have middle : lookup mm.tables (vpn2va vpn2 vpn1 vpn0) 1 l1 = some ⟨0, l0, vpn0⟩ := by
      unfold lookup
      dsimp only
      rw [index1, if_pos ⟨present1, notLeaf1⟩, leads1, Option.bind_some]
      exact last
    have whole : lookup mm.tables (vpn2va vpn2 vpn1 vpn0) 2 pgdir = some ⟨0, l0, vpn0⟩ := by
      unfold lookup
      dsimp only
      rw [index2, same, if_pos ⟨present2, notLeaf2⟩, leads2, Option.bind_some]
      exact middle
    rw [whole]

end Scans

/-! ## Examples -/

/-- Memory in which process 2 has its top page table and nothing else. -/
def bareMm : Mm :=
  { tables := fun _ _ => Pte.zero
    pgtbCharmap := fun table => if table < 2 then 0 else if table = 2 then 2 else cmapFree
    pgtbFfree := 3
    frames := fun _ _ => 0
    pgCharmap := fun _ => cmapFree
    pgUva := fun _ => 0
    pgFfree := 0
    swapPages := fun _ _ => 0
    spgCharmap := fun _ => cmapFree
    spgFfree := 0
    clockPt := 0
    shmCtrl := fun _ => ⟨0, 0, fun _ => none⟩
    pcbTable := [⟨2, 0, 2, 0, 0⟩]
    current := fun cpu => (cpu, 0)
    tlb := fun _ => []
    fault := ⟨0, 0, none, 0⟩ }

/-- The roles of its page tables. -/
def bareRole (table : Nat) : Role :=
  if table < 2 then .kernel else if table = 2 then .node 2 [] else .free

/-- Only one of them is a process's. -/
theorem bareRole_node {table pid : Nat} {path : List Nat} (is : bareRole table = .node pid path) :
    table = 2 ∧ pid = 2 ∧ path = [] := by
  unfold bareRole at is
  split at is
  · cases is
  · split at is
    · rename_i here
      cases is
      exact ⟨here, rfl, rfl⟩
    · cases is

/-- That memory is consistent. -/
theorem bareMm_ok : Ok bareMm bareRole (fun _ _ => .untouched) {2} none where
  frames :=
    { priv := fun _ _ _ is => nomatch is
      multi := by
        intro _ _ _ uses
        rcases uses with is | is <;> cases is
      once := by
        intro _ _ _ _ uses
        rcases uses with is | is <;> cases is
      owned := fun _ _ used => absurd rfl used
      finite := by
        intro frame
        apply Set.Finite.subset Set.finite_empty
        rintro _ (is | is) <;> cases is
      counted := fun _ _ is => absurd is.symm shared_ne_free
      holds := fun _ is => nomatch is }
  frameIndex := ⟨by decide, fun _ none_ => absurd none_ (Nat.not_lt_zero _), fun _ => rfl⟩
  slots :=
    { marked := fun _ _ _ is => nomatch is
      once := fun _ _ _ _ _ is => nomatch is
      used := fun _ _ used => absurd rfl used }
  slotIndex := ⟨by decide, fun _ none_ => absurd none_ (Nat.not_lt_zero _), fun _ => rfl⟩
  shm :=
    { listed := fun _ _ active => absurd active (Nat.lt_irrefl 0)
      distinct := fun _ _ active => absurd active (Nat.lt_irrefl 0)
      nonempty := fun _ _ active => absurd active (Nat.lt_irrefl 0)
      count := fun _ _ active => absurd active (Nat.lt_irrefl 0)
      apart := fun _ _ _ _ active => absurd active (Nat.lt_irrefl 0)
      notCow := fun _ _ active => absurd active (Nat.lt_irrefl 0)
      known := fun _ _ _ is => nomatch is
      low := fun _ _ _ is => nomatch is }
  procs :=
    { touched := fun _ _ touched => absurd rfl touched
      named := by
        intro pid mem
        rw [Finset.mem_singleton.mp mem]
        exact ⟨by decide, by decide⟩
      few := by decide }
  clock := by decide
  shape :=
    { kernel := by
        intro table
        unfold bareRole
        by_cases small : table < 2
        · rw [if_pos small]
          simp only [true_iff]
          omega
        · rw [if_neg small]
          split
          · simp only [reduceCtorEq, false_iff]
            omega
          · simp only [reduceCtorEq, false_iff]
            omega
      kernelTop := fun _ _ => .inl rfl
      kernelHalf := fun _ _ _ _ _ => .inl rfl
      kernelPages := fun _ => .inl rfl
      inner := by
        intro table pid path i _ _ _
        left
        refine ⟨rfl, ?_⟩
        intro other is
        have := (bareRole_node is).2.2
        simp at this
      leaf := by
        intro table pid vpn2 vpn1 vpn0 is
        have := (bareRole_node is).2.2
        simp at this
      bare := fun _ _ _ => rfl
      parent := by
        intro table pid path i is
        have := (bareRole_node is).2.2
        simp at this
      unique := by
        intro table table' pid path is is'
        rw [(bareRole_node is).1, (bareRole_node is').1]
      inside := by
        intro table used
        by_contra large
        apply used
        unfold bareRole
        simp only [npt] at large
        rw [if_neg (by omega), if_neg (by omega)] }
  tabs :=
    { marked := by
        intro table _
        simp only [bareMm, bareRole]
        split
        · rfl
        · split <;> rfl
      named := by
        intro table pid path is
        rw [(bareRole_node is).2.1]
        decide
      index := by
        refine ⟨by decide, ?_, fun _ => by decide⟩
        intro table small
        change table < 3 at small
        simp only [bareMm]
        split
        · decide
        · rw [if_pos (by omega)]
          decide }

/-- A process whose top table maps a page of 1 GiB at its second gigabyte. -/
def hugePage : Mm :=
  { bareMm with
    tables := put bareMm.tables 2 (put (bareMm.tables 2) 1 (userPte 0x40000 true true)) }

/-- An address in it whose middle index is a multiple of eight is translated as the hardware does. -/
theorem va2kva_sv39_low : ∃ answer, va2kva 0x41001234 2 hugePage = .ok (answer, hugePage) ∧
    (kvaOf answer = sv39Kva 0x41001234 (sv39Walk hugePage.tables 0x41001234 2 2) ↔
      ∀ level entry, sv39Walk hugePage.tables 0x41001234 2 2 = .leaf level entry →
        level = 0 ∨ 0x41001234 / 2 ^ 21 % 8 = 0) := by
  have ends : sv39Walk hugePage.tables 0x41001234 2 2 = .leaf 2 (userPte 0x40000 true true) := rfl
  apply va2kva_sv39_iff hugePage 0x41001234 2 (by decide)
  · rw [ends]
    intro same
    cases same
  · intro level entry same
    rw [ends] at same
    cases same
    decide

/-- Two megabytes into it, the answer is two megabytes too high. -/
theorem va2kva_sv39_high :
    (va2kva 0x40200000 2 hugePage).map (fun answer => kvaOf answer.1) = .ok 0xffffffc040400000 ∧
      sv39Kva 0x40200000 (sv39Walk hugePage.tables 0x40200000 2 2) = 0xffffffc040200000 := by
  constructor
  · decide
  · decide

/-- A process with the tables for the pages of 2 MiB, which lie at the start of a gigabyte. -/
def reachedTables (top : Nat) : Nat → Nat → Pte :=
  let tables := put (put bareMm.tables 3 fun _ => Pte.zero) 2
    (put (bareMm.tables 2) top (tablePte 3))
  put (put tables 4 fun _ => Pte.zero) 3 (put (tables 3) 0 (tablePte 4))

/-- They are well-formed. -/
theorem reachedTables_shape {top : Nat} (user : top < numPteEntry / 2) :
    Shape (reachedTables top) (put (put bareRole 3 (.node 2 [top])) 4 (.node 2 [top, 0]))
      fun _ _ => .untouched := by
  have first := @Shape.grow _ _ _ bareMm_ok.shape 3 2 2 top [] rfl (by decide) rfl (by decide) (by simpa [room] using user) (by
      intro other is
      have path := (bareRole_node is).2.2
      simp at path)
  exact @Shape.grow _ _ _ first 4 3 2 0 [top] rfl (by decide) rfl (by simp) (by simp [room, numPteEntry]) (by
      intro other is
      by_cases three : other = 3
      · rw [three, put_same] at is
        simp at is
      · rw [List.nil_append, put_other _ _ three] at is
        have path := (bareRole_node is).2.2
        simp at path)

/-- The address computed for a page of the first gigabyte reaches it. -/
theorem vpn2va_reaches_heap :
    va2pte (vpn2va 0 0 5) 2 false 0 { bareMm with tables := reachedTables 0 } =
      .ok (⟨0, 4, 5⟩, { bareMm with tables := reachedTables 0 }) :=
  (@vpn2va_reaches_iff { bareMm with tables := reachedTables 0 } _ _
    (reachedTables_shape (by decide)) 2 2 rfl 0 0 5 3 4 (by decide) (by decide) (by decide)
    rfl rfl rfl rfl).mpr (by decide)

/-- The address computed for a page of the user stack is another one, and does not reach it. -/
theorem vpn2va_misses_stack :
    Shape (reachedTables 60) (put (put bareRole 3 (.node 2 [60])) 4 (.node 2 [60, 0]))
        (fun _ _ => .untouched) ∧
      60 * 2 ^ 30 + 15 * 2 ^ 12 = userSp - normalPageSize ∧
      vpn2va 60 0 15 = 0xf000 ∧
      (va2pte (vpn2va 60 0 15) 2 false 0 { bareMm with tables := reachedTables 60 }).map
        (fun answer => answer.1) = .ok ⟨2, 2, 0⟩ :=
  ⟨reachedTables_shape (by decide), by decide, by decide, by decide⟩

end GlucOS
