import GlucOS.Mm.SpaceLaws

/-! What `va2pte` finds in well-formed page tables, with and without allocating tables. -/

namespace GlucOS

open Routine

variable {mm : Mm} {role : Nat → Role} {space : Nat → Nat → Leaf} {accepted : MmStop → Prop}

/-! ## Lookups -/

/-- A lookup in a leaf table ends at the entry of the page. -/
theorem lookup_leaf (shape : Shape mm.tables role space) {table pid vpn2 vpn1 : Nat} (va : Nat)
    (node : role table = .node pid [vpn2, vpn1]) (alloc : Bool) (owner : Nat) :
    Meets accepted (va2pteFrom va alloc owner 0 table) mm fun loc next =>
      next = mm ∧ loc = ⟨0, table, vpnAt va 0⟩ := by
  unfold va2pteFrom
  simp only [meets_readPte_bind]
  have low : vpnAt va 0 < numPteEntry := vpnAt_lt va 0
  have holds := shape.leaf _ _ _ _ _ node low
  -- A present entry of the last level is a leaf, so the loop never falls through.
  by_cases present : (mm.tables table (vpnAt va 0)).v = true
  · rw [if_pos present, if_pos (holds.xwr present)]
    exact ⟨rfl, rfl⟩
  · rw [if_neg present]
    exact ⟨rfl, rfl⟩

/-- A lookup one level up follows the entry, when there is one. -/
theorem lookup_inner (shape : Shape mm.tables role space) {level table pid i : Nat}
    {path : List Nat} {va : Nat} {post : PteLoc → Mm → Prop}
    (node : role table = .node pid path) (short : path.length < 2) (index : vpnAt va (level + 1) = i)
    (fits : i < room path)
    (stops : mm.tables table i = Pte.zero → (∀ other, role other ≠ .node pid (path ++ [i])) →
      post ⟨level + 1, table, i⟩ mm)
    (follows : ∀ below, role below = .node pid (path ++ [i]) →
      Meets accepted (va2pteFrom va false 0 level below) mm post) :
    Meets accepted (va2pteFrom va false 0 (level + 1) table) mm post := by
  unfold va2pteFrom
  simp only [meets_readPte_bind, index]
  rcases shape.inner _ _ _ _ node short fits with ⟨zero, none⟩ | ⟨below, is, leads⟩
  · -- A zero entry ends the lookup at once.
    simp only [zero, zero_v, Bool.false_eq_true, if_false, meets_pure]
    exact stops zero none
  · have inside : below < npt := shape.inside below (by simp [is])
    simp only [leads, tablePte_v, if_true, tablePte_xwr, Bool.false_eq_true, if_false]
    rw [meets_tableOf_bind (tablePte_table inside)]
    exact follows below is

/-- A lookup in the kernel's half never reaches the last level. -/
theorem lookup_kernel (shape : Shape mm.tables role space) {table pid va : Nat}
    (root : role table = .node pid []) (high : numPteEntry / 2 ≤ vpnAt va 2) :
    Meets accepted (va2pteFrom va false 0 2 table) mm fun loc next =>
      next = mm ∧ loc.level ≠ 0 := by
  unfold va2pteFrom
  simp only [meets_readPte_bind]
  rcases shape.kernelHalf _ _ _ root high with gone | large | leads
  · simp only [gone, Bool.false_eq_true, if_false, meets_pure]
    exact ⟨trivial, by decide⟩
  · by_cases present : (mm.tables table (vpnAt va 2)).v = true
    · rw [if_pos present, if_pos large]
      exact ⟨rfl, by simp⟩
    · rw [if_neg present]
      exact ⟨rfl, by simp⟩
  · -- The other kernel table holds large pages only.
    have one : (1 : Nat) < npt := by decide
    simp only [leads, tablePte_v, if_true, tablePte_xwr, Bool.false_eq_true, if_false]
    rw [meets_tableOf_bind (tablePte_table one)]
    unfold va2pteFrom
    simp only [meets_readPte_bind]
    by_cases present : (mm.tables 1 (vpnAt va 1)).v = true
    · have large : (mm.tables 1 (vpnAt va 1)).xwr = true := by
        rcases shape.kernelPages (vpnAt va 1) with gone | large
        · rw [gone] at present
          cases present
        · exact large
      rw [if_pos present, if_pos large]
      exact ⟨rfl, by simp⟩
    · rw [if_neg present]
      exact ⟨rfl, by simp⟩

/-- `va2pte` without allocation finds the entry of the page, if it has one, and changes nothing. -/
theorem va2pte_lookup (shape : Shape mm.tables role space) {pgdir pid : Nat} (va : Nat)
    (root : role pgdir = .node pid []) :
    Meets accepted (va2pte va pgdir false 0) mm fun loc next =>
      next = mm ∧ Located mm.tables role space pid (walkVpn va) loc := by
  unfold va2pte
  by_cases user : vpnAt va 2 < numPteEntry / 2
  · refine lookup_inner shape root (by simp) rfl (by simpa [room] using user) ?_ ?_
    · -- No table of the middle level.
      intro zero none
      refine ⟨rfl, Or.inr ⟨by simp, fun _ => ⟨?_, zero⟩⟩⟩
      apply shape.bare
      intro other is
      obtain ⟨-, -, above, mid⟩ := shape.parent other pid [_] _ is
      exact none above (by simpa [vpnAt_two] using mid)
    · intro middle isMid
      refine lookup_inner shape isMid (by simp) rfl
        (by simpa [room] using vpnAt_lt va 1) ?_ ?_
      · -- No table of the last level.
        intro zero none
        refine ⟨rfl, Or.inr ⟨by simp, fun _ => ⟨?_, zero⟩⟩⟩
        apply shape.bare
        intro other is
        exact none other (by simpa [vpnAt_two, vpnAt_one] using is)
      · intro last isLast
        refine (lookup_leaf shape va isLast false 0).mono ?_
        rintro loc next ⟨rfl, rfl⟩
        have small : walkVpn va / 2 ^ 18 < 2 ^ 8 := by
          rw [← vpnAt_two]
          simpa [numPteEntry] using user
        refine ⟨rfl, Or.inl ⟨rfl, by simp only [userVpns]; omega, ?_, vpnAt_zero va⟩⟩
        simpa [vpnAt_two, vpnAt_one] using isLast
  · refine (lookup_kernel shape root (Nat.le_of_not_lt user)).mono ?_
    rintro loc next ⟨rfl, level⟩
    refine ⟨rfl, Or.inr ⟨level, fun small => ?_⟩⟩
    -- Such an address is not one of user space.
    rw [vpnAt_two] at user
    simp only [numPteEntry, userVpns] at user small
    omega

/-! ## Walks that allocate -/

/-- Tables in use keep their role. -/
def Grows (role role' : Nat → Role) : Prop := ∀ table, role table ≠ .free → role' table = role table

/-- Nothing but page tables was allocated. -/
def SameButTables (mm next : Mm) : Prop :=
  next = { mm with
    tables := next.tables, pgtbCharmap := next.pgtbCharmap, pgtbFfree := next.pgtbFfree }

/-- Nothing changes no more than tables. -/
theorem SameButTables.refl (mm : Mm) : SameButTables mm mm := rfl

/-- Two changes of tables in a row. -/
theorem SameButTables.trans {first second third : Mm} (left : SameButTables first second)
    (right : SameButTables second third) : SameButTables first third := by
  unfold SameButTables at *
  rw [right, left]

/-- Growing twice. -/
theorem Grows.trans {first second third : Nat → Role} (left : Grows first second)
    (right : Grows second third) : Grows first third := by
  intro table used
  have kept := left table used
  rw [right table (by rw [kept]; exact used), kept]

/-- No table becomes a top table. -/
def NoRoots (role role' : Nat → Role) : Prop :=
  ∀ table pid, role' table = .node pid [] → role table = .node pid []

/-- No top table comes up in either of two changes. -/
theorem NoRoots.trans {first second third : Nat → Role} (left : NoRoots first second)
    (right : NoRoots second third) : NoRoots first third :=
  fun table pid is => left table pid (right table pid is)

/-- A fresh table leaves the others in their place. -/
theorem grows_put {fresh : Nat} (free : role fresh = .free) (new : Role) :
    Grows role (put role fresh new) := by
  intro table used
  apply put_other
  intro same
  exact used (by rw [same]; exact free)

/-- A fresh table below another one is no top table. -/
theorem noRoots_put {fresh i pid : Nat} {path : List Nat} :
    NoRoots role (put role fresh (.node pid (path ++ [i]))) := by
  intro table owner is
  by_cases here : table = fresh
  · rw [here, put_same] at is
    simp at is
  · rw [put_other _ _ here] at is
    exact is

/-- `alloc_pagetable` gives a cleared table that was free. -/
theorem allocPagetable_meets (tabs : TabsOk mm.pgtbCharmap mm.pgtbFfree role) {pid : Nat}
    (low : ncpu ≤ pid) (high : pid ≤ 2 * uprocMax) (exhausted : accepted .noPageTable) :
    Meets accepted (allocPagetable pid) mm fun table next =>
      role table = .free ∧ table < npt ∧ SameButTables mm next ∧
        next.tables = put mm.tables table (fun _ => Pte.zero) ∧
        ∀ path, TabsOk next.pgtbCharmap next.pgtbFfree (put role table (.node pid path)) := by
  have mark : u8 pid = pid := by
    simp only [u8, uprocMax] at *
    omega
  unfold allocPagetable
  apply meets_stopIf_bind
  · intro free
    simp only [mark, cmapFree, uprocMax] at *
    omega
  intro _
  simp only [meets_get_bind]
  apply meets_stopIf_bind (fun _ => exhausted)
  intro room
  have inside : mm.pgtbFfree < npt := by omega
  simp only [meets_set_bind, meets_pure]
  have free : role mm.pgtbFfree = .free := by
    have marked := tabs.marked _ inside
    rw [tabs.index.isFree inside] at marked
    -- No other role has the mark of a free table.
    cases is : role mm.pgtbFfree with
    | free => rfl
    | kernel => simp [is, Role.mark, cmapFree] at marked
    | node owner path =>
      have named := tabs.named _ _ _ is
      simp only [is, Role.mark, cmapFree, uprocMax] at marked named
      omega
  refine ⟨free, inside, rfl, trivial, fun path => ⟨?_, ?_, tabs.index.take inside _⟩⟩
  · intro table small
    by_cases same : table = mm.pgtbFfree
    · subst same
      simp [Role.mark, mark]
    · rw [put_other _ _ same, put_other _ _ same]
      exact tabs.marked table small
  · intro table owner ownPath is
    by_cases same : table = mm.pgtbFfree
    · rw [same, put_same] at is
      cases is
      exact ⟨low, high⟩
    · rw [put_other _ _ same] at is
      exact tabs.named table owner ownPath is

/-- A walk that allocates goes one level down, through an old table or a fresh one. -/
theorem walk_inner (shape : Shape mm.tables role space)
    (tabs : TabsOk mm.pgtbCharmap mm.pgtbFfree role) {level table pid i : Nat} {path : List Nat}
    {va : Nat} {post : PteLoc → Mm → Prop} (low : ncpu ≤ pid) (high : pid ≤ 2 * uprocMax)
    (exhausted : accepted .noPageTable) (node : role table = .node pid path)
    (short : path.length < 2) (index : vpnAt va (level + 1) = i) (fits : i < room path)
    (follows : ∀ next role' below, Shape next.tables role' space →
      TabsOk next.pgtbCharmap next.pgtbFfree role' → Grows role role' → NoRoots role role' →
      SameButTables mm next → role' below = .node pid (path ++ [i]) →
      Meets accepted (va2pteFrom va true pid level below) next post) :
    Meets accepted (va2pteFrom va true pid (level + 1) table) mm post := by
  unfold va2pteFrom
  simp only [meets_readPte_bind, index]
  rcases shape.inner _ _ _ _ node short fits with ⟨zero, none⟩ | ⟨below, is, leads⟩
  · simp only [zero, zero_v, Bool.false_eq_true, if_false, if_true]
    apply meets_stopIf_bind (fun differ => absurd zero differ)
    intro _
    refine Meets.bind (allocPagetable_meets tabs low high exhausted) ?_
    rintro fresh next ⟨free, inside, same, nextTables, nextTabs⟩
    simp only [meets_writePte_bind]
    -- The fresh table is entered below the node.
    have apart : table ≠ fresh := by
      rintro rfl
      rw [free] at node
      cases node
    apply follows _ (put role fresh (.node pid (path ++ [i]))) fresh
    · have grown := shape.grow free inside node short fits none
      simpa only [nextTables, put_other _ _ apart, tablePte] using grown
    · exact nextTabs _
    · exact grows_put free _
    · exact noRoots_put
    · rw [same]
      rfl
    · exact put_same ..
  · have inside : below < npt := shape.inside below (by simp [is])
    simp only [leads, tablePte_v, if_true, tablePte_xwr, Bool.false_eq_true, if_false]
    rw [meets_tableOf_bind (tablePte_table inside)]
    exact follows mm role below shape tabs (fun _ _ => rfl) (fun _ _ is => is)
      (SameButTables.refl mm) is

/-- `va2pte` with allocation reaches the entry of every user page. -/
theorem va2pte_alloc (shape : Shape mm.tables role space)
    (tabs : TabsOk mm.pgtbCharmap mm.pgtbFfree role) {pgdir pid va : Nat} (low : ncpu ≤ pid)
    (high : pid ≤ 2 * uprocMax) (exhausted : accepted .noPageTable) (root : role pgdir = .node pid [])
    (user : walkVpn va < userVpns) :
    Meets accepted (va2pte va pgdir true pid) mm fun loc next => ∃ role',
      Shape next.tables role' space ∧ TabsOk next.pgtbCharmap next.pgtbFfree role' ∧
        Grows role role' ∧ NoRoots role role' ∧ SameButTables mm next ∧
          AtLeaf role' pid (walkVpn va) loc := by
  have top : vpnAt va 2 < numPteEntry / 2 := by
    rw [vpnAt_two]
    simp only [numPteEntry, userVpns] at *
    omega
  unfold va2pte
  refine walk_inner shape tabs low high exhausted root (by simp) rfl
    (by simpa [room] using top) ?_
  intro next role' middle shape' tabs' grows noRoots same isMid
  refine walk_inner shape' tabs' low high exhausted isMid (by simp) rfl
    (by simpa [room] using vpnAt_lt va 1) ?_
  intro next' role'' last shape'' tabs'' grows' noRoots' same' isLast
  refine (lookup_leaf shape'' va isLast true pid).mono ?_
  rintro loc final ⟨rfl, rfl⟩
  refine ⟨role'', shape'', tabs'', grows.trans grows', noRoots.trans noRoots', same.trans same',
    rfl, ?_, vpnAt_zero va⟩
  simpa [vpnAt_two, vpnAt_one] using isLast

end GlucOS
