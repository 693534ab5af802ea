import GlucOS.Lib.CircularList

/-! Circular lists linked by one pointer each: walking, inserting and deleting. -/

namespace GlucOS

variable {α : Type*}

/-- Following the links leads through all members in order, and from the last one to a stop. -/
def Leads (next : α → α) (stop : α) : List α → Prop
  | [] => True
  | a :: rest => next a = rest.headD stop ∧ Leads next stop rest

/-- A head pointer, and the members that following the links from it leads through once. -/
structure Linked (next : α → α) (head : Option α) (ring : List α) : Prop where
  /-- The head pointer is null, or points to the first member. -/
  head : head = ring.head?
  /-- Nobody is met twice. -/
  nodup : ring.Nodup
  /-- The last member is linked to the first. -/
  leads : ∀ a ∈ ring.head?, Leads next a ring

/-- The links of the members are all that matters. -/
theorem Leads.congr {next next' : α → α} {stop : α} {path : List α} (leads : Leads next stop path)
    (same : ∀ a ∈ path, next' a = next a) : Leads next' stop path := by
  induction path with
  | nil => trivial
  | cons a rest ih =>
    obtain ⟨here, later⟩ := leads
    refine ⟨(same a (by simp)).trans here, ih later fun b inside => ?_⟩
    exact same b (List.mem_cons_of_mem a inside)

/-- A path in two parts, the first of which stops where the second begins. -/
theorem leads_append {next : α → α} {stop : α} {front back : List α} :
    Leads next stop (front ++ back) ↔
      Leads next (back.headD stop) front ∧ Leads next stop back := by
  induction front with
  | nil => simp [Leads]
  | cons a rest ih =>
    have join : (rest ++ back).headD stop = rest.headD (back.headD stop) := by
      cases rest <;> rfl
    simp only [List.cons_append, Leads, ih, join, and_assoc]

/-- The link of a member leads to another one, or to the stop. -/
theorem Leads.next_mem {next : α → α} {stop a : α} {path : List α} (leads : Leads next stop path)
    (inside : a ∈ path) : next a ∈ path ∨ next a = stop := by
  obtain ⟨front, back, rfl⟩ := List.append_of_mem inside
  have link : next a = back.headD stop := (leads_append.mp leads).2.1
  rw [link]
  cases back with
  | nil => exact .inr rfl
  | cons b back => exact .inl (by simp)

/-- Links outside do not matter. -/
theorem Linked.congr {next next' : α → α} {head : Option α} {ring : List α}
    (linked : Linked next head ring) (same : ∀ a ∈ ring, next' a = next a) :
    Linked next' head ring :=
  ⟨linked.head, linked.nodup, fun a first => (linked.leads a first).congr same⟩

/-- A member of a circular list is linked to the next one, and the last member to the head. -/
theorem Linked.link {next : α → α} {head : Option α} {p : α} {front back : List α}
    (linked : Linked next head (front ++ p :: back)) :
    ∃ a, head = some a ∧ next p = back.headD a ∧ a ∉ back := by
  have start := linked.head
  have apart := List.nodup_append.mp linked.nodup
  cases front with
  | nil =>
    have leads := linked.leads p rfl
    exact ⟨p, start, leads.1, (List.nodup_cons.mp apart.2.1).1⟩
  | cons a front =>
    have leads := linked.leads a rfl
    have path : Leads next (back.headD a) [p] := by
      have split : a :: front ++ p :: back = (a :: front ++ [p]) ++ back := by simp
      rw [split] at leads
      exact (leads_append.mp (leads_append.mp leads).1).2
    refine ⟨a, start, path.1, ?_⟩
    intro behind
    exact apart.2.2 a (by simp) a (List.mem_cons_of_mem p behind) rfl

variable [DecidableEq α]

/-- The loop that goes from a member on, until it finds what it looks for or meets the last one. -/
def walkTo (next : α → α) (first : α) (found : α → Bool) : Nat → α → Option α
  | 0, _ => none
  | fuel + 1, p =>
    if next p = first then some p
    else if found p then some p
    else walkTo next first found fuel (next p)

/-- The loop stops at the first member that is found, or at the last one. -/
theorem walkTo_eq {next : α → α} {first p : α} {found : α → Bool} {back : List α} :
    ∀ {front : List α} {fuel : Nat}, Leads next first (front ++ p :: back) →
      first ∉ (front ++ p :: back).tail → (∀ x ∈ front, found x = false) →
      (found p = true ∨ back = []) → front.length < fuel →
      walkTo next first found fuel (front.headD p) = some p := by
  -- The induction is on the members that the loop passes.
  intro front
  induction front with
  | nil =>
    intro fuel leads _ _ here enough
    cases fuel with
    | zero => simp at enough
    | succ fuel =>
      show walkTo next first found (fuel + 1) p = some p
      unfold walkTo
      cases here with
      | inl right => simp [right]
      | inr last =>
        subst last
        exact if_pos leads.1
  | cons x rest ih =>
    intro fuel leads fresh passed here enough
    cases fuel with
    | zero => simp at enough
    | succ fuel =>
      obtain ⟨link, later⟩ := leads
      have onward : next x = rest.headD p := by
        rw [link]
        cases rest <;> rfl
      have inner : next x ∈ rest ++ p :: back := by
        rw [onward]
        cases rest <;> simp
      have differ : next x ≠ first := fun same => fresh (by simpa [same] using inner)
      show walkTo next first found (fuel + 1) x = some p
      unfold walkTo
      rw [if_neg differ, if_neg (by simp [passed x (by simp)]), onward]
      refine ih later (fun inside => fresh (List.mem_of_mem_tail inside)) ?_ here ?_
      · exact fun y inside => passed y (List.mem_cons_of_mem x inside)
      · simpa using enough

/-- The loop that goes from a member on, until it finds what it looks for or is around. -/
def searchFrom (next : α → α) (first : α) (found : α → Bool) : Nat → α → Option (Option α)
  | 0, _ => none
  | fuel + 1, p =>
    if p = first then some none
    else if found p then some (some p)
    else searchFrom next first found fuel (next p)

/-- The loop finds the first member that there is. -/
theorem searchFrom_eq {next : α → α} {first : α} {found : α → Bool} :
    ∀ {path : List α} {fuel : Nat}, Leads next first path → first ∉ path → path.length < fuel →
      searchFrom next first found fuel (path.headD first) = some (path.find? found) := by
  intro path
  induction path with
  | nil =>
    intro fuel _ _ enough
    cases fuel with
    | zero => simp at enough
    | succ fuel => exact if_pos rfl
  | cons a rest ih =>
    intro fuel leads fresh enough
    cases fuel with
    | zero => simp at enough
    | succ fuel =>
      obtain ⟨link, later⟩ := leads
      rw [List.mem_cons, not_or] at fresh
      obtain ⟨differ, fresh'⟩ := fresh
      show searchFrom next first found (fuel + 1) a = _
      unfold searchFrom
      rw [if_neg (Ne.symm differ), List.find?_cons]
      by_cases here : found a = true
      · simp [here]
      · rw [if_neg here, link, ih later fresh' (by simpa using enough)]
        simp [here]

/-- A new member behind another one. -/
theorem Leads.insert {next : α → α} {stop p new : α} {front back : List α}
    (leads : Leads next stop (front ++ p :: back)) (nodup : (front ++ p :: back).Nodup)
    (fresh : new ∉ front ++ p :: back) :
    Leads (Function.update (Function.update next new (next p)) p new) stop
      (front ++ p :: new :: back) := by
  obtain ⟨before, link, after⟩ := leads_append.mp leads
  have apart := List.nodup_append.mp nodup
  have notFront : p ∉ front := fun inside => apart.2.2 p inside p (by simp) rfl
  have notBack : p ∉ back := (List.nodup_cons.mp apart.2.1).1
  have kept : ∀ x, x ≠ p → x ≠ new →
      Function.update (Function.update next new (next p)) p new x = next x := by
    intro x other old
    rw [Function.update_of_ne other, Function.update_of_ne old]
  have differ : new ≠ p := fun same => fresh (by simp [same])
  refine leads_append.mpr ⟨before.congr fun x inside => ?_, ?_, ?_, after.congr fun x inside => ?_⟩
  · exact kept x (fun same => notFront (same ▸ inside)) fun same => fresh (by simp [← same, inside])
  · exact Function.update_self ..
  · rw [Function.update_of_ne differ, Function.update_self]
    exact link
  · exact kept x (fun same => notBack (same ▸ inside)) fun same => fresh (by simp [← same, inside])

/-- A member behind another one is taken out. -/
theorem Leads.delete {next : α → α} {stop p t : α} {front back : List α}
    (leads : Leads next stop (front ++ p :: t :: back)) (nodup : (front ++ p :: t :: back).Nodup) :
    Leads (Function.update next p (next t)) stop (front ++ p :: back) := by
  obtain ⟨before, -, link, after⟩ := leads_append.mp leads
  have apart := List.nodup_append.mp nodup
  have notFront : p ∉ front := fun inside => apart.2.2 p inside p (by simp) rfl
  have notBack : p ∉ back := fun inside => (List.nodup_cons.mp apart.2.1).1 (by simp [inside])
  refine leads_append.mpr ⟨before.congr fun x inside => ?_, ?_, after.congr fun x inside => ?_⟩
  · have other : x ≠ p := fun same => notFront (same ▸ inside)
    exact Function.update_of_ne other ..
  · rw [Function.update_self]
    exact link
  · have other : x ≠ p := fun same => notBack (same ▸ inside)
    exact Function.update_of_ne other ..

/-- A new member behind another one of a circular list. -/
theorem Linked.insert {next : α → α} {head : Option α} {p new : α} {front back : List α}
    (linked : Linked next head (front ++ p :: back)) (fresh : new ∉ front ++ p :: back) :
    Linked (Function.update (Function.update next new (next p)) p new) head
      (front ++ p :: new :: back) := by
  have first : (front ++ p :: new :: back).head? = (front ++ p :: back).head? := by
    cases front <;> rfl
  have perm : (front ++ p :: new :: back).Perm (new :: (front ++ p :: back)) := by
    have moved : (front ++ [p] ++ new :: back).Perm (new :: (front ++ [p] ++ back)) :=
      List.perm_middle
    simpa using moved
  refine ⟨linked.head.trans first.symm, ?_, fun a here => ?_⟩
  · exact perm.nodup_iff.mpr (List.nodup_cons.mpr ⟨fresh, linked.nodup⟩)
  · exact (linked.leads a (first ▸ here)).insert linked.nodup fresh

/-- A member behind another one of a circular list is taken out. -/
theorem Linked.delete {next : α → α} {head : Option α} {p t : α} {front back : List α}
    (linked : Linked next head (front ++ p :: t :: back)) :
    Linked (Function.update next p (next t)) head (front ++ p :: back) := by
  have first : (front ++ p :: back).head? = (front ++ p :: t :: back).head? := by
    cases front <;> rfl
  refine ⟨linked.head.trans first.symm, linked.nodup.sublist ?_, fun a here => ?_⟩
  · exact ((List.sublist_cons_self t back).cons_cons p).append_left front
  · exact (linked.leads a (first ▸ here)).delete linked.nodup

/-- The first of several members is taken out, by linking the last one to the second. -/
theorem Linked.behead {next : α → α} {head : Option α} {a b p : α} {front : List α}
    (linked : Linked next head (a :: front ++ [p])) (second : (front ++ [p]).head? = some b) :
    Linked (Function.update next p (next a)) (some b) (front ++ [p]) := by
  obtain ⟨link, leads⟩ := linked.leads a (by simp)
  have nodup := (List.nodup_cons.mp linked.nodup).2
  have notFront : p ∉ front := by
    intro inside
    exact (List.nodup_append.mp nodup).2.2 p inside p (by simp) rfl
  refine ⟨second.symm, nodup, fun c here => ?_⟩
  obtain rfl : b = c := Option.some.inj (second.symm.trans here)
  obtain ⟨before, -⟩ := leads_append.mp leads
  refine leads_append.mpr ⟨before.congr fun x inside => ?_, ?_, trivial⟩
  · have other : x ≠ p := fun same => notFront (same ▸ inside)
    exact Function.update_of_ne other ..
  · rw [Function.update_self, link]
    show (front ++ [p]).headD a = b
    rw [List.headD_eq_head?_getD, second]
    rfl

end GlucOS
