import GlucOS.Sched.PcbList

/-! The operations on the links of PCBs are those on lists of PCBs. -/

namespace GlucOS.Sched

namespace Links

variable {m : Links} {head : Option PcbRef} {ring : List PcbRef} {t new prior : PcbRef}
  {q : QueueRef} {size : Nat}

/-- What is left alone by an operation on one list, with the PCBs whose links may change. -/
structure Spares (m m' : Links) (ring : List PcbRef) : Prop where
  /-- The links of the others. -/
  next : ∀ x ∉ ring, m'.next x = m.next x
  /-- The head pointers. -/
  head : m'.head = m.head

/-- The last member of a list that is not empty. -/
theorem exists_last (h : PcbRef) (rest : List PcbRef) : ∃ front p, h :: rest = front ++ [p] :=
  ⟨_, _, (List.dropLast_append_getLast (List.cons_ne_nil h rest)).symm⟩

/-- The loop of all operations, on a list that is not empty. -/
theorem walk_eq {h p : PcbRef} {rest front back : List PcbRef} {found : PcbRef → Bool}
    (linked : Linked m.next head (h :: rest)) (small : (h :: rest).length ≤ size)
    (split : h :: rest = front ++ p :: back) (passed : ∀ x ∈ front, found x = false)
    (here : found p = true ∨ back = []) : walkTo m.next h found size h = some p := by
  have leads := linked.leads h (by simp)
  have fresh : h ∉ rest := (List.nodup_cons.mp linked.nodup).1
  have start : front.headD p = h := by
    cases front with
    | nil => exact (List.cons.inj split).1.symm
    | cons x front => exact (List.cons.inj split).1.symm
  have tail : (front ++ p :: back).tail = rest := by rw [← split]; rfl
  have length : front.length < size := by
    have total := congrArg List.length split
    rw [List.length_append, List.length_cons (a := p)] at total
    omega
  rw [split] at leads
  have ends := walkTo_eq leads (by rw [tail]; exact fresh) passed here length
  rwa [start] at ends

/-- `lpcb_search_node`. -/
theorem lpcbSearchNode_eq (linked : Linked m.next head ring) (small : ring.length ≤ maxNodes)
    (found : PcbRef → Bool) : m.lpcbSearchNode head found = some (ring.find? found) := by
  unfold lpcbSearchNode
  rw [linked.head]
  cases ring with
  | nil => rfl
  | cons h rest =>
    obtain ⟨link, leads⟩ := linked.leads h (by simp)
    have fresh : h ∉ rest := (List.nodup_cons.mp linked.nodup).1
    rw [List.head?_cons, List.find?_cons]
    by_cases here : found h = true
    · simp [here]
    · simp only [here, Bool.false_eq_true, if_false]
      rw [link]
      exact searchFrom_eq leads fresh small

/-- A null head pointer is that of the empty list. -/
theorem eq_nil (linked : Linked m.next none ring) : ring = [] :=
  List.head?_eq_none_iff.mp linked.head.symm

/-- `lpcb_add_node_to_tail` of a list of any size. -/
theorem lpcbAddNodeToTailIn_spec (linked : Linked m.next head ring) (small : ring.length ≤ size)
    (fresh : new ∉ ring) : ∃ head' m',
      m.lpcbAddNodeToTailIn size head (some new) q = some (head', m') ∧
        Linked m'.next head' (ring ++ [new]) ∧ m'.phead = Function.update m.phead new q ∧
          Spares m m' (new :: ring) := by
  cases ring with
  | nil =>
    obtain rfl : head = none := linked.head
    refine ⟨some new, (m.setNext new new).setPhead new q, rfl,
      ⟨rfl, List.nodup_singleton new, ?_⟩, rfl, ?_, rfl⟩
    · intro a first
      obtain rfl : new = a := by simpa using first
      exact ⟨Function.update_self .., trivial⟩
    · intro x outside
      exact Function.update_of_ne (by simpa using outside) ..
  | cons h rest =>
    obtain rfl : head = some h := linked.head
    obtain ⟨front, p, split⟩ := exists_last h rest
    have walk := walk_eq linked small split (fun _ _ => rfl) (.inr rfl)
    have differ : new ≠ p := by
      rintro rfl
      exact fresh (by rw [split]; simp)
    refine ⟨some h, ((m.setNext p new).setNext new h).setPhead new q, ?_, ?_, rfl, ?_, rfl⟩
    · unfold lpcbAddNodeToTailIn
      simp only [walk]
      rfl
    · -- The two links are written in the other order than by an insertion.
      have last : m.next p = h := by
        have leads := linked.leads h (by simp)
        rw [split] at leads
        exact (leads_append.mp leads).2.1
      rw [split] at linked fresh
      have longer := linked.insert fresh
      rw [last] at longer
      rw [split, List.append_assoc]
      show Linked (Function.update (Function.update m.next p new) new h) (some h) _
      rw [Function.update_comm differ.symm]
      exact longer
    · intro x outside
      rw [split] at outside
      simp only [List.mem_cons, List.mem_append, not_or, List.not_mem_nil, not_false_iff,
        and_true] at outside
      show Function.update (Function.update m.next p new) new h x = _
      rw [Function.update_of_ne outside.1, Function.update_of_ne outside.2.2]

/-- `lpcb_add_node_to_tail` of a queue. -/
theorem lpcbAddNodeToTail_spec (linked : Linked m.next head ring) (small : ring.length ≤ maxNodes)
    (fresh : new ∉ ring) : ∃ head' m',
      m.lpcbAddNodeToTail head (some new) q = some (head', m') ∧
        Linked m'.next head' (ring ++ [new]) ∧ m'.phead = Function.update m.phead new q ∧
          Spares m m' (new :: ring) :=
  lpcbAddNodeToTailIn_spec linked small fresh

/-- `lpcb_insert_node`, where the node in front of the new one is found. -/
theorem insert_found {found : PcbRef} {front back : List PcbRef} {prior : Option PcbRef}
    (linked : Linked m.next head (front ++ found :: back))
    (small : (front ++ found :: back).length ≤ size) (fresh : new ∉ front ++ found :: back)
    (passed : ∀ x ∈ front, some x ≠ prior) (here : some found = prior ∨ prior = none ∧ back = []) :
    ∃ m', m.lpcbInsertNodeIn size head new prior q = some (head, m') ∧
      Linked m'.next head (front ++ found :: new :: back) ∧
        m'.phead = Function.update m.phead new q ∧
          Spares m m' (new :: (front ++ found :: back)) := by
  obtain ⟨h, rest, split⟩ : ∃ h rest, front ++ found :: back = h :: rest := by
    cases front with
    | nil => exact ⟨found, back, rfl⟩
    | cons x front => exact ⟨x, front ++ found :: back, rfl⟩
  have start : head = some h := by rw [linked.head, split]; rfl
  have walk : walkTo m.next h (fun p => some p = prior) size h = some found := by
    refine walk_eq (split ▸ linked) (split ▸ small) split.symm ?_ ?_
    · exact fun x inside => by simpa using passed x inside
    · exact here.imp (fun right => by simpa using right) And.right
  refine ⟨((m.setNext new (m.next found)).setNext found new).setPhead new q, ?_,
    linked.insert fresh, rfl, ?_, rfl⟩
  · subst start
    unfold lpcbInsertNodeIn
    have right : ¬ (some found ≠ prior ∧ prior ≠ none) := by
      rintro ⟨wrong, some'⟩
      exact here.elim wrong fun last => some' last.1
    simp only [walk, Option.bind_eq_bind, Option.bind_some]
    rw [if_neg right]
    rfl
  · intro x outside
    simp only [List.mem_cons, List.mem_append, not_or] at outside
    show Function.update (Function.update m.next new (m.next found)) found new x = _
    rw [Function.update_of_ne outside.2.2.1, Function.update_of_ne outside.1]

/-- `lpcb_insert_node` after a node of a list of any size. -/
theorem lpcbInsertNodeIn_after (linked : Linked m.next head ring) (small : ring.length ≤ size)
    (fresh : new ∉ ring) (inside : prior ∈ ring) : ∃ m',
      m.lpcbInsertNodeIn size head new (some prior) q = some (head, m') ∧
        Linked m'.next head (insertAfter ring prior new) ∧
          m'.phead = Function.update m.phead new q ∧ Spares m m' (new :: ring) := by
  obtain ⟨front, back, rfl, notFront, -, -⟩ := ring_split linked.nodup inside
  rw [insertAfter_split notFront]
  refine insert_found linked small fresh (fun x there same => ?_) (.inl rfl)
  exact notFront (Option.some.inj same ▸ there)

/-- `lpcb_insert_node` after a node of a queue. -/
theorem lpcbInsertNode_after (linked : Linked m.next head ring) (small : ring.length ≤ maxNodes)
    (fresh : new ∉ ring) (inside : prior ∈ ring) : ∃ m',
      m.lpcbInsertNode head new (some prior) q = some (head, m') ∧
        Linked m'.next head (insertAfter ring prior new) ∧
          m'.phead = Function.update m.phead new q ∧ Spares m m' (new :: ring) :=
  lpcbInsertNodeIn_after linked small fresh inside

/-- `lpcb_insert_node` at the tail of a list of any size. -/
theorem lpcbInsertNodeIn_tail (linked : Linked m.next head ring) (small : ring.length ≤ size)
    (fresh : new ∉ ring) : ∃ head' m', m.lpcbInsertNodeIn size head new none q = some (head', m') ∧
      head' ≠ none ∧ Linked m'.next head' (ring ++ [new]) ∧
        m'.phead = Function.update m.phead new q ∧ Spares m m' (new :: ring) := by
  cases ring with
  | nil =>
    obtain rfl : head = none := linked.head
    refine ⟨some new, (m.setPhead new q).setNext new new, rfl, by simp,
      ⟨rfl, List.nodup_singleton new, ?_⟩, rfl, ?_, rfl⟩
    · intro a first
      obtain rfl : new = a := by simpa using first
      exact ⟨Function.update_self .., trivial⟩
    · intro x outside
      exact Function.update_of_ne (by simpa using outside) ..
  | cons h rest =>
    obtain ⟨front, p, split⟩ := exists_last h rest
    have start : head = some h := linked.head
    rw [split] at linked small fresh ⊢
    have passed : ∀ x ∈ front, some x ≠ none := by simp
    obtain ⟨m', ran, longer, phead, spares⟩ := insert_found (q := q) linked small fresh passed
      (.inr ⟨rfl, rfl⟩)
    refine ⟨head, m', ran, by simp [start], ?_, phead, spares⟩
    rw [List.append_assoc]
    exact longer

/-- `lpcb_insert_node` at the tail of a queue. -/
theorem lpcbInsertNode_tail (linked : Linked m.next head ring) (small : ring.length ≤ maxNodes)
    (fresh : new ∉ ring) : ∃ head' m', m.lpcbInsertNode head new none q = some (head', m') ∧
      head' ≠ none ∧ Linked m'.next head' (ring ++ [new]) ∧
        m'.phead = Function.update m.phead new q ∧ Spares m m' (new :: ring) :=
  lpcbInsertNodeIn_tail linked small fresh

/-- `lpcb_insert_node` after a node that is not in the list fails. -/
theorem lpcbInsertNodeIn_absent (linked : Linked m.next head ring) (small : ring.length ≤ size)
    (outside : prior ∉ ring) :
    m.lpcbInsertNodeIn size head new (some prior) q = some (none, m) := by
  cases ring with
  | nil =>
    obtain rfl : head = none := linked.head
    simp [lpcbInsertNodeIn]
  | cons h rest =>
    obtain rfl : head = some h := linked.head
    -- The loop passes all nodes and stops at the last one, which is another one.
    obtain ⟨front, p, split⟩ := exists_last h rest
    have other : ∀ x ∈ h :: rest, x ≠ prior := fun x inside same => outside (same ▸ inside)
    have walk : walkTo m.next h (fun p => some p = some prior) size h = some p := by
      apply walk_eq linked small split _ (.inr rfl)
      intro x inside
      have differ := other x (by rw [split]; simp [inside])
      simpa using differ
    have last := other p (by rw [split]; simp)
    unfold lpcbInsertNodeIn
    simp only [walk, Option.bind_eq_bind, Option.bind_some]
    rw [if_pos ⟨by simpa using last, by simp⟩]
    rfl

/-- `lpcb_del_node` of a node of a list of any size. -/
theorem lpcbDelNodeIn_spec (linked : Linked m.next head ring) (small : ring.length ≤ size)
    (inside : t ∈ ring) : ∃ head' m', m.lpcbDelNodeIn size head t = some ((head', some t), m') ∧
      Linked m'.next head' (ring.erase t) ∧ m'.phead = m.phead ∧ Spares m m' ring := by
  cases ring with
  | nil => cases inside
  | cons h rest =>
    obtain rfl : head = some h := linked.head
    have fresh : h ∉ rest := (List.nodup_cons.mp linked.nodup).1
    obtain ⟨link, leads⟩ := linked.leads h (by simp)
    cases rest with
    | nil =>
      -- The only node is deleted.
      obtain rfl : t = h := by simpa using inside
      have alone : m.next t = t := link
      refine ⟨none, m, ?_, ?_, rfl, fun _ _ => rfl, rfl⟩
      · simp [lpcbDelNodeIn, alone]
      · rw [List.erase_cons_head]
        exact ⟨rfl, List.nodup_nil, by simp⟩
    | cons b rest =>
      have several : m.next h ≠ h := by
        rw [link]
        intro same
        exact fresh (same ▸ List.mem_cons_self)
      by_cases first : h = t
      · -- The first of several nodes: the last one is linked to the second.
        subst first
        obtain ⟨front, p, split⟩ := exists_last b rest
        have shape : h :: b :: rest = (h :: front) ++ [p] := by rw [split]; rfl
        have walk := walk_eq linked small shape (fun _ _ => rfl) (.inr rfl)
        have second : m.next p = h ∧ (m.setNext p (m.next h)).next p = b := by
          refine ⟨?_, (Function.update_self ..).trans link⟩
          rw [split] at leads
          exact (leads_append.mp leads).2.1
        refine ⟨some b, m.setNext p (m.next h), ?_, ?_, rfl, ?_, rfl⟩
        · unfold lpcbDelNodeIn
          simp only [if_neg several, if_true, walk, Option.bind_eq_bind, Option.bind_some]
          rw [second.2]
          rfl
        · rw [List.erase_cons_head]
          rw [split] at linked ⊢
          exact linked.behead (split ▸ rfl)
        · intro x outside
          have other : x ≠ p := by
            rintro rfl
            exact outside (List.mem_cons_of_mem h (split ▸ by simp))
          exact Function.update_of_ne other ..
      · -- The node is behind another one.
        have later : t ∈ b :: rest := by
          simpa [Ne.symm first] using inside
        obtain ⟨front, back, split⟩ := List.append_of_mem later
        obtain ⟨before, p, shape⟩ := exists_last h front
        have whole : h :: b :: rest = before ++ p :: t :: back := by
          rw [split, ← List.cons_append, shape]
          simp
        have nodup := linked.nodup
        rw [whole] at nodup
        have path := linked.leads h (by simp)
        rw [whole] at path
        have here : m.next p = t := (leads_append.mp path).2.1
        obtain ⟨-, behind, apart⟩ := List.nodup_append.mp nodup
        have notBefore : t ∉ before := fun wrong => apart t wrong t (by simp) rfl
        have differ : t ≠ p := fun same => (List.nodup_cons.mp behind).1 (by simp [same])
        have walk : walkTo m.next h (fun p => m.next p = t) size h = some p := by
          refine walk_eq linked small whole (fun x there => ?_) (.inl (by simpa using here))
          -- Who is passed is linked to others that are in front of the node.
          rw [decide_eq_false_iff_not]
          intro wrong
          cases (leads_append.mp path).1.next_mem there with
          | inl among => exact notBefore (wrong ▸ among)
          | inr same => exact differ (wrong.symm.trans same)
        refine ⟨some h, m.setNext p (m.next t), ?_, ?_, rfl, fun x outside => ?_, rfl⟩
        · unfold lpcbDelNodeIn
          simp only [if_neg several, if_neg first, walk, Option.bind_eq_bind, Option.bind_some]
          rw [if_pos here]
          rfl
        · have erased : (h :: b :: rest).erase t = before ++ p :: back := by
            rw [whole, List.erase_append_right _ notBefore,
              List.erase_cons_tail (by simpa using Ne.symm differ), List.erase_cons_head]
          rw [erased]
          rw [whole] at linked
          exact linked.delete
        · have other : x ≠ p := by
            rintro rfl
            exact outside (whole ▸ by simp)
          exact Function.update_of_ne other ..

/-- `lpcb_del_node` of a node of a queue. -/
theorem lpcbDelNode_spec (linked : Linked m.next head ring) (small : ring.length ≤ maxNodes)
    (inside : t ∈ ring) : ∃ head' m', m.lpcbDelNode head t = some ((head', some t), m') ∧
      Linked m'.next head' (ring.erase t) ∧ m'.phead = m.phead ∧ Spares m m' ring :=
  lpcbDelNodeIn_spec linked small inside

/-- `lpcb_del_node` of a node that is not in the list forgets the head if it is alone. -/
theorem lpcbDelNodeIn_absent (linked : Linked m.next head ring) (small : ring.length ≤ size)
    (outside : t ∉ ring) : m.lpcbDelNodeIn size head t =
      some ((if ring.length = 1 then none else head, none), m) := by
  cases ring with
  | nil =>
    obtain rfl : head = none := linked.head
    rfl
  | cons h rest =>
    obtain rfl : head = some h := linked.head
    have fresh : h ∉ rest := (List.nodup_cons.mp linked.nodup).1
    obtain ⟨link, leads⟩ := linked.leads h (by simp)
    have other : h ≠ t := fun same => outside (by simp [same])
    unfold lpcbDelNodeIn
    cases rest with
    | nil =>
      have alone : m.next h = h := link
      simp [alone, other]
    | cons b rest =>
      have several : m.next h ≠ h := by
        rw [link]
        intro same
        exact fresh (same ▸ List.mem_cons_self)
      -- Every node is linked to another one of the list, so the loop stops at the last one.
      obtain ⟨front, p, split⟩ := exists_last h (b :: rest)
      have elsewhere : ∀ x ∈ h :: b :: rest, m.next x ≠ t := by
        intro x inside same
        cases (linked.leads h (by simp)).next_mem inside with
        | inl among => exact outside (same ▸ among)
        | inr first => exact other (first.symm.trans same)
      have walk : walkTo m.next h (fun p => m.next p = t) size h = some p := by
        apply walk_eq linked small split _ (.inr rfl)
        intro x inside
        have differ := elsewhere x (by rw [split]; simp [inside])
        simpa using differ
      have last := elsewhere p (by rw [split]; simp)
      simp only [if_neg several, if_neg other, walk, Option.bind_eq_bind, Option.bind_some]
      rw [if_neg last]
      simp

/-! ## The operations as a whole -/

/-- The operations on a circular list do to its members what they do to a list of PCBs. -/
structure BehaveAsList (m : Links) (size : Nat) (head : Option PcbRef) (ring : List PcbRef)
    (new prior t : PcbRef) (q : QueueRef) : Prop where
  /-- A new node comes to the tail. -/
  appends : ∃ head' m', m.lpcbAddNodeToTailIn size head (some new) q = some (head', m') ∧
    Linked m'.next head' (ring ++ [new])
  /-- Without memory nothing changes. -/
  spent : m.lpcbAddNodeToTailIn size head none q = some (none, m)
  /-- A node is inserted at the tail when none is given to come after. -/
  atTail : ∃ head' m', m.lpcbInsertNodeIn size head new none q = some (head', m') ∧
    Linked m'.next head' (ring ++ [new])
  /-- A node is inserted right after a member. -/
  after : prior ∈ ring → ∃ m', m.lpcbInsertNodeIn size head new (some prior) q = some (head, m') ∧
    Linked m'.next head (insertAfter ring prior new)
  /-- Nothing is inserted after a node that is no member. -/
  nowhere : prior ∉ ring → m.lpcbInsertNodeIn size head new (some prior) q = some (none, m)
  /-- A member is deleted. -/
  deletes : t ∈ ring → ∃ head' m', m.lpcbDelNodeIn size head t = some ((head', some t), m') ∧
    Linked m'.next head' (ring.erase t)
  /-- Nothing is deleted for a node that is no member. -/
  absent : t ∉ ring → m.lpcbDelNodeIn size head t = some ((head, none), m)

/--
The operations behave as those on lists of any length, with one exception.

The only node of a list is forgotten when another one is to be deleted.
-/
theorem lists_behave_iff (m : Links) (size : Nat) (head : Option PcbRef) (ring : List PcbRef)
    (new prior t : PcbRef) (q : QueueRef) (linked : Linked m.next head ring)
    (small : ring.length ≤ size) (fresh : new ∉ ring) :
    m.BehaveAsList size head ring new prior t q ↔ ¬ (ring.length = 1 ∧ t ∉ ring) := by
  have deleted := fun outside => lpcbDelNodeIn_absent (t := t) linked small outside
  constructor
  · intro behaves alone
    obtain ⟨one, outside⟩ := alone
    have kept := behaves.absent outside
    rw [deleted outside, if_pos one] at kept
    -- The head pointer of a list with a node is not null.
    have null : none = head := by simpa using kept
    have nil := eq_nil (null ▸ linked)
    simp [nil] at one
  · intro other
    obtain ⟨head₁, m₁, added, longer, -⟩ := lpcbAddNodeToTailIn_spec (q := q) linked small fresh
    obtain ⟨head₂, m₂, inserted, -, longer₂, -⟩ :=
      lpcbInsertNodeIn_tail (q := q) linked small fresh
    constructor
    · exact ⟨head₁, m₁, added, longer⟩
    · rfl
    · exact ⟨head₂, m₂, inserted, longer₂⟩
    · intro inside
      obtain ⟨m', ran, longer, -⟩ := lpcbInsertNodeIn_after (q := q) linked small fresh inside
      exact ⟨m', ran, longer⟩
    · intro outside
      exact lpcbInsertNodeIn_absent linked small outside
    · intro inside
      obtain ⟨head', m', ran, shorter, -⟩ := lpcbDelNodeIn_spec linked small inside
      exact ⟨head', m', ran, shorter⟩
    · intro outside
      have several : ring.length ≠ 1 := fun one => other ⟨one, outside⟩
      rw [deleted outside, if_neg several]

/-- Two PCBs that are linked to each other. -/
def twoNodes : Links where
  next h := 1 - h
  phead _ := .ready
  head _ := none

/-- Two PCBs are a list. -/
theorem twoNodes_linked : Linked twoNodes.next (some 0) [0, 1] := by
  refine ⟨rfl, by decide, ?_⟩
  intro a first
  obtain rfl : 0 = a := by simpa using first
  exact ⟨rfl, rfl, trivial⟩

/-- The operations behave on two PCBs and a third one. -/
theorem lists_behave_two : twoNodes.BehaveAsList 2 (some 0) [0, 1] 2 1 3 .ready :=
  (lists_behave_iff twoNodes 2 (some 0) [0, 1] 2 1 3 .ready twoNodes_linked (by decide)
    (by decide)).mpr (by decide)

/-- A PCB alone in its list is lost when another one is to be deleted. -/
theorem lists_misbehave : ¬ ∀ (m : Links) (size : Nat) (head : Option PcbRef) (ring : List PcbRef)
    (new prior t : PcbRef) (q : QueueRef), Linked m.next head ring → ring.length ≤ size →
      new ∉ ring → m.BehaveAsList size head ring new prior t q := by
  intro behave
  have alone : Linked (id : PcbRef → PcbRef) (some 0) [0] := by
    refine ⟨rfl, by decide, ?_⟩
    intro a first
    obtain rfl : 0 = a := by simpa using first
    exact ⟨rfl, trivial⟩
  have kept := (behave ⟨id, fun _ => .ready, fun _ => none⟩ 1 (some 0) [0] 1 0 2 .ready alone
    (by decide) (by decide)).absent (by decide)
  simp [lpcbDelNodeIn] at kept

end Links

end GlucOS.Sched
