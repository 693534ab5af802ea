import GlucOS.Net.GntpLaws

/-! The list of received ranges is the coarsest one of the bytes received, whatever is inserted. -/

namespace GlucOS

/-! ## What an insertion answers -/

/-- None of the bytes of a range is covered. -/
def Free (spans : List (Span Nat)) (start stop : Nat) : Prop :=
  ∀ i, start ≤ i → i < stop → ¬ Covered spans i

/-- A range begins where another one ends, or ends where another one begins. -/
def Touched (spans : List (Span Nat)) (start stop : Nat) : Prop :=
  ∃ span ∈ spans, span.stop = start ∨ span.start = stop

/-- Nothing is covered in front of the first of the ranges. -/
theorem Apart.le_of_mem {first span : Span Nat} {rest : List (Span Nat)}
    (apart : Apart (first :: rest)) (member : span ∈ first :: rest) :
    first.start ≤ span.start := by
  -- The induction goes along the ranges, each of which starts behind the end of the one before.
  induction rest generalizing first with
  | nil =>
    rw [List.mem_singleton] at member
    rw [member]
  | cons next rest ih =>
    obtain ⟨proper, gap, tail⟩ := apart_cons_cons.mp apart
    rcases List.mem_cons.mp member with same | behind
    · rw [same]
    · have later := ih tail behind
      omega

/-- What an insertion tells of the ranges, and which ranges it makes. -/
structure Answers (old : List (Span Nat)) (start stop : Nat) (kmalloc : Bool) (rt : Int)
    (new : List (Span Nat)) : Prop where
  /-- A range that is new or has grown is not empty. -/
  filled : ∀ span ∈ new, span ∈ old ∨ span.start < span.stop
  /-- The answer is 0 for new bytes, if there is memory where a node is needed. -/
  zero : rt = 0 ↔ Free old start stop ∧ (Touched old start stop ∨ kmalloc = true)

namespace Dlist

variable {start stop : Nat} {kmalloc : Bool} {p q : Span Nat} {rest nodes : List (Span Nat)}
  {rt : Int}

/-- Nothing is free where the first byte is covered. -/
theorem not_free_start {spans : List (Span Nat)} (proper : start < stop) {span : Span Nat}
    (member : span ∈ spans) (inside : span.Has start) : ¬ Free spans start stop := by
  intro free
  exact free start le_rfl proper ⟨span, member, inside⟩

/-- What is told when the new range is put behind the last one. -/
theorem link_last_answers (apart : Apart [p]) (after : p.start ≤ start) (proper : start < stop)
    (linked : link start stop kmalloc p [] = some (rt, nodes)) :
    Answers [p] start stop kmalloc rt nodes := by
  have ordered := apart_single.mp apart
  unfold link at linked
  rw [if_neg (by omega)] at linked
  by_cases overlap : start < p.stop
  · -- The first byte is there already.
    rw [if_pos overlap] at linked
    obtain ⟨rfl, rfl⟩ : rt = 1 ∧ nodes = [p] := by simpa [eq_comm] using linked
    have taken := not_free_start proper (List.mem_singleton.mpr rfl) ⟨after, overlap⟩
    exact ⟨fun span member => Or.inl member, by simp [taken]⟩
  rw [if_neg overlap] at linked
  have free : Free [p] start stop := by
    intro i behind _ covered
    simp only [covered_cons, not_covered_nil, or_false, Span.Has] at covered
    omega
  by_cases touch : start = p.stop
  · rw [if_pos touch] at linked
    obtain ⟨rfl, rfl⟩ : rt = 0 ∧ nodes = [{ p with stop }] := by simpa [eq_comm] using linked
    have touched : Touched [p] start stop := ⟨p, by simp, Or.inl touch.symm⟩
    refine ⟨?_, by simp [free, touched]⟩
    intro span member
    right
    rw [List.mem_singleton.mp member]
    simp only
    omega
  rw [if_neg touch] at linked
  have alone : ¬ Touched [p] start stop := by
    intro touched
    obtain ⟨span, member, either⟩ := touched
    rw [List.mem_singleton.mp member] at either
    omega
  cases kmalloc with
  | false =>
    obtain ⟨rfl, rfl⟩ : rt = -1 ∧ nodes = [p] := by simpa [eq_comm] using linked
    exact ⟨fun span member => Or.inl member, by simp [alone]⟩
  | true =>
    obtain ⟨rfl, rfl⟩ : rt = 0 ∧ nodes = [p, ⟨start, stop⟩] := by simpa [eq_comm] using linked
    refine ⟨?_, by simp [free]⟩
    intro span member
    rcases List.mem_cons.mp member with same | new
    · exact Or.inl (by simp [same])
    · right
      rw [List.mem_singleton.mp new]
      exact proper

/-- What is told when the new range is put between two others. -/
theorem link_between_answers (apart : Apart (p :: q :: rest)) (filled : q.start < q.stop)
    (after : p.start ≤ start) (before : start < q.start) (proper : start < stop)
    (linked : link start stop kmalloc p (q :: rest) = some (rt, nodes)) :
    Answers (p :: q :: rest) start stop kmalloc rt nodes := by
  obtain ⟨ordered, gap, tail⟩ := apart_cons_cons.mp apart
  simp only [link] at linked
  rw [if_neg (by omega)] at linked
  by_cases overlap : start < p.stop ∨ q.start < stop
  · -- Either the first byte is there already, or the first one of the next range.
    rw [if_pos overlap] at linked
    obtain ⟨rfl, rfl⟩ : rt = 1 ∧ nodes = p :: q :: rest := by simpa [eq_comm] using linked
    have taken : ¬ Free (p :: q :: rest) start stop := by
      rcases overlap with left | right
      · exact not_free_start proper (by simp) ⟨after, left⟩
      · intro free
        exact free q.start before.le right ⟨q, by simp, le_rfl, filled⟩
    exact ⟨fun span member => Or.inl member, by simp [taken]⟩
  rw [if_neg overlap] at linked
  -- All ranges from the next one on start behind the new one.
  have behind : ∀ span ∈ q :: rest, q.start ≤ span.start := fun span member =>
    tail.le_of_mem member
  have free : Free (p :: q :: rest) start stop := by
    intro i from_ upto covered
    obtain ⟨span, member, inside⟩ := covered
    unfold Span.Has at inside
    rcases List.mem_cons.mp member with same | later
    · rw [same] at inside
      omega
    · have start_le := behind span later
      omega
  have kept : ∀ span ∈ rest, span ∈ p :: q :: rest := fun span member => by simp [member]
  by_cases left : start = p.stop
  · rw [if_pos left] at linked
    have touched : Touched (p :: q :: rest) start stop := ⟨p, by simp, Or.inl left.symm⟩
    by_cases right : stop = q.start
    · rw [if_pos right] at linked
      obtain ⟨rfl, rfl⟩ : rt = 0 ∧ nodes = { p with stop := q.stop } :: rest := by
        simpa [eq_comm] using linked
      refine ⟨?_, by simp [free, touched]⟩
      intro span member
      rcases List.mem_cons.mp member with same | later
      · right
        rw [same]
        simp only
        omega
      · exact Or.inl (kept span later)
    · rw [if_neg right] at linked
      obtain ⟨rfl, rfl⟩ : rt = 0 ∧ nodes = { p with stop } :: q :: rest := by
        simpa [eq_comm] using linked
      refine ⟨?_, by simp [free, touched]⟩
      intro span member
      rcases List.mem_cons.mp member with same | later
      · right
        rw [same]
        simp only
        omega
      · exact Or.inl (List.mem_cons_of_mem p later)
  rw [if_neg left] at linked
  by_cases right : stop = q.start
  · rw [if_pos right] at linked
    have touched : Touched (p :: q :: rest) start stop := ⟨q, by simp, Or.inr right.symm⟩
    obtain ⟨rfl, rfl⟩ : rt = 0 ∧ nodes = p :: { q with start } :: rest := by
      simpa [eq_comm] using linked
    refine ⟨?_, by simp [free, touched]⟩
    intro span member
    rcases List.mem_cons.mp member with same | later
    · exact Or.inl (by simp [same])
    · rcases List.mem_cons.mp later with same | last
      · right
        rw [same]
        simp only
        omega
      · exact Or.inl (kept span last)
  rw [if_neg right] at linked
  have alone : ¬ Touched (p :: q :: rest) start stop := by
    intro touched
    obtain ⟨span, member, either⟩ := touched
    rcases List.mem_cons.mp member with same | later
    · rw [same] at either
      omega
    · have start_le := behind span later
      have ordered := tail.proper span later
      omega
  cases kmalloc with
  | false =>
    obtain ⟨rfl, rfl⟩ : rt = -1 ∧ nodes = p :: q :: rest := by simpa [eq_comm] using linked
    exact ⟨fun span member => Or.inl member, by simp [alone]⟩
  | true =>
    obtain ⟨rfl, rfl⟩ : rt = 0 ∧ nodes = p :: ⟨start, stop⟩ :: q :: rest := by
      simpa [eq_comm] using linked
    refine ⟨?_, by simp [free]⟩
    intro span member
    rcases List.mem_cons.mp member with same | later
    · exact Or.inl (by simp [same])
    · rcases List.mem_cons.mp later with same | last
      · right
        rw [same]
        exact proper
      · exact Or.inl (List.mem_cons_of_mem p last)

/-- What is told at the place where the loop stops does not depend on the ranges it has passed. -/
theorem place_answers (apart : Apart (p :: rest)) (filled : ∀ span ∈ rest, span.start < span.stop)
    (after : p.start ≤ start) (proper : start < stop)
    (placed : place start stop kmalloc p rest = some (rt, nodes)) :
    Answers (p :: rest) start stop kmalloc rt nodes := by
  -- The induction follows the loop.
  induction rest generalizing p nodes with
  | nil => exact link_last_answers apart after proper placed
  | cons q rest ih =>
    have filledNext := filled q (by simp)
    unfold place at placed
    by_cases step : q.start ≤ start
    · rw [if_pos step] at placed
      obtain ⟨⟨rt', behind⟩, ran, same⟩ := Option.map_eq_some_iff.mp placed
      obtain ⟨rfl, rfl⟩ : rt' = rt ∧ p :: behind = nodes := by simpa using same
      obtain ⟨ordered, gap, tail⟩ := apart_cons_cons.mp apart
      obtain ⟨filled', zero⟩ := ih tail (fun span member => filled span (by simp [member])) step ran
      -- The range that is passed ends in front of the new one, and does not touch it.
      have free : Free (p :: q :: rest) start stop ↔ Free (q :: rest) start stop := by
        unfold Free
        have passed : ∀ point, Covered (p :: q :: rest) point ↔
            p.Has point ∨ Covered (q :: rest) point := fun _ => covered_cons
        simp only [passed, Span.Has]
        constructor
        · intro free i from_ upto covered
          exact free i from_ upto (Or.inr covered)
        · intro free i from_ upto covered
          rcases covered with first | later
          · omega
          · exact free i from_ upto later
      have touched : Touched (p :: q :: rest) start stop ↔ Touched (q :: rest) start stop := by
        constructor
        · intro touched
          obtain ⟨span, member, either⟩ := touched
          rcases List.mem_cons.mp member with same | later
          · rw [same] at either
            omega
          · exact ⟨span, later, either⟩
        · intro touched
          obtain ⟨span, member, either⟩ := touched
          exact ⟨span, List.mem_cons_of_mem p member, either⟩
      refine ⟨?_, by rw [zero, free, touched]⟩
      intro span member
      rcases List.mem_cons.mp member with same | later
      · exact Or.inl (by simp [same])
      · exact (filled' span later).imp (List.mem_cons_of_mem p) id
    · rw [if_neg step] at placed
      exact link_between_answers apart filledNext after (by omega) proper placed

/-! ## The invariant -/

/-- The ranges are sorted, keep apart, and only the first of them may be empty. -/
structure Sorted (dlist : Dlist) : Prop where
  /-- The head starts with the stream. -/
  zero : dlist.dlh.start = 0
  /-- The ranges behind it are not empty. -/
  filled : ∀ span ∈ dlist.nodes, span.start < span.stop
  /-- Each range ends before the next one starts. -/
  gaps : dlist.all.IsChain fun left right => left.stop < right.start

/-- The ranges of a sorted list keep apart. -/
theorem Sorted.apart {dlist : Dlist} (sorted : dlist.Sorted) : Apart dlist.all := by
  refine ⟨?_, sorted.gaps⟩
  intro span member
  rcases List.mem_cons.mp member with same | behind
  · rw [same, sorted.zero]
    exact Nat.zero_le _
  · exact (sorted.filled span behind).le

/-- `dlist_clear` leaves a sorted list. -/
theorem sorted_clear : clear.Sorted := ⟨rfl, by simp [clear], List.isChain_singleton _⟩

/-- The end of the head is the end of what is received without a gap. -/
theorem Sorted.lfr {dlist : Dlist} (sorted : dlist.Sorted) :
    (∀ i < dlist.dlh.stop, Covered dlist.all i) ∧ ¬ Covered dlist.all dlist.dlh.stop := by
  constructor
  · intro i before
    exact ⟨dlist.dlh, by simp [all], by rw [sorted.zero]; exact Nat.zero_le i, before⟩
  · intro covered
    obtain ⟨span, member, inside⟩ := covered
    unfold Span.Has at inside
    rcases List.mem_cons.mp member with same | behind
    · rw [same] at inside
      omega
    · -- The ranges behind the head start behind its end.
      have later : dlist.dlh.stop < span.start := by
        have apart := sorted.apart
        unfold all at apart
        cases nodes : dlist.nodes with
        | nil => simp [nodes] at behind
        | cons next rest =>
          rw [nodes] at apart behind
          obtain ⟨_, gap, tail⟩ := apart_cons_cons.mp apart
          exact lt_of_lt_of_le gap (tail.le_of_mem behind)
      omega

/-- What an insertion is asked, and whether `kmalloc_g` would succeed. -/
structure Request where
  /-- `start`. -/
  start : Nat
  /-- `end`. -/
  stop : Nat
  /-- There is memory for a node. -/
  kmalloc : Bool

/-- A range is new, lies in the window, and there is memory if it needs a node. -/
structure Welcome (dlist : Dlist) (request : Request) : Prop where
  /-- It is not empty. -/
  proper : request.start < request.stop
  /-- It ends before the window does. -/
  window : request.stop < u32 (dlist.dlh.stop + gntpWinsize)
  /-- None of its bytes has been received. -/
  free : Free dlist.all request.start request.stop
  /-- A range that touches no other one needs a node. -/
  memory : Touched dlist.all request.start request.stop ∨ request.kmalloc = true

/-- What `dlist_insert` does to a sorted list. -/
theorem Sorted.insert {dlist : Dlist} (sorted : dlist.Sorted) (request : Request) :
    ∃ rt after, dlist.insert request.start request.stop request.kmalloc = some (rt, after) ∧
      after.Sorted ∧ (rt = 0 ↔ dlist.Welcome request) ∧
        (rt = 0 → ∀ i, Covered after.all i ↔
          Covered dlist.all i ∨ request.start ≤ i ∧ i < request.stop) ∧
        (rt ≠ 0 → after = dlist) := by
  obtain ⟨start, stop, kmalloc⟩ := request
  simp only
  obtain ⟨rt, after, inserted, spec, -⟩ :=
    dlist.insert_spec start stop kmalloc sorted.apart sorted.zero
  have same : rt ≠ 0 → after = dlist := by
    intro failed
    have all := spec.same failed
    obtain ⟨dlh, nodes⟩ := dlist
    obtain ⟨dlh', nodes'⟩ := after
    simp only [Dlist.all, List.cons.injEq] at all
    rw [all.1, all.2]
  refine ⟨rt, after, inserted, ?_, ?_, spec.covers, same⟩
  all_goals
    unfold Dlist.insert at inserted
    by_cases wanted : stop ≤ start ∨ u32 (dlist.dlh.stop + gntpWinsize) ≤ stop
  · rw [if_pos wanted] at inserted
    obtain ⟨-, rfl⟩ : 1 = rt ∧ dlist = after := by simpa using inserted
    exact sorted
  · -- What is behind the head is an old range behind the head, or not empty.
    rw [if_neg wanted] at inserted
    obtain ⟨rt', nodes', placed⟩ : ∃ rt' nodes',
        place start stop kmalloc dlist.dlh dlist.nodes = some (rt', nodes') := by
      cases placed : place start stop kmalloc dlist.dlh dlist.nodes with
      | none => simp [placed] at inserted
      | some answer => exact ⟨answer.1, answer.2, rfl⟩
    rw [placed] at inserted
    cases nodes' with
    | nil => simp at inserted
    | cons dlh' nodes' =>
      obtain ⟨rfl, rfl⟩ : rt' = rt ∧ (⟨dlh', nodes'⟩ : Dlist) = after := by simpa using inserted
      have answers := place_answers sorted.apart sorted.filled
        (by rw [sorted.zero]; exact Nat.zero_le start) (by omega) placed
      have first := spec.first
      simp only [all, List.head?_cons, Option.map_some, Option.some.injEq] at first
      refine ⟨first.trans sorted.zero, ?_, spec.apart.gaps⟩
      intro span member
      rcases answers.filled span (List.mem_cons_of_mem _ member) with old | filled
      · rcases List.mem_cons.mp old with head | behind
        · -- The old head starts with the stream, where nothing behind the new head starts.
          have apart := spec.apart
          cases nodes' with
          | nil => simp at member
          | cons next rest =>
            obtain ⟨_, gap, tail⟩ := apart_cons_cons.mp apart
            have later := tail.le_of_mem member
            rw [head, sorted.zero] at later
            simp only at gap
            omega
        · exact sorted.filled span behind
      · exact filled
  · rw [if_pos wanted] at inserted
    obtain ⟨rfl, -⟩ : 1 = rt ∧ dlist = after := by simpa using inserted
    constructor
    · intro wrong
      simp at wrong
    · intro welcome
      have proper := welcome.proper
      have window := welcome.window
      simp only at proper window
      omega
  · rw [if_neg wanted] at inserted
    cases placed : place start stop kmalloc dlist.dlh dlist.nodes with
    | none => simp [placed] at inserted
    | some answer =>
      obtain ⟨rt', nodes'⟩ := answer
      rw [placed] at inserted
      cases nodes' with
      | nil => simp at inserted
      | cons dlh' nodes' =>
        obtain ⟨rfl, -⟩ : rt' = rt ∧ (⟨dlh', nodes'⟩ : Dlist) = after := by simpa using inserted
        have answers := place_answers sorted.apart sorted.filled
          (by rw [sorted.zero]; exact Nat.zero_le start) (by omega) placed
        rw [answers.zero]
        constructor
        · intro both
          exact ⟨by simp only; omega, by simp only; omega, both.1, both.2⟩
        · intro welcome
          exact ⟨welcome.free, welcome.memory⟩

/-- `dlist_insert` again and again; nothing is the answer where it panics. -/
def insertAll (dlist : Dlist) : List Request → Option Dlist
  | [] => some dlist
  | request :: rest => do
    let (_, after) ← dlist.insert request.start request.stop request.kmalloc
    after.insertAll rest

/-- A sorted list stays sorted, and no insertion panics. -/
theorem Sorted.insertAll {dlist : Dlist} (sorted : dlist.Sorted) (requests : List Request) :
    ∃ last, dlist.insertAll requests = some last ∧ last.Sorted := by
  -- The induction follows the requests.
  induction requests generalizing dlist with
  | nil => exact ⟨dlist, rfl, sorted⟩
  | cons request rest ih =>
    obtain ⟨rt, after, inserted, next, -⟩ := sorted.insert request
    obtain ⟨last, ran, ends⟩ := ih next
    exact ⟨last, by simp only [Dlist.insertAll, inserted]; exact ran, ends⟩

end Dlist

/-! ## The list in every run -/

/-- What `dlist_insert` answers, and what the list covers then. -/
structure Dlist.InsertsExactly (dlist : Dlist) (request : Dlist.Request) (rt : Int)
    (after : Dlist) : Prop where
  /-- The answer is 0 for a range in the window of which nothing was received. -/
  zero : rt = 0 ↔ request.start < request.stop ∧ request.stop < dlist.dlh.stop + gntpWinsize ∧
    Free dlist.all request.start request.stop ∧
      (Touched dlist.all request.start request.stop ∨ request.kmalloc = true)
  /-- Then the range is covered too, and nothing else. -/
  covers : rt = 0 → ∀ i, Covered after.all i ↔
    Covered dlist.all i ∨ request.start ≤ i ∧ i < request.stop
  /-- Otherwise nothing has changed. -/
  same : rt ≠ 0 → after = dlist

/--
The list of received ranges stays the coarsest one of what is received.

Its ranges are sorted and never touch, so that `lfr` is the end of the longest prefix without a gap.
Memory is needed for a range only that touches no other one.
-/
theorem dlist_inserts_exactly (requests : List Dlist.Request) :
    ∃ dlist, Dlist.clear.insertAll requests = some dlist ∧ dlist.Sorted ∧
      (∀ i < dlist.dlh.stop, Covered dlist.all i) ∧ ¬ Covered dlist.all dlist.dlh.stop ∧
        (dlist.dlh.stop < 2 ^ 32 - gntpWinsize → ∀ request, ∃ rt after,
          dlist.insert request.start request.stop request.kmalloc = some (rt, after) ∧
            dlist.InsertsExactly request rt after) := by
  obtain ⟨dlist, ran, sorted⟩ := Dlist.sorted_clear.insertAll requests
  refine ⟨dlist, ran, sorted, sorted.lfr.1, sorted.lfr.2, ?_⟩
  intro low request
  obtain ⟨rt, after, inserted, -, zero, covers, same⟩ := sorted.insert request
  refine ⟨rt, after, inserted, ⟨?_, covers, same⟩⟩
  -- The end of the window does not wrap around.
  have window : u32 (dlist.dlh.stop + gntpWinsize) = dlist.dlh.stop + gntpWinsize := by
    unfold u32 gntpWinsize at *
    omega
  rw [zero]
  constructor
  · intro welcome
    exact ⟨welcome.proper, window ▸ welcome.window, welcome.free, welcome.memory⟩
  · intro all
    obtain ⟨proper, inside, free, memory⟩ := all
    exact ⟨proper, window.symm ▸ inside, free, memory⟩

/-- The first bytes of a stream are received without any memory for a node. -/
theorem dlist_inserts_without_memory : ¬ ∀ (requests : List Dlist.Request) (dlist : Dlist),
    Dlist.clear.insertAll requests = some dlist → dlist.dlh.stop < 2 ^ 32 - gntpWinsize →
      ∀ (request : Dlist.Request) (rt : Int) (after : Dlist),
        dlist.insert request.start request.stop request.kmalloc = some (rt, after) →
          (rt = 0 ↔ request.start < request.stop ∧
            request.stop < dlist.dlh.stop + gntpWinsize ∧
              Free dlist.all request.start request.stop ∧ request.kmalloc = true) := by
  intro exact
  have needed := exact [] .clear rfl (by decide) ⟨0, 10, false⟩ 0 ⟨⟨0, 10⟩, []⟩ (by decide)
  simp at needed

end GlucOS
