import Mathlib

/-! Half-open spans of a linear order, and the points that a list of them covers. -/

namespace GlucOS

/-- The points from `start` up to, and without, `stop`. -/
structure Span (α : Type*) where
  /-- The first point. -/
  start : α
  /-- The first point behind the span. -/
  stop : α
  deriving DecidableEq, Repr

variable {α : Type*} [LinearOrder α]

/-- A point lies in the span. -/
def Span.Has (span : Span α) (point : α) : Prop := span.start ≤ point ∧ point < span.stop

/-- Some span of the list has the point. -/
def Covered (spans : List (Span α)) (point : α) : Prop := ∃ span ∈ spans, span.Has point

/-- Spans in ascending order, each ending strictly before the next one starts. -/
structure Apart (spans : List (Span α)) : Prop where
  /-- No span ends before it starts. -/
  proper : ∀ span ∈ spans, span.start ≤ span.stop
  /-- Between two neighbours some point is left out. -/
  gaps : spans.IsChain fun left right => left.stop < right.start

variable {left right span : Span α} {spans rest : List (Span α)} {point : α}

/-- Nothing is covered by no span. -/
@[simp] theorem not_covered_nil : ¬ Covered ([] : List (Span α)) point := by simp [Covered]

/-- The first span covers its points, and the others theirs. -/
@[simp] theorem covered_cons :
    Covered (span :: spans) point ↔ span.Has point ∨ Covered spans point := by simp [Covered]

/-- Two spans that touch cover what the span over both covers. -/
theorem covered_join (first : left.start ≤ left.stop) (second : right.start ≤ right.stop)
    (touch : left.stop = right.start) :
    Span.Has ⟨left.start, right.stop⟩ point ↔ left.Has point ∨ right.Has point := by
  -- The point where they touch belongs to the right one alone.
  unfold Span.Has
  rw [← touch] at second ⊢
  constructor
  · intro inside
    rcases lt_or_ge point left.stop with before | behind
    · exact Or.inl ⟨inside.1, before⟩
    · exact Or.inr ⟨behind, inside.2⟩
  · intro either
    rcases either with inside | inside
    · exact ⟨inside.1, lt_of_lt_of_le inside.2 second⟩
    · exact ⟨le_trans first inside.1, inside.2⟩

/-- A single span has no neighbour to keep away from. -/
theorem apart_single : Apart [span] ↔ span.start ≤ span.stop := by
  constructor
  · intro apart
    exact apart.proper span (by simp)
  · intro proper
    exact ⟨by simpa using proper, List.isChain_singleton span⟩

/-- Two neighbours keep apart, and so do the spans behind. -/
theorem apart_cons_cons : Apart (left :: right :: rest) ↔
    left.start ≤ left.stop ∧ left.stop < right.start ∧ Apart (right :: rest) := by
  constructor
  · intro apart
    have chain := List.isChain_cons_cons.mp apart.gaps
    exact ⟨apart.proper left (by simp), chain.1,
      fun span member => apart.proper span (List.mem_cons_of_mem _ member), chain.2⟩
  · intro parts
    obtain ⟨proper, gap, tail⟩ := parts
    refine ⟨?_, List.isChain_cons_cons.mpr ⟨gap, tail.gaps⟩⟩
    intro span member
    rcases List.mem_cons.mp member with same | behind
    · exact same ▸ proper
    · exact tail.proper span behind

/-- Dropping the first span keeps the others apart. -/
theorem Apart.tail (apart : Apart (span :: rest)) : Apart rest :=
  ⟨fun other member => apart.proper other (List.mem_cons_of_mem _ member), apart.gaps.tail⟩

/-- Only the start of the first span may be moved without looking at the others. -/
theorem Apart.restart {start : α} (apart : Apart (span :: rest)) (proper : start ≤ span.stop) :
    Apart (⟨start, span.stop⟩ :: rest) := by
  cases rest with
  | nil => exact apart_single.mpr proper
  | cons next rest =>
    obtain ⟨_, gap, tail⟩ := apart_cons_cons.mp apart
    exact apart_cons_cons.mpr ⟨proper, gap, tail⟩

end GlucOS
