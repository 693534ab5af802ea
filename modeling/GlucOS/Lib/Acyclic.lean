import Mathlib

/-! Relations without cycles, and what one more pair does to them. -/

namespace GlucOS

variable {α : Type*} {r r' : α → α → Prop} {u v : α}

/-- No chain of related members comes back to its start. -/
def Acyclic (r : α → α → Prop) : Prop := ∀ a, ¬ Relation.TransGen r a a

/-- Fewer pairs close no cycle. -/
theorem Acyclic.mono (acyclic : Acyclic r) (fewer : ∀ a b, r' a b → r a b) : Acyclic r' :=
  fun a cycle => acyclic a (Relation.TransGen.mono fewer _ _ cycle)

/-- A chain that may use one more pair avoids it, or leads to it and then away from it. -/
theorem transGen_of_extra (extra : ∀ a b, r' a b → r a b ∨ a = u ∧ b = v) {a b : α}
    (chain : Relation.TransGen r' a b) :
    Relation.TransGen r a b ∨ Relation.ReflTransGen r a u ∧ Relation.ReflTransGen r v b := by
  -- The chain grows at its end; what counts is whether it has used the new pair before.
  induction chain with
  | single link =>
    cases extra _ _ link with
    | inl old => exact .inl (.single old)
    | inr new =>
      obtain ⟨rfl, rfl⟩ := new
      exact .inr ⟨.refl, .refl⟩
  | tail _ link ih =>
    cases ih with
    | inl avoids =>
      cases extra _ _ link with
      | inl old => exact .inl (avoids.tail old)
      | inr new =>
        obtain ⟨rfl, rfl⟩ := new
        exact .inr ⟨avoids.to_reflTransGen, .refl⟩
    | inr uses =>
      cases extra _ _ link with
      | inl old => exact .inr ⟨uses.1, uses.2.tail old⟩
      | inr new =>
        -- The pair is used again, so that what came in between does not matter.
        obtain ⟨-, rfl⟩ := new
        exact .inr ⟨uses.1, .refl⟩

/-- One more pair closes no cycle unless a chain leads from its second member to its first. -/
theorem Acyclic.extra (acyclic : Acyclic r) (extra : ∀ a b, r' a b → r a b ∨ a = u ∧ b = v)
    (apart : ¬ Relation.ReflTransGen r v u) : Acyclic r' := by
  intro a cycle
  cases transGen_of_extra extra cycle with
  | inl old => exact acyclic a old
  | inr uses => exact apart (uses.2.trans uses.1)

/-- And then it does close one. -/
theorem not_acyclic_of_extra (more : ∀ a b, r a b → r' a b) (new : r' u v)
    (chain : Relation.ReflTransGen r v u) : ¬ Acyclic r' := by
  intro acyclic
  exact acyclic u (.head' new (Relation.ReflTransGen.mono more _ _ chain))

end GlucOS
