import Mathlib

/-! Lists that are collected from places, one of which changes. -/

namespace GlucOS

variable {ι α : Type*} [DecidableEq ι] {places : List ι} {i : ι}

/-- A place of some stays when none of them is changed. -/
theorem update_apart {β : Type*} {f : ι → β} {k : ι} (mem : k ∈ places) (apart : i ∉ places)
    (new : β) : Function.update f i new k = f k := by
  apply Function.update_of_ne
  intro same
  exact apart (same ▸ mem)

/-- What the other places hold stays around what the changed one holds. -/
theorem flatMap_update (nodup : places.Nodup) (mem : i ∈ places) (f : ι → List α) (new : List α) :
    ∃ front back, places.flatMap f = front ++ (f i ++ back) ∧
      places.flatMap (Function.update f i new) = front ++ (new ++ back) := by
  -- The place comes once, so that it is neither in front of itself nor behind.
  obtain ⟨before, after, split⟩ := List.append_of_mem mem
  rw [split] at nodup
  obtain ⟨-, behind, apart⟩ := List.nodup_append.mp nodup
  have beside : ∀ others : List ι, i ∉ others →
      others.flatMap (Function.update f i new) = others.flatMap f := by
    intro others without
    apply List.flatMap_congr
    intro k member
    exact update_apart member without _
  have inBefore : i ∉ before := fun member => apart i member i List.mem_cons_self rfl
  have inAfter : i ∉ after := (List.nodup_cons.mp behind).1
  refine ⟨before.flatMap f, after.flatMap f, ?_, ?_⟩
  · rw [split, List.flatMap_append, List.flatMap_cons]
  · rw [split, List.flatMap_append, List.flatMap_cons, beside before inBefore,
      beside after inAfter, Function.update_self]

/-- The same for places that hold one element at most. -/
theorem filterMap_update (nodup : places.Nodup) (mem : i ∈ places) (f : ι → Option α)
    (new : Option α) : ∃ front back, places.filterMap f = front ++ ((f i).toList ++ back) ∧
      places.filterMap (Function.update f i new) = front ++ (new.toList ++ back) := by
  obtain ⟨front, back, old, changed⟩ :=
    flatMap_update nodup mem (fun k => (f k).toList) new.toList
  refine ⟨front, back, ?_, ?_⟩
  · rw [List.filterMap_eq_flatMap_toList, old]
  · rw [List.filterMap_eq_flatMap_toList, ← changed]
    apply List.flatMap_congr
    intro k _
    by_cases here : k = i
    · subst here
      rw [Function.update_self, Function.update_self]
    · rw [Function.update_of_ne here, Function.update_of_ne here]

end GlucOS
