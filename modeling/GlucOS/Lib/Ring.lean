import Mathlib

/-! Circular linked lists over an arbitrary link relation, and how to splice them. -/

namespace GlucOS

variable {α : Type*} {link link' : α → α → Prop}

/-- The members follow each other under `link`, and the first follows the last. -/
def Ring (link : α → α → Prop) (ring : List α) : Prop := Cycle.Chain link (ring : Cycle α)

/-- The empty ring has no links to check. -/
@[simp] theorem ring_nil : Ring link [] := Cycle.Chain.nil link

/-- A single member is linked to itself. -/
@[simp] theorem ring_singleton {a : α} : Ring link [a] ↔ link a a := Cycle.chain_singleton link a

/-- A ring may be written down from any of its members. -/
theorem ring_rotate {front back : List α} : Ring link (front ++ back) ↔ Ring link (back ++ front) := by
  have same : ((front ++ back : List α) : Cycle α) = (back ++ front : List α) :=
    Cycle.coe_eq_coe.mpr List.isRotated_append
  unfold Ring
  rw [same]

/-- A ring is a path whose end is linked back to its start. -/
theorem ring_iff_path {a : α} {path : List α} : Ring link (a :: path) ↔
    (a :: path).IsChain link ∧ link ((a :: path).getLast (by simp)) a := by
  unfold Ring
  rw [Cycle.chain_coe_cons, ← List.cons_append, List.isChain_append]
  simp [List.getLast?_eq_getLast_of_ne_nil]

/-- Links between members carry over to any relation that extends them. -/
theorem Ring.imp {ring : List α} (linked : Ring link ring)
    (keep : ∀ a ∈ ring, ∀ b ∈ ring, link a b → link' a b) : Ring link' ring := by
  cases ring with
  | nil => exact ring_nil
  | cons a path =>
    obtain ⟨chain, closed⟩ := ring_iff_path.mp linked
    refine ring_iff_path.mpr ⟨chain.imp_of_mem_imp fun u v uIn vIn => keep u uIn v vIn, ?_⟩
    exact keep _ (List.getLast_mem _) a (by simp) closed

/-- A path survives any change that spares its inner links. -/
theorem path_keep {a t : α} {path : List α} (chain : (a :: path).IsChain link)
    (nodup : (a :: path).Nodup) (tail : (a :: path).getLast (by simp) = t)
    (keep : ∀ u ∈ a :: path, ∀ v ∈ a :: path, u ≠ t → v ≠ a → link u v → link' u v) :
    (a :: path).IsChain link' := by
  -- The link leaving the head is inner exactly when the head is not the end as well.
  induction path generalizing a with
  | nil => simp
  | cons b path ih =>
    rw [List.isChain_cons_cons] at chain ⊢
    have fresh : a ∉ b :: path := (List.nodup_cons.mp nodup).1
    have tail' : (b :: path).getLast (by simp) = t := by simpa using tail
    constructor
    · refine keep a (by simp) b (by simp) ?_ ?_ chain.1
      · rintro rfl
        exact fresh (tail' ▸ List.getLast_mem _)
      · rintro rfl
        exact fresh (by simp)
    · refine ih chain.2 (List.nodup_cons.mp nodup).2 tail' fun u uIn v vIn notEnd notStart => ?_
      refine keep u (List.mem_cons_of_mem _ uIn) v (List.mem_cons_of_mem _ vIn) notEnd ?_
      rintro rfl
      exact fresh vIn

/-- Putting a member in front of the first one, between it and the last. -/
theorem Ring.insert {a h t : α} {path : List α} (linked : Ring link (a :: path))
    (nodup : (a :: path).Nodup) (tail : (a :: path).getLast (by simp) = t)
    (into : link' t h) (out : link' h a)
    (keep : ∀ u ∈ a :: path, ∀ v ∈ a :: path, u ≠ t → v ≠ a → link u v → link' u v) :
    Ring link' (h :: a :: path) := by
  have chain := path_keep (ring_iff_path.mp linked).1 nodup tail keep
  refine ring_iff_path.mpr ⟨List.isChain_cons_cons.mpr ⟨out, chain⟩, ?_⟩
  rw [List.getLast_cons (by simp), tail]
  exact into

/-- Taking the first of several members out, by linking its neighbours. -/
theorem Ring.delete {x a t : α} {path : List α} (linked : Ring link (x :: a :: path))
    (nodup : (a :: path).Nodup) (tail : (a :: path).getLast (by simp) = t) (skip : link' t a)
    (keep : ∀ u ∈ a :: path, ∀ v ∈ a :: path, u ≠ t → v ≠ a → link u v → link' u v) :
    Ring link' (a :: path) := by
  have chain := (List.isChain_cons_cons.mp (ring_iff_path.mp linked).1).2
  exact ring_iff_path.mpr ⟨path_keep chain nodup tail keep, tail.symm ▸ skip⟩

/-- Putting a new member in the place of the first of several. -/
theorem Ring.replace {x y a t : α} {path : List α} (linked : Ring link (x :: a :: path))
    (nodup : (a :: path).Nodup) (tail : (a :: path).getLast (by simp) = t)
    (into : link' t y) (out : link' y a)
    (keep : ∀ u ∈ a :: path, ∀ v ∈ a :: path, u ≠ t → v ≠ a → link u v → link' u v) :
    Ring link' (y :: a :: path) := by
  have chain := (List.isChain_cons_cons.mp (ring_iff_path.mp linked).1).2
  refine ring_iff_path.mpr ⟨List.isChain_cons_cons.mpr ⟨out, path_keep chain nodup tail keep⟩, ?_⟩
  rw [List.getLast_cons (by simp), tail]
  exact into

/-- The first member is linked to the second, or to itself when it is alone. -/
theorem Ring.link_first {a b : α} {path : List α} (linked : Ring link (a :: b :: path)) :
    link a b := (List.isChain_cons_cons.mp (ring_iff_path.mp linked).1).1

/-- The last member is linked to the first. -/
theorem Ring.link_last {a t : α} {path : List α} (linked : Ring link (a :: path))
    (tail : (a :: path).getLast (by simp) = t) : link t a :=
  tail ▸ (ring_iff_path.mp linked).2

end GlucOS
