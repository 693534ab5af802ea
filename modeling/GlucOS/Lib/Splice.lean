import Mathlib

/-! Lists of which a part is read or replaced, and which grow to hold what is put into them. -/

namespace GlucOS

variable {α : Type*}

/-- The elements from a position on, and so many at most. -/
def part (xs : List α) (pos len : Nat) : List α := (xs.drop pos).take len

/-- Other elements put in from a position on, with a filler up to there when the list is shorter. -/
def splice (fill : α) (xs : List α) (pos : Nat) (ys : List α) : List α :=
  (xs.take pos ++ List.replicate (pos - xs.length) fill) ++ (ys ++ xs.drop (pos + ys.length))

variable {fill : α} {xs ys : List α} {pos len : Nat}

/-- A part ends with the list at the latest. -/
theorem length_part : (part xs pos len).length = min len (xs.length - pos) := by
  rw [part, List.length_take, List.length_drop]

/-- Each element of a part is one of the list. -/
theorem getElem?_part (k : Nat) :
    (part xs pos len)[k]? = if k < len then xs[pos + k]? else none := by
  rw [part, List.getElem?_take]
  split
  · rw [List.getElem?_drop]
  · rfl

/-- The list reaches to the end of what was put in at least. -/
theorem length_splice : (splice fill xs pos ys).length = max xs.length (pos + ys.length) := by
  simp only [splice, List.length_append, List.length_take, List.length_replicate,
    List.length_drop]
  omega

/-- Each element is one of what was put in, or the old one there, or the filler. -/
theorem getElem?_splice (k : Nat) : (splice fill xs pos ys)[k]? =
    if k < pos then if k < xs.length then xs[k]? else some fill
    else if k < pos + ys.length then ys[k - pos]? else xs[k]? := by
  -- The front has been filled up to the position, and the back begins behind the new elements.
  have front : (xs.take pos ++ List.replicate (pos - xs.length) fill).length = pos := by
    rw [List.length_append, List.length_take, List.length_replicate]
    omega
  by_cases before : k < pos
  · rw [if_pos before, splice, List.getElem?_append_left (by omega), List.getElem?_append,
      List.length_take]
    by_cases old : k < xs.length
    · rw [if_pos (by omega), if_pos old, List.getElem?_take_of_lt before]
    · rw [if_neg (by omega), if_neg old, List.getElem?_replicate, if_pos (by omega)]
  · rw [if_neg before, splice, List.getElem?_append_right (by omega), front]
    by_cases new : k < pos + ys.length
    · rw [if_pos new, List.getElem?_append_left (by omega)]
    · rw [if_neg new, List.getElem?_append_right (by omega), List.getElem?_drop]
      congr 1
      omega

/-- What was put in is there. -/
theorem part_splice : part (splice fill xs pos ys) pos ys.length = ys := by
  apply List.ext_getElem?
  intro k
  rw [getElem?_part, getElem?_splice]
  by_cases inside : k < ys.length
  · rw [if_pos inside, if_neg (by omega), if_pos (by omega), Nat.add_sub_cancel_left]
  · rw [if_neg inside, List.getElem?_eq_none (by omega)]

/-- A part of the old list that lies elsewhere stays. -/
theorem part_splice_apart {at_ count : Nat} (inside : at_ + count ≤ xs.length)
    (apart : at_ + count ≤ pos ∨ pos + ys.length ≤ at_ ∨ count = 0) :
    part (splice fill xs pos ys) at_ count = part xs at_ count := by
  apply List.ext_getElem?
  intro k
  rw [getElem?_part, getElem?_part, getElem?_splice]
  by_cases here : k < count
  · rw [if_pos here, if_pos here]
    by_cases before : at_ + k < pos
    · rw [if_pos before, if_pos (by omega)]
    · rw [if_neg before, if_neg (by omega)]
  · rw [if_neg here, if_neg here]

/-- Filling a list up to the position first changes nothing. -/
theorem splice_fill : splice fill (xs ++ List.replicate (pos - xs.length) fill) pos ys =
    splice fill xs pos ys := by
  apply List.ext_getElem?
  intro k
  rw [getElem?_splice, getElem?_splice, List.length_append, List.length_replicate,
    List.getElem?_append, List.getElem?_replicate]
  by_cases before : k < pos
  · rw [if_pos before, if_pos before, if_pos (by omega)]
    by_cases old : k < xs.length
    · rw [if_pos old, if_pos old]
    · rw [if_neg old, if_neg old, if_pos (by omega)]
  · rw [if_neg before, if_neg before]
    split
    · rfl
    · split
      · rfl
      · rw [if_neg (by omega), List.getElem?_eq_none (by omega)]

end GlucOS
