import Mathlib

/-! A queue kept in the cells of a ring, which is followed by counting positions without end. -/

namespace GlucOS

variable {α : Type*} {size first : Nat} {cells other : Nat → α} {items : List α} {item : α}

/-- From the position `first` on, the cells of the ring hold these items. -/
def Window (size : Nat) (cells : Nat → α) (first : Nat) (items : List α) : Prop :=
  ∀ k item, items[k]? = some item → cells ((first + k) % size) = item

/-- Positions that are less than one turn apart lie in different cells. -/
theorem mod_ne_of_lt {near far : Nat} (before : near < far) (turn : far < near + size) :
    near % size ≠ far % size := by
  intro same
  -- Otherwise the distance would be a multiple of the size.
  have multiple : size ∣ far - near := (Nat.modEq_iff_dvd' before.le).mp same
  have large := Nat.le_of_dvd (by omega) multiple
  omega

/-- An empty queue needs no cell. -/
theorem Window.nil : Window size cells first ([] : List α) := by
  intro k item found
  simp at found

/-- Only the cells of the queue matter. -/
theorem Window.congr (window : Window size cells first items)
    (same : ∀ k < items.length, other ((first + k) % size) = cells ((first + k) % size)) :
    Window size other first items := by
  intro k item found
  rw [same k (List.getElem?_eq_some_iff.mp found).1]
  exact window k item found

/-- A change of the cell behind the queue is not seen in it. -/
theorem Window.behind (window : Window size cells first items) (room : items.length < size)
    (same : ∀ slot, slot ≠ (first + items.length) % size → other slot = cells slot) :
    Window size other first items := by
  apply window.congr
  intro k inside
  exact same _ (mod_ne_of_lt (by omega) (by omega))

/-- The item in the cell behind the queue may join it. -/
theorem Window.push (window : Window size cells first items)
    (filled : cells ((first + items.length) % size) = item) :
    Window size cells first (items ++ [item]) := by
  intro k found at_
  rcases Nat.lt_trichotomy k items.length with inside | last | outside
  · rw [List.getElem?_append_left inside] at at_
    exact window k found at_
  · subst last
    simp only [List.getElem?_concat_length, Option.some.injEq] at at_
    exact filled.trans at_
  · rw [List.getElem?_eq_none (by simp; omega)] at at_
    cases at_

/-- The cell at the front holds the first item. -/
theorem Window.front (window : Window size cells first (item :: items)) :
    cells (first % size) = item := window 0 item rfl

/-- Without the first item, the queue starts one cell later. -/
theorem Window.pop (window : Window size cells first (item :: items)) :
    Window size cells (first + 1) items := by
  intro k found at_
  have later := window (k + 1) found at_
  rwa [show first + (k + 1) = first + 1 + k by omega] at later

end GlucOS
