import Mathlib

/-! Unsigned machine arithmetic, written over natural numbers with explicit wrap-around. -/

namespace GlucOS

/-- Truncation to 32 bits. -/
def u32 (value : Nat) : Nat := value % 2 ^ 32

/-- The largest 32-bit value, which several functions return for "not found". -/
def uint32Max : Nat := 2 ^ 32 - 1

/-- Subtraction of two 32-bit values, which borrows from bit 32 when it would be negative. -/
def u32Sub (left right : Nat) : Nat :=
  if right ≤ left then left - right else left + 2 ^ 32 - right

/-- Values inside the range are not changed by truncation. -/
theorem u32_of_lt {value : Nat} (fits : value < 2 ^ 32) : u32 value = value :=
  Nat.mod_eq_of_lt fits

/-- Truncated values fit in 32 bits. -/
theorem u32_lt (value : Nat) : u32 value < 2 ^ 32 := Nat.mod_lt _ (by decide)

/-- Without borrow, the machine subtraction is the natural one. -/
theorem u32Sub_of_le {left right : Nat} (ordered : right ≤ left) :
    u32Sub left right = left - right := if_pos ordered

/-- `ROUND(a, n)`: the least multiple of a power of two that is not below `a`. -/
def roundUp (value unit : Nat) : Nat := (value + unit - 1) / unit * unit

end GlucOS
