import Mathlib

/-! A terminal that prints at its cursor and understands the sequence that positions it. -/

namespace GlucOS

/-- How far an escape sequence has been read. -/
inductive Parser
  /-- Characters are printed. -/
  | ground
  /-- The escape character was read. -/
  | escape
  /-- The bracket was read too, and then the finished parameters and the one being read. -/
  | control (done : List Nat) (current : Nat)
deriving DecidableEq, Repr

/-- A terminal, whose rows and columns are counted from zero. -/
structure Terminal where
  /-- What each row shows in each column. -/
  cells : Nat → Nat → UInt8
  /-- The row of the cursor. -/
  row : Nat
  /-- The column of the cursor. -/
  col : Nat
  /-- The state between two bytes. -/
  parser : Parser

/-- The characters that leave a mark. -/
def Printable (ch : UInt8) : Prop := 32 ≤ ch ∧ ch ≤ 126

instance (ch : UInt8) : Decidable (Printable ch) := inferInstanceAs (Decidable (_ ∧ _))

namespace Terminal

/-- A printed character goes at the cursor, which then moves one column right. -/
def print (t : Terminal) (ch : UInt8) : Terminal :=
  { t with
    cells := Function.update t.cells t.row (Function.update (t.cells t.row) t.col ch)
    col := t.col + 1 }

/-- A parameter of the sequence that positions the cursor: one is the first row or column. -/
def place (params : List Nat) (i : Nat) : Nat := params.getD i 1 - 1

/-- One byte. -/
def step (t : Terminal) (byte : UInt8) : Terminal :=
  match t.parser with
  | .ground =>
    if byte = 27 then { t with parser := .escape }
    else if Printable byte then t.print byte
    else t
  | .escape => { t with parser := if byte = 91 then .control [] 0 else .ground }
  | .control done current =>
    if 48 ≤ byte ∧ byte ≤ 57 then
      { t with parser := .control done (current * 10 + (byte.toNat - 48)) }
    else if byte = 59 then { t with parser := .control (done ++ [current]) 0 }
    else if byte = 72 then
      { t with
        row := place (done ++ [current]) 0
        col := place (done ++ [current]) 1
        parser := .ground }
    else { t with parser := .ground }

/-- A stream of bytes. -/
def feed (t : Terminal) (bytes : List UInt8) : Terminal := bytes.foldl step t

variable {t : Terminal}

/-- Nothing arrives. -/
@[simp] theorem feed_nil (t : Terminal) : t.feed [] = t := rfl

/-- One byte after the other. -/
@[simp] theorem feed_cons (t : Terminal) (byte : UInt8) (bytes : List UInt8) :
    t.feed (byte :: bytes) = (t.step byte).feed bytes := rfl

/-- One stream after the other. -/
theorem feed_append (t : Terminal) (bytes more : List UInt8) :
    t.feed (bytes ++ more) = (t.feed bytes).feed more := by
  -- The terminal remembers nothing but its state.
  simp [feed]

/-- A printable character is printed between two sequences. -/
theorem step_print {ch : UInt8} (ground : t.parser = .ground) (printable : Printable ch) :
    t.step ch = t.print ch := by
  -- The escape character is not printable.
  have other : ch ≠ 27 := by
    intro escape
    rw [escape] at printable
    exact absurd printable (by decide)
  simp [step, ground, other, printable]

/-- The number that a row of digits writes, when so much was read before it. -/
def digitsValue (before : Nat) (digits : List UInt8) : Nat :=
  digits.foldl (fun value byte => value * 10 + (byte.toNat - 48)) before

/-- Digits are collected. -/
theorem feed_digits {done : List Nat} {current : Nat} {digits : List UInt8}
    (parser : t.parser = .control done current)
    (decimal : ∀ byte ∈ digits, 48 ≤ byte ∧ byte ≤ 57) :
    t.feed digits = { t with parser := .control done (digitsValue current digits) } := by
  -- Every digit makes the parameter ten times as large, and adds its value.
  induction digits generalizing t current with
  | nil => simp [digitsValue, ← parser]
  | cons byte rest ih =>
    have one : t.step byte =
        { t with parser := .control done (current * 10 + (byte.toNat - 48)) } := by
      have digit := decimal byte (by simp)
      simp [step, parser, digit]
    rw [feed_cons, one, ih rfl (fun b inside => decimal b (by simp [inside]))]
    rfl

/-- A whole sequence positions the cursor. -/
theorem feed_position {rowDigits colDigits : List UInt8} (ground : t.parser = .ground)
    (rowDecimal : ∀ byte ∈ rowDigits, 48 ≤ byte ∧ byte ≤ 57)
    (colDecimal : ∀ byte ∈ colDigits, 48 ≤ byte ∧ byte ≤ 57) :
    t.feed (27 :: 91 :: (rowDigits ++ 59 :: (colDigits ++ [72]))) =
      { t with row := digitsValue 0 rowDigits - 1, col := digitsValue 0 colDigits - 1 } := by
  have escape : t.step 27 = { t with parser := .escape } := by simp [step, ground]
  have bracket : ({ t with parser := .escape } : Terminal).step 91 =
      { t with parser := .control [] 0 } := by simp [step]
  have separator : ({ t with parser := .control [] (digitsValue 0 rowDigits) } : Terminal).step 59 =
      { t with parser := .control [digitsValue 0 rowDigits] 0 } := by simp [step]
  have final : ({ t with
        parser := .control [digitsValue 0 rowDigits] (digitsValue 0 colDigits) } :
      Terminal).step 72 =
      { t with row := digitsValue 0 rowDigits - 1, col := digitsValue 0 colDigits - 1 } := by
    simp [step, place, ← ground]
  rw [feed_cons, feed_cons, escape, bracket, feed_append, feed_digits rfl rowDecimal, feed_cons,
    separator, feed_append, feed_digits rfl colDecimal, feed_cons, final, feed_nil]

end Terminal

end GlucOS
