import Mathlib

/-! Words of 64 bits, whose bits are counted from the most significant one. -/

namespace GlucOS

/-- The mask of one bit, counted from the most significant one. -/
def bitMask (j : Nat) : BitVec 64 := (1#64 <<< 63) >>> j

/-- The mask has one bit. -/
theorem bitMask_get {j : Nat} (inside : j < 64) (k : Nat) :
    (bitMask j).getMsbD k = decide (k = j) := by
  unfold bitMask
  rw [BitVec.getMsbD_ushiftRight, BitVec.getMsbD_shiftLeft, BitVec.getMsbD_one]
  by_cases same : k = j
  · subst same
    simp [inside]
  · -- Another bit is either before the mask's or past the only bit that is shifted.
    have apart : k < j ∨ ¬ (k - j + 63 = 64 - 1) := by omega
    rcases apart with before | past
    · simp [same, before]
    · simp [same]
      omega

/-- A bit is clear when the word and its mask have nothing in common. -/
theorem and_bitMask {j : Nat} (inside : j < 64) (word : BitVec 64) :
    word &&& bitMask j = 0 ↔ word.getMsbD j = false := by
  constructor
  · intro zero
    have bit := congrArg (fun w => w.getMsbD j) zero
    simpa [BitVec.getMsbD_and, bitMask_get inside] using bit
  · intro clear
    apply BitVec.eq_of_getMsbD_eq
    intro k _
    rw [BitVec.getMsbD_and, bitMask_get inside]
    by_cases same : k = j
    · simp [same, clear]
    · simp [same]

/-- Setting a bit. -/
theorem or_bitMask {j : Nat} (inside : j < 64) (word : BitVec 64) (k : Nat) :
    (word ||| bitMask j).getMsbD k = (word.getMsbD k || decide (k = j)) := by
  rw [BitVec.getMsbD_or, bitMask_get inside]

/-- Clearing a bit. -/
theorem and_not_bitMask {j : Nat} (inside : j < 64) (word : BitVec 64) {k : Nat} (small : k < 64) :
    (word &&& ~~~bitMask j).getMsbD k = (word.getMsbD k && !decide (k = j)) := by
  rw [BitVec.getMsbD_and, BitVec.getMsbD_not, bitMask_get inside]
  simp [small]

/-- The word without a clear bit. -/
theorem eq_allOnes_iff (word : BitVec 64) :
    word = BitVec.allOnes 64 ↔ ∀ k < 64, word.getMsbD k = true := by
  constructor
  · intro full k small
    rw [full, BitVec.getMsbD_allOnes]
    exact decide_eq_true small
  · intro full
    apply BitVec.eq_of_getMsbD_eq
    intro k small
    rw [full k small, BitVec.getMsbD_allOnes]
    exact (decide_eq_true small).symm

/-! ## Counting ones -/

/-- How many ones the binary digits of a number have. -/
def ones (n : Nat) : Nat := if n = 0 then 0 else n % 2 + ones (n / 2)

/-- Zero has none. -/
@[simp] theorem ones_zero : ones 0 = 0 := by
  unfold ones
  rfl

/-- The last digit and the others. -/
theorem ones_step (n : Nat) : ones n = n % 2 + ones (n / 2) := by
  rw [ones]
  by_cases zero : n = 0
  · simp [zero]
  · rw [if_neg zero]

/-- Clearing the lowest one of a number. -/
theorem ones_clear {n : Nat} (positive : 0 < n) : ones (n &&& (n - 1)) + 1 = ones n := by
  -- The induction is on the binary digits.
  induction n using Nat.strongRecOn with
  | ind n ih =>
    have half : (n &&& (n - 1)) / 2 = n / 2 &&& (n - 1) / 2 := Nat.and_div_two
    have last : (n &&& (n - 1)) % 2 = 0 := by
      have := Nat.and_mod_two_eq_one (a := n) (b := n - 1)
      omega
    rw [ones_step (n &&& (n - 1)), ones_step n, half, last]
    by_cases odd : n % 2 = 1
    · -- The last digit is the lowest one, and goes.
      have same : (n - 1) / 2 = n / 2 := by omega
      rw [same, Nat.and_self]
      omega
    · have below : (n - 1) / 2 = n / 2 - 1 := by omega
      have smaller := ih (n / 2) (by omega) (by omega)
      rw [below]
      omega

/-- The ones are counted digit by digit. -/
theorem ones_eq_countP (width : Nat) :
    ∀ n, n < 2 ^ width → ones n = (List.range width).countP fun i => n.testBit i := by
  induction width with
  | zero =>
    intro n small
    have zero : n = 0 := by omega
    simp [zero]
  | succ width ih =>
    intro n small
    have tail := ih (n / 2) (by omega)
    rw [ones_step, tail, List.range_succ_eq_map, List.countP_cons, List.countP_map]
    have shift : (fun i => n.testBit i) ∘ Nat.succ = fun i => (n / 2).testBit i := by
      funext i
      simp [Function.comp, Nat.testBit_succ]
    rw [shift, Nat.testBit_zero]
    by_cases odd : n % 2 = 1
    · simp [odd]
      omega
    · simp [odd]
      omega

/-- The loop that clears the lowest one until none is left, counting its rounds. -/
def onesLoop : Nat → BitVec 64 → Nat → Nat
  | 0, _, count => count
  | left + 1, word, count =>
    if word = 0 then count else onesLoop left (word &&& (word - 1)) (count + 1)

/-- The loop counts the ones, as long as it may run that often. -/
theorem onesLoop_eq (left : Nat) :
    ∀ word count, ones word.toNat ≤ left → onesLoop left word count = count + ones word.toNat := by
  induction left with
  | zero =>
    intro word count few
    simp only [onesLoop]
    omega
  | succ left ih =>
    intro word count few
    simp only [onesLoop]
    by_cases zero : word = 0
    · simp [zero]
    · rw [if_neg zero]
      have positive : 0 < word.toNat := by
        rcases Nat.eq_zero_or_pos word.toNat with none | some
        · exact absurd (BitVec.eq_of_toNat_eq (by simpa using none)) zero
        · exact some
      have less : (word - 1).toNat = word.toNat - 1 := by
        have bound := word.isLt
        have one : (1 : BitVec 64).toNat = 1 := rfl
        rw [BitVec.toNat_sub, one]
        omega
      have cleared : (word &&& (word - 1)).toNat = word.toNat &&& (word.toNat - 1) := by
        rw [BitVec.toNat_and, less]
      have one := ones_clear positive
      rw [ih _ _ (by rw [cleared]; omega), cleared]
      omega

/-- The loop of at most 64 rounds counts the bits that are set. -/
theorem onesLoop_countP (word : BitVec 64) (count : Nat) :
    onesLoop 64 word count = count + (List.range 64).countP fun k => word.getMsbD k := by
  have digits := ones_eq_countP 64 word.toNat word.isLt
  have bits : (List.range 64).countP (fun k => word.getMsbD k) =
      (List.range 64).countP fun i => word.toNat.testBit i := by
    -- Read from the other end, the bits are the binary digits.
    have reversed : (List.range 64).reverse = (List.range 64).map (63 - ·) := by decide
    rw [← List.countP_reverse (l := List.range 64) (p := fun i => word.toNat.testBit i), reversed,
      List.countP_map]
    apply List.countP_congr
    intro k member
    have small : k < 64 := List.mem_range.mp member
    simp [BitVec.getMsbD, BitVec.getLsbD, small]
  have few : ones word.toNat ≤ 64 := by
    rw [digits]
    simpa using List.countP_le_length (p := fun i => word.toNat.testBit i) (l := List.range 64)
  rw [onesLoop_eq 64 word count few, digits, bits]

end GlucOS
