import GlucOS.TinyLibc.GaussLaws

/-! Inversion carries a factor along that becomes the inverse. -/

namespace GlucOS.LaMat

open Routine

attribute [local irreducible] mult minu plus divd reci

section Passes

variable {n r i : Nat} {A : Matrix (Fin n) (Fin n) ℚ} {s : Pair} {B : Type}

/-- A routine works on the first matrix. -/
theorem fits_onMtp {routine : MatRoutine B} {post : B → Mat → Prop}
    (fits : Fits routine s.mtp post) : Fits (onMtp routine) s fun value s' =>
      s'.rm = s.rm ∧ post value s'.mtp := by
  refine Meets.mono (fits_part (fun mtp => { s with mtp }) rfl fits) ?_
  rintro value s' ⟨mtp, rfl, held⟩
  exact ⟨rfl, held⟩

/-- A routine works on the second matrix. -/
theorem fits_onRm {routine : MatRoutine B} {post : B → Mat → Prop}
    (fits : Fits routine s.rm post) : Fits (onRm routine) s fun value s' =>
      s'.mtp = s.mtp ∧ post value s'.rm := by
  refine Meets.mono (fits_part (fun rm => { s with rm }) rfl fits) ?_
  rintro value s' ⟨rm, rfl, held⟩
  exact ⟨rfl, held⟩

/-- The second matrix times the original one is the first. -/
structure PairOk (A : Matrix (Fin n) (Fin n) ℚ) (s : Pair) : Prop where
  /-- The rows of the first. -/
  row : s.mtp.row = n
  /-- Its columns. -/
  col : s.mtp.col = n
  /-- The rows of the second. -/
  rowRm : s.rm.row = n
  /-- Its columns. -/
  colRm : s.rm.col = n
  /-- Elements with denominators. -/
  proper : s.mtp.Proper
  /-- In the second, too. -/
  properRm : s.rm.Proper
  /-- The row operations done so far can be undone. -/
  tracks : ∃ d, d ≠ 0 ∧ Tracks d A (s.rm.toMatrix n n) (s.mtp.toMatrix n n)

/-- The first matrix is zero in some places, and not in the first ones on the diagonal. -/
structure Shape (A : Matrix (Fin n) (Fin n) ℚ) (zero : Nat → Nat → Prop) (d : Nat) (s : Pair) :
    Prop extends PairOk A s where
  /-- The places with zeros. -/
  empty : ∀ a < n, ∀ b < n, zero a b → s.mtp.val a b = 0
  /-- The pivots. -/
  pivots : ∀ a < d, a < n → s.mtp.val a a ≠ 0

/-- Whether an element is zero can be seen at its numerator. -/
theorem PairOk.zero_iff (so : PairOk A s) {a b : Nat} (low : a < n) (col : b < n) :
    (s.mtp.dat a b).p = 0 ↔ s.mtp.val a b = 0 :=
  (val_eq_zero (so.proper a (by rw [so.row]; exact low) b (by rw [so.col]; exact col))).symm

/-- The same row operation on both matrices. -/
theorem PairOk.minus {s' : Pair} {k : ℚ} {part : Nat → Prop} [DecidablePred part] (so : PairOk A s)
    (up : r < n) (differ : i ≠ r)
    (turns : Turns s.mtp s'.mtp fun a b =>
      if a = i ∧ part b then s.mtp.val a b - k * s.mtp.val r b else s.mtp.val a b)
    (turnsRm : Turns s.rm s'.rm fun a b =>
      if a = i ∧ 0 ≤ b then s.rm.val a b - k * s.rm.val r b else s.rm.val a b)
    (rest : ∀ b < n, ¬ part b → s.mtp.val r b = 0) : PairOk A s' := by
  refine ⟨turns.row.trans so.row, turns.col.trans so.col, turnsRm.row.trans so.rowRm,
    turnsRm.col.trans so.colRm, turns.proper, turnsRm.proper, ?_⟩
  obtain ⟨d, unit, tracks⟩ := so.tracks
  refine ⟨d, unit, ?_⟩
  -- Where the loop does not reach, the row that is added is empty.
  have first : s'.mtp.toMatrix n n = addRows (fun a : Fin n => if (a : Nat) = i then -k else 0)
      ⟨r, up⟩ (s.mtp.toMatrix n n) := by
    rw [turns.toMatrix so.row so.col]
    ext a b
    simp only [addRows, Matrix.of_apply, Mat.toMatrix]
    by_cases here : (a : Nat) = i
    · by_cases inside : part b
      · rw [if_pos ⟨here, inside⟩, if_pos here]
        ring
      · rw [if_neg (fun both => inside both.2), rest b b.isLt inside, mul_zero, add_zero]
    · rw [if_neg (fun both => here both.1), if_neg here, zero_mul, add_zero]
  have second : s'.rm.toMatrix n n = addRows (fun a : Fin n => if (a : Nat) = i then -k else 0)
      ⟨r, up⟩ (s.rm.toMatrix n n) := by
    rw [turnsRm.toMatrix so.rowRm so.colRm]
    ext a b
    simp only [addRows, Matrix.of_apply, Mat.toMatrix]
    by_cases here : (a : Nat) = i
    · rw [if_pos ⟨here, Nat.zero_le _⟩, if_pos here]
      ring
    · rw [if_neg (fun both => here both.1), if_neg here, zero_mul, add_zero]
  rw [first, second]
  exact tracks.add (if_neg differ.symm)

/-- The same swap in both matrices. -/
theorem PairOk.swap (so : PairOk A s) (low : i < n) (up : r < n) (differ : i ≠ r) :
    PairOk A { mtp := s.mtp.swapRows i r, rm := s.rm.swapRows i r } := by
  have turns := swapRows_turns so.proper (by rw [so.row]; exact low) (by rw [so.row]; exact up)
  have turnsRm := swapRows_turns so.properRm (by rw [so.rowRm]; exact low)
    (by rw [so.rowRm]; exact up)
  obtain ⟨d, unit, tracks⟩ := so.tracks
  have differ' : (⟨i, low⟩ : Fin n) ≠ ⟨r, up⟩ := fun same => differ (Fin.mk.inj same)
  refine ⟨turns.row.trans so.row, turns.col.trans so.col, turnsRm.row.trans so.rowRm,
    turnsRm.col.trans so.colRm, turns.proper, turnsRm.proper, -d, neg_ne_zero.mpr unit, ?_⟩
  rw [toMatrix_swap turns so.row so.col low up, toMatrix_swap turnsRm so.rowRm so.colRm low up]
  exact tracks.swap differ'

/-- An element is cleared, and nothing that was empty is filled again. -/
theorem Shape.cleared {s' : Pair} {zero : Nat → Nat → Prop} {d : Nat} {part : Nat → Prop}
    [DecidablePred part] (so : Shape A zero d s) (pair : PairOk A s') (up : r < n) (deep : r < d)
    (own : part r)
    (turns : Turns s.mtp s'.mtp fun a b => if a = i ∧ part b then
      s.mtp.val a b - s.mtp.val i r / s.mtp.val r r * s.mtp.val r b else s.mtp.val a b)
    (kept : ∀ b < n, part b → b ≠ r → zero i b → s.mtp.val r b = 0)
    (corner : i < d → s.mtp.val r i = 0) : Shape A (fun a b => zero a b ∨ a = i ∧ b = r) d s' := by
  have pivot := so.pivots r deep up
  have val := fun a (low : a < n) b (col : b < n) =>
    turns.val a (by rw [so.row]; exact low) b (by rw [so.col]; exact col)
  -- Only the row of the element changes, and in it only the columns that are reached.
  refine ⟨pair, ?_, ?_⟩
  · intro a inside b narrow wanted
    rw [val a inside b narrow]
    by_cases here : a = i ∧ part b
    · obtain ⟨rfl, reached⟩ := here
      rw [if_pos ⟨rfl, reached⟩]
      by_cases column : b = r
      · rw [column, div_mul_cancel₀ _ pivot, sub_self]
      · have before := wanted.resolve_right fun both => column both.2
        rw [kept b narrow reached column before, so.empty a inside b narrow before, mul_zero,
          sub_zero]
    · rw [if_neg here]
      refine so.empty a inside b narrow (wanted.resolve_right ?_)
      rintro ⟨rfl, rfl⟩
      exact here ⟨rfl, own⟩
  · intro a early inside
    rw [val a inside a inside]
    split
    · rename_i here
      rw [here.1, corner (by rw [← here.1]; exact early), mul_zero, sub_zero, ← here.1]
      exact so.pivots a early inside
    · exact so.pivots a early inside

/-- One step of a loop that clears an element in both matrices. -/
theorem fits_clearing {zero : Nat → Nat → Prop} {d : Nat} (part : Nat → Prop) [DecidablePred part]
    (routine : RN → MatRoutine Unit) (so : Shape A zero d s) (low : i < n) (up : r < n)
    (differ : i ≠ r) (deep : r < d) (own : part r) (rest : ∀ b < n, ¬ part b → s.mtp.val r b = 0)
    (does : ∀ k : RN, k.Proper → Fits (routine k) s.mtp fun _ mat' => Turns s.mtp mat' fun a b =>
      if a = i ∧ part b then s.mtp.val a b - k.val * s.mtp.val r b else s.mtp.val a b)
    (kept : ∀ b < n, part b → b ≠ r → zero i b → s.mtp.val r b = 0)
    (corner : i < d → s.mtp.val r i = 0) :
    Fits (do
      let s ← get
      let k ← compute (divd (s.mtp.dat i r) (s.mtp.dat r r))
      onMtp (routine k)
      onRm (minusRow i r 0 k)) s fun _ s' =>
        Shape A (fun a b => zero a b ∨ a = i ∧ b = r) d s' := by
  have row : i < s.mtp.row := by rw [so.row]; exact low
  have row' : r < s.mtp.row := by rw [so.row]; exact up
  have col : r < s.mtp.col := by rw [so.col]; exact up
  rw [Fits, meets_get_bind]
  refine fits_compute (divd_holds (so.proper i row r col) (so.proper r row' r col)) fun k same => ?_
  have good : k.Proper := by rw [same]; exact normal_proper _
  have factor : k.val = s.mtp.val i r / s.mtp.val r r := by
    rw [same, normal_val]
    rfl
  refine Meets.bind (fits_onMtp (does k good)) ?_
  rintro _ s₁ ⟨sameRm, turns⟩
  refine Meets.mono (fits_onRm (minusRow_turns (by rw [sameRm]; exact so.properRm)
    (by rw [sameRm, so.rowRm]; exact low) (by rw [sameRm, so.rowRm]; exact up) differ good)) ?_
  rintro _ s₂ ⟨sameMtp, turnsRm⟩
  rw [sameRm] at turnsRm
  rw [← sameMtp] at turns
  have pair := so.toPairOk.minus up differ turns turnsRm rest
  rw [factor] at turns
  exact so.cleared pair up deep own turns kept corner

/-- Fewer zeros may be claimed. -/
theorem Shape.mono {zero zero' : Nat → Nat → Prop} {d : Nat} (so : Shape A zero d s)
    (fewer : ∀ a < n, ∀ b < n, zero' a b → zero a b) : Shape A zero' d s :=
  ⟨so.toPairOk, fun a low b narrow wanted => so.empty a low b narrow (fewer a low b narrow wanted),
    so.pivots⟩

/-- The rows below a pivot are cleared. -/
theorem invBelow_clears (so : Shape A (fun a b => b < a ∧ b < r) (r + 1) s) (up : r < n) :
    Fits (invBelow n r) s fun _ s' => Shape A (fun a b => b < a ∧ b < r + 1) (r + 1) s' := by
  unfold invBelow
  refine Meets.mono (meets_forUpto (fun t s' => Shape A (fun a b => b < a ∧
    (b < r ∨ b = r ∧ a < r + 1 + t)) (r + 1) s') (n - (r + 1)) ?_ fun t small s' so' => ?_)
    fun _ s' so' => ?_
  · exact so.mono fun a _ b _ wanted => by omega
  · have low : r + 1 + t < n := by omega
    refine Meets.mono (fits_clearing (fun b => r ≤ b) _ so' low up (by omega) (by omega) le_rfl
      (fun b narrow left => so'.empty r up b narrow (by omega))
      (fun k good => minusRow_turns so'.proper (by rw [so'.row]; exact low)
        (by rw [so'.row]; exact up) (by omega) good)
      (fun b _ reached other wanted => by omega) (fun early => by omega)) fun _ s₁ so₁ => ?_
    exact so₁.mono fun a _ b _ wanted => by omega
  · exact so'.mono fun a _ b _ wanted => by omega

/-- After the search there is a pivot, or nothing is left in its column. -/
theorem invSwap_finds (so : Shape A (fun a b => b < a ∧ b < r) r s) (up : r < n) :
    Fits (invSwap r) s fun _ s' => Shape A (fun a b => b < a ∧ b < r) r s' ∧
      (s'.mtp.val r r = 0 → ∀ a, r ≤ a → a < n → s'.mtp.val a r = 0) := by
  unfold invSwap
  rw [Fits, meets_get_bind]
  refine meets_ite (fun zero => ?_) (fun used => ?_)
  · have corner := (so.zero_iff up up).mp zero
    cases search : searchBelow s.mtp r r with
    | some i =>
      obtain ⟨below, low, used⟩ := searchBelow_some search
      rw [so.row] at low
      have pair := so.toPairOk.swap low up (by omega)
      have pivot : (s.mtp.swapRows i r).val r r ≠ 0 := by
        rw [swapRows_val, Equiv.swap_apply_right]
        exact fun none => used ((so.zero_iff low up).mpr none)
      refine ⟨⟨pair, ?_, ?_⟩, fun none => absurd none pivot⟩
      · intro a inside b narrow wanted
        rw [swapRows_val, Equiv.swap_apply_def]
        split
        · exact so.empty r up b narrow (by omega)
        · split
          · exact so.empty i low b narrow (by omega)
          · exact so.empty a inside b narrow wanted
      · intro a early inside
        rw [swapRows_val, Equiv.swap_apply_of_ne_of_ne (by omega) (by omega)]
        exact so.pivots a early inside
    | none =>
      refine ⟨so, fun _ a behind inside => ?_⟩
      by_cases own : a = r
      · rw [own]
        exact corner
      · exact (so.zero_iff inside up).mp
          (searchBelow_none search (by omega) (by rw [so.row]; exact inside))
  · exact ⟨so, fun none => absurd ((so.zero_iff up up).mpr none) used⟩

/-- Without a pivot the matrix is singular. -/
theorem PairOk.singular (so : PairOk A s) (up : r < n)
    (gap : ∀ a b, r ≤ a → a < n → b ≤ r → s.mtp.val a b = 0) : A.det = 0 := by
  obtain ⟨d, unit, tracks⟩ := so.tracks
  have none : (s.mtp.toMatrix n n).det = 0 :=
    det_of_gap (r := ⟨r, up⟩) fun i j below left => gap i j below i.isLt left
  rw [tracks.det] at none
  exact (mul_eq_zero.mp none).resolve_left unit

/-- One round down. -/
theorem invDownRound_finds (so : Shape A (fun a b => b < a ∧ b < r) r s) (up : r < n) :
    Fits (invDownRound n r) s fun found s' => if found = true then
      Shape A (fun a b => b < a ∧ b < r + 1) (r + 1) s' else A.det = 0 := by
  -- If the search has found nothing, the column is empty from the diagonal on.
  unfold invDownRound
  refine Meets.bind (invSwap_finds so up) ?_
  rintro _ s₁ ⟨so₁, gap⟩
  rw [meets_get_bind]
  refine meets_ite (fun zero => ?_) (fun used => ?_)
  · have corner := (so₁.zero_iff up up).mp zero
    have singular : A.det = 0 := by
      refine so₁.singular up fun a b below inside left => ?_
      by_cases own : b = r
      · rw [own]
        exact gap corner a below inside
      · exact so₁.empty a inside b (by omega) (by omega)
    exact singular
  · have pivot : s₁.mtp.val r r ≠ 0 := fun none => used ((so₁.zero_iff up up).mpr none)
    have more : Shape A (fun a b => b < a ∧ b < r) (r + 1) s₁ := by
      refine ⟨so₁.toPairOk, so₁.empty, fun a early inside => ?_⟩
      by_cases own : a = r
      · rw [own]
        exact pivot
      · exact so₁.pivots a (by omega) inside
    exact Meets.bind (invBelow_clears more up) fun _ s₂ so₂ => so₂

/-- The whole way down: a triangle, or a singular matrix. -/
theorem invDown_finds (so : PairOk A s) (k : Nat) (inside : k ≤ n) :
    Fits (invDown n k) s fun found s' => if found = true then
      Shape A (fun a b => b < a ∧ b < k) k s' else A.det = 0 := by
  -- A round only begins when all rounds before have found a pivot.
  induction k with
  | zero =>
    exact ⟨so, fun a _ b _ wanted => absurd wanted.2 (Nat.not_lt_zero b),
      fun a early => absurd early (Nat.not_lt_zero a)⟩
  | succ k ih =>
    refine Meets.bind (ih (by omega)) fun found s₁ so₁ => ?_
    cases found with
    | true => exact invDownRound_finds so₁ (by omega)
    | false => exact so₁

/-- Where there are rows, the last one is found as expected. -/
theorem lastRow_eq (rows : 0 < n) (small : n < 2 ^ 32) : lastRow n = n - 1 := by
  unfold lastRow
  omega

attribute [local irreducible] lastRow

/-- The way up clears what is above the diagonal. -/
theorem invUp_clears (rows : 0 < n) (small : n < 2 ^ 32)
    (so : Shape A (fun a b => b < a ∧ b < n) n s) :
    Fits (invUp n) s fun _ s' => Shape A (fun a b => a ≠ b) n s' := by
  unfold invUp
  simp only [lastRow_eq rows small]
  -- Columns are cleared from the last one on, each from its lowest element up.
  refine Meets.mono (meets_forUpto (fun t s' => Shape A (fun a b => b < a ∨ a < b ∧ n ≤ b + t) n s')
    (n - 1) ?_ fun t small s' so' => ?_) fun _ s' so' => ?_
  · exact so.mono fun a _ b _ wanted => by omega
  · refine Meets.mono (meets_forUpto (fun u s' => Shape A (fun a b => b < a ∨ a < b ∧
      (n ≤ b + t ∨ b = n - 1 - t ∧ n - 1 - t ≤ a + u)) n s') (n - 1 - t) ?_
      fun u early s₁ so₁ => ?_) fun _ s₁ so₁ => ?_
    · exact so'.mono fun a _ b _ wanted => by omega
    · have low : n - 1 - t - (u + 1) < n := by omega
      have up : n - 1 - t < n := by omega
      refine Meets.mono (fits_clearing (fun b => b = n - 1 - t)
        (fun k => minusAt (n - 1 - t - (u + 1)) (n - 1 - t) (n - 1 - t) k)
        so₁ low up (by omega) up rfl
        (fun b narrow other => so₁.empty _ up b narrow (by omega))
        (fun k good => ?_) (fun b _ own other _ => absurd own other)
        (fun _ => so₁.empty _ up _ low (by omega))) fun _ s₂ so₂ => ?_
      · refine Meets.mono (minusAt_turns so₁.proper (by rw [so₁.row]; exact low)
          (by rw [so₁.row]; exact up) (by rw [so₁.col]; exact up) good) fun _ mat' turns =>
          turns.congr fun a _ b _ => ?_
        split
        · rename_i here
          rw [here.1, here.2]
        · rfl
      · exact so₂.mono fun a _ b _ wanted => by omega
    · exact so₁.mono fun a _ b _ wanted => by omega
  · exact so'.mono fun a _ b _ wanted => by omega

/-- One element is multiplied. -/
theorem timesAt_turns {mat : Mat} {j : Nat} {k : RN} (proper : mat.Proper) (up : r < mat.row)
    (narrow : j < mat.col) (good : k.Proper) : Fits (timesAt r j k) mat fun _ mat' =>
      Turns mat mat' fun a b => if a = r ∧ b = j then k.val * mat.val r j else mat.val a b := by
  unfold timesAt
  rw [Fits, meets_get_bind]
  refine fits_compute (mult_holds good (proper r up j narrow)) fun product same => ?_
  rw [Fits, meets_set]
  have defined : product.Proper := by rw [same]; exact normal_proper _
  refine (assign_turns proper defined r j).congr fun a _ b _ => ?_
  rw [same, normal_val]
  rfl

/-- A whole row is multiplied. -/
theorem timesRow_turns {mat : Mat} {k : RN} (proper : mat.Proper) (up : r < mat.row)
    (col : mat.col = n) (good : k.Proper) :
    Fits (forUpto n fun j => timesAt r j k) mat fun _ mat' =>
      Turns mat mat' fun a b => if a = r then k.val * mat.val a b else mat.val a b := by
  refine Meets.mono (meets_forUpto (fun t mat' => Turns mat mat' fun a b =>
    if a = r ∧ b < t then k.val * mat.val a b else mat.val a b) n ?_ fun t small mat₁ so => ?_)
    fun _ mat' turns => ?_
  · refine (Turns.refl proper).congr fun a _ b _ => ?_
    rw [if_neg (by omega)]
  · refine Meets.mono (timesAt_turns so.proper (by rw [so.row]; exact up)
      (by rw [so.col]; omega) good) fun _ mat' turns =>
        (so.trans turns).congr fun a row b narrow => ?_
    by_cases here : a = r ∧ b = t
    · obtain ⟨rfl, rfl⟩ := here
      rw [if_pos ⟨rfl, rfl⟩, so.val _ row _ narrow, if_neg (by omega), if_pos ⟨rfl, by omega⟩]
    · rw [if_neg here, so.val a row b narrow]
      exact if_congr (by omega) rfl rfl
  · exact turns.congr fun a _ b narrow => if_congr (by omega) rfl rfl

/-- Every row of the second matrix is divided by the element on the diagonal of the first. -/
theorem invScale_turns (so : Shape A (fun a b => a ≠ b) n s) :
    Fits (invScale n) s fun _ s' => Turns s.rm s'.rm fun a b =>
      (s.mtp.val a a)⁻¹ * s.rm.val a b := by
  -- The first matrix is only read here, so that its diagonal stays what it was.
  unfold invScale
  refine Meets.mono (meets_forUpto (fun t s' => s'.mtp = s.mtp ∧ Turns s.rm s'.rm fun a b =>
    if a < t then (s.mtp.val a a)⁻¹ * s.rm.val a b else s.rm.val a b) n ?_ fun t small s₁ so₁ => ?_)
    fun _ s' so' => ?_
  · refine ⟨rfl, (Turns.refl so.properRm).congr fun a _ b _ => ?_⟩
    rw [if_neg (by omega)]
  · obtain ⟨sameMtp, turns⟩ := so₁
    have good := so.proper t (by rw [so.row]; exact small) t (by rw [so.col]; exact small)
    rw [meets_get_bind, sameMtp]
    refine meets_ite (fun _ => ?_) (fun one => ?_)
    · refine fits_compute (reci_holds good) fun k same => ?_
      have defined : k.Proper := by rw [same]; exact normal_proper _
      have factor : k.val = (s.mtp.val t t)⁻¹ := by
        rw [same, normal_val]
        rfl
      refine Meets.mono (fits_onRm (timesRow_turns turns.proper
        (by rw [turns.row, so.rowRm]; exact small) (turns.col.trans so.colRm) defined)) ?_
      rintro _ s₂ ⟨sameMtp', turns'⟩
      refine ⟨sameMtp'.trans sameMtp, (turns.trans turns').congr fun a row b col => ?_⟩
      rw [turns.val a row b col, factor]
      by_cases own : a = t
      · rw [if_pos own, if_neg (by omega), if_pos (by omega), own]
      · rw [if_neg own]
        exact if_congr (by omega) rfl rfl
    · -- What is one already needs no division.
      rw [not_or, not_not, not_not] at one
      have unit : s.mtp.val t t = 1 := by
        unfold Mat.val RN.val
        rw [one.1, one.2]
        norm_num
      refine ⟨sameMtp, turns.congr fun a _ b _ => ?_⟩
      by_cases own : a = t
      · rw [if_neg (by omega), if_pos (by omega), own, unit, inv_one, one_mul]
      · exact if_congr (by omega) rfl rfl
  · exact so'.2.congr fun a low b _ => if_pos (by rw [← so.rowRm]; exact low)

/-- The three passes give the inverse, or find out that there is none. -/
theorem invPasses_inverts (rows : 0 < n) (small : n < 2 ^ 32) (so : PairOk A s) :
    Fits (invPasses n) s fun found s' => if found = true then
      A.det ≠ 0 ∧ s'.rm.row = n ∧ s'.rm.col = n ∧ s'.rm.Proper ∧ s'.rm.toMatrix n n * A = 1
      else A.det = 0 := by
  unfold invPasses
  refine Meets.bind (invDown_finds so n le_rfl) fun found s₁ so₁ => ?_
  cases found with
  | false => exact so₁
  | true =>
    refine Meets.bind (invUp_clears rows small so₁) fun _ s₂ so₂ => ?_
    refine Meets.bind (invScale_turns so₂) fun _ s₃ turns => ?_
    obtain ⟨d, unit, tracks⟩ := so₂.tracks
    have diagonal : ∀ i j : Fin n, s₂.mtp.toMatrix n n i j =
        if i = j then s₂.mtp.val i i else 0 := by
      intro i j
      by_cases same : i = j
      · rw [if_pos same, ← same]
        rfl
      · rw [if_neg same]
        exact so₂.empty i i.isLt j j.isLt fun equal => same (Fin.ext equal)
    -- The first matrix is diagonal, so that dividing by its diagonal makes it the identity.
    have inverse : s₃.rm.toMatrix n n * A = 1 := by
      have scaled := (tracks.scale fun i : Fin n => (s₂.mtp.val i i)⁻¹).2
      rw [turns.toMatrix so₂.rowRm so₂.colRm]
      refine scaled.trans ?_
      ext i j
      rw [Matrix.of_apply, diagonal, Matrix.one_apply]
      split
      · exact inv_mul_cancel₀ (so₂.pivots i i.isLt i.isLt)
      · exact mul_zero _
    refine ⟨?_, turns.row.trans so₂.rowRm, turns.col.trans so₂.colRm, turns.proper, inverse⟩
    intro zero
    have := congrArg Matrix.det inverse
    rw [Matrix.det_mul, zero, mul_zero, Matrix.det_one] at this
    exact zero_ne_one this

end Passes

/-! ## Products -/

section Products

variable {m n o h h1 h2 : Nat} {heap : MatHeap}

/-- One more product is added to an element. -/
theorem productAt_turns {mat1 mat2 mat : Mat} {i j k : Nat} (good1 : (mat1.dat i k).Proper)
    (good2 : (mat2.dat k j).Proper) (proper : mat.Proper) (low : i < mat.row)
    (narrow : j < mat.col) :
    Fits (productAt mat1 mat2 i j k) mat fun _ mat' => Turns mat mat' fun a b =>
      if a = i ∧ b = j then mat.val i j + mat1.val i k * mat2.val k j else mat.val a b := by
  unfold productAt
  rw [Fits, meets_get_bind]
  refine fits_compute (mult_holds good1 good2) fun product same => ?_
  have second : product.Proper := by rw [same]; exact normal_proper _
  refine fits_compute (plus_holds (proper i low j narrow) second) fun value result => ?_
  rw [Fits, meets_set]
  have defined : value.Proper := by rw [result]; exact normal_proper _
  refine (assign_turns proper defined i j).congr fun a _ b _ => ?_
  rw [result, same, normal_val, normal_val]
  rfl

/-- The first so many products of an element of the product. -/
def sumTo (mat1 mat2 : Mat) (k a b : Nat) : ℚ := ∑ x ∈ Finset.range k, mat1.val a x * mat2.val x b

/-- What `mat_mult` has computed so far, from the last row up and from the last column back. -/
def productSoFar (mat1 mat2 : Mat) (m n o r j k a b : Nat) : ℚ :=
  if m ≤ a + r ∨ a + r + 1 = m ∧ o ≤ b + j then sumTo mat1 mat2 n a b
  else if a + r + 1 = m ∧ b + j + 1 = o then sumTo mat1 mat2 k a b else 0

/-- The loops of `mat_mult` add up all products. -/
theorem productLoops_turns {mat1 mat2 : Mat} (good1 : ∀ i < m, ∀ k < n, (mat1.dat i k).Proper)
    (good2 : ∀ k < n, ∀ j < o, (mat2.dat k j).Proper) :
    Fits (forUpto m fun r => forUpto o fun j => forUpto n fun k =>
      productAt mat1 mat2 (m - 1 - r) (o - 1 - j) k) (blankMat m o)
      fun _ mat' => Turns (blankMat m o) mat' (sumTo mat1 mat2 n) := by
  -- An element is finished when both outer loops have passed it, and begun when they are at it.
  have none : ∀ a b, sumTo mat1 mat2 0 a b = 0 := fun a b => Finset.sum_range_zero _
  have start : Turns (blankMat m o) (blankMat m o) (productSoFar mat1 mat2 m n o 0 0 0) := by
    refine ⟨rfl, rfl, fun _ _ _ _ => .inl rfl, fun a (low : a < m) b (narrow : b < o) => ?_⟩
    simp only [productSoFar, none]
    rw [if_neg (by omega), ite_self]
    simp [Mat.val, blankMat, frac, RN.val]
  refine Meets.mono (meets_forUpto
    (fun r mat' => Turns (blankMat m o) mat' (productSoFar mat1 mat2 m n o r 0 0)) m start
    fun r small mat₁ so₁ => ?_) fun _ mat' turns => turns.congr fun a low b _ => ?_
  · refine Meets.mono (meets_forUpto
      (fun j mat' => Turns (blankMat m o) mat' (productSoFar mat1 mat2 m n o r j 0)) o so₁
      fun j less mat₂ so₂ => ?_) fun _ mat' turns =>
        turns.congr fun a (low : a < m) b (narrow : b < o) => ?_
    · refine Meets.mono (meets_forUpto
        (fun k mat' => Turns (blankMat m o) mat' (productSoFar mat1 mat2 m n o r j k)) n so₂
        fun k early mat₃ so₃ => ?_) fun _ mat' turns =>
          turns.congr fun a (low : a < m) b (narrow : b < o) => ?_
      · have up : m - 1 - r < m := by omega
        have right : o - 1 - j < o := by omega
        refine Meets.mono (productAt_turns (good1 _ up _ early) (good2 _ early _ right) so₃.proper
          (by rw [so₃.row]; exact up) (by rw [so₃.col]; exact right)) fun _ mat' turns =>
            (so₃.trans turns).congr fun a (low : a < m) b (narrow : b < o) => ?_
        by_cases here : a = m - 1 - r ∧ b = o - 1 - j
        · obtain ⟨rfl, rfl⟩ := here
          rw [if_pos ⟨rfl, rfl⟩, so₃.val _ up _ right]
          simp only [productSoFar]
          rw [if_neg (by omega), if_pos (by omega), if_neg (by omega), if_pos (by omega)]
          exact (Finset.sum_range_succ _ _).symm
        · rw [if_neg here, so₃.val a low b narrow]
          simp only [productSoFar]
          have other : ¬ (a + r + 1 = m ∧ b + j + 1 = o) := by omega
          rw [if_neg other, if_neg other]
      · simp only [productSoFar, none]
        by_cases own : a + r + 1 = m ∧ b + j + 1 = o
        · rw [if_neg (by omega), if_pos own, if_pos (by omega)]
        · rw [if_neg own, ite_self]
          exact if_congr (by omega) rfl rfl
    · simp only [productSoFar, none, ite_self]
      exact if_congr (by omega) rfl rfl
  · simp only [productSoFar]
    rw [if_pos (by omega)]

/-- `mat_mult` gives the product. -/
theorem matMult_product (row1 : (heap.mats h1).row = m) (col1 : (heap.mats h1).col = n)
    (row2 : (heap.mats h2).row = n) (col2 : (heap.mats h2).col = o)
    (proper1 : (heap.mats h1).Proper) (proper2 : (heap.mats h2).Proper) :
    Fits (matMult h1 h2) heap fun product heap' => ∃ p, product = some p ∧
      (heap'.mats p).row = m ∧ (heap'.mats p).col = o ∧
      (heap'.mats p).toMatrix m o = (heap.mats h1).toMatrix m n * (heap.mats h2).toMatrix n o ∧
      Kept heap heap' := by
  have good1 : ∀ i < m, ∀ k < n, ((heap.mats h1).dat i k).Proper := fun i low k narrow =>
    proper1 i (by rw [row1]; exact low) k (by rw [col1]; exact narrow)
  have good2 : ∀ k < n, ∀ j < o, ((heap.mats h2).dat k j).Proper := fun k low j narrow =>
    proper2 k (by rw [row2]; exact low) j (by rw [col2]; exact narrow)
  unfold matMult
  rw [Fits, meets_get_bind]
  simp only [row1, col1, row2, col2]
  rw [if_neg (by simp)]
  refine fits_created (productLoops_turns good1 good2) fun _ heap₁ kept _ turns => ?_
  refine ⟨heap.next, rfl, turns.row, turns.col, ?_, kept⟩
  rw [Turns.toMatrix (m := m) (n := o) turns rfl rfl]
  ext a b
  rw [Matrix.mul_apply]
  exact (Fin.sum_univ_eq_sum_range
    (fun x => (heap.mats h1).val a x * (heap.mats h2).val x b) n).symm

/-- A routine works on two matrices of the memory. -/
theorem fits_onPair {B : Type} {mtp rm : Nat} {routine : PairRoutine B} {post : B → Pair → Prop}
    (fits : Fits routine ⟨heap.mats mtp, heap.mats rm⟩ post) :
    Fits (onPair mtp rm routine) heap fun value heap' =>
      ∃ s', heap' = (heap.put mtp s'.mtp).put rm s'.rm ∧ post value s' :=
  fits_part (fun s' => (heap.put mtp s'.mtp).put rm s'.rm) rfl fits

/-- The loop that makes the identity. -/
theorem identity_turns (n : Nat) : Fits (forUpto n fun r => modify fun mat =>
    mat.assign r r (frac 1 1)) (blankMat n n) fun _ mat' =>
      Turns (blankMat n n) mat' fun a b => if a = b then 1 else 0 := by
  have blank : Turns (blankMat n n) (blankMat n n) fun a b => if a = b ∧ a < 0 then 1 else 0 := by
    refine ⟨rfl, rfl, fun _ _ _ _ => .inl rfl, fun a _ b _ => ?_⟩
    simp [Mat.val, blankMat, frac, RN.val]
  refine Meets.mono (meets_forUpto (fun t mat' => Turns (blankMat n n) mat' fun a b =>
    if a = b ∧ a < t then 1 else 0) n blank fun t _ mat₁ so => ?_) fun _ mat' turns => ?_
  · have unit : (frac 1 1).Proper := .inr (by decide)
    have one : (frac 1 1).val = 1 := by simp [frac, RN.val]
    refine (so.trans (assign_turns so.proper unit t t)).congr fun a low b narrow => ?_
    by_cases here : a = t ∧ b = t
    · rw [if_pos here, if_pos (by omega), one]
    · rw [if_neg here, so.val a low b narrow]
      exact if_congr (by omega) rfl rfl
  · refine turns.congr fun a (low : a < n) b _ => ?_
    exact if_congr (and_iff_left low) rfl rfl

/-- The product of two matrices of the memory is the identity, and nothing else is changed. -/
def MultOne (n h1 h2 : Nat) (heap : MatHeap) : Prop :=
  Fits (matMult h1 h2) heap fun product heap' => ∃ p, product = some p ∧
    (heap'.mats p).row = n ∧ (heap'.mats p).col = n ∧ (heap'.mats p).toMatrix n n = 1 ∧
    Kept heap heap'

/-- Two matrices whose values are inverse to each other. -/
theorem multOne_of (row1 : (heap.mats h1).row = n) (col1 : (heap.mats h1).col = n)
    (row2 : (heap.mats h2).row = n) (col2 : (heap.mats h2).col = n)
    (proper1 : (heap.mats h1).Proper) (proper2 : (heap.mats h2).Proper)
    (inverse : (heap.mats h1).toMatrix n n * (heap.mats h2).toMatrix n n = 1) :
    MultOne n h1 h2 heap := by
  refine Meets.mono (matMult_product row1 col1 row2 col2 proper1 proper2) ?_
  rintro product heap' ⟨p, made, row, col, values, kept⟩
  exact ⟨p, made, row, col, values.trans inverse, kept⟩

/-- A copy of a matrix and the identity, before anything is done to them. -/
theorem pairOk_start {mat copy one : Mat} (row : mat.row = n) (col : mat.col = n)
    (proper : mat.Proper) (same : SameMat mat copy)
    (turns : Turns (blankMat n n) one fun a b => if a = b then 1 else 0) :
    PairOk (mat.toMatrix n n) ⟨copy, one⟩ := by
  have identity : one.toMatrix n n = 1 := by
    have shown : one.toMatrix n n = Matrix.of fun a b : Fin _ => if (a : Nat) = b then 1 else 0 :=
      Turns.toMatrix (m := n) (n := n) turns rfl rfl
    rw [shown]
    ext a b
    rw [Matrix.of_apply, Matrix.one_apply]
    exact if_congr Fin.ext_iff.symm rfl rfl
  refine ⟨same.row.trans row, same.col.trans col, turns.row, turns.col, same.proper proper,
    turns.proper, 1, one_ne_zero, ?_⟩
  rw [identity, same.toMatrix row col]
  exact Tracks.start _

end Products

end GlucOS.LaMat
