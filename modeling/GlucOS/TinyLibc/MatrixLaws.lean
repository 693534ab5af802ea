import GlucOS.Lib.Elimination
import GlucOS.TinyLibc.Matrix
import GlucOS.TinyLibc.RationalLaws

/-! What the loops over rows and columns do to the values of a matrix. -/

namespace GlucOS.LaMat

open Routine

attribute [local irreducible] mult minu plus divd

/-- A routine that may only stop because of an overflow. -/
abbrev Fits {State A : Type} (routine : Routine State RnStop A) (state : State)
    (post : A → State → Prop) : Prop :=
  Meets (fun reason => reason = .overflow) routine state post

/-- A calculation and what follows. -/
theorem fits_compute {State A B : Type} {result : Except RnStop A} {good : A → Prop}
    {rest : A → Routine State RnStop B} {state : State} {post : B → State → Prop}
    (holds : Holds result good) (follows : ∀ value, good value → Fits (rest value) state post) :
    Fits (compute result >>= rest) state post := by
  cases result with
  | ok value => exact follows value holds
  | error reason => exact holds

/-- A calculation that comes last. -/
theorem fits_value {State A : Type} {result : Except RnStop A} {good : A → Prop} {state : State}
    {post : A → State → Prop} (holds : Holds result good)
    (follows : ∀ value, good value → post value state) : Fits (compute result) state post := by
  cases result with
  | ok value => exact follows value holds
  | error reason => exact holds

/-- The rational number in a place of a matrix. -/
def Mat.val (mat : Mat) (i j : Nat) : ℚ := (mat.dat i j).val

/-- Every element has a denominator, or is zero. -/
def Mat.Proper (mat : Mat) : Prop := ∀ i < mat.row, ∀ j < mat.col, (mat.dat i j).Proper

/-- A fraction is zero exactly if its numerator is. -/
theorem val_eq_zero {r : RN} (proper : r.Proper) : r.val = 0 ↔ r.p = 0 := by
  unfold RN.val
  rw [div_eq_zero_iff]
  constructor
  · rintro (zero | zero)
    · exact_mod_cast zero
    · exact proper.resolve_right fun nonzero => nonzero (by exact_mod_cast zero)
  · intro zero
    exact .inl (by exact_mod_cast zero)

/-- A matrix of the same size holds these values. -/
structure Turns (mat mat' : Mat) (f : Nat → Nat → ℚ) : Prop where
  /-- The same rows. -/
  row : mat'.row = mat.row
  /-- The same columns. -/
  col : mat'.col = mat.col
  /-- Elements with denominators. -/
  proper : mat'.Proper
  /-- The values. -/
  val : ∀ a < mat.row, ∀ b < mat.col, mat'.val a b = f a b

section Turns

variable {mat mat₁ mat' : Mat} {f g : Nat → Nat → ℚ} {i r j c first : Nat} {k : RN}

/-- Nothing is changed. -/
theorem Turns.refl (proper : mat.Proper) : Turns mat mat mat.val :=
  ⟨rfl, rfl, proper, fun _ _ _ _ => rfl⟩

/-- The values may be said in another way. -/
theorem Turns.congr (turns : Turns mat mat' f)
    (same : ∀ a < mat.row, ∀ b < mat.col, f a b = g a b) : Turns mat mat' g :=
  ⟨turns.row, turns.col, turns.proper, fun a low b narrow =>
    (turns.val a low b narrow).trans (same a low b narrow)⟩

/-- One change after the other. -/
theorem Turns.trans (first : Turns mat mat₁ f) (second : Turns mat₁ mat' g) : Turns mat mat' g := by
  refine ⟨second.row.trans first.row, second.col.trans first.col, second.proper, ?_⟩
  intro a low b narrow
  exact second.val a (by rw [first.row]; exact low) b (by rw [first.col]; exact narrow)

/-- The element that was assigned, and all others. -/
theorem Mat.assign_dat (mat : Mat) (i j : Nat) (value : RN) (a b : Nat) :
    (mat.assign i j value).dat a b = if a = i ∧ b = j then value else mat.dat a b := by
  unfold Mat.assign
  by_cases row : a = i
  · subst row
    by_cases col : b = j
    · subst col
      simp
    · simp [col]
  · simp [row]

/-- Assigning an element. -/
theorem assign_turns (proper : mat.Proper) {value : RN} (good : value.Proper) (i j : Nat) :
    Turns mat (mat.assign i j value) fun a b =>
      if a = i ∧ b = j then value.val else mat.val a b := by
  refine ⟨rfl, rfl, ?_, ?_⟩
  · intro a low b narrow
    rw [Mat.assign_dat]
    split
    · exact good
    · exact proper a low b narrow
  · intro a _ b _
    unfold Mat.val
    rw [Mat.assign_dat]
    split <;> rfl

/-- One element. -/
theorem minusAt_turns (proper : mat.Proper) (low : i < mat.row) (up : r < mat.row)
    (narrow : j < mat.col) (good : k.Proper) : Fits (minusAt i r j k) mat fun _ mat' =>
      Turns mat mat' fun a b =>
        if a = i ∧ b = j then mat.val i j - k.val * mat.val r j else mat.val a b := by
  unfold minusAt
  rw [Fits, meets_get_bind]
  refine fits_compute (mult_holds good (proper r up j narrow)) fun product same => ?_
  have second : product.Proper := by rw [same]; exact normal_proper _
  refine fits_compute (minu_holds (proper i low j narrow) second) fun value result => ?_
  rw [Fits, meets_set]
  have defined : value.Proper := by rw [result]; exact normal_proper _
  refine (assign_turns proper defined i j).congr fun a _ b _ => ?_
  rw [result, same, normal_val, normal_val]
  rfl

/-- A multiple of one row is taken from another, from a column on. -/
theorem minusRow_turns (proper : mat.Proper) (low : i < mat.row) (up : r < mat.row)
    (differ : i ≠ r) (good : k.Proper) : Fits (minusRow i r first k) mat fun _ mat' =>
      Turns mat mat' fun a b =>
        if a = i ∧ first ≤ b then mat.val a b - k.val * mat.val r b else mat.val a b := by
  -- So many elements are done after as many rounds.
  have start : Turns mat mat fun a b =>
      if a = i ∧ first ≤ b ∧ b < first + 0 then mat.val a b - k.val * mat.val r b
      else mat.val a b := by
    refine (Turns.refl proper).congr fun a _ b _ => ?_
    rw [if_neg (by omega)]
  unfold minusRow
  rw [Fits, meets_get_bind]
  refine Meets.mono (meets_forUpto (fun t mat' => Turns mat mat' fun a b =>
    if a = i ∧ first ≤ b ∧ b < first + t then mat.val a b - k.val * mat.val r b
    else mat.val a b) (mat.col - first) start fun t small mat₁ so => ?_) fun _ mat' turns => ?_
  · have one := minusAt_turns (j := first + t) so.proper (by rw [so.row]; exact low)
      (by rw [so.row]; exact up) (by rw [so.col]; omega) good
    refine Meets.mono one fun _ mat' turns => (so.trans turns).congr fun a row b col => ?_
    have inside : first + t < mat.col := by omega
    by_cases here : a = i ∧ b = first + t
    · obtain ⟨rfl, rfl⟩ := here
      rw [if_pos ⟨rfl, rfl⟩, so.val a low _ inside, so.val r up _ inside, if_neg (by omega),
        if_neg (by omega), if_pos ⟨rfl, by omega, by omega⟩]
    · rw [if_neg here, so.val a row b col]
      exact if_congr (by omega) rfl rfl
  · exact turns.congr fun a _ b narrow => if_congr (by omega) rfl rfl

/-- The rows below are cleared in the column of the pivot. -/
theorem eliminateBelow_turns (proper : mat.Proper) (up : r < mat.row) (narrow : c < mat.col) :
    Fits (eliminateBelow r c) mat fun _ mat' => Turns mat mat' fun a b =>
      if r < a ∧ c ≤ b then mat.val a b - mat.val a c / mat.val r c * mat.val r b
      else mat.val a b := by
  have start : Turns mat mat fun a b =>
      if r < a ∧ a < r + 1 + 0 ∧ c ≤ b then
        mat.val a b - mat.val a c / mat.val r c * mat.val r b
      else mat.val a b := by
    refine (Turns.refl proper).congr fun a _ b _ => ?_
    rw [if_neg (by omega)]
  unfold eliminateBelow
  rw [Fits, meets_get_bind]
  refine Meets.mono (meets_forUpto (fun t mat' => Turns mat mat' fun a b =>
    if r < a ∧ a < r + 1 + t ∧ c ≤ b then
      mat.val a b - mat.val a c / mat.val r c * mat.val r b
    else mat.val a b) (mat.row - (r + 1)) start fun t small mat₁ so => ?_) fun _ mat' turns => ?_
  · have low : r + 1 + t < mat.row := by omega
    rw [meets_get_bind]
    have row₁ : r + 1 + t < mat₁.row := by rw [so.row]; exact low
    have up₁ : r < mat₁.row := by rw [so.row]; exact up
    have col₁ : c < mat₁.col := by rw [so.col]; exact narrow
    refine fits_compute (divd_holds (so.proper _ row₁ _ col₁) (so.proper _ up₁ _ col₁))
      fun k same => ?_
    have good : k.Proper := by rw [same]; exact normal_proper _
    refine Meets.mono (minusRow_turns so.proper row₁ up₁ (by omega) good)
      fun _ mat' turns => (so.trans turns).congr fun a row b col => ?_
    -- The factor was computed from elements that no round before has changed.
    have factor : k.val = mat.val (r + 1 + t) c / mat.val r c := by
      have top := so.val _ low c narrow
      have pivot := so.val r up c narrow
      rw [if_neg (by omega)] at top pivot
      rw [same, normal_val, ← top, ← pivot]
      rfl
    by_cases here : a = r + 1 + t ∧ c ≤ b
    · obtain ⟨rfl, right⟩ := here
      rw [if_pos ⟨rfl, right⟩, factor, so.val _ row b col, so.val r up b col, if_neg (by omega),
        if_neg (by omega), if_pos ⟨by omega, by omega, right⟩]
    · rw [if_neg here, so.val a row b col]
      exact if_congr (by omega) rfl rfl
  · exact turns.congr fun a low b _ => if_congr (by omega) rfl rfl

/-- Which row is found where after a swap. -/
theorem swapRows_dat (mat : Mat) (i r a : Nat) :
    (mat.swapRows i r).dat a = mat.dat (Equiv.swap i r a) := by
  unfold Mat.swapRows
  rw [Equiv.swap_apply_def]
  by_cases second : a = r
  · subst second
    by_cases first : a = i
    · simp [first]
    · simp [first]
  · by_cases first : a = i
    · subst first
      simp [second]
    · simp [first, second]

/-- The same for the values. -/
theorem swapRows_val (mat : Mat) (i r a b : Nat) :
    (mat.swapRows i r).val a b = mat.val (Equiv.swap i r a) b := by
  unfold Mat.val
  rw [swapRows_dat]

/-- Swapped rows keep their elements. -/
theorem swapRows_turns (proper : mat.Proper) (low : i < mat.row) (up : r < mat.row) :
    Turns mat (mat.swapRows i r) fun a b => mat.val (Equiv.swap i r a) b := by
  refine ⟨rfl, rfl, ?_, fun a _ b _ => swapRows_val mat i r a b⟩
  intro a inside b narrow
  rw [swapRows_dat]
  refine proper _ ?_ b narrow
  rw [Equiv.swap_apply_def]
  split
  · exact up
  · split
    · exact low
    · exact inside

end Turns

/-! ## Matrices of rational numbers -/

/-- The matrix of the values. -/
def Mat.toMatrix (mat : Mat) (m n : Nat) : Matrix (Fin m) (Fin n) ℚ :=
  Matrix.of fun i j => mat.val i j

section Matrices

variable {m n r c i : Nat} {mat mat' : Mat} {f : Nat → Nat → ℚ}

/-- The values determine the matrix. -/
theorem Turns.toMatrix (turns : Turns mat mat' f) (row : mat.row = m) (col : mat.col = n) :
    mat'.toMatrix m n = Matrix.of fun i j : Fin _ => f i j := by
  ext a b
  exact turns.val a (by rw [row]; exact a.isLt) b (by rw [col]; exact b.isLt)

/-- Two rows of the matrix are swapped. -/
theorem toMatrix_swap (turns : Turns mat mat' fun a b => mat.val (Equiv.swap i r a) b)
    (row : mat.row = m) (col : mat.col = n) (low : i < m) (up : r < m) :
    mat'.toMatrix m n = (mat.toMatrix m n).submatrix (Equiv.swap ⟨i, low⟩ ⟨r, up⟩) id := by
  rw [turns.toMatrix row col]
  ext a b
  change mat.val (Equiv.swap i r a) b =
    mat.val ((Equiv.swap (⟨i, low⟩ : Fin m) ⟨r, up⟩ a : Fin m) : Nat) b
  congr 1
  rw [Equiv.swap_apply_def, Equiv.swap_apply_def]
  simp only [Fin.ext_iff]
  split
  · rfl
  · split <;> rfl

end Matrices

/-! ## Memory -/

section Heap

variable {A : Type} {heap heap₁ : MatHeap} {h mtp : Nat}

/-- The matrices that were there before are as they were. -/
def Kept (heap heap' : MatHeap) : Prop := ∀ x < heap.next, heap'.mats x = heap.mats x

/-- Two matrices of the same size with the same elements. -/
structure SameMat (mat mat' : Mat) : Prop where
  /-- The rows. -/
  row : mat'.row = mat.row
  /-- The columns. -/
  col : mat'.col = mat.col
  /-- The elements. -/
  dat : ∀ i < mat.row, ∀ j < mat.col, mat'.dat i j = mat.dat i j

/-- What was put is found there. -/
@[simp] theorem put_same (heap : MatHeap) (h : Nat) (mat : Mat) :
    (heap.put h mat).mats h = mat := by
  unfold MatHeap.put
  simp

/-- Nothing else is changed by putting. -/
theorem put_other (heap : MatHeap) {h x : Nat} (mat : Mat) (differ : x ≠ h) :
    (heap.put h mat).mats x = heap.mats x := by
  unfold MatHeap.put
  simp [differ]

/-- A new matrix may be changed. -/
theorem Kept.put (kept : Kept heap heap₁) (new : heap.next ≤ h) (mat : Mat) :
    Kept heap (heap₁.put h mat) := by
  intro x old
  rw [put_other heap₁ mat (by omega)]
  exact kept x old

/-- A new matrix is put where none was. -/
theorem Kept.grow (heap : MatHeap) (mat : Mat) : Kept heap (heap.grow mat) := by
  intro x old
  unfold MatHeap.grow
  simp [Nat.ne_of_lt old]

/-- A routine that works on a part of a larger state. -/
theorem fits_part {Whole Part : Type} {whole : Whole} {outer : Routine Whole RnStop A} {part : Part}
    {routine : Routine Part RnStop A} {post : A → Part → Prop} (put : Part → Whole)
    (same : outer whole = (routine part).map fun answer => (answer.1, put answer.2))
    (fits : Fits routine part post) : Fits outer whole fun value whole' =>
      ∃ part', whole' = put part' ∧ post value part' := by
  unfold Fits Meets at fits ⊢
  rw [same]
  cases ran : routine part with
  | ok answer =>
    rw [ran] at fits
    exact ⟨answer.2, rfl, fits⟩
  | error reason =>
    rw [ran] at fits
    exact fits

/-- A routine works on one matrix. -/
theorem fits_onMat {routine : MatRoutine A} {post : A → Mat → Prop}
    (fits : Fits routine (heap.mats h) post) : Fits (onMat h routine) heap fun value heap' =>
      ∃ mat', heap' = heap.put h mat' ∧ post value mat' :=
  fits_part (heap.put h) rfl fits

/-- A matrix is allocated. -/
theorem fits_matCreate {m n : Nat} {rest : Nat → HeapRoutine A} {post : A → MatHeap → Prop}
    (follows : Fits (rest heap.next) (heap.grow (blankMat m n)) post) :
    Fits (matCreate m n >>= rest) heap post := by
  unfold matCreate
  rw [Fits, meets_assoc, meets_get_bind, meets_assoc, meets_set_bind, meets_pure_bind]
  exact follows

/-- A matrix is allocated and filled. -/
theorem fits_created {B : Type} {m n : Nat} {routine : MatRoutine B} {good : B → Mat → Prop}
    {rest : Nat → B → HeapRoutine A} {post : A → MatHeap → Prop}
    (fills : Fits routine (blankMat m n) good)
    (follows : ∀ value heap₁, Kept heap heap₁ → heap₁.next = heap.next + 1 →
      good value (heap₁.mats heap.next) → Fits (rest heap.next value) heap₁ post) :
    Fits (matCreate m n >>= fun mt => onMat mt routine >>= rest mt) heap post := by
  have fresh : (heap.grow (blankMat m n)).mats heap.next = blankMat m n := by
    simp [MatHeap.grow]
  rw [← fresh] at fills
  apply fits_matCreate
  refine Meets.bind (fits_onMat fills) ?_
  rintro value heap₁ ⟨mat', rfl, held⟩
  have kept := (Kept.grow heap (blankMat m n)).put le_rfl mat'
  exact follows value _ kept rfl (by rw [put_same]; exact held)

/-- `mat_copy` copies all elements. -/
theorem matCopy_same (mt mf : Nat) (heap : MatHeap) : Fits (matCopy mt mf) heap fun _ heap' =>
    ∃ mat', heap' = heap.put mt mat' ∧ SameMat (heap.mats mf) mat' := by
  unfold matCopy
  rw [Fits, meets_get_bind]
  refine fits_onMat ?_
  rw [Fits, meets_modify_bind]
  -- Row after row is copied, and each row element after element.
  refine Meets.mono (meets_forUpto (fun r mat => mat.row = (heap.mats mf).row ∧
    mat.col = (heap.mats mf).col ∧ ∀ i < r, ∀ j < (heap.mats mf).col,
      mat.dat i j = (heap.mats mf).dat i j) (heap.mats mf).row ?_ ?_) ?_
  · exact ⟨rfl, rfl, fun i less => absurd less (Nat.not_lt_zero i)⟩
  · intro r low mat so
    refine Meets.mono (meets_forUpto (fun c mat => mat.row = (heap.mats mf).row ∧
      mat.col = (heap.mats mf).col ∧ ∀ i j, j < (heap.mats mf).col → i < r ∨ i = r ∧ j < c →
        mat.dat i j = (heap.mats mf).dat i j) (heap.mats mf).col ?_ ?_) ?_
    · exact ⟨so.1, so.2.1, fun i j col early =>
        so.2.2 i (early.resolve_right fun none => absurd none.2 (Nat.not_lt_zero j)) j col⟩
    · intro c narrow mat so
      refine ⟨so.1, so.2.1, fun i j col early => ?_⟩
      rw [Mat.assign_dat]
      split
      · rename_i here
        rw [here.1, here.2]
      · exact so.2.2 i j col (by omega)
    · intro _ mat so
      exact ⟨so.1, so.2.1, fun i less j col => so.2.2 i j col (by omega)⟩
  · intro _ mat so
    exact ⟨so.1, so.2.1, so.2.2⟩

/-- A copy of a matrix is made. -/
theorem fits_copied {m n : Nat} {rest : Nat → HeapRoutine A} {post : A → MatHeap → Prop}
    (old : h < heap.next) (follows : ∀ heap₁, Kept heap heap₁ → heap₁.next = heap.next + 1 →
      SameMat (heap.mats h) (heap₁.mats heap.next) → Fits (rest heap.next) heap₁ post) :
    Fits (matCreate m n >>= fun mtp => matCopy mtp h >>= fun _ => rest mtp) heap post := by
  have kept := Kept.grow heap (blankMat m n)
  apply fits_matCreate
  refine Meets.bind (matCopy_same heap.next h _) ?_
  rintro _ heap₁ ⟨mat', rfl, same⟩
  rw [kept h old] at same
  exact follows _ (kept.put le_rfl mat') rfl (by rw [put_same]; exact same)

/-- A copy has the same values. -/
theorem SameMat.toMatrix {mat mat' : Mat} (same : SameMat mat mat') {m n : Nat}
    (row : mat.row = m) (col : mat.col = n) : mat'.toMatrix m n = mat.toMatrix m n := by
  ext a b
  exact congrArg RN.val
    (same.dat a (by rw [row]; exact a.isLt) b (by rw [col]; exact b.isLt))

/-- A copy has denominators too. -/
theorem SameMat.proper {mat mat' : Mat} (same : SameMat mat mat') (proper : mat.Proper) :
    mat'.Proper := by
  intro i low j narrow
  rw [same.row] at low
  rw [same.col] at narrow
  rw [same.dat i low j narrow]
  exact proper i low j narrow

end Heap

end GlucOS.LaMat
