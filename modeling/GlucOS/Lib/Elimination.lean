import Mathlib

/-! Row operations that are carried out on a matrix and on the factor that leads to it. -/

namespace GlucOS

open Matrix

section Tracks

variable {K m n : Type*} [Field K] [Fintype m] [DecidableEq m]

/-- A matrix is a factor times the original one, and the determinant of the factor is known. -/
def Tracks (s : K) (A : Matrix m n K) (P : Matrix m m K) (M : Matrix m n K) : Prop :=
  P.det = s ∧ P * A = M

/-- Multiples of one row are added to the others. -/
def addRows {o : Type*} (w : m → K) (r : m) (M : Matrix m o K) : Matrix m o K :=
  of fun i j => M i j + w i * M r j

variable {s : K} {A M : Matrix m n K} {P : Matrix m m K}

/-- At first nothing is done. -/
theorem Tracks.start (A : Matrix m n K) : Tracks 1 A 1 A := ⟨det_one, Matrix.one_mul A⟩

/-- Adding multiples of a row to the others keeps the determinant. -/
theorem Tracks.add (tracks : Tracks s A P M) {w : m → K} {r : m} (own : w r = 0) :
    Tracks s A (addRows w r P) (addRows w r M) := by
  obtain ⟨det, product⟩ := tracks
  refine ⟨?_, ?_⟩
  · rw [← det]
    exact det_eq_of_forall_row_eq_smul_add_const w r own fun i j => rfl
  · ext i j
    rw [← product]
    simp only [addRows, mul_apply, of_apply, add_mul, Finset.sum_add_distrib, Finset.mul_sum,
      mul_assoc]

/-- Swapping two rows changes the sign. -/
theorem Tracks.swap (tracks : Tracks s A P M) {i r : m} (differ : i ≠ r) :
    Tracks (-s) A (P.submatrix (Equiv.swap i r) id) (M.submatrix (Equiv.swap i r) id) := by
  obtain ⟨det, product⟩ := tracks
  refine ⟨?_, ?_⟩
  · rw [det_permute, Equiv.Perm.sign_swap differ, det]
    simp
  · ext i j
    rw [← product]
    rfl

/-- Scaling rows scales the determinant. -/
theorem Tracks.scale (tracks : Tracks s A P M) (d : m → K) :
    Tracks ((∏ i, d i) * s) A (of fun i j => d i * P i j) (of fun i j => d i * M i j) := by
  obtain ⟨det, product⟩ := tracks
  refine ⟨?_, ?_⟩
  · rw [det_mul_column, det]
  · ext i j
    rw [← product]
    simp only [mul_apply, of_apply, Finset.mul_sum, mul_assoc]

/-- The rank is kept. -/
theorem Tracks.rank [Fintype n] (tracks : Tracks s A P M) (unit : s ≠ 0) : M.rank = A.rank := by
  obtain ⟨det, product⟩ := tracks
  rw [← product]
  exact rank_mul_eq_right_of_isUnit_det P A (by rw [det]; exact unit.isUnit)

end Tracks

section Square

variable {K : Type*} [Field K] {m n k : Nat}

/-- The determinant of the factor accounts for the difference. -/
theorem Tracks.det {s : K} {A P M : Matrix (Fin n) (Fin n) K} (tracks : Tracks s A P M) :
    M.det = s * A.det := by
  rw [← tracks.2, det_mul, tracks.1]

/-- Below the diagonal there is nothing. -/
theorem det_of_triangular {M : Matrix (Fin n) (Fin n) K}
    (triangular : ∀ i j : Fin n, j < i → M i j = 0) : M.det = ∏ i, M i i :=
  det_of_isUpperTriangular fun i j less => triangular i j less

/-- When all rows from one on are empty up to its column, the matrix is singular. -/
theorem det_of_gap {M : Matrix (Fin n) (Fin n) K} {r : Fin n}
    (empty : ∀ i j : Fin n, r ≤ i → j ≤ r → M i j = 0) : M.det = 0 := by
  -- The lower right block has an empty first column.
  rw [twoBlockTriangular_det M (fun i => i < r)
    fun i low j left => empty i j (not_lt.mp low) (le_of_lt left)]
  have column : (toSquareBlockProp M fun i => ¬ i < r).det = 0 :=
    det_eq_zero_of_column_eq_zero ⟨r, lt_irrefl r⟩ fun i =>
      empty i.1 r (not_lt.mp i.2) le_rfl
  rw [column, mul_zero]

/-- Stairs: each of the first rows has an element below which there is nothing, and they are all. -/
theorem rank_of_stairs {M : Matrix (Fin m) (Fin n) K} (rows : Fin k ↪ Fin m) (cols : Fin k → Fin n)
    (pivots : ∀ a, M (rows a) (cols a) ≠ 0) (below : ∀ a b, a < b → M (rows b) (cols a) = 0)
    (others : ∀ i, (∀ a, rows a ≠ i) → ∀ j, M i j = 0) : M.rank = k := by
  apply le_antisymm
  · -- Every row is one of the first ones, or empty.
    have factor : M = (of fun (i : Fin m) (a : Fin k) => if rows a = i then (1 : K) else 0) *
        M.submatrix rows id := by
      ext i j
      rw [mul_apply]
      by_cases found : ∃ a, rows a = i
      · obtain ⟨a, rfl⟩ := found
        rw [Finset.sum_eq_single a]
        · simp
        · intro b _ other
          simp [other]
        · simp
      · rw [others i (not_exists.mp found) j]
        refine (Finset.sum_eq_zero fun a _ => ?_).symm
        simp [not_exists.mp found a]
    rw [factor]
    exact (rank_mul_le_left _ _).trans (rank_le_width _)
  · -- The pivots form a triangle.
    have triangle : (M.submatrix rows cols).det = ∏ a, M (rows a) (cols a) :=
      det_of_triangular fun b a less => below a b less
    have unit : IsUnit (M.submatrix rows cols) := by
      rw [isUnit_iff_isUnit_det, triangle]
      exact (Finset.prod_ne_zero_iff.mpr fun a _ => pivots a).isUnit
    have full : (M.submatrix rows cols).rank = k := by
      rw [rank_of_isUnit _ unit, Fintype.card_fin]
    have chosen : M.submatrix rows cols =
        (of fun (a : Fin k) (i : Fin m) => if rows a = i then (1 : K) else 0) * M *
          (of fun (j : Fin n) (a : Fin k) => if j = cols a then (1 : K) else 0) := by
      ext a b
      simp [mul_apply]
    rw [← full, chosen]
    exact (rank_mul_le_left _ _).trans (rank_mul_le_right _ _)

end Square

end GlucOS
