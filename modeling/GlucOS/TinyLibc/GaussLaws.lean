import GlucOS.TinyLibc.MatrixLaws

/-! Elimination leaves a matrix from which the rank and the determinant can be read. -/

namespace GlucOS.LaMat

open Routine

section Search

variable {mat : Mat} {r c i left : Nat}

/-- A row that was found. -/
theorem searchBelow_some (found : searchBelow mat r c = some i) :
    r < i ∧ i < mat.row ∧ (mat.dat i c).p ≠ 0 := by
  have used := List.find?_some found
  have member := List.mem_of_find?_eq_some found
  rw [List.mem_range'_1] at member
  exact ⟨by omega, by omega, by simpa using used⟩

/-- No row was found. -/
theorem searchBelow_none (missing : searchBelow mat r c = none) {a : Nat} (below : r < a)
    (low : a < mat.row) : (mat.dat a c).p = 0 := by
  have empty := List.find?_eq_none.mp missing a (List.mem_range'_1.mpr (by omega))
  simpa using empty

/-- Where the search ends: every column that it has passed is empty below. -/
theorem searchColumns_spec (mat : Mat) (r left : Nat) : ∀ c,
    (∀ e, c ≤ e → e + 1 < (searchColumns mat r left c).1 → searchBelow mat r e = none) ∧
      match (searchColumns mat r left c).2 with
      | some i => c + 1 ≤ (searchColumns mat r left c).1 ∧
          (searchColumns mat r left c).1 ≤ c + left ∧
          searchBelow mat r ((searchColumns mat r left c).1 - 1) = some i
      | none => (searchColumns mat r left c).1 = c + left ∧
          ∀ e, c ≤ e → e < c + left → searchBelow mat r e = none := by
  -- One column is looked through after the other.
  induction left with
  | zero =>
    intro c
    refine ⟨fun e first last => ?_, ?_, fun e first last => ?_⟩
    · simp only [searchColumns] at last
      omega
    · rfl
    · omega
  | succ left ih =>
    intro c
    cases found : searchBelow mat r c with
    | some i =>
      have here : searchColumns mat r (left + 1) c = (c + 1, some i) := by
        simp [searchColumns, found]
      rw [here]
      refine ⟨fun e first last => ?_, le_rfl, by omega, found⟩
      simp only at last
      omega
    | none =>
      have next : searchColumns mat r (left + 1) c = searchColumns mat r left (c + 1) := by
        simp [searchColumns, found]
      obtain ⟨passed, ends⟩ := ih (c + 1)
      rw [next]
      refine ⟨fun e first last => ?_, ?_⟩
      · by_cases same : e = c
        · rw [same]
          exact found
        · exact passed e (by omega) last
      · cases result : (searchColumns mat r left (c + 1)).2 with
        | some i =>
          rw [result] at ends
          exact ⟨by omega, by omega, ends.2.2⟩
        | none =>
          rw [result] at ends
          refine ⟨by omega, fun e first last => ?_⟩
          by_cases same : e = c
          · rw [same]
            exact found
          · exact ends.2 e (by omega) (by omega)

end Search

/-! ## The invariant -/

/-- Each of the first rows has an element below which the matrix is empty. -/
def Stairs (mat : Mat) (m n t : Nat) : Prop :=
  ∀ i < t, ∃ c < n, mat.val i c ≠ 0 ∧ ∀ a, i < a → a < m → mat.val a c = 0

/-- All rows behind one are empty. -/
def EmptyAfter (mat : Mat) (m n t : Nat) : Prop :=
  ∀ i, t < i → i < m → ∀ j < n, mat.val i j = 0

/-- What holds after so many rounds and swaps. -/
structure Eliminated {m n : Nat} (A : Matrix (Fin m) (Fin n) ℚ) (r sct : Nat) (mat : Mat) :
    Prop where
  /-- The rows. -/
  row : mat.row = m
  /-- The columns. -/
  col : mat.col = n
  /-- Elements with denominators. -/
  proper : mat.Proper
  /-- Only row operations were made. -/
  tracks : ∃ P, Tracks ((-1) ^ sct) A P (mat.toMatrix m n)
  /-- The first columns are empty below the diagonal. -/
  triangular : ∀ i j, j < r → j < i → i < m → j < n → mat.val i j = 0
  /-- There were pivots up to some row, behind which nothing is left if the search has failed. -/
  stairs : ∃ t ≤ r, Stairs mat m n t ∧ (t < r → EmptyAfter mat m n t)

section Rounds

variable {m n r c sct : Nat} {A : Matrix (Fin m) (Fin n) ℚ} {mat mat' : Mat}

/-- Clearing the column of a pivot adds multiples of its row, left of which it is empty. -/
theorem clear_addRows (row : mat.row = m) (col : mat.col = n) (up : r < m)
    (before : ∀ j < c, mat.val r j = 0)
    (turns : Turns mat mat' fun a b =>
      if r < a ∧ c ≤ b then mat.val a b - mat.val a c / mat.val r c * mat.val r b
      else mat.val a b) :
    mat'.toMatrix m n = addRows
      (fun a : Fin m => if r < a then -(mat.val a c / mat.val r c) else 0) ⟨r, up⟩
      (mat.toMatrix m n) := by
  rw [turns.toMatrix row col]
  ext a b
  simp only [addRows, Matrix.of_apply, Mat.toMatrix]
  by_cases below : r < a
  · by_cases behind : c ≤ b
    · rw [if_pos ⟨below, behind⟩, if_pos below]
      ring
    · rw [if_neg (by omega), before b (by omega), mul_zero, add_zero]
  · rw [if_neg (by omega), if_neg below, zero_mul, add_zero]

/-- Clearing the column of a pivot is one more step of the stairs. -/
theorem Stairs.clear (stairs : Stairs mat m n r) (up : r < m) (narrow : c < n)
    (pivot : mat.val r c ≠ 0)
    (val : ∀ a < m, ∀ b < n, mat'.val a b = if r < a ∧ c ≤ b then
      mat.val a b - mat.val a c / mat.val r c * mat.val r b else mat.val a b) :
    Stairs mat' m n (r + 1) := by
  -- The pivot is the new step, and where a step was, both rows involved are empty below it.
  intro i small
  by_cases own : i = r
  · subst own
    refine ⟨c, narrow, ?_, fun a below low => ?_⟩
    · rw [val i up c narrow, if_neg (by omega)]
      exact pivot
    · rw [val a low c narrow, if_pos ⟨below, le_rfl⟩, div_mul_cancel₀ _ pivot, sub_self]
  · obtain ⟨d, col, used, empty⟩ := stairs i (by omega)
    refine ⟨d, col, ?_, fun a below low => ?_⟩
    · rw [val i (by omega) d col, if_neg (by omega)]
      exact used
    · rw [val a low d col]
      split
      · rw [empty a below low, empty r (by omega) up, mul_zero, sub_zero]
      · exact empty a below low

/-- Clearing the column of a pivot is a round. -/
theorem Eliminated.clear (so : Eliminated A r sct mat) (up : r < m) (right : r ≤ c) (narrow : c < n)
    (pivot : mat.val r c ≠ 0) (leading : ∀ j, r ≤ j → j < c → mat.val r j = 0)
    (passed : r < c → ∀ a, r < a → a < m → mat.val a r = 0) (stairs : Stairs mat m n r)
    (turns : Turns mat mat' fun a b =>
      if r < a ∧ c ≤ b then mat.val a b - mat.val a c / mat.val r c * mat.val r b
      else mat.val a b) : Eliminated A (r + 1) sct mat' := by
  have val := fun a (low : a < m) b (col : b < n) =>
    turns.val a (by rw [so.row]; exact low) b (by rw [so.col]; exact col)
  have before : ∀ j < c, mat.val r j = 0 := by
    intro j less
    by_cases left : j < r
    · exact so.triangular r j left left up (by omega)
    · exact leading j (by omega) less
  refine ⟨turns.row.trans so.row, turns.col.trans so.col, turns.proper, ?_, ?_, ?_⟩
  · obtain ⟨P, tracks⟩ := so.tracks
    rw [clear_addRows so.row so.col up before turns]
    exact ⟨_, tracks.add (by simp)⟩
  · intro i j first less low col
    rw [val i low j col]
    by_cases own : j = r
    · subst own
      by_cases here : c ≤ j
      · have same : c = j := by omega
        subst same
        rw [if_pos ⟨less, le_rfl⟩, div_mul_cancel₀ _ pivot, sub_self]
      · rw [if_neg (by omega)]
        exact passed (by omega) i less low
    · rw [if_neg (by omega)]
      exact so.triangular i j (by omega) less low col
  · exact ⟨r + 1, le_rfl, stairs.clear up narrow pivot val, fun more => absurd more (lt_irrefl _)⟩

/-- A swap with a row below. -/
theorem Eliminated.swap {i : Nat} (so : Eliminated A r sct mat) (low : i < m) (below : r < i)
    (stairs : Stairs mat m n r) :
    Eliminated A r (sct + 1) (mat.swapRows i r) ∧ Stairs (mat.swapRows i r) m n r := by
  have up : r < m := by omega
  have turns := swapRows_turns so.proper (by rw [so.row]; exact low) (by rw [so.row]; exact up)
  have val := swapRows_val mat i r
  -- Rows before stay, and rows from the pivot on stay there.
  have front : ∀ a < r, Equiv.swap i r a = a := fun a less =>
    Equiv.swap_apply_of_ne_of_ne (by omega) (by omega)
  have back : ∀ a, r ≤ a → a < m → r ≤ Equiv.swap i r a ∧ Equiv.swap i r a < m := by
    intro a behind inside
    rw [Equiv.swap_apply_def]
    split
    · omega
    · split <;> omega
  have stairs' : Stairs (mat.swapRows i r) m n r := by
    intro a less
    obtain ⟨d, col, used, empty⟩ := stairs a less
    refine ⟨d, col, ?_, fun x behind inside => ?_⟩
    · rw [val, front a less]
      exact used
    · rw [val]
      by_cases early : x < r
      · rw [front x early]
        exact empty x behind inside
      · have := back x (by omega) inside
        exact empty _ (by omega) this.2
  refine ⟨⟨turns.row.trans so.row, turns.col.trans so.col, turns.proper, ?_, ?_, ?_⟩, stairs'⟩
  · obtain ⟨P, tracks⟩ := so.tracks
    have differ : (⟨i, low⟩ : Fin m) ≠ ⟨r, up⟩ := by
      intro same
      have := Fin.mk.inj same
      omega
    refine ⟨P.submatrix (Equiv.swap ⟨i, low⟩ ⟨r, up⟩) id, ?_⟩
    rw [toMatrix_swap turns so.row so.col low up, pow_succ, mul_neg_one]
    exact tracks.swap differ
  · intro a j first less inside col
    rw [val]
    by_cases early : a < r
    · rw [front a early]
      exact so.triangular a j first less inside col
    · have := back a (by omega) inside
      exact so.triangular _ j first (by omega) this.2 col
  · exact ⟨r, le_rfl, stairs', fun more => absurd more (lt_irrefl _)⟩

/-- A round in which nothing is left below. -/
theorem Eliminated.exhaust (so : Eliminated A r sct mat) (up : r < m)
    (empty : EmptyAfter mat m n r) (turns : Turns mat mat' mat.val) :
    Eliminated A (r + 1) sct mat' := by
  have val := fun a (low : a < m) b (col : b < n) =>
    turns.val a (by rw [so.row]; exact low) b (by rw [so.col]; exact col)
  have same : mat'.toMatrix m n = mat.toMatrix m n := turns.toMatrix so.row so.col
  refine ⟨turns.row.trans so.row, turns.col.trans so.col, turns.proper,
    by rw [same]; exact so.tracks, ?_, ?_⟩
  · intro i j first less low col
    rw [val i low j col]
    by_cases own : j = r
    · exact empty i (by omega) low j col
    · exact so.triangular i j (by omega) less low col
  · obtain ⟨t, behind, stairs, last⟩ := so.stairs
    have kept {t' : Nat} (none : EmptyAfter mat m n t') : EmptyAfter mat' m n t' := by
      intro i below low j col
      rw [val i low j col]
      exact none i below low j col
    refine ⟨t, by omega, ?_, fun _ => ?_⟩
    · intro i less
      obtain ⟨d, col, used, none⟩ := stairs i less
      refine ⟨d, col, by rw [val i (by omega) d col]; exact used, fun a below low => ?_⟩
      rw [val a low d col]
      exact none a below low
    · by_cases early : t < r
      · exact kept (last early)
      · have same : t = r := by omega
        rw [same]
        exact kept empty

/-- While there is something left, there was a pivot in every round. -/
theorem Eliminated.allStairs (so : Eliminated A r sct mat) {i j : Nat} (from_ : r ≤ i) (low : i < m)
    (col : j < n) (used : mat.val i j ≠ 0) : Stairs mat m n r := by
  obtain ⟨t, behind, stairs, last⟩ := so.stairs
  by_cases early : t < r
  · exact absurd (last early i (by omega) low j col) used
  · have same : t = r := by omega
    rw [← same]
    exact stairs

/-- Whether an element is zero can be seen at its numerator. -/
theorem Eliminated.zero_iff (so : Eliminated A r sct mat) {i j : Nat} (low : i < m) (col : j < n) :
    (mat.dat i j).p = 0 ↔ mat.val i j = 0 :=
  (val_eq_zero (so.proper i (by rw [so.row]; exact low) j (by rw [so.col]; exact col))).symm

/-- The end of a round with a pivot. -/
theorem eliminate_clears (so : Eliminated A r sct mat) (up : r < m) (right : r ≤ c) (narrow : c < n)
    (pivot : mat.val r c ≠ 0) (leading : ∀ j, r ≤ j → j < c → mat.val r j = 0)
    (passed : r < c → ∀ a, r < a → a < m → mat.val a r = 0) :
    Fits (eliminate r c) mat fun _ mat' => Eliminated A (r + 1) sct mat' := by
  have stairs := so.allStairs le_rfl up narrow pivot
  unfold eliminate
  rw [Fits, meets_get_bind]
  refine meets_ite (fun _ => ?_) (fun zero => ?_)
  · refine Meets.mono (eliminateBelow_turns so.proper (by rw [so.row]; exact up)
      (by rw [so.col]; exact narrow)) fun _ mat' turns => ?_
    exact so.clear up right narrow pivot leading passed stairs turns
  · exact absurd ((so.zero_iff up narrow).mp (not_not.mp zero)) pivot

/-- The end of a round without one. -/
theorem eliminate_exhausts (so : Eliminated A r sct mat) (up : r < m) (narrow : c < n)
    (empty : EmptyAfter mat m n r) :
    Fits (eliminate r c) mat fun _ mat' => Eliminated A (r + 1) sct mat' := by
  unfold eliminate
  rw [Fits, meets_get_bind]
  refine meets_ite (fun _ => ?_) (fun _ => so.exhaust up empty (Turns.refl so.proper))
  refine Meets.mono (eliminateBelow_turns so.proper (by rw [so.row]; exact up)
    (by rw [so.col]; exact narrow)) fun _ mat' turns => so.exhaust up empty (turns.congr ?_)
  intro a low b _
  split
  · rename_i below
    rw [empty a below.1 (by rw [← so.row]; exact low) c narrow, zero_div, zero_mul, sub_zero]
  · rfl

/-- One round of the elimination. -/
theorem gaussRound_eliminates (so : Eliminated A r sct mat) (up : r < m) (right : r < n) :
    Fits (gaussRound r) mat fun swapped mat' => Eliminated A (r + 1) (sct + swapped) mat' := by
  unfold gaussRound
  rw [Fits, meets_get_bind]
  refine meets_ite (fun zero => ?_) (fun used => ?_)
  · have spec := searchColumns_spec mat r (mat.col - r) r
    cases search : searchColumns mat r (mat.col - r) r with
    | mk c found =>
      rw [search] at spec
      cases found with
      | some i =>
        obtain ⟨passed, first, last, found⟩ := spec
        obtain ⟨below, low, used⟩ := searchBelow_some found
        rw [so.row] at low
        rw [so.col] at last
        have clear : ∀ j, r ≤ j → j + 1 < c → ∀ a, r < a → a < m → mat.val a j = 0 :=
          fun j behind early a below inside => (so.zero_iff inside (by omega)).mp
            (searchBelow_none (passed j behind early) below (by rw [so.row]; exact inside))
        have corner : mat.val r r = 0 := (so.zero_iff up right).mp zero
        have pivot : mat.val i (c - 1) ≠ 0 := fun none =>
          used ((so.zero_iff low (by omega)).mpr none)
        have stairs := so.allStairs (by omega) low (by omega) pivot
        obtain ⟨swapped, -⟩ := so.swap low below stairs
        rw [meets_set_bind]
        refine Meets.bind (eliminate_clears (c := c - 1) swapped up (by omega) (by omega) ?_ ?_ ?_)
          fun _ mat' after => after
        · rw [swapRows_val, Equiv.swap_apply_right]
          exact pivot
        · intro j behind early
          rw [swapRows_val, Equiv.swap_apply_right]
          exact clear j behind (by omega) i below low
        · intro more a behind inside
          rw [swapRows_val, Equiv.swap_apply_def]
          split
          · exact corner
          · rw [if_neg (by omega)]
            exact clear r le_rfl (by omega) a behind inside
      | none =>
        obtain ⟨-, ends, passed⟩ := spec
        rw [so.col] at ends passed
        have empty : EmptyAfter mat m n r := by
          intro i below low j col
          by_cases left : j < r
          · exact so.triangular i j left (by omega) low col
          · exact (so.zero_iff low col).mp
              (searchBelow_none (passed j (by omega) (by omega)) below (by rw [so.row]; exact low))
        exact Meets.bind (eliminate_exhausts so up (by omega) empty) fun _ mat' after => after
  · have pivot : mat.val r r ≠ 0 := fun zero => used ((so.zero_iff up right).mpr zero)
    exact Meets.bind (eliminate_clears so up le_rfl right pivot (fun j _ _ => by omega)
      (fun less => absurd less (lt_irrefl _))) fun _ mat' after => after

/-- Before the first round. -/
theorem Eliminated.start (row : mat.row = m) (col : mat.col = n) (proper : mat.Proper) :
    Eliminated (mat.toMatrix m n) 0 0 mat where
  row := row
  col := col
  proper := proper
  tracks := ⟨1, by rw [pow_zero]; exact .start _⟩
  triangular := fun _ _ less => absurd less (Nat.not_lt_zero _)
  stairs := ⟨0, le_rfl, fun _ less => absurd less (Nat.not_lt_zero _),
    fun less => absurd less (Nat.not_lt_zero _)⟩

/-- So many rounds. -/
theorem gaussRounds_eliminates (row : mat.row = m) (col : mat.col = n) (proper : mat.Proper)
    (k : Nat) (rows : k ≤ m) (cols : k ≤ n) : Fits (gaussRounds k) mat fun sct mat' =>
      Eliminated (mat.toMatrix m n) k sct mat' := by
  -- The swaps of the rounds before are counted already.
  induction k with
  | zero => exact Eliminated.start row col proper
  | succ k ih =>
    refine Meets.bind (ih (by omega) (by omega)) fun sct mat₁ so => ?_
    exact Meets.bind (gaussRound_eliminates so (by omega) (by omega))
      fun swapped mat₂ after => after

/-- The whole elimination. -/
theorem matGaussElim_eliminates (row : mat.row = m) (col : mat.col = n) (proper : mat.Proper)
    (some_ : 0 < m) (small : m < 2 ^ 32) : Fits matGaussElim mat fun sct mat' =>
      Eliminated (mat.toMatrix m n) (min (m - 1) n) sct mat' := by
  have rounds : mat.rounds = min (m - 1) n := by
    unfold Mat.rounds
    rw [row, col]
    omega
  unfold matGaussElim
  rw [Fits, meets_get_bind, rounds]
  exact gaussRounds_eliminates row col proper _ (by omega) (by omega)

end Rounds

attribute [local irreducible] Mat.rounds matGaussElim

/-! ## The rank -/

section Rank

variable {m n sct t : Nat} {A : Matrix (Fin m) (Fin n) ℚ} {mat : Mat}

/-- The last row that is used, with none behind it. -/
theorem lastUsed_spec (mat : Mat) (m : Nat) : lastUsed mat m ≤ m ∧
    (∀ i, lastUsed mat m ≤ i → i < m → mat.rowUsed i = false) ∧
    (0 < lastUsed mat m → mat.rowUsed (lastUsed mat m - 1) = true) := by
  -- The search goes down from the last row.
  induction m with
  | zero =>
    refine ⟨le_rfl, fun i _ low => absurd low (Nat.not_lt_zero i), fun positive => ?_⟩
    exact absurd positive (lt_irrefl 0)
  | succ m ih =>
    obtain ⟨low, unused, used⟩ := ih
    unfold lastUsed
    by_cases last : mat.rowUsed m = true
    · rw [if_pos last]
      exact ⟨le_rfl, fun i behind inside => by omega, fun _ => last⟩
    · rw [if_neg last]
      refine ⟨by omega, fun i behind inside => ?_, used⟩
      by_cases same : i = m
      · rw [same]
        exact Bool.eq_false_iff.mpr last
      · exact unused i behind (by omega)

/-- A row is used if one of its values is not zero. -/
theorem Eliminated.used_iff {r : Nat} (so : Eliminated A r sct mat) {i : Nat} (low : i < m) :
    mat.rowUsed i = true ↔ ∃ j < n, mat.val i j ≠ 0 := by
  unfold Mat.rowUsed
  rw [List.any_eq_true]
  constructor
  · rintro ⟨j, member, used⟩
    have col : j < n := by
      rw [← so.col]
      exact List.mem_range.mp member
    exact ⟨j, col, fun zero => of_decide_eq_true used ((so.zero_iff low col).mpr zero)⟩
  · rintro ⟨j, col, used⟩
    refine ⟨j, List.mem_range.mpr (by rw [so.col]; exact col), decide_eq_true fun zero => ?_⟩
    exact used ((so.zero_iff low col).mp zero)

/-- At the end the rows behind the stairs are empty, but perhaps for the next one. -/
theorem Eliminated.ends (so : Eliminated A (min (m - 1) n) sct mat) :
    ∃ t, t ≤ m - 1 ∧ Stairs mat m n t ∧ EmptyAfter mat m n t := by
  obtain ⟨t, behind, stairs, last⟩ := so.stairs
  refine ⟨t, by omega, stairs, ?_⟩
  by_cases early : t < min (m - 1) n
  · exact last early
  · -- Either there is no row behind, or its columns were all visited.
    intro i below low j col
    exact so.triangular i j (by omega) (by omega) low col

/-- The number of the last row that is used is the rank. -/
theorem Eliminated.rank (so : Eliminated A (min (m - 1) n) sct mat) :
    A.rank = lastUsed mat m := by
  obtain ⟨t, inside, stairs, empty⟩ := so.ends
  obtain ⟨low, unused, used⟩ := lastUsed_spec mat m
  generalize lastUsed mat m = k at low unused used
  have blank : ∀ i, k ≤ i → i < m → ∀ j < n, mat.val i j = 0 := by
    intro i behind below j col
    by_contra there
    have := (so.used_iff below).mpr ⟨j, col, there⟩
    rw [unused i behind below] at this
    cases this
  have most : k ≤ t + 1 := by
    by_contra more
    obtain ⟨j, col, there⟩ := (so.used_iff (by omega)).mp (used (by omega))
    exact there (empty (k - 1) (by omega) (by omega) j col)
  have steps : Stairs mat m n k := by
    intro i less
    by_cases early : i < t
    · exact stairs i early
    · -- The row behind the stairs is the last one that is used.
      have same : i = k - 1 := by omega
      obtain ⟨j, col, there⟩ := (so.used_iff (by omega)).mp (used (by omega))
      rw [same]
      exact ⟨j, col, there, fun a below inside => empty a (by omega) inside j col⟩
  obtain ⟨P, tracks⟩ := so.tracks
  have sign : ((-1 : ℚ) ^ sct) ≠ 0 := pow_ne_zero _ (by norm_num)
  rw [← tracks.rank sign]
  choose cols narrow pivots below using fun i : Fin k => steps i i.isLt
  refine rank_of_stairs (Fin.castLEEmb low) (fun i => ⟨cols i, narrow i⟩) pivots ?_ ?_
  · intro a b less
    exact below a b less (lt_of_lt_of_le b.isLt low)
  · intro i other j
    refine blank i ?_ i.isLt j j.isLt
    by_contra early
    exact other ⟨i, by omega⟩ rfl

/-- `mat_gauss_elim` gives the rank. -/
theorem matGaussRank_rank (row : mat.row = m) (col : mat.col = n) (proper : mat.Proper)
    (some_ : 0 < m) (small : m < 2 ^ 32) : Fits matGaussRank mat fun rk _ =>
      rk = (mat.toMatrix m n).rank := by
  unfold matGaussRank
  refine Meets.bind (matGaussElim_eliminates row col proper some_ small) fun sct mat' so => ?_
  rw [meets_get_bind, meets_pure, so.row]
  exact so.rank.symm

end Rank

/-! ## The determinant -/

section Determinant

variable {n sct : Nat} {A : Matrix (Fin n) (Fin n) ℚ} {mat : Mat} {heap : MatHeap} {h : Nat}

/-- The product of the diagonal, with what was multiplied before. -/
theorem diagonal_holds (mat : Mat) (n : Nat) (good : ∀ i < n, (mat.dat i i).Proper) :
    ∀ rR : RN, rR.Proper → Holds (diagonal mat n rR) fun value =>
      value.val = rR.val * ∏ i ∈ Finset.range n, mat.val i i := by
  -- The loop goes down, so that the last factor is multiplied first.
  induction n with
  | zero => intro rR _; simp [diagonal]
  | succ n ih =>
    intro rR proper
    have first := mult_holds proper (good n (Nat.lt_succ_self n))
    refine first.bind fun product same => ?_
    have next : product.Proper := by rw [same]; exact normal_proper _
    refine (ih (fun i less => good i (by omega)) product next).mono fun value result => ?_
    rw [result, same, normal_val, Finset.prod_range_succ]
    unfold Mat.val
    ring

/-- The diagonal and the number of swaps give the determinant. -/
theorem Eliminated.det (so : Eliminated A (min (n - 1) n) sct mat) :
    A.det = (-1) ^ sct * ∏ i ∈ Finset.range n, mat.val i i := by
  obtain ⟨P, tracks⟩ := so.tracks
  have triangle : (mat.toMatrix n n).det = ∏ i : Fin n, mat.val i i :=
    det_of_triangular fun i j less => so.triangular i j (by omega) less i.isLt j.isLt
  have sign : ((-1 : ℚ) ^ sct) * (-1) ^ sct = 1 := by
    rw [← mul_pow]
    norm_num
  rw [← Fin.prod_univ_eq_prod_range (fun i => mat.val i i) n, ← triangle, tracks.det, ← mul_assoc,
    sign, one_mul]

/-- The sign that `mat_det` starts with. -/
theorem sign_val (sct : Nat) : (frac (if sct % 2 ≠ 0 then -1 else 1) 1).val = (-1) ^ sct := by
  rw [neg_one_pow_eq_pow_mod_two]
  have cases_ : sct % 2 = 0 ∨ sct % 2 = 1 := by omega
  cases cases_ with
  | inl even => simp [even, frac, RN.val]
  | inr odd => simp [odd, frac, RN.val]

/-- `mat_det` for matrices of more than two rows. -/
theorem matDet_large (old : h < heap.next) (row : (heap.mats h).row = n)
    (col : (heap.mats h).col = n) (proper : (heap.mats h).Proper) (some_ : 0 < n)
    (small : n < 2 ^ 32) : Fits (do
      let mtp ← matCreate n n
      matCopy mtp h
      let sct ← onMat mtp matGaussElim
      let heap ← get
      let rR ← compute (diagonal (heap.mats mtp) n (frac (if sct % 2 ≠ 0 then -1 else 1) 1))
      matDelete mtp
      return rR) heap fun value heap' =>
        value.val = ((heap.mats h).toMatrix n n).det ∧ Kept heap heap' := by
  refine fits_copied old fun heap₁ kept next same => ?_
  have elim := fits_onMat (matGaussElim_eliminates (same.row.trans row) (same.col.trans col)
    (same.proper proper) some_ small)
  refine Meets.bind elim ?_
  rintro sct heap₂ ⟨mat', rfl, so⟩
  rw [meets_get_bind, put_same]
  have good : ∀ i < n, (mat'.dat i i).Proper := fun i less =>
    so.proper i (by rw [so.row]; exact less) i (by rw [so.col]; exact less)
  have sign : (frac (if sct % 2 ≠ 0 then -1 else 1) 1).Proper := .inr (by simp [frac])
  refine fits_compute (diagonal_holds mat' n good _ sign) fun value result => ?_
  refine ⟨?_, (kept.put le_rfl _).put le_rfl _⟩
  rw [result, sign_val, ← same.toMatrix row col]
  exact so.det.symm

/-- `mat_det` gives the determinant of every square matrix. -/
theorem matDet_det (old : h < heap.next) (row : (heap.mats h).row = n)
    (col : (heap.mats h).col = n) (proper : (heap.mats h).Proper) (some_ : 0 < n)
    (small : n < 2 ^ 32) : Fits (matDet h) heap fun value heap' =>
      value.val = ((heap.mats h).toMatrix n n).det ∧ Kept heap heap' := by
  have good : ∀ i < n, ∀ j < n, ((heap.mats h).dat i j).Proper := fun i low j narrow =>
    proper i (by rw [row]; exact low) j (by rw [col]; exact narrow)
  have same : Kept heap heap := fun _ _ => rfl
  unfold matDet
  rw [Fits, meets_get_bind]
  simp only [row, col]
  rw [if_neg (by omega)]
  have sizes : n = 1 ∨ n = 2 ∨ ∃ k, n = k + 3 := by
    by_cases large : 3 ≤ n
    · exact .inr (.inr (Nat.exists_eq_add_of_le' large))
    · omega
  obtain rfl | rfl | ⟨k, rfl⟩ := sizes
  · refine ⟨?_, same⟩
    rw [Matrix.det_fin_one]
    rfl
  · have upper := mult_holds (good 0 (by omega) 0 (by omega)) (good 1 (by omega) 1 (by omega))
    have lower := mult_holds (good 1 (by omega) 0 (by omega)) (good 0 (by omega) 1 (by omega))
    refine fits_compute upper fun left first => ?_
    refine fits_compute lower fun right second => ?_
    have left' : left.Proper := by rw [first]; exact normal_proper _
    have right' : right.Proper := by rw [second]; exact normal_proper _
    refine fits_value (minu_holds left' right') fun value result => ⟨?_, same⟩
    rw [result, first, second, normal_val, normal_val, normal_val, Matrix.det_fin_two,
      mul_comm ((heap.mats h).dat 1 0).val]
    rfl
  · exact matDet_large old row col proper (by omega) small

end Determinant

/-- A memory with one matrix, in which the first pivot is missing. -/
def swappedHeap : MatHeap where
  mats := fun _ =>
    { row := 3, col := 3, dat := fun i j => if i + j = 2 then frac 1 2 else frac 0 0 }
  next := 1

/-- Its elements have denominators. -/
theorem swappedHeap_proper : (swappedHeap.mats 0).Proper := by
  intro i _ j _
  change RN.Proper (if i + j = 2 then frac 1 2 else frac 0 0)
  split
  · exact .inr (by decide)
  · exact .inl rfl

end GlucOS.LaMat
