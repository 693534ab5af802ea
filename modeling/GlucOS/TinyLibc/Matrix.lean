import GlucOS.Lib.Routine
import GlucOS.TinyLibc.Rational

/-! Matrices of the user library: elimination, rank, determinant and inverse. -/

namespace GlucOS.LaMat

open Routine

/-- `matrix`, with the rows that its pointers lead to. -/
structure Mat where
  /-- `row`. -/
  row : Nat
  /-- `col`. -/
  col : Nat
  /-- `dat`. -/
  dat : Nat → Nat → RN

/-- A routine that works on a matrix in place. -/
abbrev MatRoutine := Routine Mat RnStop

/-- The result of a calculation. -/
def compute {State A : Type} (result : Except RnStop A) : Routine State RnStop A := fun state =>
  result.map fun value => (value, state)

/-- An element of a matrix is assigned. -/
def Mat.assign (mat : Mat) (i j : Nat) (value : RN) : Mat :=
  { mat with dat := Function.update mat.dat i (Function.update (mat.dat i) j value) }

/-- Two pointers to rows change places. -/
def Mat.swapRows (mat : Mat) (i r : Nat) : Mat :=
  { mat with dat := Function.update (Function.update mat.dat i (mat.dat r)) r (mat.dat i) }

/-- The body that all eliminations share: a multiple of one element is taken from another. -/
def minusAt (i r j : Nat) (k : RN) : MatRoutine Unit := do
  let mat ← get
  let product ← compute (mult k (mat.dat r j))
  let value ← compute (minu (mat.dat i j) product)
  set (mat.assign i j value)

/-- The loop over a row from a column on. -/
def minusRow (i r first : Nat) (k : RN) : MatRoutine Unit := do
  let mat ← get
  forUpto (mat.col - first) fun j => minusAt i r (first + j) k

/-! ## Elimination -/

/-- The inner loop of the search: the first row below with something in the column. -/
def searchBelow (mat : Mat) (r c : Nat) : Option Nat :=
  (List.range' (r + 1) (mat.row - (r + 1))).find? fun i => (mat.dat i c).p ≠ 0

/-- The search for a pivot over so many columns, with the column behind the one where it ends. -/
def searchColumns (mat : Mat) (r : Nat) : Nat → Nat → Nat × Option Nat
  | 0, c => (c, none)
  | left + 1, c =>
    match searchBelow mat r c with
    | some i => (c + 1, some i)
    | none => searchColumns mat r left (c + 1)

/-- The loop of `mat_gauss_elim` over the rows below the pivot. -/
def eliminateBelow (r c : Nat) : MatRoutine Unit := do
  let mat ← get
  forUpto (mat.row - (r + 1)) fun i => do
    let mat ← get
    let k ← compute (divd (mat.dat (r + 1 + i) c) (mat.dat r c))
    minusRow (r + 1 + i) r c k

/-- The end of one round of `mat_gauss_elim`. -/
def eliminate (r c : Nat) : MatRoutine Unit := do
  let mat ← get
  if (mat.dat r c).p ≠ 0 then eliminateBelow r c else return ()

/-- One round of `mat_gauss_elim`; it tells how many rows it has swapped. -/
def gaussRound (r : Nat) : MatRoutine Nat := do
  let mat ← get
  if (mat.dat r r).p = 0 then
    match searchColumns mat r (mat.col - r) r with
    | (c, some i) =>
      set (mat.swapRows i r)
      eliminate r (c - 1)
      return 1
    | (c, none) =>
      eliminate r (c - 1)
      return 0
  else
    eliminate r r
    return 0

/-- So many rounds of `mat_gauss_elim`, with the swaps counted. -/
def gaussRounds : Nat → MatRoutine Nat
  | 0 => pure 0
  | r + 1 => do
    let sct ← gaussRounds r
    let swapped ← gaussRound r
    return sct + swapped

/-- How many rounds there are; the number of rows minus one is one of an `unsigned int`. -/
def Mat.rounds (mat : Mat) : Nat := min ((mat.row + 2 ^ 32 - 1) % 2 ^ 32) mat.col

/-- The elimination of `mat_gauss_elim`, which is all that it does for a determinant. -/
def matGaussElim : MatRoutine Nat := do
  let mat ← get
  gaussRounds mat.rounds

/-- Whether a row has an element other than zero. -/
def Mat.rowUsed (mat : Mat) (i : Nat) : Bool :=
  (List.range mat.col).any fun j => (mat.dat i j).p ≠ 0

/-- The search of `mat_gauss_elim` for the last row that is used, from so many rows down. -/
def lastUsed (mat : Mat) : Nat → Nat
  | 0 => 0
  | i + 1 => if mat.rowUsed i then i + 1 else lastUsed mat i

/-- `mat_gauss_elim` for a rank. -/
def matGaussRank : MatRoutine Nat := do
  let _ ← matGaussElim
  let mat ← get
  return lastUsed mat mat.row

/-! ## Memory -/

/-- The matrices allocated so far. -/
structure MatHeap where
  /-- What each of them holds. -/
  mats : Nat → Mat
  /-- The next one to be allocated. -/
  next : Nat

/-- A routine that allocates matrices. -/
abbrev HeapRoutine := Routine MatHeap RnStop

/-- One matrix changes. -/
def MatHeap.put (heap : MatHeap) (h : Nat) (mat : Mat) : MatHeap :=
  { heap with mats := Function.update heap.mats h mat }

/-- A routine works on one matrix in place. -/
def onMat {A : Type} (h : Nat) (routine : MatRoutine A) : HeapRoutine A := fun heap =>
  (routine (heap.mats h)).map fun answer => (answer.1, heap.put h answer.2)

/-- `MAT_NULL`. -/
def matNull : Mat := { row := 0, col := 0, dat := fun _ _ => frac 0 0 }

/-- A matrix whose elements are all 0/0. -/
def blankMat (m n : Nat) : Mat := { row := m, col := n, dat := fun _ _ => frac 0 0 }

/-- The memory with one more matrix. -/
def MatHeap.grow (heap : MatHeap) (mat : Mat) : MatHeap where
  mats := Function.update heap.mats heap.next mat
  next := heap.next + 1

/-- `mat_create`. -/
def matCreate (m n : Nat) : HeapRoutine Nat := do
  let heap ← get
  set (heap.grow (blankMat m n))
  return heap.next

/-- `mat_copy`. -/
def matCopy (mt mf : Nat) : HeapRoutine Unit := do
  let heap ← get
  onMat mt do
    modify fun mat => { mat with row := (heap.mats mf).row, col := (heap.mats mf).col }
    forUpto (heap.mats mf).row fun i => forUpto (heap.mats mf).col fun j =>
      modify fun mat => mat.assign i j ((heap.mats mf).dat i j)

/-- `mat_delete`. -/
def matDelete (h : Nat) : HeapRoutine Unit := modify fun heap => heap.put h matNull

/-- The product of the elements on the diagonal, from so many rows down. -/
def diagonal (mat : Mat) : Nat → RN → Except RnStop RN
  | 0, rR => .ok rR
  | i + 1, rR => do
    let rR ← mult rR (mat.dat i i)
    diagonal mat i rR

/-- `mat_det`. -/
def matDet (h : Nat) : HeapRoutine RN := do
  let heap ← get
  let mat := heap.mats h
  if mat.col ≠ mat.row ∨ mat.col = 0 ∨ mat.row = 0 then return frac 0 0
  else
    match mat.row with
    | 1 => return mat.dat 0 0
    | 2 => do
      let left ← compute (mult (mat.dat 0 0) (mat.dat 1 1))
      let right ← compute (mult (mat.dat 1 0) (mat.dat 0 1))
      compute (minu left right)
    | row => do
      let mtp ← matCreate row mat.col
      matCopy mtp h
      let sct ← onMat mtp matGaussElim
      let heap ← get
      let rR ← compute (diagonal (heap.mats mtp) row (frac (if sct % 2 ≠ 0 then -1 else 1) 1))
      matDelete mtp
      return rR

/-- `mat_rank`. -/
def matRank (h : Nat) : HeapRoutine Nat := do
  let heap ← get
  let mtp ← matCreate (heap.mats h).row (heap.mats h).col
  matCopy mtp h
  let rk ← onMat mtp matGaussRank
  matDelete mtp
  return rk

/-- The body of the innermost loop of `mat_mult`. -/
def productAt (mat1 mat2 : Mat) (i j k : Nat) : MatRoutine Unit := do
  let mat ← get
  let product ← compute (mult (mat1.dat i k) (mat2.dat k j))
  let value ← compute (plus (mat.dat i j) product)
  set (mat.assign i j value)

/-- `mat_mult`, which gives nothing for the null matrix. -/
def matMult (h1 h2 : Nat) : HeapRoutine (Option Nat) := do
  let heap ← get
  let mat1 := heap.mats h1
  let mat2 := heap.mats h2
  if mat1.col ≠ mat2.row then return none
  else
    let rm ← matCreate mat1.row mat2.col
    onMat rm (forUpto mat1.row fun r => forUpto mat2.col fun n => forUpto mat1.col fun k =>
      productAt mat1 mat2 (mat1.row - 1 - r) (mat2.col - 1 - n) k)
    return some rm

/-! ## Inverse -/

/-- The matrix that `mat_inv` eliminates, and the one that becomes the inverse. -/
structure Pair where
  /-- `mtp`. -/
  mtp : Mat
  /-- `rm`. -/
  rm : Mat

/-- A routine that works on both. -/
abbrev PairRoutine := Routine Pair RnStop

/-- A routine works on the first one. -/
def onMtp {A : Type} (routine : MatRoutine A) : PairRoutine A := fun s =>
  (routine s.mtp).map fun answer => (answer.1, { s with mtp := answer.2 })

/-- A routine works on the second one. -/
def onRm {A : Type} (routine : MatRoutine A) : PairRoutine A := fun s =>
  (routine s.rm).map fun answer => (answer.1, { s with rm := answer.2 })

/-- The search for a pivot below, with which both matrices swap rows. -/
def invSwap (r : Nat) : PairRoutine Unit := do
  let s ← get
  if (s.mtp.dat r r).p = 0 then
    match searchBelow s.mtp r r with
    | some i => set { mtp := s.mtp.swapRows i r, rm := s.rm.swapRows i r : Pair }
    | none => return ()
  else return ()

/-- The loop over the rows below the pivot. -/
def invBelow (n r : Nat) : PairRoutine Unit :=
  forUpto (n - (r + 1)) fun i => do
    let s ← get
    let k ← compute (divd (s.mtp.dat (r + 1 + i) r) (s.mtp.dat r r))
    onMtp (minusRow (r + 1 + i) r r k)
    onRm (minusRow (r + 1 + i) r 0 k)

/-- One round down; it tells whether there was a pivot. -/
def invDownRound (n r : Nat) : PairRoutine Bool := do
  invSwap r
  let s ← get
  if (s.mtp.dat r r).p = 0 then return false
  else
    invBelow n r
    return true

/-- So many rounds down. -/
def invDown (n : Nat) : Nat → PairRoutine Bool
  | 0 => pure true
  | r + 1 => do
    let found ← invDown n r
    if found then invDownRound n r else return false

/-- `n - 1`, where `n` is an `unsigned int`. -/
def lastRow (n : Nat) : Nat := (n + 2 ^ 32 - 1) % 2 ^ 32

/-- The loops from the last row up. -/
def invUp (n : Nat) : PairRoutine Unit :=
  forUpto (lastRow n) fun s => forUpto (lastRow n - s) fun i => do
    let r := lastRow n - s
    let pair ← get
    let k ← compute (divd (pair.mtp.dat (r - (i + 1)) r) (pair.mtp.dat r r))
    onMtp (minusAt (r - (i + 1)) r r k)
    onRm (minusRow (r - (i + 1)) r 0 k)

/-- One element is multiplied. -/
def timesAt (r j : Nat) (k : RN) : MatRoutine Unit := do
  let mat ← get
  let product ← compute (mult k (mat.dat r j))
  set (mat.assign r j product)

/-- The loop that divides each row by what is left on the diagonal. -/
def invScale (n : Nat) : PairRoutine Unit :=
  forUpto n fun r => do
    let s ← get
    if (s.mtp.dat r r).p ≠ 1 ∨ (s.mtp.dat r r).q ≠ 1 then
      let k ← compute (reci (s.mtp.dat r r))
      onRm (forUpto n fun j => timesAt r j k)
    else return ()

/-- All three passes; they tell whether there is an inverse. -/
def invPasses (n : Nat) : PairRoutine Bool := do
  let found ← invDown n n
  if found then
    invUp n
    invScale n
    return true
  else return false

/-- A routine works on two matrices. -/
def onPair {A : Type} (mtp rm : Nat) (routine : PairRoutine A) : HeapRoutine A := fun heap =>
  (routine { mtp := heap.mats mtp, rm := heap.mats rm }).map fun answer =>
    (answer.1, (heap.put mtp answer.2.mtp).put rm answer.2.rm)

/-- `mat_inv`, which gives nothing for the null matrix. -/
def matInv (h : Nat) : HeapRoutine (Option Nat) := do
  let heap ← get
  let n := (heap.mats h).row
  if n ≠ (heap.mats h).col then return none
  else
    let mtp ← matCreate n n
    matCopy mtp h
    let rm ← matCreate n n
    onMat rm (forUpto n fun r => modify fun mat => mat.assign r r (frac 1 1))
    let found ← onPair mtp rm (invPasses n)
    matDelete mtp
    if found then return some rm
    else
      matDelete rm
      return none

end GlucOS.LaMat
