import Mathlib

/-! Rational numbers of the user library as fractions of two `long` numbers. -/

namespace GlucOS.LaMat

/-- Why the arithmetic of the library goes wrong. -/
inductive RnStop
  /-- A value does not fit in 64 bits. -/
  | overflow
  /-- A division by zero. -/
  | divByZero
deriving DecidableEq, Repr

/-- `struct RN`. -/
structure RN where
  /-- The numerator. -/
  p : Int
  /-- The denominator. -/
  q : Int
deriving DecidableEq, Repr

/-- A value that is stored in a `long`. -/
def fitsLong (value : Int) : Except RnStop Int :=
  if -2 ^ 63 ≤ value ∧ value < 2 ^ 63 then .ok value else .error .overflow

/-- `labs_g`. -/
def labsG (x : Int) : Except RnStop Int := if x < 0 then fitsLong (-x) else .ok x

/-- The loop of `lpow`, which multiplies so many times. -/
def lpowLoop (base : Int) : Nat → Int → Except RnStop Int
  | 0, rt => .ok rt
  | n + 1, rt => do
    let rt ← fitsLong (rt * base)
    lpowLoop base n rt

/-- `lpow`, whose loop is not entered for a negative exponent. -/
def lpow (base n : Int) : Except RnStop Int := lpowLoop base n.toNat 1

/-- The loop of `gcd`, which is entered with a divisor other than zero. -/
def gcdLoop (r1 r2 : Nat) : Nat :=
  if _positive : 0 < r2 then
    if r1 % r2 = 0 then r2 else gcdLoop r2 (r1 % r2)
  else r1
termination_by r2
decreasing_by exact Nat.mod_lt _ _positive

/-- `gcd`. -/
def gcd (im in_ : Int) : Except RnStop Nat := do
  let r1 ← labsG im
  let r2 ← labsG in_
  if r2 = 0 then .error .divByZero else return gcdLoop r1.toNat r2.toNat

/-- `lcm`: the quotient is one of unsigned numbers. -/
def lcm (im in_ : Int) : Except RnStop Int := do
  let product ← fitsLong (im * in_)
  let g ← gcd im in_
  let quotient ← fitsLong (product % 2 ^ 64 / g)
  labsG quotient

/-- `Form`. -/
def form (r : RN) : Except RnStop RN :=
  if r.p = 0 then .ok { r with q := 1 }
  else do
    let sgn : Int := if decide (0 < r.p) ≠ decide (0 < r.q) then -1 else 1
    let g ← gcd r.p r.q
    let divisor ← fitsLong g
    let p ← labsG (r.p.tdiv divisor)
    let q ← labsG (r.q.tdiv divisor)
    let p ← fitsLong (sgn * p)
    return { p, q }

/-- `Frac`. -/
def frac (ip iq : Int) : RN := { p := ip, q := iq }

/-- `Mult`. -/
def mult (r1 r2 : RN) : Except RnStop RN := do
  let p ← fitsLong (r1.p * r2.p)
  let q ← fitsLong (r1.q * r2.q)
  form { p, q }

/-- `Reci`. -/
def reci (r : RN) : Except RnStop RN := do
  let r ← form r
  if r.p = 0 then return { p := 0, q := 1 }
  else
    let p ← fitsLong (r.q * if r.p < 0 then -1 else 1)
    let q ← labsG r.p
    return { p, q }

/-- `Divd`. -/
def divd (r1 r2 : RN) : Except RnStop RN := do
  let r ← reci r2
  mult r1 r

/-- `Plus`. -/
def plus (r1 r2 : RN) : Except RnStop RN := do
  let r1 ← form r1
  let r2 ← form r2
  let q ← lcm r1.q r2.q
  let left ← fitsLong (r1.p * q.tdiv r1.q)
  let right ← fitsLong (r2.p * q.tdiv r2.q)
  let p ← fitsLong (left + right)
  form { p, q }

/-- `Minu`. -/
def minu (r1 r2 : RN) : Except RnStop RN := do
  let r ← mult (frac (-1) 1) r2
  plus r1 r

/-- `Power`. -/
def power (r : RN) (n : Int) : Except RnStop RN :=
  if n = 0 then .ok { p := 1, q := 1 }
  else do
    let r ← (if 0 < n then .ok r else reci r : Except RnStop RN)
    let p ← lpow r.p n
    let q ← lpow r.q n
    return { p, q }

end GlucOS.LaMat
