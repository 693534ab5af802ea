import GlucOS.TinyLibc.Rational

/-! The arithmetic of fractions is that of rational numbers, as long as nothing overflows. -/

namespace GlucOS.LaMat

section Holds

variable {A B : Type} {routine : Except RnStop A} {rest : A → Except RnStop B} {post : A → Prop}

/-- The routine overflows, or its result is as wanted; it does not go wrong in another way. -/
def Holds (routine : Except RnStop A) (post : A → Prop) : Prop :=
  match routine with
  | .ok value => post value
  | .error reason => reason = .overflow

/-- A result at once. -/
@[simp] theorem holds_ok {value : A} : Holds (.ok value) post ↔ post value := Iff.rfl

/-- The same in a block. -/
@[simp] theorem holds_pure {value : A} : Holds (pure value) post ↔ post value := Iff.rfl

/-- One step and then another. -/
theorem Holds.bind {next : B → Prop} (first : Holds routine post)
    (second : ∀ value, post value → Holds (rest value) next) : Holds (routine >>= rest) next := by
  -- An overflow ends the whole.
  cases routine with
  | ok value => exact second value first
  | error reason => exact first

/-- A weaker condition. -/
theorem Holds.mono {weaker : A → Prop} (holds : Holds routine post)
    (weaken : ∀ value, post value → weaker value) : Holds routine weaker := by
  cases routine with
  | ok value => exact weaken value holds
  | error reason => exact holds

/-- What has not overflowed is as wanted. -/
theorem Holds.of_ok {value : A} (holds : Holds routine post) (ran : routine = .ok value) :
    post value := by
  rw [ran] at holds
  exact holds

end Holds

/-! ## Integers -/

/-- A value that fits is kept. -/
theorem fitsLong_holds (value : Int) : Holds (fitsLong value) fun kept =>
    kept = value ∧ -2 ^ 63 ≤ value ∧ value < 2 ^ 63 := by
  unfold fitsLong
  split
  · exact ⟨rfl, ‹_›⟩
  · rfl

/-- `labs_g` gives the absolute value. -/
theorem labsG_holds (x : Int) : Holds (labsG x) fun value => value = |x| := by
  unfold labsG
  split
  · rename_i negative
    exact (fitsLong_holds _).mono fun value kept => by rw [kept.1, abs_of_neg negative]
  · rename_i positive
    exact (abs_of_nonneg (Int.not_lt.mp positive)).symm

section Arithmetic

attribute [local irreducible] fitsLong labsG

/-- The loop of `gcd` computes the greatest common divisor. -/
theorem gcdLoop_eq (r1 r2 : Nat) (positive : 0 < r2) : gcdLoop r1 r2 = Nat.gcd r1 r2 := by
  -- Each round replaces the pair by the divisor and the remainder.
  induction r2 using Nat.strong_induction_on generalizing r1 with
  | _ r2 ih =>
    rw [gcdLoop, dif_pos positive, Nat.gcd_comm, Nat.gcd_rec]
    by_cases done : r1 % r2 = 0
    · rw [if_pos done, done, Nat.gcd_zero_left]
    · rw [if_neg done, ih (r1 % r2) (Nat.mod_lt _ positive) r2 (Nat.pos_of_ne_zero done),
        Nat.gcd_comm]

/-- `gcd` of a number and one other than zero. -/
theorem gcd_holds {im in_ : Int} (nonzero : in_ ≠ 0) :
    Holds (gcd im in_) fun g => g = Int.gcd im in_ := by
  unfold gcd
  refine (labsG_holds im).bind fun r1 same1 => (labsG_holds in_).bind fun r2 same2 => ?_
  have positive : 0 < |in_| := abs_pos.mpr nonzero
  have natural (x : Int) : |x|.toNat = x.natAbs := by rw [Int.abs_eq_natAbs, Int.toNat_natCast]
  rw [if_neg (by omega), holds_pure, gcdLoop_eq _ _ (by omega), same1, same2, natural, natural]
  rfl

/-- `lcm` of two positive numbers. -/
theorem lcm_holds {im in_ : Int} (left : 0 < im) (right : 0 < in_) :
    Holds (lcm im in_) fun m => m = im * in_ / Int.gcd im in_ := by
  unfold lcm
  refine (fitsLong_holds _).bind fun product kept => ?_
  refine (gcd_holds right.ne').bind fun g same => ?_
  refine (fitsLong_holds _).bind fun quotient small => (labsG_holds _).mono fun m value => ?_
  have positive : 0 < im * in_ := mul_pos left right
  have unsigned : product % 2 ^ 64 = im * in_ := by
    rw [kept.1]
    exact Int.emod_eq_of_lt positive.le (by omega)
  rw [value, small.1, unsigned, same]
  exact abs_of_nonneg (Int.ediv_nonneg positive.le (by omega))

attribute [local irreducible] gcd lcm

/-- `lpow` multiplies as often as its exponent says. -/
theorem lpowLoop_holds (base : Int) (n : Nat) :
    ∀ rt, Holds (lpowLoop base n rt) fun value => value = rt * base ^ n := by
  -- The accumulator holds the factors of the rounds before.
  induction n with
  | zero => intro rt; exact (by simp : rt = rt * base ^ 0)
  | succ n ih =>
    intro rt
    refine (fitsLong_holds _).bind fun product kept => (ih product).mono fun value same => ?_
    rw [same, kept.1, pow_succ]
    ring

/-! ## Fractions -/

/-- The rational number that a fraction stands for; 0/0 is zero. -/
def RN.val (r : RN) : ℚ := r.p / r.q

/-- A fraction with a denominator, or zero. -/
def RN.Proper (r : RN) : Prop := r.p = 0 ∨ r.q ≠ 0

/-- The fraction in lowest terms with a positive denominator. -/
def normal (value : ℚ) : RN := { p := value.num, q := value.den }

/-- Its value. -/
@[simp] theorem normal_val (value : ℚ) : (normal value).val = value := by
  unfold normal RN.val
  exact Rat.num_div_den value

/-- It has a denominator. -/
theorem normal_proper (value : ℚ) : (normal value).Proper :=
  .inr (by simp [normal])

/-- The sign that `Form` puts in front. -/
theorem sign_of_parts {a b : Nat} (first : a ≠ 0) (second : b ≠ 0) {p q : Int}
    (numerator : p = a ∨ p = -a) (denominator : q = b ∨ q = -b) :
    ((if decide (0 < p) ≠ decide (0 < q) then -1 else 1 : Int) : ℚ) * (a / b) = p / q := by
  have a0 : 0 < a := by omega
  have b0 : 0 < b := by omega
  have a1 : ¬ (a : Int) < 0 := by omega
  have b1 : ¬ (b : Int) < 0 := by omega
  -- There are four combinations of signs.
  cases numerator with
  | inl plus =>
    cases denominator with
    | inl plus' => subst plus plus'; simp [a0, b0]
    | inr minus' => subst plus minus'; simp [a0, b1, div_neg]
  | inr minus =>
    cases denominator with
    | inl plus' => subst minus plus'; simp [a1, b0, neg_div]
    | inr minus' => subst minus minus'; simp [a1, b1]

/-- Dividing both parts by their common divisor, with the sign in front, gives lowest terms. -/
theorem normal_eq {r : RN} (first : r.p ≠ 0) (second : r.q ≠ 0) : normal r.val =
    { p := (if decide (0 < r.p) ≠ decide (0 < r.q) then -1 else 1) *
        |r.p.tdiv (Int.gcd r.p r.q)|
      q := |r.q.tdiv (Int.gcd r.p r.q)| } := by
  obtain ⟨p, q⟩ := r
  have positive : 0 < Nat.gcd p.natAbs q.natAbs :=
    Nat.gcd_pos_of_pos_left _ (Int.natAbs_pos.mpr first)
  have quotient (x : Int) : |x.tdiv (Int.gcd p q)| = ((x.natAbs / Int.gcd p q : Nat) : Int) := by
    rw [Int.abs_eq_natAbs, Int.natAbs_tdiv]
    rfl
  rw [quotient, quotient]
  have coprime := Nat.coprime_div_gcd_div_gcd positive
  obtain ⟨a, numerator⟩ := Nat.gcd_dvd_left p.natAbs q.natAbs
  obtain ⟨b, denominator⟩ := Nat.gcd_dvd_right p.natAbs q.natAbs
  have same : Int.gcd p q = Nat.gcd p.natAbs q.natAbs := rfl
  generalize Nat.gcd p.natAbs q.natAbs = g at *
  have top : p.natAbs / g = a := by rw [numerator, Nat.mul_div_cancel_left a positive]
  have bottom : q.natAbs / g = b := by rw [denominator, Nat.mul_div_cancel_left b positive]
  rw [top, bottom] at coprime
  rw [same, top, bottom]
  have above : g * a ≠ 0 := by rw [← numerator]; exact Int.natAbs_ne_zero.mpr first
  have below : g * b ≠ 0 := by rw [← denominator]; exact Int.natAbs_ne_zero.mpr second
  have g0 : (g : ℚ) ≠ 0 := by exact_mod_cast positive.ne'
  have signed : ((if decide (0 < p) ≠ decide (0 < q) then -1 else 1 : Int) : ℚ) *
      ((g * a : Nat) / (g * b : Nat)) = p / q :=
    sign_of_parts above below (by omega) (by omega)
  have unit : (if decide (0 < p) ≠ decide (0 < q) then -1 else 1 : Int).natAbs = 1 := by
    split <;> rfl
  have b0 : (0 : Int) < b := by
    have := Nat.pos_of_ne_zero (Nat.ne_zero_of_mul_ne_zero_right below)
    omega
  change normal ((p : ℚ) / q) =
    { p := (if decide (0 < p) ≠ decide (0 < q) then -1 else 1) * a, q := b }
  generalize (if decide (0 < p) ≠ decide (0 < q) then -1 else 1 : Int) = sgn at *
  have value : (p : ℚ) / q = ((sgn * a : Int) : ℚ) / ((b : Int) : ℚ) := by
    rw [← signed]
    push_cast
    rw [mul_div_mul_left _ _ g0, mul_div_assoc]
  have lowest : Nat.Coprime (sgn * a : Int).natAbs (b : Int).natAbs := by
    rw [Int.natAbs_mul, unit, one_mul]
    exact coprime
  unfold normal
  rw [value, Rat.num_div_eq_of_coprime b0 lowest, Rat.den_div_eq_of_coprime b0 lowest]

/-- `Form` gives lowest terms. -/
theorem form_holds {r : RN} (proper : r.Proper) : Holds (form r) fun r' => r' = normal r.val := by
  unfold form
  by_cases zero : r.p = 0
  · rw [if_pos zero]
    simp [normal, RN.val, zero]
  · rw [if_neg zero]
    have nonzero := proper.resolve_left zero
    refine (gcd_holds nonzero).bind fun g same => (fitsLong_holds _).bind fun divisor kept => ?_
    refine (labsG_holds _).bind fun p samep => (labsG_holds _).bind fun q sameq => ?_
    refine (fitsLong_holds _).bind fun p' keptp => ?_
    rw [holds_pure, normal_eq zero nonzero, keptp.1, samep, sameq, kept.1, same]

attribute [local irreducible] form

/-- `Mult` is exact. -/
theorem mult_holds {r1 r2 : RN} (first : r1.Proper) (second : r2.Proper) :
    Holds (mult r1 r2) fun r => r = normal (r1.val * r2.val) := by
  unfold mult
  refine (fitsLong_holds _).bind fun p keptp => (fitsLong_holds _).bind fun q keptq => ?_
  rw [keptp.1, keptq.1]
  have proper : RN.Proper { p := r1.p * r2.p, q := r1.q * r2.q } := by
    cases first with
    | inl zero => exact .inl (by simp [zero])
    | inr nonzero =>
      cases second with
      | inl zero => exact .inl (by simp [zero])
      | inr nonzero' => exact .inr (mul_ne_zero nonzero nonzero')
  have value : RN.val { p := r1.p * r2.p, q := r1.q * r2.q } = r1.val * r2.val := by
    unfold RN.val
    push_cast
    exact mul_div_mul_comm _ _ _ _
  rw [← value]
  exact form_holds proper

/-- The parts of a fraction in lowest terms change places, and the sign stays in front. -/
theorem normal_inv {value : ℚ} (nonzero : value.num ≠ 0) : normal value⁻¹ =
    { p := value.den * if value.num < 0 then -1 else 1, q := |value.num| } := by
  have swapped : RN.val { p := value.den, q := value.num } = value⁻¹ := by
    conv_rhs => rw [← Rat.num_div_den value]
    rw [inv_div]
    rfl
  have reduced : Int.gcd (value.den : Int) value.num = 1 := by
    rw [Int.gcd_comm]
    exact value.reduced
  have parts := normal_eq (r := { p := value.den, q := value.num }) (by simp) nonzero
  rw [swapped] at parts
  rw [parts]
  simp only [reduced, Nat.cast_one, Int.tdiv_one]
  congr 1
  have d0 : 0 < (value.den : Int) := by exact_mod_cast value.den_pos
  rw [abs_of_pos d0, mul_comm]
  congr 1
  by_cases negative : value.num < 0
  · have : ¬ 0 < value.num := by omega
    simp [negative, this, value.den_pos]
  · have : 0 < value.num := by omega
    simp [negative, this, value.den_pos]

/-- `Reci` is exact; it takes zero to zero. -/
theorem reci_holds {r : RN} (proper : r.Proper) :
    Holds (reci r) fun r' => r' = normal r.val⁻¹ := by
  unfold reci
  refine (form_holds proper).bind fun r' same => ?_
  rw [same]
  by_cases zero : (normal r.val).p = 0
  · rw [if_pos zero, holds_pure]
    have zero : r.val = 0 := Rat.num_eq_zero.mp zero
    simp [zero, normal]
  · rw [if_neg zero]
    refine (fitsLong_holds _).bind fun p keptp => (labsG_holds _).bind fun q sameq => ?_
    rw [holds_pure, normal_inv zero, keptp.1, sameq]
    rfl

/-- `Divd` is exact. -/
theorem divd_holds {r1 r2 : RN} (first : r1.Proper) (second : r2.Proper) :
    Holds (divd r1 r2) fun r => r = normal (r1.val / r2.val) := by
  unfold divd
  refine (reci_holds second).bind fun r same => ?_
  have product := mult_holds first (normal_proper r2.val⁻¹)
  rw [normal_val] at product
  rw [same, div_eq_mul_inv]
  exact product

/-- Two fractions in lowest terms are added over the least common multiple. -/
theorem plus_value (v1 v2 : ℚ) :
    ((v1.num * ((v1.den * v2.den / Int.gcd v1.den v2.den : Int).tdiv v1.den) +
      v2.num * ((v1.den * v2.den / Int.gcd v1.den v2.den : Int).tdiv v2.den) : Int) : ℚ) /
      ((v1.den * v2.den / Int.gcd v1.den v2.den : Int) : ℚ) = v1 + v2 ∧
    (v1.den * v2.den / Int.gcd v1.den v2.den : Int) ≠ 0 := by
  have positive : 0 < Nat.gcd v1.den v2.den := Nat.gcd_pos_of_pos_left _ v1.den_pos
  obtain ⟨e1, first⟩ := Nat.gcd_dvd_left v1.den v2.den
  obtain ⟨e2, second⟩ := Nat.gcd_dvd_right v1.den v2.den
  have same : Int.gcd (v1.den : Int) v2.den = Nat.gcd v1.den v2.den := rfl
  rw [same]
  generalize Nat.gcd v1.den v2.den = g at *
  have d1 := v1.den_pos
  have d2 := v2.den_pos
  have lcm1 : (v1.den * v2.den / (g : Int) : Int) = v1.den * e2 := by
    rw [second]
    push_cast
    rw [mul_left_comm, Int.mul_ediv_cancel_left _ (by omega)]
  have lcm2 : (v1.den * v2.den / (g : Int) : Int) = v2.den * e1 := by
    rw [first]
    push_cast
    rw [mul_assoc, Int.mul_ediv_cancel_left _ (by omega), mul_comm]
  have quotient1 : (v1.den * v2.den / (g : Int) : Int).tdiv v1.den = e2 := by
    rw [lcm1, Int.mul_tdiv_cancel_left _ (by omega)]
  have quotient2 : (v1.den * v2.den / (g : Int) : Int).tdiv v2.den = e1 := by
    rw [lcm2, Int.mul_tdiv_cancel_left _ (by omega)]
  rw [quotient1, quotient2]
  have e1pos : 0 < e1 := Nat.pos_of_ne_zero (by rintro rfl; omega)
  have e2pos : 0 < e2 := Nat.pos_of_ne_zero (by rintro rfl; omega)
  refine ⟨?_, by rw [lcm1]; positivity⟩
  have left : v1 = (v1.num * e2 : ℚ) / (v1.den * e2) := by
    rw [mul_div_mul_right _ _ (by positivity)]
    exact (Rat.num_div_den v1).symm
  have right : v2 = (v2.num * e1 : ℚ) / (v2.den * e1) := by
    rw [mul_div_mul_right _ _ (by positivity)]
    exact (Rat.num_div_den v2).symm
  have shared : (v1.den * e2 : ℚ) = v2.den * e1 := by exact_mod_cast lcm1.symm.trans lcm2
  conv_rhs => rw [left, right, ← shared]
  rw [lcm1]
  push_cast
  rw [add_div]

/-- `Plus` is exact. -/
theorem plus_holds {r1 r2 : RN} (first : r1.Proper) (second : r2.Proper) :
    Holds (plus r1 r2) fun r => r = normal (r1.val + r2.val) := by
  unfold plus
  refine (form_holds first).bind fun r1' same1 => (form_holds second).bind fun r2' same2 => ?_
  rw [same1, same2]
  have positive (value : ℚ) : 0 < (normal value).q := by
    change 0 < (value.den : Int)
    exact_mod_cast value.den_pos
  refine (lcm_holds (positive _) (positive _)).bind fun q sameq => ?_
  refine (fitsLong_holds _).bind fun left keptl => (fitsLong_holds _).bind fun right keptr => ?_
  refine (fitsLong_holds _).bind fun p keptp => ?_
  obtain ⟨value, nonzero⟩ := plus_value r1.val r2.val
  rw [keptp.1, keptl.1, keptr.1, sameq, ← value]
  exact form_holds (.inr nonzero)

/-- `Minu` is exact. -/
theorem minu_holds {r1 r2 : RN} (first : r1.Proper) (second : r2.Proper) :
    Holds (minu r1 r2) fun r => r = normal (r1.val - r2.val) := by
  unfold minu
  refine (mult_holds (.inr (by decide)) second).bind fun r same => ?_
  have value : r1.val - r2.val = r1.val + (normal ((frac (-1) 1).val * r2.val)).val := by
    rw [normal_val]
    simp [frac, RN.val]
    ring
  rw [same, value]
  exact plus_holds first (normal_proper _)

/-- `Power` with a positive exponent, or with zero. -/
theorem power_holds {r : RN} {n : Int} (nonneg : 0 ≤ n) :
    Holds (power r n) fun r' => r'.val = r.val ^ n := by
  unfold power
  by_cases zero : n = 0
  · rw [if_pos zero]
    simp [zero, RN.val]
  · rw [if_neg zero]
    have chosen : Holds (if 0 < n then .ok r else reci r) fun r' => r' = r := by
      rw [if_pos (by omega)]
      exact (rfl : r = r)
    refine chosen.bind fun r' same => ?_
    rw [same]
    refine (lpowLoop_holds r.p n.toNat 1).bind fun p samep => ?_
    refine (lpowLoop_holds r.q n.toNat 1).bind fun q sameq => ?_
    rw [holds_pure, samep, sameq]
    obtain ⟨m, rfl⟩ := Int.eq_ofNat_of_zero_le nonneg
    simp [RN.val, div_pow]

/-- `Power` with a negative exponent multiplies nothing. -/
theorem power_negative {r : RN} {n : Int} (negative : n < 0) (proper : r.Proper) :
    Holds (power r n) fun r' => r' = { p := 1, q := 1 } := by
  have none : n.toNat = 0 := by omega
  unfold power lpow
  rw [if_neg (by omega), none]
  have chosen : Holds (if 0 < n then .ok r else reci r) fun r' => r' = normal r.val⁻¹ := by
    rw [if_neg (by omega)]
    exact reci_holds proper
  refine chosen.bind fun r' _ => ?_
  exact (rfl : ({ p := 1, q := 1 } : RN) = { p := 1, q := 1 })

/-! ## The laws together -/

/-- What the arithmetic of fractions should do, as long as nothing overflows. -/
structure ExactArithmetic (r s : RN) (n : Int) : Prop where
  /-- Sums. -/
  plus : Holds (plus r s) fun result => result = normal (r.val + s.val)
  /-- Differences. -/
  minu : Holds (minu r s) fun result => result = normal (r.val - s.val)
  /-- Products. -/
  mult : Holds (mult r s) fun result => result = normal (r.val * s.val)
  /-- Quotients. -/
  divd : s.p ≠ 0 → Holds (divd r s) fun result => result = normal (r.val / s.val)
  /-- The reciprocal of the reciprocal. -/
  reci : r.p ≠ 0 → Holds (do let inverse ← reci r; reci inverse) fun result =>
    result = normal r.val
  /-- Powers, with the base other than zero if the exponent is negative. -/
  power : (n < 0 → r.p ≠ 0) → Holds (power r n) fun result => result.val = r.val ^ n

/-- A power that was computed should be right. -/
theorem ExactArithmetic.power_ok {r s value : RN} {n : Int} (exact : ExactArithmetic r s n)
    (based : n < 0 → r.p ≠ 0) (ran : LaMat.power r n = .ok value) : value.val = r.val ^ n :=
  (exact.power based).of_ok ran

/-- Taking the reciprocal twice gives lowest terms. -/
theorem reci_reci {r : RN} (proper : r.Proper) :
    Holds (do let inverse ← reci r; reci inverse) fun result => result = normal r.val := by
  refine (reci_holds proper).bind fun inverse same => ?_
  have back := reci_holds (normal_proper r.val⁻¹)
  rw [normal_val, inv_inv] at back
  rw [same]
  exact back

end Arithmetic

end GlucOS.LaMat
