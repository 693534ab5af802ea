import GlucOS.TinyLibc.Atoi

/-! What `atol` and `atoi` accept, and when they return. -/

namespace GlucOS

/-! ## Numerals -/

/-- The value of a digit, of which letters are hexadecimal ones. -/
def digitOf (base : Int) (ch : UInt8) : Option Int :=
  if isdigit ch then some (ch.toNat - 48)
  else if base = 16 ∧ 97 ≤ ch ∧ ch ≤ 102 then some (ch.toNat - 97 + 10)
  else if base = 16 ∧ 65 ≤ ch ∧ ch ≤ 70 then some (ch.toNat - 65 + 10)
  else none

/-- The value of digits behind others. -/
def digitsFrom (base : Int) : Int → CharBuf → Option Int
  | value, [] => some value
  | value, ch :: str =>
    (digitOf base ch).bind fun digit => digitsFrom base (value * base + digit) str

/-- Digits up to the end, decimal ones or hexadecimal ones behind their prefix. -/
inductive Magnitude : CharBuf → Int → Prop
  /-- Decimal digits. -/
  | decimal {str : CharBuf} {value : Int} (some_ : str ≠ [])
      (digits : digitsFrom 10 0 str = some value) : Magnitude str value
  /-- Hexadecimal digits behind `0x` or `0X`. -/
  | hexadecimal {x : UInt8} {str : CharBuf} {value : Int} (isX : x = 120 ∨ x = 88)
      (some_ : str ≠ []) (digits : digitsFrom 16 0 str = some value) :
      Magnitude (48 :: x :: str) value

/-- Blanks, an optional sign and digits. -/
inductive Numeral : CharBuf → Int → Prop
  /-- Without a sign. -/
  | unsigned {blanks str : CharBuf} {value : Int} (skip : ∀ ch ∈ blanks, isspace ch = true)
      (digits : Magnitude str value) : Numeral (blanks ++ str) value
  /-- With the sign of positive numbers. -/
  | plus {blanks str : CharBuf} {value : Int} (skip : ∀ ch ∈ blanks, isspace ch = true)
      (digits : Magnitude str value) : Numeral (blanks ++ 43 :: str) value
  /-- With that of negative ones. -/
  | minus {blanks str : CharBuf} {value : Int} (skip : ∀ ch ∈ blanks, isspace ch = true)
      (digits : Magnitude str value) : Numeral (blanks ++ 45 :: str) (-value)

/-- The number is one of so many bits. -/
def FitsBits (bits : Nat) (value : Int) : Prop := -2 ^ (bits - 1) ≤ value ∧ value < 2 ^ (bits - 1)

/-- A function from strings to numbers returns, and accepts the numerals. -/
structure ReadsNumerals (read : Nat → Option CharBuf → Option Int) (str : CharBuf) : Prop where
  /-- It returns. -/
  returns : ∃ rounds value, read rounds (some str) = some value
  /-- The value of a numeral. -/
  accepts : ∀ value, Numeral str value → FitsBits 64 value →
    ∃ rounds, read rounds (some str) = some value
  /-- Zero for any other string. -/
  refuses : (∀ value, ¬ Numeral str value) → ∃ rounds, read rounds (some str) = some 0

/-- The string begins with a blank. -/
def BeginsBlank (str : CharBuf) : Prop := isspace (charAt str 0) = true

/-! ## The loop over digits -/

/-- Numbers of 64 bits are `long`s. -/
theorem long_of_fits {value : Int} (fits : FitsBits 64 value) : long value = value := by
  obtain ⟨low, high⟩ := fits
  norm_num at low high
  unfold long
  rw [Int.bmod_eq_of_le] <;> norm_num <;> omega

/-- Exactly the numbers of 32 bits are `int`s. -/
theorem int_eq_self_iff (value : Int) : int value = value ↔ FitsBits 32 value := by
  unfold int FitsBits
  rw [Int.bmod_eq_iff (by decide)]
  norm_num

/-- One more digit of a `long`. -/
theorem long_digit (value base digit : Int) :
    long (long value * base + digit) = long (value * base + digit) := by
  -- Carries that are lost early are lost late, too.
  unfold long
  rw [← Int.bmod_add_bmod, Int.bmod_mul_bmod, Int.bmod_add_bmod]

/-- The number that digits behind others give, or zero when one of them is no digit. -/
def signed (negative : Bool) : Option Int → Int
  | none => 0
  | some value => long (if negative then -value else value)

/-- The loop over digits gives their value. -/
theorem convert_eq (negative : Bool) (base value : Int) (str : CharBuf) :
    convert negative base (long value) str = signed negative (digitsFrom base value str) := by
  induction str generalizing value with
  | nil =>
    cases negative with
    | false => rfl
    | true =>
      -- The sign comes last, when carries are lost already.
      exact Int.bmod_neg_bmod
  | cons ch str ih =>
    unfold convert digitsFrom digitOf
    simp only [long_digit, ih]
    by_cases digit : isdigit ch = true
    · rw [if_pos digit, if_pos digit]
      rfl
    rw [if_neg digit, if_neg digit]
    by_cases hex : base = 16
    · rw [if_pos hex]
      simp only [hex, true_and]
      split
      · rfl
      · split <;> rfl
    · rw [if_neg hex, if_neg (fun both => hex both.1), if_neg (fun both => hex both.1)]
      rfl

/-! ## Prefixes and signs -/

/-- The value of digits with their prefix. -/
def magnitudeOf (str : CharBuf) : Option Int :=
  if (charAt str 0 = 48 ∧ charAt str 1 = 120) ∨ (charAt str 0 = 48 ∧ charAt str 1 = 88) then
    digitsFrom 16 0 (str.drop 2)
  else digitsFrom 10 0 str

/-- Behind the sign their value is converted. -/
theorem convertPrefixed_eq (negative : Bool) (str : CharBuf) :
    convertPrefixed negative str = signed negative (magnitudeOf str) := by
  have zero : long 0 = 0 := rfl
  unfold convertPrefixed magnitudeOf
  split
  · rw [← convert_eq, zero]
  · rw [← convert_eq, zero]

/-- A first digit. -/
theorem digitsFrom_cons {base value : Int} {ch : UInt8} {str : CharBuf} {total : Int}
    (digits : digitsFrom base value (ch :: str) = some total) :
    ∃ digit, digitOf base ch = some digit ∧
      digitsFrom base (value * base + digit) str = some total :=
  Option.bind_eq_some_iff.mp digits

/-- Decimal digits are no letters. -/
theorem isdigit_of_decimal {ch : UInt8} {digit : Int} (is : digitOf 10 ch = some digit) :
    isdigit ch = true := by
  unfold digitOf at is
  split at is
  · assumption
  · simp at is

/-- A magnitude is read as its value. -/
theorem Magnitude.read {str : CharBuf} {value : Int} (digits : Magnitude str value) :
    magnitudeOf str = some value ∧ isdigit (charAt str 0) = true := by
  cases digits with
  | decimal some_ digits =>
    cases str with
    | nil => exact absurd rfl some_
    | cons ch str =>
      obtain ⟨digit, is, more⟩ := digitsFrom_cons digits
      refine ⟨?_, isdigit_of_decimal is⟩
      -- The second character is a decimal digit or the end, so there is no prefix.
      have second : charAt (ch :: str) 1 ≠ 120 ∧ charAt (ch :: str) 1 ≠ 88 := by
        cases str with
        | nil => exact ⟨show (0 : UInt8) ≠ 120 by decide, show (0 : UInt8) ≠ 88 by decide⟩
        | cons next str =>
          obtain ⟨_, is', -⟩ := digitsFrom_cons more
          have isDigit := isdigit_of_decimal is'
          change next ≠ 120 ∧ next ≠ 88
          constructor
          · intro same
            rw [same] at isDigit
            exact absurd isDigit (by decide)
          · intro same
            rw [same] at isDigit
            exact absurd isDigit (by decide)
      unfold magnitudeOf
      rw [if_neg (by tauto), digits]
  | hexadecimal isX some_ digits =>
    refine ⟨?_, by rfl⟩
    unfold magnitudeOf
    rw [if_pos]
    · exact digits
    · obtain rfl | rfl := isX
      · exact Or.inl ⟨rfl, rfl⟩
      · exact Or.inr ⟨rfl, rfl⟩

/-- What is read as a number other than zero is a magnitude. -/
theorem Magnitude.of_read {str : CharBuf} {value : Int} (read : magnitudeOf str = some value) :
    value = 0 ∨ Magnitude str value := by
  unfold magnitudeOf at read
  split at read
  · rename_i isPrefix
    -- The string has a second character, which no null character is.
    obtain ⟨x, rest, rfl, isX⟩ : ∃ x rest, str = 48 :: x :: rest ∧ (x = 120 ∨ x = 88) := by
      cases str with
      | nil => exact absurd isPrefix (by decide)
      | cons ch rest =>
        cases rest with
        | nil =>
          obtain ⟨-, second⟩ | ⟨-, second⟩ := isPrefix
          · exact absurd second (show (0 : UInt8) ≠ 120 by decide)
          · exact absurd second (show (0 : UInt8) ≠ 88 by decide)
        | cons x rest =>
          obtain ⟨first, second⟩ | ⟨first, second⟩ := isPrefix
          · exact ⟨x, rest, by rw [show ch = 48 from first], Or.inl second⟩
          · exact ⟨x, rest, by rw [show ch = 48 from first], Or.inr second⟩
    by_cases empty : rest = []
    · subst empty
      exact Or.inl (Option.some.inj read).symm
    · exact Or.inr (.hexadecimal isX empty read)
  · by_cases empty : str = []
    · subst empty
      exact Or.inl (Option.some.inj read).symm
    · exact Or.inr (.decimal empty read)

/-! ## Whole strings -/

/-- Leading blanks are never left behind. -/
theorem skipBlanks_blank {str : CharBuf} (blank : BeginsBlank str) (rounds : Nat) :
    skipBlanks rounds str = none := by
  induction rounds with
  | zero => rfl
  | succ rounds ih =>
    exact (if_pos blank).trans ih

/-- Without leading blanks, `atol` needs one round of its first loop. -/
def readNumber (str : CharBuf) : Int :=
  if charAt str 0 = 43 then convertPrefixed false (str.drop 1)
  else if charAt str 0 = 45 then convertPrefixed true (str.drop 1)
  else if isdigit (charAt str 0) then convertPrefixed false str
  else 0

/-- What `atol` does behind its first loop. -/
theorem atol_some (rounds : Nat) (str : CharBuf) :
    atol rounds (some str) = (skipBlanks rounds str).map readNumber := by
  unfold atol
  dsimp only
  cases skipBlanks rounds str with
  | none => rfl
  | some rest =>
    simp only [Option.bind_eq_bind, Option.bind_some, Option.pure_def, Option.map_some]
    unfold readNumber
    split
    · rfl
    · split
      · rfl
      · split <;> rfl

/-- For a leading blank it never returns. -/
theorem atol_blank {str : CharBuf} (blank : BeginsBlank str) (rounds : Nat) :
    atol rounds (some str) = none := by
  rw [atol_some, skipBlanks_blank blank]
  rfl

/-- What `atol` returns for a string without leading blanks. -/
theorem atol_eq {str : CharBuf} (clean : ¬ BeginsBlank str) {rounds : Nat} {value : Int} :
    atol rounds (some str) = some value ↔ 0 < rounds ∧ value = readNumber str := by
  rw [atol_some]
  cases rounds with
  | zero => simp [skipBlanks]
  | succ rounds =>
    have skipped : skipBlanks (rounds + 1) str = some str := if_neg clean
    simp [skipped, eq_comm]

/-- A numeral without leading blanks is read as its value. -/
theorem Numeral.read {str : CharBuf} {value : Int} (clean : ¬ BeginsBlank str)
    (numeral : Numeral str value) (fits : FitsBits 64 value) : readNumber str = value := by
  -- There are no blanks before the sign or the digits.
  have none_ : ∀ (blanks rest : CharBuf), (∀ ch ∈ blanks, isspace ch = true) →
      ¬ BeginsBlank (blanks ++ rest) → blanks = [] := by
    intro blanks rest skip clean
    cases blanks with
    | nil => rfl
    | cons ch blanks => exact absurd (skip ch List.mem_cons_self) clean
  cases numeral with
  | unsigned skip digits =>
    obtain rfl := none_ _ _ skip clean
    obtain ⟨read, digit⟩ := digits.read
    rw [List.nil_append]
    unfold readNumber
    rw [if_neg, if_neg, if_pos digit, convertPrefixed_eq, read]
    · exact long_of_fits fits
    · intro same
      rw [same] at digit
      exact absurd digit (by decide)
    · intro same
      rw [same] at digit
      exact absurd digit (by decide)
  | plus skip digits =>
    obtain rfl := none_ _ _ skip clean
    have behind := convertPrefixed_eq false
    change convertPrefixed false (List.drop 1 (43 :: _)) = _
    rw [List.drop_one, List.tail_cons, behind, digits.read.1]
    exact long_of_fits fits
  | minus skip digits =>
    obtain rfl := none_ _ _ skip clean
    have behind := convertPrefixed_eq true
    change convertPrefixed true (List.drop 1 (45 :: _)) = _
    rw [List.drop_one, List.tail_cons, behind, digits.read.1]
    exact long_of_fits fits

/-- What is no numeral is read as zero. -/
theorem readNumber_zero {str : CharBuf} (other : ∀ value, ¬ Numeral str value) :
    readNumber str = 0 := by
  -- A number other than zero comes from digits, which make a numeral behind the sign.
  have zero : ∀ (negative : Bool) (rest : CharBuf), (∀ value, ¬ Magnitude rest value) →
      convertPrefixed negative rest = 0 := by
    intro negative rest none_
    rw [convertPrefixed_eq]
    cases read : magnitudeOf rest with
    | none => rfl
    | some value =>
      obtain rfl | digits := Magnitude.of_read read
      · cases negative <;> rfl
      · exact absurd digits (none_ value)
  have skip : ∀ ch ∈ ([] : CharBuf), isspace ch = true := by simp
  have signed : ∀ sign : UInt8, sign ≠ 0 → charAt str 0 = sign → str = sign :: str.drop 1 := by
    intro sign some_ is
    cases str with
    | nil => exact absurd is.symm some_
    | cons ch rest =>
      rw [show ch = sign from is]
      rfl
  unfold readNumber
  split
  · rename_i isPlus
    apply zero
    intro value digits
    apply other value
    rw [signed 43 (by decide) isPlus]
    exact .plus skip digits
  · split
    · rename_i isMinus
      apply zero
      intro value digits
      apply other (-value)
      rw [signed 45 (by decide) isMinus]
      exact .minus skip digits
    · split
      · apply zero
        intro value digits
        exact other value (.unsigned skip digits)
      · rfl

/--
`atol` returns and accepts its grammar exactly for strings that do not begin with a blank, and so
does `atoi` as far as the values of numerals fit into an `int`.
-/
theorem atol_reads_iff (str : CharBuf) :
    (ReadsNumerals atol str ↔ ¬ BeginsBlank str) ∧
      (ReadsNumerals atoi str ↔ ¬ BeginsBlank str ∧
        ∀ value, Numeral str value → FitsBits 64 value → FitsBits 32 value) := by
  have narrow : ∀ rounds value, atoi rounds (some str) = some value ↔
      ∃ wide, atol rounds (some str) = some wide ∧ int wide = value := by
    intro rounds value
    exact Option.map_eq_some_iff
  constructor
  · constructor
    · intro reads blank
      obtain ⟨rounds, value, returned⟩ := reads.returns
      rw [atol_blank blank] at returned
      cases returned
    · intro clean
      constructor
      · exact ⟨1, _, (atol_eq clean).mpr ⟨Nat.one_pos, rfl⟩⟩
      · intro value numeral fits
        exact ⟨1, (atol_eq clean).mpr ⟨Nat.one_pos, (numeral.read clean fits).symm⟩⟩
      · intro other
        exact ⟨1, (atol_eq clean).mpr ⟨Nat.one_pos, (readNumber_zero other).symm⟩⟩
  · constructor
    · intro reads
      have clean : ¬ BeginsBlank str := by
        intro blank
        obtain ⟨rounds, value, returned⟩ := reads.returns
        obtain ⟨wide, returned, -⟩ := (narrow _ _).mp returned
        rw [atol_blank blank] at returned
        cases returned
      refine ⟨clean, ?_⟩
      intro value numeral fits
      -- What is returned is the value cut to an `int`.
      obtain ⟨rounds, returned⟩ := reads.accepts value numeral fits
      obtain ⟨wide, returned, cut⟩ := (narrow _ _).mp returned
      obtain ⟨-, rfl⟩ := (atol_eq clean).mp returned
      rw [numeral.read clean fits] at cut
      exact (int_eq_self_iff value).mp cut
    · intro good
      obtain ⟨clean, small⟩ := good
      constructor
      · exact ⟨1, _, (narrow _ _).mpr ⟨_, (atol_eq clean).mpr ⟨Nat.one_pos, rfl⟩, rfl⟩⟩
      · intro value numeral fits
        refine ⟨1, (narrow _ _).mpr ⟨value, ?_, ?_⟩⟩
        · exact (atol_eq clean).mpr ⟨Nat.one_pos, (numeral.read clean fits).symm⟩
        · exact (int_eq_self_iff value).mpr (small value numeral fits)
      · intro other
        refine ⟨1, (narrow _ _).mpr ⟨0, ?_, rfl⟩⟩
        exact (atol_eq clean).mpr ⟨Nat.one_pos, (readNumber_zero other).symm⟩

/-- For a blank before a digit `atol` never returns. -/
theorem atol_blank_digit : ¬ ReadsNumerals atol [32, 55] ∧ ∀ rounds,
    atol rounds (some [32, 55]) = none := by
  have blank : BeginsBlank [32, 55] := rfl
  refine ⟨?_, atol_blank blank⟩
  intro reads
  obtain ⟨rounds, value, returned⟩ := reads.returns
  rw [atol_blank blank] at returned
  cases returned

end GlucOS
