import GlucOS.Gfs.Volume

/-! Reading numbers from strings in the user library: `atol` and `atoi`. -/

namespace GlucOS

/-- A `long`, from which carries are lost. -/
def long (value : Int) : Int := value.bmod (2 ^ 64)

/-- An `int`. -/
def int (value : Int) : Int := value.bmod (2 ^ 32)

/-- `isdigit`. -/
def isdigit (ch : UInt8) : Bool := 48 ≤ ch && ch ≤ 57

/-- `isspace`. -/
def isspace (ch : UInt8) : Bool :=
  ch = 32 || ch = 9 || ch = 10 || ch = 11 || ch = 12 || ch = 13

/-- The character at a place of a string, which is followed by a null character. -/
def charAt (str : CharBuf) (i : Nat) : UInt8 := str.getD i 0

/--
The loop of `atol` over blanks, for so many rounds at most.

Nothing in its body advances the pointer.
-/
def skipBlanks : Nat → CharBuf → Option CharBuf
  | 0, _ => none
  | rounds + 1, str => if isspace (charAt str 0) then skipBlanks rounds str else some str

/-- The loop of `atol` over the digits. -/
def convert (negative : Bool) (base : Int) : Int → CharBuf → Int
  | ret, [] => if negative then long (-ret) else ret
  | ret, ch :: str =>
    if isdigit ch then convert negative base (long (ret * base + (ch.toNat - 48))) str
    else if base = 16 then
      if 97 ≤ ch ∧ ch ≤ 102 then
        convert negative base (long (ret * base + (ch.toNat - 97 + 10))) str
      else if 65 ≤ ch ∧ ch ≤ 70 then
        convert negative base (long (ret * base + (ch.toNat - 65 + 10))) str
      else 0
    else 0

/-- `atol` behind the sign: the prefix decides the base. -/
def convertPrefixed (negative : Bool) (str : CharBuf) : Int :=
  if (charAt str 0 = 48 ∧ charAt str 1 = 120) ∨ (charAt str 0 = 48 ∧ charAt str 1 = 88) then
    convert negative 16 0 (str.drop 2)
  else convert negative 10 0 str

/-- `atol`, which gives nothing when its first loop runs longer than so many rounds. -/
def atol (rounds : Nat) : Option CharBuf → Option Int
  | none => some 0
  | some str => do
    let str ← skipBlanks rounds str
    if charAt str 0 = 43 then return convertPrefixed false (str.drop 1)
    else if charAt str 0 = 45 then return convertPrefixed true (str.drop 1)
    else if isdigit (charAt str 0) then return convertPrefixed false str
    else return 0

/-- `atoi`. -/
def atoi (rounds : Nat) (str : Option CharBuf) : Option Int := (atol rounds str).map int

end GlucOS
