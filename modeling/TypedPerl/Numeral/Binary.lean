/-!
# Binary floating-point numbers

A number of limited precision is a sign, a whole mantissa and a power of two, all exact. A format
gives the number of mantissa bits and the range of exponents; `Binary.round` takes a quotient of
natural numbers to the nearest number of a format, an exact tie to the even mantissa.
-/

namespace TypedPerl.Numeral

/-- A floating-point format. -/
structure Format where
  /-- The greatest number of bits of a mantissa. -/
  bits : Nat
  /-- The least exponent. -/
  minExp : Int
  /-- The greatest exponent. -/
  maxExp : Int
deriving DecidableEq, Repr

/-- The format of double precision. -/
def binary64 : Format := ⟨53, -1074, 971⟩

/-- The format of single precision. -/
def binary32 : Format := ⟨24, -149, 104⟩

/-- A floating-point value. -/
inductive Binary where
  /-- The number `±mant · 2^exp`. -/
  | finite (neg : Bool) (mant : Nat) (exp : Int)
  /-- An infinity. -/
  | infinite (neg : Bool)
  /-- No number. -/
  | nan
deriving DecidableEq, Repr, Inhabited

/-- The quotient rounded to the nearest whole number, a tie to the even one. -/
def roundDiv (n d : Nat) : Nat :=
  let q := n / d
  let r := n % d
  if 2 * r > d || (2 * r == d && q % 2 == 1) then q + 1 else q

/-- `n / d` divided by `2^e`, as a pair of natural numbers. -/
def scaleDown (n d : Nat) (e : Int) : Nat × Nat :=
  if 0 ≤ e then (n, d * Nat.pow 2 e.toNat) else (n * Nat.pow 2 (-e).toNat, d)

namespace Binary

/-- The exponent at which the quotient `n / d` fills the mantissa, not below the least one. -/
def fitExponent (f : Format) (n d : Nat) : Int :=
  let guess : Int := (Nat.log2 n : Int) - (Nat.log2 d : Int) - (f.bits : Int) + 1
  let (n', d') := scaleDown n d guess
  let e := if n' < d' * Nat.pow 2 (f.bits - 1) then guess - 1 else guess
  max f.minExp e

/-- The number of a format nearest to `±n / d`. -/
def round (f : Format) (neg : Bool) (n d : Nat) : Binary :=
  if n = 0 || d = 0 then .finite neg 0 f.minExp
  else
    let e := fitExponent f n d
    let (n', d') := scaleDown n d e
    let m := roundDiv n' d'
    let (m, e) := if m = Nat.pow 2 f.bits then (Nat.pow 2 (f.bits - 1), e + 1) else (m, e)
    if e > f.maxExp then .infinite neg else .finite neg m e

/-- The number with its sign turned. -/
def negate : Binary → Binary
  | finite neg m e => finite (!neg) m e
  | infinite neg => infinite (!neg)
  | nan => nan

/-- A whole number in a format. -/
def ofInt (f : Format) (i : Int) : Binary :=
  round f (i < 0) i.natAbs 1

/-- The number in another format. -/
def convert (f : Format) : Binary → Binary
  | finite neg m e =>
    if 0 ≤ e then round f neg (m * Nat.pow 2 e.toNat) 1 else round f neg m (Nat.pow 2 (-e).toNat)
  | x => x

/-- The number is zero, of either sign. -/
def isZero : Binary → Bool
  | finite _ m _ => m = 0
  | _ => false

/-- The number without its fraction, when it is finite. -/
def trunc? : Binary → Option Int
  | finite neg m e =>
    let a : Nat := if 0 ≤ e then m * Nat.pow 2 e.toNat else m / Nat.pow 2 (-e).toNat
    some (if neg then -(a : Int) else (a : Int))
  | _ => none

end Binary

end TypedPerl.Numeral
