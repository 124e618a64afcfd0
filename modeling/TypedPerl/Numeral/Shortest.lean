import TypedPerl.Numeral.Binary

/-!
# Shortest decimals

`shortest` gives the decimal of fewest digits that rounds to a given floating-point number, and
of those the nearest to it; an exact tie goes to the even last digit. `general` lays it out:
positional when the leading digit stands between the fourth place after the point and the sixth
before it, and with an exponent of at least two digits otherwise.
-/

namespace TypedPerl.Numeral

/-- The decimal `0.d₁d₂… · 10^point`, its digits written as one natural number. -/
structure Decimal where
  /-- The digits as a number. -/
  digits : Nat
  /-- The place of the point: how many digits stand before it. -/
  point : Int
deriving DecidableEq, Repr

/-- The decimal digits of a number, without leading zeros; none for zero. -/
def digitsOf (n : Nat) : List Char :=
  if n = 0 then [] else Nat.toDigits 10 n

/-- How many digits stand before the point in the quotient `n / d`. A value below one tenth has a
negative count. -/
def pointOf (n d : Nat) : Int :=
  if d ≤ n then ((digitsOf (n / d)).length : Int)
  else
    let k := (digitsOf (d / n)).length
    if d ≤ n * Nat.pow 10 (k - 1) then 2 - (k : Int) else 1 - (k : Int)

/-- The values that round to a number, over one denominator. -/
structure Interval where
  /-- The lower end. -/
  low : Nat
  /-- The number itself. -/
  mid : Nat
  /-- The upper end. -/
  high : Nat
  /-- The denominator. -/
  den : Nat
  /-- The ends belong to it. -/
  closed : Bool
deriving Repr

/-- The interval of `m · 2^e`. Below a power of two the neighbours stand closer. -/
def intervalOf (f : Format) (m : Nat) (e : Int) : Interval :=
  let low := if m = Nat.pow 2 (f.bits - 1) && e > f.minExp then 4 * m - 1 else 4 * m - 2
  let (k, den) : Nat × Nat :=
    if 2 ≤ e then (Nat.pow 2 (e - 2).toNat, 1) else (1, Nat.pow 2 (2 - e).toNat)
  ⟨low * k, 4 * m * k, (4 * m + 2) * k, den, m % 2 == 0⟩

/-- The decimal of `n` digits nearest to the number, if it lies in the interval. -/
def atDigits? (iv : Interval) (point : Int) (n : Nat) : Option Nat :=
  let (s, unit) : Nat × Nat :=
    if (n : Int) ≤ point then (1, Nat.pow 10 (point - n).toNat * iv.den)
    else (Nat.pow 10 ((n : Int) - point).toNat, iv.den)
  let inside (c : Nat) : Bool :=
    if iv.closed then iv.low * s ≤ c * unit && c * unit ≤ iv.high * s
    else iv.low * s < c * unit && c * unit < iv.high * s
  let c := iv.mid * s / unit
  let below := iv.mid * s - c * unit
  let above := (c + 1) * unit - iv.mid * s
  match inside c, inside (c + 1) with
  | true, true =>
    if below < above then some c
    else if above < below then some (c + 1)
    else some (if c % 2 == 0 then c else c + 1)
  | true, false => some c
  | false, true => some (c + 1)
  | false, false => none

/-- The least number of digits from `n` on that reaches the interval, tried `fuel` times. -/
def searchDigits (iv : Interval) (point : Int) : Nat → Nat → Decimal
  | 0, n => ⟨iv.mid * Nat.pow 10 ((n : Int) - point).toNat / iv.den, point⟩
  | fuel + 1, n =>
    match atDigits? iv point n with
    | some c =>
      -- a carry into a new digit moves the point
      if c = Nat.pow 10 n then ⟨1, point + 1⟩ else ⟨c, point⟩
    | none => searchDigits iv point fuel (n + 1)

/-- The shortest decimal of a positive number `m · 2^e`. -/
def shortest (f : Format) (m : Nat) (e : Int) : Decimal :=
  let iv := intervalOf f m e
  searchDigits iv (pointOf iv.mid iv.den) 17 1

/-! ## Layout -/

/-- Digits without the zeros at their end. -/
def dropZeros (ds : List Char) : List Char :=
  (ds.reverse.dropWhile (· = '0')).reverse

/-- The exponent of a number in scientific form: a sign and at least two digits. -/
def exponentText (e : Int) : String :=
  let ds := toString e.natAbs
  (if e < 0 then "-" else "+") ++ (if ds.length < 2 then "0" ++ ds else ds)

/-- Digits in scientific form: one digit before the point. -/
def scientific (ds : List Char) (e : Int) : String :=
  let first := String.ofList (ds.take 1)
  let rest := String.ofList (ds.drop 1)
  first ++ (if rest.isEmpty then "" else "." ++ rest) ++ "e" ++ exponentText e

/-- Digits in positional form, with `point` of them before the point. -/
def positional (ds : List Char) (point : Int) : String :=
  if point ≤ 0 then
    String.ofList ('0' :: '.' :: List.replicate (-point).toNat '0' ++ ds)
  else
    let p := point.toNat
    if ds.length ≤ p then String.ofList (ds ++ List.replicate (p - ds.length) '0')
    else String.ofList (ds.take p ++ '.' :: ds.drop p)

/-- The text of a number of a format. -/
def general (f : Format) : Binary → String
  | .nan => "NaN"
  | .infinite neg => if neg then "-Inf" else "+Inf"
  | .finite neg m e =>
    let sign := if neg then "-" else ""
    if m = 0 then sign ++ "0"
    else
      let d := shortest f m e
      let ds := dropZeros (digitsOf d.digits)
      let lead := d.point - 1
      sign ++ if lead < -4 || 6 ≤ lead then scientific ds lead else positional ds d.point

end TypedPerl.Numeral
