/-!
# Whole numbers of limited width

A word of `bits` bits holds the numbers from `-2^(bits-1)` up to, and without, `2^(bits-1)`.
-/

namespace TypedPerl.Numeral

/-- The first number above those of a word. -/
def wordLimit (bits : Nat) : Nat :=
  Nat.pow 2 (bits - 1)

/-- A word holds the number. -/
def fitsWord (bits : Nat) (i : Int) : Bool :=
  -(wordLimit bits : Int) ≤ i && i < (wordLimit bits : Int)

/-- The number that a word holds in place of one that differs by a multiple of `2^bits`. -/
def wrapWord (bits : Nat) (i : Int) : Int :=
  Int.bmod i (Nat.pow 2 bits)

/-- The number of a sign and a magnitude, if a word holds it. -/
def signedWord? (bits : Nat) (neg : Bool) (n : Nat) : Option Int :=
  let i : Int := if neg then -(n : Int) else (n : Int)
  if fitsWord bits i then some i else none

end TypedPerl.Numeral
