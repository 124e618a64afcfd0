import TypedPerl.Numeral.Binary
import TypedPerl.Numeral.Word
import TypedPerl.Text.Quoted

/-!
# Reading numerals

`readInt?` reads a whole number of 64 bits whose base follows from its first characters: `0x`,
`0o` and `0b`, and a leading zero for octal. `readFloat?` reads a decimal or hexadecimal numeral,
whose digits may have single underscores between them, or the name of a special value, as the
nearest double precision number.
-/

namespace TypedPerl.Numeral

/-! ## Whole numbers -/

/-- The value of digits in a base, if all of them are digits of it. -/
def digitsValue? (base : Nat) (cs : List Char) : Option Nat :=
  cs.foldlM (fun acc c =>
    match Text.hexValue? c with
    | some d => if d < base then some (acc * base + d) else none
    | none => none) 0

/-- The base that the first characters of a numeral name, and the digits after them. -/
def splitBase : List Char → Nat × List Char
  | '0' :: c :: d :: cs =>
    if c = 'b' || c = 'B' then (2, d :: cs)
    else if c = 'o' || c = 'O' then (8, d :: cs)
    else if c = 'x' || c = 'X' then (16, d :: cs)
    else (8, c :: d :: cs)
  | '0' :: cs => (8, cs)
  | cs => (10, cs)

/-- A sign at the front, and what follows it. -/
def splitSign : List Char → Bool × List Char
  | '-' :: cs => (true, cs)
  | '+' :: cs => (false, cs)
  | cs => (false, cs)

/-- The natural number that a numeral without a sign denotes. -/
def readNat? (cs : List Char) : Option Nat :=
  if cs.isEmpty then none
  else
    let (base, ds) := splitBase cs
    digitsValue? base ds

/-- The number that a numeral denotes, if it is a number of 64 bits. -/
def readInt? (s : String) : Option Int := do
  let (neg, cs) := splitSign s.toList
  let n ← readNat? cs
  signedWord? 64 neg n

/-! ## Decimals -/

/-- A mantissa that has been read: its digits as a number, how many of them stand after the point,
and whether there was any digit. -/
structure Mantissa where
  /-- The digits as a number. -/
  value : Nat
  /-- How many of them stand after the point. -/
  places : Nat
  /-- Some digit was read. -/
  some : Bool
deriving Repr

/-- Reads the digits of a mantissa, with at most one point among them. -/
def readMantissa (base : Nat) : Bool → Mantissa → List Char → Mantissa × List Char
  | _, m, [] => (m, [])
  | dotted, m, c :: cs =>
    if c = '.' then
      if dotted then (m, c :: cs) else readMantissa base true m cs
    else
      match Text.hexValue? c with
      | some d =>
        if d < base then
          readMantissa base dotted
            ⟨m.value * base + d, if dotted then m.places + 1 else m.places, true⟩ cs
        else (m, c :: cs)
      | none => (m, c :: cs)

/-- The value of exponent digits; digits beyond the fifth change nothing. -/
def exponentValue (cs : List Char) : Nat :=
  cs.foldl (fun acc c => if acc < 10000 then acc * 10 + (c.toNat - 48) else acc) 0

/-- The exponent after its letter, which must be the rest of the text. -/
def readExponent? (cs : List Char) : Option Int :=
  let (neg, ds) := splitSign cs
  if ds.isEmpty || !ds.all Char.isDigit then none
  else
    let n : Int := exponentValue ds
    some (if neg then -n else n)

/-- The special value that a lower-case name denotes. -/
def special? (s : String) : Option Binary :=
  match s with
  | "inf" | "infinity" | "+inf" | "+infinity" => some (.infinite false)
  | "-inf" | "-infinity" => some (.infinite true)
  | "nan" => some .nan
  | _ => none

/-- The value `n · b^e` as a quotient. -/
def powQuotient (n b : Nat) (e : Int) : Nat × Nat :=
  if 0 ≤ e then (n * Nat.pow b e.toNat, 1) else (n, Nat.pow b (-e).toNat)

/-- Every underscore stands between two digits. `before` tells that a digit, or the mark of a base,
stands in front of the text. -/
def separatorsFit (isDigit : Char → Bool) (before : Bool) : List Char → Bool
  | [] => true
  | c :: rest =>
    if c = '_' then before && rest.head?.any isDigit && separatorsFit isDigit false rest
    else separatorsFit isDigit (isDigit c) rest

/-- The number nearest to what the text denotes, if it is a numeral or a special name and not
beyond the greatest number. -/
def readFloat? (s : String) : Option Binary :=
  match special? (s.map Char.toLower) with
  | some x => some x
  | none => do
    let (neg, cs) := splitSign s.toList
    let (hex, cs) := match cs with
      | '0' :: 'x' :: rest => (true, rest)
      | '0' :: 'X' :: rest => (true, rest)
      | _ => (false, cs)
    let isDigit (c : Char) : Bool := if hex then (Text.hexValue? c).isSome else c.isDigit
    if !separatorsFit isDigit hex cs then none
    let (m, rest) := readMantissa (if hex then 16 else 10) false ⟨0, 0, false⟩
      (cs.filter (· ≠ '_'))
    if !m.some then none
    let e ← match rest with
      | [] => if hex then none else some 0
      | c :: tail =>
        if (if hex then c = 'p' || c = 'P' else c = 'e' || c = 'E') then readExponent? tail
        else none
    let (n, d) :=
      if hex then powQuotient m.value 2 (e - 4 * m.places)
      else powQuotient m.value 10 (e - m.places)
    match Binary.round binary64 neg n d with
    | .infinite _ => none
    | x => some x

end TypedPerl.Numeral
