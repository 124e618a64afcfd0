import TypedPerl.Ty.Basic
import TypedPerl.Text.Quoted
import TypedPerl.Numeral.Read
import TypedPerl.Numeral.Shortest

/-!
# Literals of the target language

Numerals and strings of the source as literals of the target, and literals of the target read back,
so that a constant can be turned into a literal of another type when its value allows it.
-/

namespace TypedPerl.Java

open Numeral (Binary binary32 binary64 readInt? readFloat? general)

/-! ## Reading literals -/

/-- The value of a numeric literal. -/
inductive Constant where
  /-- A whole number. -/
  | whole (i : Int)
  /-- A decimal. -/
  | decimal (x : Binary)
deriving DecidableEq, Repr

/-- The value as a double precision number. -/
def Constant.toBinary : Constant → Binary
  | whole i => Binary.ofInt binary64 i
  | decimal x => x

/-- The value is zero. -/
def Constant.isZero : Constant → Bool
  | whole i => i = 0
  | decimal x => x.isZero

/-- A text without its underscores. -/
def dropUnderscores (s : String) : String :=
  String.ofList (s.toList.filter (· ≠ '_'))

/-- Removes the letters of decimal types at the end. -/
def dropDecimalSuffix (cs : List Char) : List Char :=
  (cs.reverse.dropWhile fun c => c = 'd' || c = 'f').reverse

/-- A numeral with the prefix of a base, in lower case. -/
def hasBase (cs : List Char) : Bool :=
  match cs with
  | '0' :: c :: _ => c = 'x' || c = 'b'
  | _ => false

/-- A number of 64 bits with its sign turned; the least one stays as it is. -/
def negate64 (i : Int) : Int :=
  Numeral.wrapWord 64 (-i)

/-- The value of a numeric literal: an optional sign, digits in any base, and a type letter. -/
def readConstant? (code : String) : Option Constant :=
  let cs := (dropUnderscores (Text.trim code)).toList
  let (neg, cs) := match cs with
    | '-' :: rest => (true, rest)
    | _ => (false, cs)
  let cs := cs.map Text.lowerChar
  let radix := hasBase cs
  let cs := if cs.getLast? = some 'l' then cs.dropLast else cs
  let cs := if radix then cs else dropDecimalSuffix cs
  if cs.isEmpty then none
  else if radix || !cs.any (fun c => c = '.' || c = 'e') then
    (readInt? (String.ofList cs)).map fun i => .whole (if neg then negate64 i else i)
  else
    (readFloat? (String.ofList cs)).map fun x => .decimal (if neg then x.negate else x)

/-! ## Writing numbers -/

/-- The letter after a literal of a kind. -/
def kindSuffix : Kind → String
  | .long => "L"
  | .float => "f"
  | .double => "d"
  | _ => ""

/-- The whole part of a constant as a number of 64 bits. A decimal is refused when it lies beyond
the numbers of 64 bits by more than one. -/
def Constant.toWhole? : Constant → Option Int
  | whole i => some i
  | decimal x =>
    match x.trunc? with
    | some t =>
      if t < -(Numeral.wordLimit 64 : Int) || t > (Numeral.wordLimit 64 : Int) then none
      else some (Numeral.wrapWord 64 t)
    | none => none

/-- The text of a finite number of a format, with the letter of its kind. -/
def finiteText? (f : Numeral.Format) (k : Kind) (x : Binary) : Option String :=
  match x with
  | .infinite _ => none
  | x => some (general f x ++ kindSuffix k)

/-- A numeric literal written as a literal of another kind, when its value allows it. -/
def numericLiteral? (code : String) (k : Kind) : Option String := do
  let n ← readConstant? code
  match k with
  | .integer =>
    let i ← n.toWhole?
    if Numeral.fitsWord 32 i then some (toString i) else none
  | .long =>
    let i ← n.toWhole?
    some (toString i ++ kindSuffix .long)
  | .float => finiteText? binary32 .float (n.toBinary.convert binary32)
  | .double => finiteText? binary64 .double n.toBinary
  | _ => none

/-- A numeral of the source as a literal, with the narrowest type that holds it: integers, then
long integers, then decimals. -/
def numberLiteral? (text : String) : Option (String × Ty) :=
  let s := dropUnderscores text
  let lower := (Text.lower s).toList
  if !hasBase lower && lower.any (fun c => c = '.' || c = 'e') then
    (readFloat? s).map fun _ => (s, .double)
  else
    match readInt? s with
    | some v =>
      if Numeral.fitsWord 32 v then some (s, .integer) else some (s ++ "L", .long)
    | none =>
      match readFloat? s with
      | some x =>
        if lower.head? = some '0' then none
        else some (general binary64 x ++ "d", .double)
      | none => none

/-! ## Strings -/

/-- One character inside a string literal. -/
def stringChar (c : Char) : List Char :=
  match c.toNat with
  | 34 => ['\\', '"']
  | 92 => ['\\', '\\']
  | 10 => ['\\', 'n']
  | 13 => ['\\', 'r']
  | 9 => ['\\', 't']
  | 8 => ['\\', 'b']
  | 12 => ['\\', 'f']
  | n => if n < 0x20 || n = 0x7f then '\\' :: 'u' :: Text.hexFixed 4 n else [c]

/-- A text as a string literal. -/
def stringLiteral (s : String) : String :=
  String.ofList ('"' :: s.toList.flatMap stringChar ++ ['"'])

/-- The truth of a string literal: it is false when it denotes nothing or a single zero digit. -/
def stringTruth? (code : String) : Option Bool :=
  (Text.unquote? code).map fun bytes => bytes ≠ [] && bytes ≠ [48]

end TypedPerl.Java
