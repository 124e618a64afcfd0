import TypedPerl.Ty.Basic

/-!
# Sigils

The mark in front of a variable's name says what it holds: one value, a row of values or a map.
Variables of one name and different marks are different variables.
-/

namespace TypedPerl

/-- The mark in front of a name. -/
inductive Sigil where
  /-- `$`: one value. -/
  | scalar
  /-- `@`: a row of values. -/
  | array
  /-- `%`: a map. -/
  | hash
  /-- `&`: a subroutine. -/
  | code
deriving DecidableEq, Repr, Inhabited

namespace Sigil

/-- The mark as a text. -/
def toText : Sigil → String
  | scalar => "$"
  | array => "@"
  | hash => "%"
  | code => "&"

/-- The mark that a text is. -/
def ofText? (s : String) : Option Sigil :=
  match s with
  | "$" => some scalar
  | "@" => some array
  | "%" => some hash
  | "&" => some code
  | _ => none

/-- The place of a mark among the marks, by its character. -/
def rank : Sigil → Nat
  | scalar => 36
  | hash => 37
  | code => 38
  | array => 64

/-- A variable with this mark may hold a value of the type. A value of unknown type counts as one
value. -/
def accepts (s : Sigil) (t : Option Ty) : Bool :=
  match s with
  | scalar => !t.any Ty.isAggregate
  | array => t.any Ty.isSequence
  | hash => t.any Ty.isMap
  | code => false

end Sigil

end TypedPerl
