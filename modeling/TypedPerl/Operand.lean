import TypedPerl.Java.Ty

/-!
# Operands

Generated code together with what is known about its value.
-/

namespace TypedPerl

/-- Generated code and the facts that conversions need about it. -/
structure Operand where
  /-- The code. -/
  code : String
  /-- The type of its value, when it has one. -/
  type : Option Ty
  /-- The value is never null. -/
  notNull : Bool := false
  /-- The code is a numeric or string literal. -/
  constant : Bool := false
  /-- The code is the undefined value. -/
  undef : Bool := false
  /-- A row of values of which one counts where one value is wanted. -/
  multi : Bool := false
  /-- Of a row of values the first counts, not the last. -/
  firstOfMany : Bool := false
  /-- A value of reference type whose code gives what is referred to, not a cell. -/
  raw : Bool := false
deriving DecidableEq, Repr, Inhabited

namespace Operand

/-- Code of which only the type is known. -/
def plain (code : String) (t : Option Ty) : Operand :=
  { code := code, type := t }

/-- Code whose value is never null. -/
def nonNull (code : String) (t : Option Ty) : Operand :=
  { code := code, type := t, notNull := true }

/-- The type of the elements, when there is a type. -/
def elemType (o : Operand) : Option Ty :=
  o.type.map Ty.elem

/-- The operand is a container. -/
def isAggregate (o : Operand) : Bool := o.type.any Ty.isAggregate
/-- The operand is an array or a list. -/
def isSequence (o : Operand) : Bool := o.type.any Ty.isSequence
/-- The operand is a reference. -/
def isRef (o : Operand) : Bool := o.type.any Ty.isRef
/-- The operand is a dynamic value. -/
def isBox (o : Operand) : Bool := o.type.any Ty.isBox

/-- The element of a container as an operand: a container among the elements is a reference to
itself. -/
def ofElement (code : String) (elem : Option Ty) : Operand :=
  if elem.any Ty.isAggregate then { code := code, type := elem.map Ty.refTo, raw := true }
  else plain code elem

/-- The one value that counts of a row of values. -/
def reduce (o : Operand) : Operand :=
  ofElement (Java.call "Pd" (if o.firstOfMany then "first" else "last") [o.code]) o.elemType

/-- The code of a reference cell for an operand of reference type. -/
def cellCode (o : Operand) : String :=
  if o.raw then "new " ++ Java.declType? (o.type.map Ty.refTo) ++ "(" ++ o.code ++ ")" else o.code

/-- What an operand of reference type refers to. -/
def referent (o : Operand) : Operand :=
  if o.raw then { code := o.code, type := o.elemType, notNull := o.notNull }
  else plain (o.code ++ ".get()") o.elemType

/-- The number of elements of a container that is not null. -/
def count (o : Operand) : String :=
  if o.type.any Ty.isArray then o.code ++ ".length" else o.code ++ ".size()"

end Operand

end TypedPerl
