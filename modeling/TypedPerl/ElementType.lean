import TypedPerl.Operand

/-!
# Common types

The type that several values have in common when they stand in one list, in the branches of a
choice or around a logical operator.
-/

namespace TypedPerl

namespace Ty

/-- A kind of whole number. -/
def isIntegral (t : Ty) : Bool :=
  t.kind? == some .integer || t.kind? == some .long

/-- The narrowest type that two types convert to without loss of meaning. -/
def merge (a b : Ty) : Ty :=
  if a = b then a
  else if a.isNumeric && b.isNumeric then
    if a.isIntegral && b.isIntegral then .long else .double
  else if a.isAggregate && b.isAggregate then a
  else .box

/-- The common type of two values, of which one may have no type. -/
def merge? (a b : Option Ty) : Option Ty :=
  match a, b with
  | none, b => b
  | a, none => a
  | some a, some b => some (a.merge b)

end Ty

namespace Operand

/-- The type that an element of a list brings in: a sequence brings in its elements. -/
def contribution (o : Operand) : Option Ty :=
  if o.isSequence then o.elemType else o.type

/-- The element type of a list of values. The undefined value brings in nothing; a list without
types holds dynamic values. -/
def elementType (ops : List Operand) : Ty :=
  ((ops.filter fun o => !o.undef).foldl (fun t o => Ty.merge? t o.contribution) none).getD .box

/-- The type of the value that counts of a branch: one of a row of values. -/
def branchType (o : Operand) : Option Ty :=
  if o.multi then o.elemType else o.type

/-- The type that a value has where one value is wanted; a container gives its size. -/
def scalarType (o : Operand) : Option Ty :=
  if o.multi then o.elemType
  else if o.isAggregate then some .integer
  else o.type

end Operand

end TypedPerl
