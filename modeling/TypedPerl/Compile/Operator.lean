import TypedPerl.Compile.Value

/-!
# Operators

The code of operators between two operands. Where the value of a logical operator is used, its left
side is read twice: once to test it and once to give its value. It is captured in an auxiliary
variable unless it may be evaluated twice.
-/

namespace TypedPerl.Compile

open Conversion (convert convertNonNull primitive)

/-- The kind of the result of a sum, difference or product. -/
def arithmeticKind (a b : Option Ty) : Kind :=
  if a = some .integer && b = some .integer then .integer
  else if a.any Ty.isIntegral && b.any Ty.isIntegral then .long
  else .double

/-- The kind of the result of an operator on whole numbers. -/
def integralKind (a b : Option Ty) : Kind :=
  if a = some .integer && b = some .integer then .integer else .long

/-- Forces the comparison of two boxed numbers by value. -/
def unbox (code : String) (k : Kind) : String :=
  "((" ++ primitive k ++ ") " ++ code ++ ")"

/-- Both operands as values of a type. -/
def both (nullChecks : Bool) (l r : Operand) (t : Ty) : Except Fault (String × String) := do
  let lc ← convertNonNull nullChecks l (some t)
  let rc ← convertNonNull nullChecks r (some t)
  return (lc, rc)

/-- Both operands as strings. -/
def bothStrings (l r : Operand) : Except Fault (String × String) := do
  let lc ← stringOperand l
  let rc ← stringOperand r
  return (lc, rc)

/-- An operator between two values of a type, which gives a value of type `result`. -/
def infixOp (nullChecks : Bool) (op : String) (l r : Operand) (t result : Ty) :
    Except Fault Operand := do
  let (lc, rc) ← both nullChecks l r t
  return .nonNull (Java.paren (lc ++ " " ++ op ++ " " ++ rc)) (some result)

/-- A comparison of numbers. Of two boxed numbers the values are compared. -/
def compareNumbers (nullChecks : Bool) (op : String) (l r : Operand) : Except Fault Operand := do
  let k := arithmeticKind l.scalarType r.scalarType
  let (lc, rc) ← both nullChecks l r (.scalar k)
  let boxed := (op = "==" || op = "!=") && !l.constant && !r.constant
  let side (c : String) : String := if boxed then unbox c k else c
  return .nonNull (Java.paren (side lc ++ " " ++ op ++ " " ++ side rc)) (some .boolean)

/-- A comparison of the order of strings. -/
def compareStrings (sign : String) (l r : Operand) : Except Fault Operand := do
  let (lc, rc) ← bothStrings l r
  return .nonNull (Java.paren (lc ++ ".compareTo(" ++ rc ++ ") " ++ sign ++ " 0")) (some .boolean)

/-- An operator between two operands that assigns nothing. -/
def binaryOp (nullChecks : Bool) (op : String) (l r : Operand) : Except Fault Operand :=
  match op with
  | "+" | "-" | "*" =>
    let t := Ty.scalar (arithmeticKind l.scalarType r.scalarType)
    infixOp nullChecks op l r t t
  | "/" => infixOp nullChecks op l r .double .double
  | "%" | "&" | "|" | "^" | "<<" | ">>" =>
    let t := Ty.scalar (integralKind l.scalarType r.scalarType)
    infixOp nullChecks op l r t t
  | "**" => do
    let (lc, rc) ← both nullChecks l r .double
    return .nonNull (Java.call "Math" "pow" [lc, rc]) (some .double)
  | "==" | "!=" | "<" | ">" | "<=" | ">=" => compareNumbers nullChecks op l r
  | "<=>" => do
    let (lc, rc) ← both nullChecks l r .double
    return .nonNull (Java.call "Pd" "compare" [lc, rc]) (some .integer)
  | "&&" | "and" => infixOp nullChecks "&&" l r .boolean .boolean
  | "||" | "or" => infixOp nullChecks "||" l r .boolean .boolean
  | "xor" => infixOp nullChecks "^" l r .boolean .boolean
  | "." => do
    let (lc, rc) ← bothStrings l r
    return .nonNull (Java.paren (lc ++ " + " ++ rc)) (some .string)
  | "x" => do
    let lc ← stringOperand l
    let rc ← convertNonNull nullChecks r (some .integer)
    return .nonNull (Java.call "Pd" "repeat" [lc, rc]) (some .string)
  | "eq" => do
    let (lc, rc) ← bothStrings l r
    return .nonNull (lc ++ ".equals(" ++ rc ++ ")") (some .boolean)
  | "ne" => do
    let (lc, rc) ← bothStrings l r
    return .nonNull (Java.paren ("!" ++ lc ++ ".equals(" ++ rc ++ ")")) (some .boolean)
  | "cmp" => do
    let (lc, rc) ← bothStrings l r
    return .nonNull ("Integer.signum(" ++ lc ++ ".compareTo(" ++ rc ++ "))") (some .integer)
  | "lt" => compareStrings "<" l r
  | "gt" => compareStrings ">" l r
  | "le" => compareStrings "<=" l r
  | "ge" => compareStrings ">=" l r
  | ".." => do
    let (lc, rc) ← both nullChecks l r .integer
    return .nonNull (Java.call "Pd" "range" [lc, rc]) (some (.arrayOf .integer))
  | _ => .error (.unsupported ("operator " ++ op))

/-! ## Logical operators whose value is used -/

/-- The type of the value of a logical operator; the undefined value takes the type of the other
side. -/
def logicalType (l r : Operand) : Option Ty :=
  if r.undef then l.scalarType
  else if l.undef then r.scalarType
  else Ty.merge? l.scalarType r.scalarType

/-- The test of the left side, whose code is `first`. -/
def logicalTest (op : String) (l : Operand) (t : Option Ty) (repeatable : Bool) (first : String) :
    Except Fault String :=
  if op = "//" then .ok (first ++ " != null")
  else
    convert { code := first, type := t, notNull := l.notNull && repeatable,
              constant := l.constant && repeatable } (some .boolean)

/-- A logical operator whose value is used. -/
def logicalValue (op : String) (l r : Operand) (repeatable : Bool) : Compile Operand := do
  let t := logicalType l r
  let lc ← convert l t
  let rc ← convert r t
  let (again, first) ← if repeatable then pure (lc, lc) else onAccess (Path.capture t lc)
  let test ← logicalTest op l t repeatable first
  if op = "&&" || op = "and" then
    return .plain (Java.paren (test ++ " ? " ++ rc ++ " : " ++ again)) t
  else return .plain (Java.paren (test ++ " ? " ++ again ++ " : " ++ rc)) t

/-- An operator between two operands, of which the left one may be evaluated twice if `repeatable`
holds. -/
def binaryValue (op : String) (l r : Operand) (repeatable : Bool) (u : Usage) :
    Compile Operand := do
  let wanted := u.context = .scalar || u.context = .list
  if op = "//" || (isLogical op && wanted) then logicalValue op l r repeatable
  else binaryOp (← read).nullChecks op l r

end TypedPerl.Compile
