import TypedPerl.Compile.State
import TypedPerl.Java.Literal

/-!
# Values

The code of literals, of new arrays and maps, of lists, choices and signs, from the operands they
are made of.
-/

namespace TypedPerl.Compile

open Conversion (convert convertNonNull helper)

/-- Code in parentheses, unless it is a statement of its own. -/
def wrap (u : Usage) (code : String) : String :=
  if u.isVoid then code else Java.paren code

/-- The declaration of a variable with a value. -/
def declaration (b : Binding) (value : String) : String :=
  Java.declType b.type ++ " " ++ b.javaName ++ " = " ++ value

/-! ## Literals -/

/-- A numeral. -/
def numberOutput (text : String) : Except Fault Output :=
  match Java.numberLiteral? text with
  | some (code, t) => .ok { code := code, type := some t }
  | none => .error (.unsupported ("numeric literal " ++ text))

/-- An operand as a string that is never null. -/
def stringOperand (o : Operand) : Except Fault String :=
  if o.undef then .ok "\"\""
  else if o.type.any Ty.isString && !o.notNull && !o.constant && !o.multi then
    .ok (helper "toString" o.code)
  else convert o (some .string)

/-- An operand as a piece of a string; the elements of a sequence have a blank between them. -/
def stringPiece (o : Operand) : Except Fault String :=
  if o.isSequence then .ok (Java.call "Pd" "join" ["\" \"", o.code])
  else stringOperand o

/-- The pieces of a string: texts that are not empty, and the operands in the empty places. -/
def stringPieces : List (Option String) → List Operand → Except Fault (List String)
  | [], _ => .ok []
  | some t :: ps, ops => do
    let rest ← stringPieces ps ops
    return if t = "" then rest else Java.stringLiteral t :: rest
  | none :: ps, [] => stringPieces ps []
  | none :: ps, o :: ops => do
    let c ← stringPiece o
    let rest ← stringPieces ps ops
    return c :: rest

/-- A string. -/
def stringOutput (pieces : List (Option String)) (ops : List Operand) : Except Fault Output := do
  if !Expr.isInterpolated pieces then
    let text := String.join (pieces.map fun p => p.getD "")
    return { code := Java.stringLiteral text, type := some .string }
  match ← stringPieces pieces ops with
  | [c] => return { code := c, type := some .string }
  | cs => return { code := Java.paren (Text.join " + " cs), type := some .string }

/-! ## New containers -/

/-- The type that is written beside a new container, without the reference to it. -/
def writtenContainer (t : Option Ty) : Option Ty :=
  match t with
  | some (.ref e) => some e
  | t => t

/-- A new container of a type, as a reference to it. -/
def newContainer (ops : List Operand) (t : Ty) : Except Fault Output := do
  let code ← Collection.build ops (some t)
  return { code := code, type := some t.refTo, raw := true }

/-- A new array. Without a written type its elements have their common type. -/
def anonArrayOutput (ops : List Operand) (type : Option Ty) : Except Fault Output :=
  match writtenContainer type with
  | some (.agg s e) => newContainer ops (.agg s e)
  | _ => newContainer ops (.arrayOf (Operand.elementType ops))

/-- The values of a list of keys and values: every second element, and the values of the maps
among the elements. -/
def hashValues (ops : List Operand) : List Operand :=
  ops.zipIdx.filterMap fun (o, i) =>
    if o.type.any Ty.isMap then some (.plain "" o.elemType)
    else if i % 2 = 1 then some o
    else none

/-- A new map. Without a written type its values have their common type. -/
def anonHashOutput (ops : List Operand) (type : Option Ty) : Except Fault Output :=
  match writtenContainer type with
  | some (.agg .map e) => newContainer ops (.agg .map e)
  | _ => newContainer ops (.mapOf (Operand.elementType (hashValues ops)))

/-- A list of any other length than one. -/
def listOutput (ops : List Operand) (u : Usage) : Except Fault Output :=
  if u.assigned || u.isVoid then .ok { type := some (.arrayOf .box) }
  else do
    let t := Ty.arrayOf (Operand.elementType ops)
    let code ← Collection.build ops (some t)
    return { code := code, type := some t }

/-! ## Choices and signs -/

/-- The type of a choice; the undefined value takes the type of the other branch. -/
def choiceType (a b : Operand) : Option Ty :=
  if a.undef then b.branchType
  else if b.undef then a.branchType
  else Ty.merge? a.branchType b.branchType

/-- A choice between two values. -/
def ternaryOutput (nullChecks : Bool) (cond a b : Operand) : Except Fault Output := do
  let c ← convertNonNull nullChecks cond (some .boolean)
  let t := choiceType a b
  let ac ← convert a t
  let bc ← convert b t
  return { code := Java.paren (c ++ " ? " ++ ac ++ " : " ++ bc), type := t }

/-- The kind of number that an operand has or, by default, a decimal. -/
def numberKind (t : Option Ty) : Kind :=
  match t.bind Ty.kind? with
  | some k => if Conversion.isPrimitive k then k else .double
  | none => .double

/-- A value with a sign in front. -/
def signed (nullChecks : Bool) (sign : String) (o : Operand) (t : Ty) : Except Fault Output := do
  let c ← convertNonNull nullChecks o (some t)
  return { code := Java.paren (sign ++ c), type := some t }

/-- An operator in front of a value that was generated as `out`. -/
def unaryOutput (nullChecks : Bool) (op : String) (o : Operand) (out : Output) :
    Except Fault Output :=
  match op with
  | "!" | "not" => signed nullChecks "!" o .boolean
  | "-" => signed nullChecks "-" o (.scalar (numberKind o.type))
  | "+" => .ok out
  | "~" => signed nullChecks "~" o .long
  | _ => .error (.unsupported ("unary operator " ++ op))

end TypedPerl.Compile
