import TypedPerl.Compile.Assign

/-!
# Calls

The code of calls of subroutines and of the builtin functions. Each builtin function gives an
operand and says whether its code has an effect.
-/

namespace TypedPerl.Compile

open Conversion (convert)

/-- A call of the runtime. -/
def runtimeCall (fn : String) (args : List String) : String :=
  Java.call "Pd" fn args

/-- Operands as an array of strings. -/
def stringList (ops : List Operand) : Except Fault String :=
  Collection.build ops (some (.arrayOf .string))

/-- The number of elements of a container as a value. -/
def sizeOperand (o : Operand) : Except Fault Operand := do
  let c ← convert o (some .integer)
  return .nonNull c (some .integer)

/-- The test whether a value is defined. -/
def definedOperand (o : Operand) : Operand :=
  let code :=
    if o.notNull then "true"
    else if o.isBox then runtimeCall "defined" [o.code]
    else Java.paren (o.code ++ " != null")
  .nonNull code (some .boolean)

/-- The one value of an operand. -/
def scalarOperand (o : Operand) : Except Fault Operand :=
  if o.multi then .ok o.reduce
  else if o.isAggregate then sizeOperand o
  else .ok o

/-- The keys or the values of a map; their number where one value is wanted. -/
def mapPart (name : String) (o : Operand) (u : Usage) : Except Fault Operand :=
  match o.type with
  | some (.agg .map e) =>
    if u.context = .scalar || u.context = .boolean then sizeOperand o
    else if name = "keys" then .ok (.nonNull (runtimeCall name [o.code]) (some (.listOf .string)))
    else .ok (.nonNull (runtimeCall name [o.code]) (some (.listOf e)))
  | t => .error (.incompatible t (some (.mapOf .box)))

/-- Elements added to a sequence. A list grows in place; an array is replaced by a longer one, for
which it must be a variable. -/
def grow (st : State) (name : String) (target : Expr) (added : List Operand) (u : Usage) :
    Except Fault Operand :=
  let o := st.operandOf target
  if !o.isSequence then .error (.incompatible o.type (some (.listOf .box)))
  else do
    let values ← Collection.build added (o.elemType.map Ty.arrayOf)
    if o.type.any Ty.isList then
      return .nonNull (runtimeCall name [o.code, values]) (some .integer)
    match target with
    | .var v =>
      match st.binding? v with
      | some b =>
        let ref := st.nameOf b
        let code := ref ++ " = " ++ runtimeCall name [ref, values]
        if u.isVoid then return .nonNull code o.type
        else return .nonNull (Java.paren code ++ ".length") (some .integer)
      | none => throw (.unsupported (name ++ " on an array that is not a variable"))
    | _ => throw (.unsupported (name ++ " on an array that is not a variable"))

/-- The sequence that an element is taken from: the argument, or the arguments of the enclosing
subroutine. -/
def shrinkTarget (st : State) (name : String) (args : List Operand) : Except Fault Operand :=
  match args, st.frames with
  | o :: _, _ => .ok o
  | [], f :: _ => .ok (.plain f.param (some (.listOf .box)))
  | [], [] => .error (.unsupported (name ++ " without an array outside a subroutine"))

/-- An element taken from a list. -/
def shrink (st : State) (name : String) (args : List Operand) : Except Fault Operand := do
  let o ← shrinkTarget st name args
  if o.type.any Ty.isList then return .ofElement (runtimeCall name [o.code]) o.elemType
  else throw (.unsupported (name ++ " on " ++ (o.type.map Ty.describe).getD "" ++
    "; declare it as a list"))

/-- A builtin function of at least one argument; gives its value and whether it has an effect. -/
def builtinOn (nullChecks : Bool) (st : State) (name : String) (first : Expr) (rest : List Expr)
    (u : Usage) : Except Fault (Operand × Bool) := do
  let o := st.operandOf first
  match name with
  | "join" =>
    let sep ← stringOperand o
    let list ← stringList (st.operands rest)
    return (.nonNull (runtimeCall "join" [sep, list]) (some .string), false)
  | "length" =>
    let s ← stringOperand o
    return (.nonNull (runtimeCall "length" [s]) (some .integer), false)
  | "defined" => return (definedOperand o, false)
  | "scalar" => return (← scalarOperand o, false)
  | "delete" =>
    match path? st first with
    | some _ => return (o, true)
    | none => throw (.unsupported ("delete of a " ++ first.kindName))
  | "exists" =>
    match path? st first with
    | some p => return (← p.isPresent nullChecks, false)
    | none => throw (.unsupported ("exists on a " ++ first.kindName))
  | "keys" | "values" => return (← mapPart name o u, false)
  | "push" | "unshift" => return (← grow st name first (st.operands rest) u, true)
  | _ => throw (.unsupported ("builtin " ++ name))

/-- A call of a builtin function; gives its value and whether it has an effect. -/
def builtin (nullChecks : Bool) (st : State) (name : String) (args : List Expr) (u : Usage) :
    Except Fault (Operand × Bool) := do
  match name with
  | "print" | "say" | "die" | "warn" =>
    let list ← stringList (st.operands args)
    return (.nonNull (runtimeCall name [list]) (some .integer), true)
  | "pop" | "shift" => return (← shrink st name (st.operands args), true)
  | _ =>
    if !builtinNames.contains name then throw (.unsupported ("builtin " ++ name))
    match args with
    | first :: rest => builtinOn nullChecks st name first rest u
    | [] => throw (.unsupported (name ++ " with 0 arguments"))

/-- A call of a subroutine or of a builtin function. -/
def callOutput (id : Nat) (name : String) (args : List Expr) (u : Usage) : Compile Output := do
  let st ← get
  match st.subs.get? id with
  | some sub =>
    let list ← Collection.build (st.operands args) (some (.listOf .box))
    markEffect id
    return { code := st.subName sub ++ "(" ++ list ++ ")", type := some sub.returns }
  | none =>
    let (o, effect) ← builtin (← read).nullChecks st name args u
    if effect then markEffect id
    return o.toOutput

end TypedPerl.Compile
