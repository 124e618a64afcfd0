import TypedPerl.Compile.Resolve
import TypedPerl.Compile.Statement

/-!
# Blocks of the walk

Some functions of the walk end in steps that every property of them has to be proved of first: the
entering of a variable, the store to an element, the choice between the sides of a logical operator.
These blocks have names here, with the equations that say where they stand. A property then has one
lemma for each block and one for each function, and neither repeats the steps of the other.
-/

namespace TypedPerl.Compile

open Conversion (convert)

/-! ## Resolving variables -/

/-- A variable is entered into the innermost scope, and its node means it. -/
def enterVariable (v : Variable) (t : Ty) : Compile Unit := do
  let b ← onTable (·.declare v.name v.sigil t (v.decl = .our))
  setBinding v.info.id b

/-- A variable that its node declares is entered with the type that it is declared with. -/
def resolveDeclared (v : Variable) (fallback : Option Ty) : Compile Unit := do
  let t ← declaredType v fallback
  declareVariable v t

/-- A variable that its node only uses is looked up. -/
def resolveUsed (v : Variable) : Compile Unit := do
  let b ← lookupVariable v
  setBinding v.info.id b

/-- A variable is entered unless one of two checks refuses it. -/
theorem declareVariable_eq (v : Variable) (t : Ty) :
    declareVariable v t = (do
      let st ← get
      if v.decl = .our && st.table.own.isNone then
        complain .ourOutside v.info.pos
          ("our " ++ v.sigil.toText ++ v.name ++ " outside a package")
      else if v.package ≠ "" then
        complain .unsupported v.info.pos
          ("declaration of qualified name " ++ v.package ++ "::" ++ v.name)
      else enterVariable v t) := rfl

theorem resolveVariableWith_eq (v : Variable) (fallback : Option Ty) :
    resolveVariableWith v fallback = (do
      let st ← get
      if (st.binding? v).isSome then return
      else if v.decl = .my || v.decl = .our then resolveDeclared v fallback
      else resolveUsed v) := by
  unfold resolveVariableWith
  congr
  funext st
  cases v.decl with
  | my | our | use | localized => rfl

/-! ## Variables -/

/-- A variable is written as its name. -/
def nameOutput (b : Binding) : Compile Output := do
  return { code := (← get).nameOf b, type := some b.type }

/-- A variable of a method that is declared inside an expression is declared before the statement,
and is then written as its name. -/
def localOutput (v : Variable) (u : Usage) (b : Binding) : Compile Output := do
  if (← get).isLocalDecl v && !u.isVoid then
    modify (·.queue { type := some b.type, javaName := b.javaName, init := Java.emptyOf b.type })
  nameOutput b

theorem variableOutput_eq (v : Variable) (u : Usage) :
    variableOutput v u = (do
      let b ← bindingOf (← get) v
      if b.isField && (v.decl = .my || v.decl = .our) then modify (·.addField b)
      localOutput v u b) := rfl

/-! ## Logical operators -/

/-- The choice between the sides of a logical operator, of which the left one is tested as `first`
and given as `again`. -/
def choice (op : String) (l : Operand) (t : Option Ty) (repeatable : Bool)
    (rc again first : String) : Compile Operand := do
  let test ← logicalTest op l t repeatable first
  if op = "&&" || op = "and" then
    return .plain (Java.paren (test ++ " ? " ++ rc ++ " : " ++ again)) t
  else return .plain (Java.paren (test ++ " ? " ++ again ++ " : " ++ rc)) t

/-- Both sides of a logical operator are converted to its type before the choice. -/
theorem logicalValue_eq (op : String) (l r : Operand) (repeatable : Bool) :
    logicalValue op l r repeatable = (do
      let t := logicalType l r
      let lc ← convert l t
      let rc ← convert r t
      let (again, first) ← if repeatable then pure (lc, lc) else onAccess (Path.capture t lc)
      choice op l t repeatable rc again first) := rfl

/-! ## Assignments -/

/-- The store to an element or a dereference. -/
def storePath (nullChecks : Bool) (st : State) (target : Expr) (right : Option Expr)
    (o : Operand) : Except Fault (String × Option Ty) := do
  let p ← pathOf st target
  let t ← p.target
  let value ← valueFor st right o t
  let code ← p.write nullChecks value
  return (code, t)

/-- The target of an assignment to a list that is one of a single value. -/
def singleTarget? : List Expr → Option Expr
  | [target] => if target.isListTarget then none else some target
  | _ => none

theorem singleTarget?_eq_some {targets : List Expr} {target : Expr}
    (h : singleTarget? targets = some target) : targets = [target] := by
  unfold singleTarget? at h
  split at h
  · split at h
    · cases h
    · cases h
      rfl
  · cases h

/-- A single target takes the first value of the right side. -/
def assignFirst (nullChecks : Bool) (st : State) (target right : Expr) (u : Usage) :
    Compile Output := do
  let src := st.operandOf right
  let src := { src with multi := src.multi || src.isSequence, firstOfMany := true }
  let (code, t) ← store nullChecks st target (some right) src u.isVoid
  return { code := wrap u code, type := t }

/-- The items of one list, kept in an auxiliary variable, are stored one by one. -/
def assignItems (nullChecks : Bool) (st : State) (src : Operand) (targets : List Expr) :
    Compile Output := do
  let (code, t) ← sequenceOf src
  let aux ← onTable (·.auxiliary "")
  let lines ← storeItems nullChecks st aux t 0 false targets
  let first := Java.declType? t ++ " " ++ aux ++ " = " ++ code
  return { code := Text.join "; " (first :: lines), type := t }

/-- An assignment to several targets is a statement. -/
def assignSeveral (nullChecks : Bool) (st : State) (src : Operand) (targets : List Expr)
    (u : Usage) : Compile Output :=
  if u.isVoid then assignItems nullChecks st src targets
  else throw (.unsupported "list assignment used as a value")

theorem assignList_eq (targets : List Expr) (right : Expr) (u : Usage) :
    assignList targets right u = (do
      let env ← read
      let st ← get
      match singleTarget? targets with
      | some target => assignFirst env.nullChecks st target right u
      | none => assignSeveral env.nullChecks st (st.operandOf right) targets u) := by
  funext env st
  have hseveral (targets : List Expr) : (do
      if !u.isVoid then throw (.unsupported "list assignment used as a value")
      let (code, t) ← sequenceOf (st.operandOf right)
      let aux ← onTable (·.auxiliary "")
      let lines ← storeItems env.nullChecks st aux t 0 false targets
      let first := Java.declType? t ++ " " ++ aux ++ " = " ++ code
      return { code := Text.join "; " (first :: lines), type := t } : Compile Output) =
        assignSeveral env.nullChecks st (st.operandOf right) targets u := by
    unfold assignSeveral
    cases u.isVoid with
    | true => rfl
    | false => rfl
  show _ = (match singleTarget? targets with
    | some target => assignFirst env.nullChecks st target right u
    | none => assignSeveral env.nullChecks st (st.operandOf right) targets u : Compile _) env st
  -- a single target that takes one element is given the first one; every other list is stored item
  -- by item
  match targets with
  | [] => exact congrFun (congrFun (hseveral []) env) st
  | [target] =>
    rw [singleTarget?]
    have hone : assignList [target] right u env st = (if target.isListTarget then
        assignSeveral env.nullChecks st (st.operandOf right) [target] u
      else assignFirst env.nullChecks st target right u : Compile Output) env st := by
      rw [← hseveral]
      rfl
    -- a lone target that is itself a row goes the way of several targets
    rw [hone]
    split
    · rfl
    · rfl
  | target :: next :: rest => exact congrFun (congrFun (hseveral (target :: next :: rest)) env) st

/-! ## Assignments with an operator -/

/-- The place that an element or a dereference is read from and written to. -/
def updatedPath (target : Expr) (st : State) : Compile (Path.ReadWrite × Option Ty) := do
  let p ← pathOf st target
  let t ← p.target
  let r ← p.readWrite (← read).nullChecks st.toAccessState
  set { st with toAccessState := r.2 }
  return (r.1, t)

/-- A variable is read and written by its name. -/
def updatedVariable (v : Variable) (st : State) : Compile (Path.ReadWrite × Option Ty) := do
  let b ← bindingOf st v
  let name := st.nameOf b
  return (⟨.plain name (some b.type), fun value => name ++ " = " ++ value⟩, some b.type)

theorem updatedPlace_eq (target : Expr) :
    updatedPlace target = (do
      let st ← get
      match target with
      | .var v => updatedVariable v st
      | .index _ _ _ _ _ _ | .deref _ _ _ => updatedPath target st
      | _ => throw (notAssignable target)) := rfl

/-- The value of an operator is stored to the place that it was read from. -/
def updateOutput (place : Path.ReadWrite) (t : Option Ty) (u : Usage) (result : Operand) :
    Compile Output := do
  let value ← convert result t
  return { code := wrap u (place.write value), type := t }

theorem compoundAssign_eq (op : String) (left right : Expr) (u : Usage) :
    compoundAssign op left right u = (do
      let op := (Text.dropTrailing? "=" op).getD op
      let (place, t) ← updatedPlace left
      let r := (← get).operandOf right
      let result ←
        if op = "||" || op = "&&" || op = "//" then logicalValue op place.read r true
        else binaryOp (← read).nullChecks op place.read r
      updateOutput place t u result) := rfl

/-! ## Calls -/

/-- The functions that write their arguments take them as one list of strings. -/
def printOutput (st : State) (name : String) (args : List Expr) :
    Except Fault (Operand × Bool) := do
  let list ← stringList (st.operands args)
  return (.nonNull (runtimeCall name [list]) (some .integer), true)

end TypedPerl.Compile
