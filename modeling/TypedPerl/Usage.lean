import TypedPerl.Tree.Predicates

/-!
# Usage

How the value of an expression is used where it stands, and how an expression uses its parts.
-/

namespace TypedPerl

/-- What is wanted of an expression. -/
inductive Context where
  /-- One value. -/
  | scalar
  /-- A row of values. -/
  | list
  /-- A truth value. -/
  | boolean
  /-- Nothing but the effect. -/
  | void
deriving DecidableEq, Repr, Inhabited

/-- How an expression is used. -/
structure Usage where
  /-- What is wanted of it. -/
  context : Context
  /-- It is assigned to. -/
  assigned : Bool := false
  /-- It is read and assigned to. -/
  updated : Bool := false
  /-- It is deleted. -/
  deleted : Bool := false
deriving DecidableEq, Repr, Inhabited

namespace Usage

/-- One value is wanted. -/
def scalar : Usage := { context := .scalar }
/-- A row of values is wanted. -/
def list : Usage := { context := .list }
/-- A truth value is wanted. -/
def boolean : Usage := { context := .boolean }
/-- Only the effect is wanted. -/
def void : Usage := { context := .void }
/-- The place is read and assigned to. -/
def update : Usage := { context := .scalar, updated := true }

/-- Only the effect is wanted. -/
def isVoid (u : Usage) : Bool := u.context = .void

end Usage

/-! ## Builtin functions -/

/-- The names of the builtin functions. -/
def builtinNames : List String :=
  ["delete", "exists", "defined", "push", "pop", "shift", "unshift", "keys", "values", "scalar",
    "join", "print", "length", "die", "warn", "say"]

/-- A call names a builtin function: it has no package, and the name of one. -/
def isBuiltin (package name : String) : Bool :=
  package = "" && builtinNames.contains name

/-- How the argument with number `i` of a call is used. -/
def argUsage (package name : String) (i : Nat) : Usage :=
  if !isBuiltin package name then .list
  else if name = "delete" then { context := .scalar, deleted := true }
  else if ["exists", "defined", "scalar", "length"].contains name then .scalar
  else if name = "join" && i = 0 then .scalar
  else .list

/-! ## Parts of expressions -/

/-- How the elements of a list with `count` elements are used. -/
def elementUsage (count : Nat) (u : Usage) : Usage :=
  if u.isVoid && !u.assigned then .void
  else if u.assigned then u
  else if count ≠ 1 then .list
  else u

/-- How the key of an access is used: several keys are a list. -/
def keyUsage (key : Expr) (context : Sigil) : Usage :=
  match key with
  | .list _ es => if es.length ≠ 1 || context ≠ .scalar then .list else .scalar
  | _ => if context ≠ .scalar then .list else .scalar

/-- How the right side of an assignment is used. -/
def sourceUsage (left : Expr) : Usage :=
  if left.isListTarget then .list else .scalar

/-- How the left side of an assignment is used. -/
def targetUsage (op : String) (u : Usage) : Usage :=
  if op = "=" then { context := if u.isVoid then .void else .scalar, assigned := true }
  else .update

/-- The operator evaluates its right side only if it has to. -/
def isLogical (op : String) : Bool :=
  ["&&", "||", "//", "and", "or"].contains op

/-- How the left side of an operator is used. -/
def leftUsage (op : String) (u : Usage) : Usage :=
  if isLogical op && (u.context = .boolean || u.context = .void) then .boolean else .scalar

/-- How the right side of an operator is used. -/
def rightUsage (op : String) (u : Usage) : Usage :=
  if isLogical op && u.isVoid then .void else leftUsage op u

/-- How the operand of a sign is used. -/
def operandUsage (op : String) : Usage :=
  if op = "!" || op = "not" then .boolean else .scalar

/-- How the branches of a choice are used. -/
def branchUsage (u : Usage) : Usage :=
  if u.context = .list then .list else .scalar

end TypedPerl
