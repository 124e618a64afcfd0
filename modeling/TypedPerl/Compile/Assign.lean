import TypedPerl.Compile.Operator

/-!
# Assignments

The code that stores values in variables and elements: plain assignments, assignments to lists,
assignments with an operator, and steps up and down.
-/

namespace TypedPerl.Compile

open Conversion (convert convertNonNull)

/-! ## Places -/

/-- The fault of a variable that no declaration was found for. -/
def unresolved (v : Variable) : Fault :=
  .unsupported ("unresolved variable " ++ v.sigil.toText ++ v.name)

/-- The fault of an expression that cannot be assigned to. -/
def notAssignable (e : Expr) : Fault :=
  .unsupported ("assignment to " ++ e.kindName)

/-- The variable that a node was resolved to. -/
def bindingOf (st : State) (v : Variable) : Except Fault Binding :=
  match st.binding? v with
  | some b => .ok b
  | none => .error (unresolved v)

/-- The path that was kept for an access or a dereference; no other expression has one. -/
def path? (st : State) (e : Expr) : Option Path :=
  match e with
  | .index _ _ _ _ _ _ | .deref _ _ _ => st.paths.get? e.id
  | _ => none

/-- The path of an access or a dereference. -/
def pathOf (st : State) (e : Expr) : Except Fault Path :=
  match path? st e with
  | some p => .ok p
  | none => .error (notAssignable e)

/-- The elements of a list of any other length than one. -/
def severalElements? (e : Option Expr) : Option (List Expr) :=
  match e with
  | some (.list _ es) => if es.length = 1 then none else some es
  | _ => none

/-! ## Plain assignments -/

/-- The value `o` of the expression `right` as a value of a type. A container takes a list: a list
in parentheses is built element by element, and one value becomes a list of one. -/
def valueFor (st : State) (right : Option Expr) (o : Operand) (t : Option Ty) :
    Except Fault String :=
  if !t.any Ty.isAggregate then convert o t
  else match severalElements? right with
    | some es => Collection.build (st.operands es) t
    | none => if o.isAggregate then convert o t else Collection.build [o] t

/-- The assignment of a value to a target, and the type of the target. A variable that the target
declares is declared in place when the assignment is a statement. -/
def store (nullChecks : Bool) (st : State) (target : Expr) (right : Option Expr) (o : Operand)
    (statement : Bool) : Except Fault (String × Option Ty) :=
  match target with
  | .var v => do
    let b ← bindingOf st v
    let value ← valueFor st right o (some b.type)
    if statement && st.isLocalDecl v then return (declaration b value, some b.type)
    else return (st.nameOf b ++ " = " ++ value, some b.type)
  | .index _ _ _ _ _ _ | .deref _ _ _ => do
    let p ← pathOf st target
    let t ← p.target
    let value ← valueFor st right o t
    let code ← p.write nullChecks value
    return (code, t)
  | _ => .error (notAssignable target)

/-! ## Assignments to lists -/

/-- The source of an assignment to a list as a sequence: its code and its type. -/
def sequenceOf (src : Operand) : Except Fault (String × Option Ty) :=
  match src.type with
  | some (.agg .map e) => do
    let t := Ty.listOf e
    let code ← convert src (some t)
    return (code, some t)
  | some (.agg s e) => .ok (src.code, some (.agg s e))
  | t => do
    let t := t.map Ty.arrayOf
    let code ← Collection.build [src] t
    return (code, t)

/-- What the target with number `i` of a list receives of a sequence in an auxiliary variable.
`consumed` holds when a target before it has taken the rest. -/
def listItem (aux : String) (t : Option Ty) (i : Nat) (target : Expr) (consumed : Bool) : Operand :=
  if consumed then
    if target.isListTarget then .nonNull (Java.emptyOf? t) t
    else { code := "null", type := some .box, undef := true }
  else if target.isListTarget then .nonNull (Java.call "Pd" "rest" [aux, toString i]) t
  else .ofElement (Java.call "Pd" "at" [aux, toString i]) (t.map Ty.elem)

/-- The assignments to the targets of a list, from the one with number `i` on. A place that is left
undefined receives nothing. -/
def storeItems (nullChecks : Bool) (st : State) (aux : String) (t : Option Ty) :
    Nat → Bool → List Expr → Except Fault (List String)
  | _, _, [] => .ok []
  | i, consumed, target :: rest =>
    if target.isUndef then storeItems nullChecks st aux t (i + 1) consumed rest
    else do
      let item := listItem aux t i target consumed
      let (line, _) ← store nullChecks st target none item true
      let lines ← storeItems nullChecks st aux t (i + 1) (consumed || target.isListTarget) rest
      return line :: lines

/-- An assignment to a list. A single target of one value takes the first value; several targets
are assigned from an auxiliary variable, as a statement. -/
def assignList (targets : List Expr) (right : Expr) (u : Usage) : Compile Output := do
  let nullChecks := (← read).nullChecks
  let st ← get
  let src := st.operandOf right
  let several : Compile Output := do
    if !u.isVoid then throw (.unsupported "list assignment used as a value")
    let (code, t) ← sequenceOf src
    let aux ← onTable (·.auxiliary "")
    let lines ← storeItems nullChecks st aux t 0 false targets
    let first := Java.declType? t ++ " " ++ aux ++ " = " ++ code
    return { code := Text.join "; " (first :: lines), type := t }
  match targets with
  | [target] =>
    if target.isListTarget then several
    else
      let src := { src with multi := src.multi || src.isSequence, firstOfMany := true }
      let (code, t) ← store nullChecks st target (some right) src u.isVoid
      return { code := wrap u code, type := t }
  | _ => several

/-! ## Assignments with an operator -/

/-- A target that one expression reads and writes, and its type. -/
def updatedPlace (target : Expr) : Compile (Path.ReadWrite × Option Ty) := do
  let st ← get
  match target with
  | .var v =>
    let b ← bindingOf st v
    let name := st.nameOf b
    return (⟨.plain name (some b.type), fun value => name ++ " = " ++ value⟩, some b.type)
  | .index _ _ _ _ _ _ | .deref _ _ _ =>
    let p ← pathOf st target
    let t ← p.target
    let (rw, acc) ← p.readWrite (← read).nullChecks st.toAccessState
    set { st with toAccessState := acc }
    return (rw, t)
  | _ => throw (notAssignable target)

/-- An assignment with an operator. -/
def compoundAssign (op : String) (left right : Expr) (u : Usage) : Compile Output := do
  let op := (Text.dropTrailing? "=" op).getD op
  let (place, t) ← updatedPlace left
  let r := (← get).operandOf right
  let result ←
    if op = "||" || op = "&&" || op = "//" then logicalValue op place.read r true
    else binaryOp (← read).nullChecks op place.read r
  let value ← convert result t
  return { code := wrap u (place.write value), type := t }

/-- An assignment. -/
def assignOutput (op : String) (left right : Expr) (u : Usage) : Compile Output := do
  if op ≠ "=" then compoundAssign op left right u
  else match left with
    | .list _ targets => assignList targets right u
    | left =>
      let st ← get
      let (code, t) ←
        store (← read).nullChecks st left (some right) (st.operandOf right) u.isVoid
      return { code := wrap u code, type := t }

/-! ## Steps -/

/-- The sign of a step: the first character of its operator. -/
def stepSign (op : String) : String :=
  match op.toList with
  | c :: _ => String.singleton (if c.toNat < 128 then c else Char.ofNat 0xfffd)
  | [] => ""

/-- The variable of a primitive kind of number that an expression is. -/
def primitiveVariable? (st : State) (target : Expr) : Option Binding :=
  match target with
  | .var v => (st.binding? v).filter fun b => b.type.kind?.any Conversion.isPrimitive
  | _ => none

/-- A step behind its target has the value that the target had before: the stored value with the
step undone. -/
def beforeStep (nullChecks : Bool) (op : String) (stored : String) (t : Option Ty) (k : Kind) :
    Except Fault Output := do
  let kept := Operand.nonNull (Java.paren stored) t
  let kept ←
    if t = some (.scalar k) then pure kept
    else do
      let c ← convertNonNull nullChecks kept (some (.scalar k))
      pure (Operand.nonNull c (some (.scalar k)))
  let inverse := if op = "--" then "+" else "-"
  return { code := Java.paren (kept.code ++ " " ++ inverse ++ " 1"), type := kept.type }

/-- A step up or down. -/
def stepOutput (op : String) (before : Bool) (target : Expr) (u : Usage) : Compile Output := do
  let st ← get
  match primitiveVariable? st target with
  | some b =>
    let name := st.nameOf b
    let code := if before then op ++ name else name ++ op
    return { code := wrap u code, type := some b.type }
  | none =>
    let nullChecks := (← read).nullChecks
    let (place, t) ← updatedPlace target
    let k := numberKind t
    let rc ← convertNonNull nullChecks place.read (some (.scalar k))
    let step := Java.paren (rc ++ " " ++ stepSign op ++ " 1")
    let value ← convert (.nonNull step (some (.scalar k))) t
    if before || u.isVoid then return { code := wrap u (place.write value), type := t }
    else beforeStep nullChecks op (place.write value) t k

end TypedPerl.Compile
