import TypedPerl.Compile.Builtin

/-!
# Expressions

What is generated for an expression whose parts are generated already.
-/

namespace TypedPerl.Compile

/-- A variable. A variable of the class becomes a field where it is declared; a variable of a
method that is declared inside an expression is declared before the statement. -/
def variableOutput (v : Variable) (u : Usage) : Compile Output := do
  let b ← bindingOf (← get) v
  if b.isField && (v.decl = .my || v.decl = .our) then modify (·.addField b)
  if (← get).isLocalDecl v && !u.isVoid then
    modify (·.queue { type := some b.type, javaName := b.javaName, init := Java.emptyOf b.type })
  return { code := (← get).nameOf b, type := some b.type }

/-- The path of an element access. -/
def accessPath (st : State) (throughRef : Bool) (target key : Expr) (brace : Bool)
    (context : Sigil) : Path :=
  { base := st.operandOf target, throughRef := throughRef,
    keys := match severalElements? (some key) with
      | some es => st.operands es
      | none => [st.operandOf key],
    brace := brace, context := context, baseRepeatable := target.isRepeatable,
    keysRepeatable := key.isRepeatable }

/-- The path of a whole dereference. -/
def derefPath (st : State) (target : Expr) (sigil : Sigil) : Path :=
  { base := st.operandOf target, deref := true, context := sigil,
    baseRepeatable := target.isRepeatable }

/-- An access. Its path is kept; reading and deleting are generated here, and writing by the
assignment that owns the access. -/
def pathOutput (id : Nat) (p : Path) (u : Usage) : Compile Output := do
  let nullChecks := (← read).nullChecks
  modify fun st => { st with paths := st.paths.put id p }
  if u.deleted then
    let o ← p.delete nullChecks
    markEffect id
    return o.toOutput
  else if u.assigned || u.updated then return { type := ← p.target }
  else
    let o ← p.read nullChecks
    return o.toOutput

/-- What is generated for an expression. -/
def exprOutput (e : Expr) (u : Usage) : Compile Output := do
  let st ← get
  let nullChecks := (← read).nullChecks
  match e with
  | .number _ text => numberOutput text
  | .string _ pieces es => stringOutput pieces (st.operands es)
  | .undef _ => return { code := "null", type := some .box }
  | .var v => variableOutput v u
  | .index i throughRef target key brace context =>
    pathOutput i.id (accessPath st throughRef target key brace context) u
  | .deref i target sigil => pathOutput i.id (derefPath st target sigil) u
  | .makeRef _ target => return (st.operandOf target).makeRef.toOutput
  | .anonArray _ es t => anonArrayOutput (st.operands es) t
  | .anonHash _ es t => anonHashOutput (st.operands es) t
  | .list _ [x] => return st.output x.id
  | .list _ es => listOutput (st.operands es) u
  | .assign _ op left right => assignOutput op left right u
  | .incDec _ op before target => stepOutput op before target u
  | .binary _ op left right =>
    let o ← binaryValue op (st.operandOf left) (st.operandOf right) left.isRepeatable u
    return o.toOutput
  | .unary _ op x => unaryOutput nullChecks op (st.operandOf x) (st.output x.id)
  | .ternary _ cond yes no =>
    ternaryOutput nullChecks (st.operandOf cond) (st.operandOf yes) (st.operandOf no)
  | .call i _ name args => callOutput i.id name args u

end TypedPerl.Compile
