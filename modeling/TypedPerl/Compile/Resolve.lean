import TypedPerl.Compile.State

/-!
# Resolution of names

Finds for each variable and call the declaration it means, and enters declarations into the symbol
table. A node is resolved once. Packages that the run does not know are looked up in the catalog,
and then are known to the run.
-/

namespace TypedPerl.Compile

/-- The type that a subroutine returns if none is written. -/
def defaultReturns : Ty := .arrayOf .box

/-- The type of the arguments of a subroutine. -/
def argsType : Ty := .listOf .box

/-- A diagnostic. -/
def complain {α : Type} (code : Code) (pos : Pos) (message : String) : Compile α :=
  throw (.report ⟨code, pos, message⟩ none)

/-! ## Packages -/

/-- The package of a name. -/
def resolvePackage (name : String) (pos : Pos) : Compile Package := do
  let st ← get
  match st.table.registry.package? name with
  | some p => return p
  | none =>
    match (← read).catalog with
    | none => complain .unknownPackage pos ("unknown package " ++ name)
    | some c =>
      match c.get name with
      | .error f => throw (f.locate .unknownPackage pos)
      | .ok p => onTable fun t =>
          let (p, r) := t.registry.put p
          (p, { t with registry := r })

/-- The unit's own package, if it has the name. -/
def ownPackage? (st : State) (name : String) : Option Package :=
  st.table.own.filter fun p => p.name == name

/-- The first byte of a name, taken for a character of its own, is a small letter: one of ASCII or
of the upper half of the one-byte characters. -/
def startsLower (name : String) : Bool :=
  match name.toUTF8.data[0]? with
  | some b => (97 ≤ b && b ≤ 122) || b == 0xb5 || (0xdf ≤ b && b != 0xf7)
  | none => false

/-- Checks the use of a package. A name with a small letter is a directive and names none. -/
def resolveUse (pos : Pos) (name : String) : Compile Unit := do
  if startsLower name then return
  let _ ← resolvePackage name pos

/-- Checks the declaration of the package of the unit. -/
def resolvePackageDecl (pos : Pos) (name : String) : Compile Unit := do
  if (ownPackage? (← get) name).isSome then return
  if !(← onTable (·.openPackage name)) then
    complain .unsupported pos ("package " ++ name ++ " must be the first declaration of the file")

/-! ## Variables -/

/-- Keeps the variable that a node means. -/
def setBinding (id : Nat) (b : Binding) : Compile Unit :=
  modify fun st => { st with bindings := st.bindings.put id b }

/-- The variable that a use of a name means. -/
def lookupVariable (v : Variable) : Compile Binding := do
  let st ← get
  if v.package = "" then
    match st.table.lookup? v.name v.sigil with
    | some b => return b
    | none => complain .undeclared v.info.pos ("undeclared variable " ++ v.sigil.toText ++ v.name)
  else
    match (ownPackage? st v.package).bind fun p => p.var? v.name v.sigil with
    | some b => return b
    | none =>
      let p ← resolvePackage v.package v.info.pos
      match p.var? v.name v.sigil with
      | some b => return b
      | none =>
        complain .undeclared v.info.pos
          ("package " ++ v.package ++ " has no variable " ++ v.sigil.toText ++ v.name)

/-- The type of a variable that is declared: the one written beside it, else one announced by a
pragma, else `fallback`. An announced type is used up in any case. -/
def declaredType (v : Variable) (fallback : Option Ty) : Compile Ty := do
  let announced ← onTable (·.consume (announceKey v.sigil v.name))
  let name := v.sigil.toText ++ v.name
  match v.type <|> announced <|> fallback with
  | none =>
    complain .untyped v.info.pos (v.decl.toText ++ " " ++ name ++ " declared without a type")
  | some t =>
    if v.sigil.accepts (some t) then return t
    else complain .untyped v.info.pos (name ++ " cannot hold " ++ t.describe)

/-- Declares a variable with a type. -/
def declareVariable (v : Variable) (t : Ty) : Compile Unit := do
  let isPublic := v.decl = .our
  if isPublic && (← get).table.own.isNone then
    complain .ourOutside v.info.pos
      ("our " ++ v.sigil.toText ++ v.name ++ " outside a package")
  if v.package ≠ "" then
    complain .unsupported v.info.pos
      ("declaration of qualified name " ++ v.package ++ "::" ++ v.name)
  let b ← onTable (·.declare v.name v.sigil t isPublic)
  setBinding v.info.id b

/-- Resolves a variable, which may be declared here; `fallback` is its type if none is given. -/
def resolveVariableWith (v : Variable) (fallback : Option Ty) : Compile Unit := do
  if ((← get).binding? v).isSome then return
  match v.decl with
  | .my | .our =>
    let t ← declaredType v fallback
    declareVariable v t
  | .use | .localized =>
    let b ← lookupVariable v
    setBinding v.info.id b

/-- Resolves a variable, which may be declared here. -/
def resolveVariable (v : Variable) : Compile Unit :=
  resolveVariableWith v none

/-- Resolves the variable of a loop over a list. By default it has the type of the elements. -/
def resolveLoopVariable (v : Variable) (list : Option Ty) : Compile Unit :=
  resolveVariableWith v (list.map fun t => if t.elem.isAggregate then t.elem.refTo else t.elem)

/-- Records the types that a pragma announces. -/
def resolvePragma (targets : List PragmaTarget) (type : Ty) : Compile Unit :=
  modify fun st => st.setTable
    (targets.foldl (fun t x => t.announce (announceKey x.sigil x.name) type) st.table)

/-! ## Subroutines -/

/-- Keeps the subroutine that a node means. -/
def setSub (id : Nat) (s : Sub) : Compile Unit :=
  modify fun st => { st with subs := st.subs.put id s }

/-- Resolves a call, unless it is one of a builtin function. -/
def resolveCall (info : Info) (package name : String) : Compile Unit := do
  let st ← get
  if (st.subs.get? info.id).isSome || isBuiltin package name then return
  if package = "" then
    match st.table.lookupSub? "" name with
    | some s => setSub info.id s
    | none => complain .unknownSub info.pos ("unknown subroutine " ++ name)
  else
    match (ownPackage? st package).bind fun p => p.sub? name with
    | some s => setSub info.id s
    | none =>
      let p ← resolvePackage package info.pos
      match p.sub? name with
      | some s => setSub info.id s
      | none => complain .unknownSub info.pos ("unknown subroutine " ++ package ++ "::" ++ name)

/-- Declares a subroutine, unless its definition was met before, and gives it. -/
def declareSub (info : Info) (name : String) (returns : Option Ty) : Compile Sub := do
  match (← get).subs.get? info.id with
  | some s => return s
  | none =>
    let s ← onTable (·.declareSub name (returns.getD defaultReturns))
    setSub info.id s
    return s

/-- Opens the body of a subroutine, with its arguments in `@_`. -/
def enterSub (info : Info) (name : String) (returns : Option Ty) : Compile Unit := do
  let s ← declareSub info name returns
  let param ← onTable fun t => (t.enter .function).declare "_" .array argsType false
  modify fun st => st.openSub s param.javaName

/-! ## Before the statements -/

/-- The package that a unit opens: one that nothing but comments, uses and pragmas stands before. -/
def leadingPackage? : List Stmt → Option String
  | .package _ name :: _ => some name
  | .comment _ _ :: rest | .use _ _ :: rest | .pragma _ _ _ :: rest => leadingPackage? rest
  | _ => none

/-- Declares the subroutines among the statements of a unit. -/
def declareSubs : List Stmt → Compile Unit
  | [] => return
  | .sub info name returns _ :: rest => do
    let _ ← declareSub info name returns
    declareSubs rest
  | _ :: rest => declareSubs rest

/-- Opens the package of a unit and declares its subroutines, so that they are known before their
definitions. -/
def prepare (stmts : List Stmt) : Compile Unit := do
  match leadingPackage? stmts with
  | some name => let _ ← onTable (·.openPackage name)
  | none => pure ()
  declareSubs stmts

end TypedPerl.Compile
