import TypedPerl.Compile.Resolve
import TypedPerl.Compile.Statement

/-!
# The walk over a unit

Each expression is generated after its parts and each statement after its expressions and bodies.
The right side of an assignment comes before its left side, and the list of a loop before its
variable. A statement that fails is recorded and left out, and the walk goes on behind it.
-/

namespace TypedPerl.Compile

/-! ## Expressions -/

/-- Resolves the names in an expression itself. -/
def resolveExpr (e : Expr) : Compile Unit :=
  match e with
  | .var v => resolveVariable v
  | .call i package name _ => resolveCall i package name
  | _ => return

/-- Resolves and generates an expression whose parts are generated. -/
def finishExpr (e : Expr) (u : Usage) : Compile Unit := do
  located e.pos (resolveExpr e)
  located e.pos do
    let out ← exprOutput e u
    setOutput e.id out

mutual

/-- Generates an expression and its parts. -/
def walkExpr : Expr → Usage → Compile Unit
  | .number i text, u => finishExpr (.number i text) u
  | .undef i, u => finishExpr (.undef i) u
  | .var v, u => finishExpr (.var v) u
  | .string i pieces es, u => do
    walkExprs es fun _ => .scalar
    finishExpr (.string i pieces es) u
  | .index i throughRef target key brace context, u => do
    walkExpr target (if throughRef then .scalar else .list)
    walkExpr key (keyUsage key context)
    finishExpr (.index i throughRef target key brace context) u
  | .deref i target sigil, u => do
    walkExpr target .scalar
    finishExpr (.deref i target sigil) u
  | .makeRef i target, u => do
    walkExpr target .scalar
    finishExpr (.makeRef i target) u
  | .anonArray i es t, u => do
    walkExprs es fun _ => .list
    finishExpr (.anonArray i es t) u
  | .anonHash i es t, u => do
    walkExprs es fun _ => .list
    finishExpr (.anonHash i es t) u
  | .list i es, u => do
    walkExprs es fun _ => elementUsage es.length u
    finishExpr (.list i es) u
  | .assign i op left right, u => do
    walkExpr right (sourceUsage left)
    walkExpr left (targetUsage op u)
    finishExpr (.assign i op left right) u
  | .incDec i op before target, u => do
    walkExpr target .update
    finishExpr (.incDec i op before target) u
  | .binary i op left right, u => do
    walkExpr left (leftUsage op u)
    walkExpr right (rightUsage op u)
    finishExpr (.binary i op left right) u
  | .unary i op x, u => do
    walkExpr x (operandUsage op)
    finishExpr (.unary i op x) u
  | .ternary i cond yes no, u => do
    walkExpr cond .boolean
    walkExpr yes (branchUsage u)
    walkExpr no (branchUsage u)
    finishExpr (.ternary i cond yes no) u
  | .call i package name args, u => do
    walkExprs args (argUsage package name)
    finishExpr (.call i package name args) u

/-- Generates expressions in order; the usage of each follows from its place. -/
def walkExprs : List Expr → (Nat → Usage) → Compile Unit
  | [], _ => return
  | e :: rest, usage => do
    walkExpr e (usage 0)
    walkExprs rest fun i => usage (i + 1)

end

/-! ## Statements -/

/-- Generates a statement whose parts are generated. -/
def finishStmt (s : Stmt) : Compile Unit :=
  located s.pos do
    let out ← stmtOutput s
    setOutput s.id out

/-- Opens a block scope for some steps, and closes it also when they fail. -/
def inBlock (step : Compile Unit) : Compile Unit := do
  modify fun st => st.setTable (st.table.enter .block)
  ensuring step fun st => st.setTable st.table.exit

/-- The steps of a block, of which `inner` generates the statements. -/
def blockSteps (info : Info) (stmts : List Stmt) (inner : Compile Unit) : Compile Unit := do
  inBlock inner
  finishStmt (.block (.mk info stmts))

/-- Opens the body of a subroutine for some steps, and closes it also when they fail. -/
def inSub (info : Info) (name : String) (returns : Option Ty) (step : Compile Unit) :
    Compile Unit := do
  enterSub info name returns
  ensuring step State.closeSub

/-- How the value of a return is used. -/
def returnUsage (st : State) : Usage :=
  match st.walking with
  | s :: _ => if s.returns.isAggregate then .list else .scalar
  | [] => .scalar

/-- The variable of a loop over a list; one is made if the loop has none. -/
def loopVariable (info : Info) (var : Option Variable) (implicit : Nat) : Compile Variable := do
  match var with
  | some v => return v
  | none =>
    modify fun st =>
      if st.made.contains implicit then st else { st with made := implicit :: st.made }
    return Stmt.implicitVar info implicit

/-- Resolves and generates the variable of a loop over a list. -/
def walkLoopVariable (v : Variable) (list : Expr) : Compile Unit := do
  resolveLoopVariable v ((← get).output list.id).type
  located v.info.pos do
    let out ← variableOutput v .void
    setOutput v.info.id out

mutual

/-- Generates a statement; false if it failed. -/
def statement : Stmt → Compile Bool
  | .block .absent => return true
  | .block (.mk i stmts) => recovering i.pos (blockSteps i stmts (statements stmts))
  | .expr i e => recovering i.pos do
    walkExpr e .void
    finishStmt (.expr i e)
  | .cond i negated test yes elsifs no => recovering i.pos do
    walkExpr test .boolean
    body yes
    walkBranches elsifs
    body no
    finishStmt (.cond i negated test yes elsifs no)
  | .loop i negated bodyFirst test b => recovering i.pos do
    if bodyFirst then
      body b
      walkExpr test .boolean
    else
      walkExpr test .boolean
      body b
    finishStmt (.loop i negated bodyFirst test b)
  | .steps i init test post b => recovering i.pos (inBlock do
    walkExprs init fun _ => .void
    walkExprs test fun _ => .boolean
    walkExprs post fun _ => .void
    body b
    finishStmt (.steps i init test post b))
  | .foreach i var implicit list b => recovering i.pos do
    walkExpr list .list
    inBlock do
      let v ← loopVariable i var implicit
      walkLoopVariable v list
      body b
      finishStmt (.foreach i var implicit list b)
  | .ret i value => recovering i.pos do
    let usage := returnUsage (← get)
    walkExprs value.toList fun _ => usage
    finishStmt (.ret i value)
  | .sub i name returns b => recovering i.pos (inSub i name returns do
    body b
    finishStmt (.sub i name returns b))
  | .package i name => recovering i.pos do
    located i.pos (resolvePackageDecl i.pos name)
    finishStmt (.package i name)
  | .use i name => recovering i.pos do
    located i.pos (resolveUse i.pos name)
    finishStmt (.use i name)
  | .pragma i targets type => recovering i.pos do
    resolvePragma targets type
    finishStmt (.pragma i targets type)
  | .jump i keyword => recovering i.pos (finishStmt (.jump i keyword))
  | .comment i text => recovering i.pos (finishStmt (.comment i text))

/-- Generates a body, if there is one. -/
def body : Block → Compile Unit
  | .absent => return
  | .mk i stmts => do
    let _ ← recovering i.pos (blockSteps i stmts (statements stmts))

/-- Generates statements in order. -/
def statements : List Stmt → Compile Unit
  | [] => return
  | s :: rest => do
    let _ ← statement s
    statements rest

/-- Generates the further branches of a condition. -/
def walkBranches : List ElseIf → Compile Unit
  | [] => return
  | .mk i test b :: rest => do
    walkExpr test .boolean
    body b
    located i.pos (setOutput i.id {})
    walkBranches rest

end

end TypedPerl.Compile
