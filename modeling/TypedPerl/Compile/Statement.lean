import TypedPerl.Compile.Expr

/-!
# Statements

The code of a statement whose parts are generated already. An expression that is no statement of
the target language is evaluated by the runtime, and one without effect is dropped unless such
statements are to be kept. Statements of a body that were not generated leave no text.
-/

namespace TypedPerl.Compile

open Conversion (convert convertNonNull)

/-! ## Bodies -/

/-- The lines of a body. -/
def bodyLines (st : State) (b : Block) : List String :=
  b.stmts.filterMap fun s => st.lineOf? s.id

/-- A body in braces, with lines before those of its statements. -/
def bodyCode (st : State) (leading : List String) (b : Block) : String :=
  Java.braces (leading ++ bodyLines st b)

/-! ## Expressions as statements -/

/-- The code of the expression is a statement with an effect. -/
def hasEffect (st : State) (e : Expr) : Bool :=
  match e with
  | .assign _ _ _ _ | .incDec _ _ _ _ => true
  | .call i _ _ _ | .index i _ _ _ _ _ | .deref i _ _ => st.effects.contains i.id
  | _ => false

/-- An expression as a statement, by the code that was generated for it. -/
def evaluated (strict : Bool) (st : State) (e : Expr) : String :=
  let code := (st.output e.id).code
  if code = "" then ""
  else if hasEffect st e then code ++ ";"
  else if e.isRepeatable && !strict then ""
  else Java.call "Pd" "eval" [Java.unparen code] ++ ";"

/-- The condition under which a guarded statement runs its right side: `none` for operators that
guard nothing. -/
def guardSign? (op : String) : Option String :=
  match op with
  | "||" | "or" => some "!"
  | "&&" | "and" => some ""
  | _ => none

mutual

/-- The statement that an expression is. -/
def exprStatement (env : Env) (st : State) : Expr → Except Fault String
  | .var v =>
    match st.binding? v with
    | some b =>
      if st.isLocalDecl v then .ok (declaration b (Java.emptyOf b.type) ++ ";")
      else if v.decl ≠ .use then .ok ""
      else .ok (evaluated env.strictStatements st (.var v))
    | none =>
      if v.decl ≠ .use then .ok "" else .ok (evaluated env.strictStatements st (.var v))
  | .list _ es => do
    let lines ← exprStatements env st es
    return Text.join "\n" (Java.nonEmpty lines)
  | .binary i op left right => do
    let plain := evaluated env.strictStatements st (.binary i op left right)
    match guardSign? op with
    | none => return plain
    | some sign =>
      let body ← exprStatement env st right
      if body = "" then return plain
      let cond ← convertNonNull env.nullChecks (st.operandOf left) (some .boolean)
      return "if (" ++ Java.unparen (sign ++ cond) ++ ") " ++ Java.braces [body]
  | e => .ok (evaluated env.strictStatements st e)

/-- The statements that several expressions are. -/
def exprStatements (env : Env) (st : State) : List Expr → Except Fault (List String)
  | [] => .ok []
  | e :: rest => do
    let line ← exprStatement env st e
    let lines ← exprStatements env st rest
    return line :: lines

end

/-! ## Conditions and loops -/

/-- The condition of a branch or loop. -/
def conditionCode (nullChecks : Bool) (st : State) (e : Expr) (negated : Bool) :
    Except Fault String := do
  let c ← convertNonNull nullChecks (st.operandOf e) (some .boolean)
  return Java.unparen ((if negated then "!" else "") ++ c)

/-- A further branch of a condition. -/
def branchCode (nullChecks : Bool) (st : State) (b : ElseIf) : Except Fault String :=
  match b with
  | .mk _ test body => do
    let c ← conditionCode nullChecks st test false
    return " else if (" ++ c ++ ") " ++ bodyCode st [] body

/-- A condition with its branches. -/
def condCode (nullChecks : Bool) (st : State) (negated : Bool) (test : Expr) (yes : Block)
    (elsifs : List ElseIf) (no : Block) : Except Fault String := do
  let c ← conditionCode nullChecks st test negated
  let branches ← elsifs.mapM (branchCode nullChecks st)
  let last := if no.isPresent then " else " ++ bodyCode st [] no else ""
  return "if (" ++ c ++ ") " ++ bodyCode st [] yes ++ String.join branches ++ last

/-- A loop with a condition. -/
def loopCode (nullChecks : Bool) (st : State) (negated bodyFirst : Bool) (test : Expr)
    (body : Block) : Except Fault String := do
  let c ← conditionCode nullChecks st test negated
  if bodyFirst then return "do " ++ bodyCode st [] body ++ " while (" ++ c ++ ");"
  else return "while (" ++ c ++ ") " ++ bodyCode st [] body

/-- The expressions of a loop header that have code. -/
def headerCode (st : State) (es : List Expr) : String :=
  Text.join ", " (Java.nonEmpty (es.map fun e => (st.output e.id).code))

/-- A loop with a start, conditions and steps. -/
def stepsCode (nullChecks : Bool) (st : State) (init test post : List Expr) (body : Block) :
    Except Fault String := do
  let conds ← test.mapM fun e => convertNonNull nullChecks (st.operandOf e) (some .boolean)
  let cond := Java.unparen (Text.join " && " conds)
  return "for (" ++ headerCode st init ++ "; " ++ cond ++ "; " ++ headerCode st post ++ ") " ++
    bodyCode st [] body

/-- A loop over a list. A variable of another type than the elements, or one that the loop does not
declare, is assigned from an auxiliary variable. -/
def foreachCode (v : Variable) (list : Expr) (body : Block) : Compile String := do
  let st ← get
  let (code, t) ← sequenceOf (st.operandOf list)
  let elem := t.map Ty.elem
  match st.binding? v with
  | none => throw (.unsupported "foreach without a resolved loop variable")
  | some b =>
    let header (name : String) : String :=
      "for (" ++ Java.declType? elem ++ " " ++ name ++ " : " ++ code ++ ") "
    if st.isLocalDecl v && some b.type = elem then
      return header b.javaName ++ bodyCode st [] body
    else
      let aux ← onTable (·.auxiliary "")
      let value ← convert (.ofElement aux elem) (some b.type)
      let first :=
        if st.isLocalDecl v then declaration b value ++ ";"
        else st.nameOf b ++ " = " ++ value ++ ";"
      return header aux ++ bodyCode st [first] body

/-! ## Subroutines -/

/-- The end of a subroutine. -/
def returnCode (st : State) (value : Option Expr) : Except Fault String :=
  match st.frames, value with
  | [], some _ => .error (.unsupported "return with a value outside a subroutine")
  | [], none => .ok "return;"
  | f :: _, none => .ok ("return " ++ Java.emptyOf f.sub.returns ++ ";")
  | f :: _, some e => do
    let v ← valueFor st (some e) (st.operandOf e) (some f.sub.returns)
    return "return " ++ v ++ ";"

/-- The last statement of a body returns. -/
def endsWithReturn (b : Block) : Bool :=
  match b.stmts.getLast? with
  | some (.ret _ _) => true
  | _ => false

/-- The body of a method. It returns a default value at its end unless the source does. -/
def methodBody (st : State) (returns : Ty) (b : Block) : String :=
  let body := bodyCode st [] b
  if endsWithReturn b then body
  else (Text.dropTrailing? "\x7d" body).getD body ++
    Java.indent ("return " ++ Java.emptyOf returns ++ ";") ++ "\n\x7d"

/-- The definition of a subroutine becomes a method and leaves no code where it stands. -/
def defineMethod (id : Nat) (name : String) (body : Block) : Compile Unit := do
  let st ← get
  match st.frames, st.subs.get? id with
  | f :: _, some s =>
    let m : Method :=
      { javaName := s.javaName, returns := some s.returns, param := f.param,
        body := methodBody st f.sub.returns body }
    set { st with methods := st.methods ++ [m] }
  | _, _ => throw (.unsupported ("subroutine " ++ name ++ " outside its scope"))

/-! ## All statements -/

/-- A comment of the source as comment lines. -/
def commentCode (text : String) : String :=
  let text := String.ofList (text.toList.reverse.dropWhile (· = '\n')).reverse
  Text.join "\n" ((text.splitOn "\n").map fun l =>
    let l := "// " ++ (Text.dropLeading? "#" l).getD l
    String.ofList (l.toList.reverse.dropWhile (· = ' ')).reverse)

/-- A jump in a loop. -/
def jumpCode (keyword : String) : Except Fault String :=
  match keyword with
  | "next" => .ok "continue;"
  | "last" => .ok "break;"
  | _ => .error (.unsupported ("loop control " ++ keyword))

/-- The code of a statement. -/
def stmtCode (s : Stmt) : Compile String := do
  let env ← read
  let st ← get
  match s with
  | .expr _ e => exprStatement env st e
  | .block b => return bodyCode st [] b
  | .cond _ negated test yes elsifs no => condCode env.nullChecks st negated test yes elsifs no
  | .loop _ negated bodyFirst test body => loopCode env.nullChecks st negated bodyFirst test body
  | .steps _ init test post body => stepsCode env.nullChecks st init test post body
  | .foreach i var implicit list body =>
    foreachCode (var.getD (Stmt.implicitVar i implicit)) list body
  | .ret _ value => returnCode st value
  | .jump _ keyword => jumpCode keyword
  | .sub i name _ body => do
    defineMethod i.id name body
    return ""
  | .comment _ text => return if env.comments then commentCode text else ""
  | .package _ _ | .use _ _ | .pragma _ _ _ => return ""

/-- What is generated for a statement: the declarations that it queued, then its code. -/
def stmtOutput (s : Stmt) : Compile Output := do
  let code ← stmtCode s
  let (decls, st) := (← get).drain
  set st
  return { code := Text.join "\n" (decls.map Declaration.render ++ Java.nonEmpty [code]) }

end TypedPerl.Compile
