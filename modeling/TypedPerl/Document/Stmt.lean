import TypedPerl.Document.Expr

/-!
# Statements of a tree document

`stmt` reads the mapping that describes a statement. An expression may stand where a statement is
wanted, and a list of statements where a block is wanted; such a block has no position.
-/

namespace TypedPerl.Document

open Yaml (Node)

section

variable (expr : Node → Decode Expr) (stmt : Node → Decode Stmt)

/-- The statements of a field that may be given. -/
def stmtList (f : Fields) (key : String) : Decode (List Stmt) :=
  match f.get? key with
  | none => return []
  | some (.sequence _ items) => items.mapM stmt
  | some n => refuse n ("expected a list of statements, got " ++ kindText n)

/-- The block of a field that may be given. -/
def blockField (f : Fields) (key : String) : Decode Block := do
  match f.get? key with
  | none => return .absent
  | some (.sequence _ items) =>
    let body ← items.mapM stmt
    return .mk ⟨← freshId, .unknown⟩ body
  | some n =>
    match ← stmt n with
    | .block b => return b
    | _ => refuse n "expected a block"

/-- A further branch of a condition. -/
def elseIf (n : Node) : Decode ElseIf := do
  let f ← fields n
  let info ← f.info
  let test ← requiredExpr expr f "cond"
  let body ← blockField stmt f "body"
  return .mk info test body

/-- The further branches of a condition. -/
def elseIfs (f : Fields) : Decode (List ElseIf) :=
  match f.get? "elsif" with
  | none => return []
  | some (.sequence _ items) => items.mapM (elseIf expr stmt)
  | some n => refuse n "elsif must be a list"

/-- A condition. -/
def condStmt (f : Fields) (info : Info) (negated : Bool) : Decode Stmt := do
  let test ← requiredExpr expr f "cond"
  let yes ← blockField stmt f "then"
  let no ← blockField stmt f "else"
  let branches ← elseIfs expr stmt f
  return .cond info negated test yes branches no

/-- A loop with a condition. -/
def loopStmt (f : Fields) (info : Info) (negated : Bool) : Decode Stmt := do
  let test ← requiredExpr expr f "cond"
  let bodyFirst ← f.flag "do"
  let body ← blockField stmt f "body"
  return .loop info negated bodyFirst test body

/-- A loop with a start, conditions and steps. -/
def stepsStmt (f : Fields) (info : Info) : Decode Stmt := do
  let init ← exprList expr f "init"
  let test ← exprList expr f "cond"
  let post ← exprList expr f "post"
  let body ← blockField stmt f "body"
  return .steps info init test post body

/-- The variable of a loop over a list. -/
def loopVariable (f : Fields) : Decode (Option Variable) := do
  match f.get? "var" with
  | none => return none
  | some n =>
    match ← expr n with
    | .var v => return some v
    | _ => refuse n "foreach variable must be a var node"

/-- A loop over a list. -/
def foreachStmt (f : Fields) (info : Info) : Decode Stmt := do
  let list ← requiredExpr expr f "list"
  let var ← loopVariable expr f
  let body ← blockField stmt f "body"
  return .foreach info var (← freshId) list body

/-- The definition of a subroutine. Without a body it has an empty one. -/
def subStmt (f : Fields) (info : Info) : Decode Stmt := do
  let name ← f.required "name"
  let returns ← f.type "returns"
  let body ← blockField stmt f "body"
  match body with
  | .absent => return .sub info name returns (.mk ⟨← freshId, .unknown⟩ [])
  | body => return .sub info name returns body

end

/-- A variable that a pragma names: its mark and its name, with blanks around them. -/
def pragmaTarget (n : Node) : Decode PragmaTarget :=
  match n with
  | .scalar _ t _ =>
    let s := Text.trim t
    if s.utf8ByteSize < 2 then refuse n "invalid pragma target"
    else match s.toList with
      | c :: name =>
        match Sigil.ofText? (String.singleton c) with
        | some sigil => return ⟨sigil, String.ofList name⟩
        | none => refuse n ("pragma target " ++ Text.quote s ++ " has no sigil")
      | [] => refuse n "invalid pragma target"
  | n => refuse n "invalid pragma target"

/-- A type for coming declarations. -/
def pragmaStmt (f : Fields) (info : Info) : Decode Stmt := do
  match ← f.type "type" with
  | none => refuse f.node "missing type"
  | some type =>
    match f.get? "targets" with
    | some (.sequence _ items) => return .pragma info (← items.mapM pragmaTarget) type
    | _ => refuse f.node "targets must be a list"

/-- The statement of a kind that a node with these fields describes. -/
def stmtOfKind (expr : Node → Decode Expr) (stmt : Node → Decode Stmt) (n : Node) (f : Fields)
    (info : Info) (kind : String) : Decode Stmt :=
  match kind with
  | "expr" => .expr info <$> requiredExpr expr f "expr"
  | "block" => (fun body => .block (.mk info body)) <$> stmtList stmt f "statements"
  | "if" => condStmt expr stmt f info false
  | "unless" => condStmt expr stmt f info true
  | "while" => loopStmt expr stmt f info false
  | "until" => loopStmt expr stmt f info true
  | "for" => stepsStmt expr stmt f info
  | "foreach" => foreachStmt expr stmt f info
  | "return" => .ret info <$> optionalExpr expr f "value"
  | "next" | "last" => return .jump info kind
  | "sub" => subStmt stmt f info
  | "package" => .package info <$> f.required "name"
  | "use" => .use info <$> f.required "name"
  | "pragma" => pragmaStmt f info
  | "comment" => .comment info <$> f.text "text"
  | _ =>
    if exprKinds.contains kind then .expr info <$> expr n
    else refuse n ("unknown statement kind " ++ Text.quote kind)

/-- Reads a statement, within a number of levels. -/
def stmt : Nat → Node → Decode Stmt
  | 0, _ => throw .endless
  | levels + 1, n => do
    let f ← fields n
    let kind ← f.required "kind"
    let info ← f.info
    stmtOfKind (expr levels) (stmt levels) n f info kind

end TypedPerl.Document
