import TypedPerl.Document.Fields

/-!
# Expressions of a tree document

`expr` reads the mapping that describes an expression, and the mappings inside it. It is bounded by
a number of levels; a document needs more than it has only if it holds itself.
-/

namespace TypedPerl.Document

open Yaml (Node)

/-- The kinds of expressions. -/
def exprKinds : List String :=
  ["number", "string", "undef", "var", "index", "refindex", "deref", "ref", "anon_array",
    "anon_hash", "list", "assign", "incdec", "binary", "unary", "ternary", "call"]

section

variable (expr : Node → Decode Expr)

/-- The expression of a field that must be given. -/
def requiredExpr (f : Fields) (key : String) : Decode Expr :=
  match f.get? key with
  | some n => expr n
  | none => refuse f.node ("missing " ++ key)

/-- The expression of a field that may be given. -/
def optionalExpr (f : Fields) (key : String) : Decode (Option Expr) :=
  match f.get? key with
  | some n => some <$> expr n
  | none => return none

/-- The expressions of a field that may be given. -/
def exprList (f : Fields) (key : String) : Decode (List Expr) :=
  match f.get? key with
  | none => return []
  | some (.sequence _ items) => items.mapM expr
  | some n => refuse n ("expected a list of expressions, got " ++ kindText n)

/-- A piece of a string: a text, or an expression. -/
def stringPiece (n : Node) : Decode (String ⊕ Expr) :=
  match n with
  | .scalar _ t _ => return .inl t
  | n => do
    let f ← fields n
    match f.get? "expr" with
    | some e => .inr <$> expr e
    | none => .inl <$> f.text "text"

/-- A string, given as one text or as a list of pieces. -/
def stringExpr (f : Fields) (info : Info) : Decode Expr := do
  match f.get? "parts" with
  | none => return .string info [some (← f.text "value")] []
  | some (.sequence _ items) =>
    let pieces ← items.mapM (stringPiece expr)
    return .string info (pieces.map Sum.getLeft?) (pieces.filterMap Sum.getRight?)
  | some n => refuse n "parts must be a list"

/-- A variable. -/
def variableExpr (f : Fields) (info : Info) : Decode Variable := do
  let name ← f.required "name"
  let sigil ← f.sigil "sigil"
  let package ← f.text "package"
  let word ← f.text "decl"
  match Declarator.ofText? word with
  | none =>
    refuse ((f.get? "decl").getD f.node) ("unknown declarator " ++ Text.quote word)
  | some decl =>
    return { info, name, package, sigil, decl, type := ← f.type "type" }

/-- An element or a slice. -/
def indexExpr (f : Fields) (info : Info) (throughRef : Bool) : Decode Expr := do
  let target ← requiredExpr expr f "target"
  let key ← requiredExpr expr f "key"
  let brace ← f.flag "brace"
  let context ← f.sigil "context"
  return .index info throughRef target key brace context

/-- An assignment; without an operator it is a plain one. -/
def assignExpr (f : Fields) (info : Info) : Decode Expr := do
  let op ← f.text "op"
  let left ← requiredExpr expr f "left"
  let right ← requiredExpr expr f "right"
  return .assign info (if op = "" then "=" else op) left right

/-- An operator between two expressions. -/
def binaryExpr (f : Fields) (info : Info) : Decode Expr := do
  let op ← f.text "op"
  let left ← requiredExpr expr f "left"
  let right ← requiredExpr expr f "right"
  if op = "" then refuse f.node "missing op"
  else return .binary info op left right

/-- An increment or decrement. -/
def incDecExpr (f : Fields) (info : Info) : Decode Expr := do
  let op ← f.required "op"
  let before ← f.flag "prefix"
  let target ← requiredExpr expr f "target"
  return .incDec info op before target

/-- A call. -/
def callExpr (f : Fields) (info : Info) : Decode Expr := do
  let name ← f.required "name"
  let package ← f.text "package"
  let args ← exprList expr f "args"
  return .call info package name args

/-- The expression of a kind that a node with these fields describes. -/
def exprOfKind (n : Node) (f : Fields) (info : Info) (kind : String) : Decode Expr :=
  match kind with
  | "number" =>
    match f.get? "value" with
    | some (.scalar _ t _) => return .number info t
    | _ => refuse n "number needs a scalar value"
  | "string" => stringExpr expr f info
  | "undef" => return .undef info
  | "var" => .var <$> variableExpr f info
  | "index" => indexExpr expr f info false
  | "refindex" => indexExpr expr f info true
  | "deref" => do
    let target ← requiredExpr expr f "target"
    return .deref info target (← f.sigil "sigil")
  | "ref" => .makeRef info <$> requiredExpr expr f "target"
  | "anon_array" => do
    let elems ← exprList expr f "elements"
    return .anonArray info elems (← f.type "type")
  | "anon_hash" => do
    let elems ← exprList expr f "elements"
    return .anonHash info elems (← f.type "type")
  | "list" => .list info <$> exprList expr f "elements"
  | "assign" => assignExpr expr f info
  | "binary" => binaryExpr expr f info
  | "incdec" => incDecExpr expr f info
  | "unary" => do
    let op ← f.required "op"
    .unary info op <$> requiredExpr expr f "operand"
  | "ternary" => do
    let cond ← requiredExpr expr f "cond"
    let yes ← requiredExpr expr f "then"
    let no ← requiredExpr expr f "else"
    return .ternary info cond yes no
  | "call" => callExpr expr f info
  | _ => refuse n ("unknown expression kind " ++ Text.quote kind)

end

/-- Reads an expression, within a number of levels. -/
def expr : Nat → Node → Decode Expr
  | 0, _ => throw .endless
  | levels + 1, n => do
    let f ← fields n
    let kind ← f.required "kind"
    let info ← f.info
    exprOfKind (expr levels) n f info kind

end TypedPerl.Document
