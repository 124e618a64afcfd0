import TypedPerl.Diagnostic
import TypedPerl.Sigil

/-!
# Syntax trees

The tree of one source file. Every node carries a number that no other node of the tree has, by
which what is generated for it is kept, and its position in the source.
-/

namespace TypedPerl

/-- The number and the position of a node. -/
structure Info where
  /-- The number of the node in its tree. -/
  id : Nat
  /-- Its position in the source. -/
  pos : Pos
deriving DecidableEq, Repr, Inhabited

/-! ## Expressions -/

/-- How a variable is declared where it is named. -/
inductive Declarator where
  /-- It is only used. -/
  | use
  /-- A variable of the enclosing block. -/
  | my
  /-- A variable of the package. -/
  | our
  /-- A variable whose value is put back at the end of the block. -/
  | localized
deriving DecidableEq, Repr, Inhabited

/-- The word of a declarator. -/
def Declarator.toText : Declarator → String
  | .use => ""
  | .my => "my"
  | .our => "our"
  | .localized => "local"

/-- The declarator of a word. -/
def Declarator.ofText? (s : String) : Option Declarator :=
  match s with
  | "" => some .use
  | "my" => some .my
  | "our" => some .our
  | "local" => some .localized
  | _ => none

/-- A variable where it is named. -/
structure Variable where
  /-- The number and position. -/
  info : Info
  /-- Its name. -/
  name : String
  /-- The package that it is named with. -/
  package : String := ""
  /-- The mark in front of its name. -/
  sigil : Sigil
  /-- How it is declared here. -/
  decl : Declarator := .use
  /-- The type that is written beside it. -/
  type : Option Ty := none
deriving DecidableEq, Repr, Inhabited

/-- An expression. -/
inductive Expr where
  /-- A numeral as it is written. -/
  | number (info : Info) (text : String)
  /-- A string: its pieces in order, where an empty place stands for the next expression. -/
  | string (info : Info) (pieces : List (Option String)) (exprs : List Expr)
  /-- The undefined value. -/
  | undef (info : Info)
  /-- A variable. -/
  | var (v : Variable)
  /-- An element or a slice of a container, which may be reached through a reference. -/
  | index (info : Info) (throughRef : Bool) (target key : Expr) (brace : Bool) (context : Sigil)
  /-- The whole of what a reference refers to. -/
  | deref (info : Info) (target : Expr) (sigil : Sigil)
  /-- A reference to something. -/
  | makeRef (info : Info) (target : Expr)
  /-- A new array. -/
  | anonArray (info : Info) (elems : List Expr) (type : Option Ty)
  /-- A new map. -/
  | anonHash (info : Info) (elems : List Expr) (type : Option Ty)
  /-- A list in parentheses. -/
  | list (info : Info) (elems : List Expr)
  /-- An assignment, plain or with an operator. -/
  | assign (info : Info) (op : String) (left right : Expr)
  /-- An increment or decrement, before or after its target. -/
  | incDec (info : Info) (op : String) (before : Bool) (target : Expr)
  /-- An operator between two expressions. -/
  | binary (info : Info) (op : String) (left right : Expr)
  /-- An operator in front of an expression. -/
  | unary (info : Info) (op : String) (operand : Expr)
  /-- A choice between two expressions. -/
  | ternary (info : Info) (cond yes no : Expr)
  /-- A call of a builtin function or of a subroutine. -/
  | call (info : Info) (package name : String) (args : List Expr)
deriving Repr, Inhabited

namespace Expr

/-- The number and position of an expression. -/
def info : Expr → Info
  | number i _ | string i _ _ | undef i | index i _ _ _ _ _ | deref i _ _ | makeRef i _
  | anonArray i _ _ | anonHash i _ _ | list i _ | assign i _ _ _ | incDec i _ _ _
  | binary i _ _ _ | unary i _ _ | ternary i _ _ _ | call i _ _ _ => i
  | var v => v.info

/-- The number of an expression. -/
def id (e : Expr) : Nat := e.info.id

/-- The position of an expression. -/
def pos (e : Expr) : Pos := e.info.pos

/-- The name of the kind of an expression, for messages. -/
def kindName : Expr → String
  | number _ _ => "Number"
  | string _ _ _ => "String"
  | undef _ => "Undef"
  | var _ => "Variable"
  | index _ false _ _ _ _ => "Index"
  | index _ true _ _ _ _ => "RefIndex"
  | deref _ _ _ => "Deref"
  | makeRef _ _ => "MakeRef"
  | anonArray _ _ _ => "AnonArray"
  | anonHash _ _ _ => "AnonHash"
  | list _ _ => "List"
  | assign _ _ _ _ => "Assign"
  | incDec _ _ _ _ => "IncDec"
  | binary _ _ _ _ => "Binary"
  | unary _ _ _ => "Unary"
  | ternary _ _ _ _ => "Ternary"
  | call _ _ _ _ => "Call"

/-- The direct parts of an expression, in the order of the source. -/
def children : Expr → List Expr
  | number _ _ | undef _ | var _ => []
  | string _ _ es => es
  | index _ _ t k _ _ => [t, k]
  | deref _ t _ | makeRef _ t | incDec _ _ _ t | unary _ _ t => [t]
  | anonArray _ es _ | anonHash _ es _ | list _ es | call _ _ _ es => es
  | assign _ _ l r | binary _ _ l r => [l, r]
  | ternary _ c y n => [c, y, n]

end Expr

/-! ## Statements -/

/-- A variable that a type pragma names. -/
structure PragmaTarget where
  /-- The mark in front of its name. -/
  sigil : Sigil
  /-- Its name. -/
  name : String
deriving DecidableEq, Repr, Inhabited

/-- What a type is announced under. -/
def announceKey (sigil : Sigil) (name : String) : String :=
  sigil.toText ++ name

mutual

/-- A statement. -/
inductive Stmt where
  /-- An expression. -/
  | expr (info : Info) (e : Expr)
  /-- A block of its own. -/
  | block (body : Block)
  /-- A condition with any number of further branches. -/
  | cond (info : Info) (negated : Bool) (test : Expr) (yes : Block) (elsifs : List ElseIf)
      (no : Block)
  /-- A loop with a condition, tested before or after the body. -/
  | loop (info : Info) (negated : Bool) (bodyFirst : Bool) (test : Expr) (body : Block)
  /-- A loop with a start, conditions and steps. -/
  | steps (info : Info) (init test post : List Expr) (body : Block)
  /-- A loop over a list. Without a variable of its own it has the one numbered `implicit`. -/
  | foreach (info : Info) (var : Option Variable) (implicit : Nat) (list : Expr) (body : Block)
  /-- The end of a subroutine. -/
  | ret (info : Info) (value : Option Expr)
  /-- A jump in a loop. -/
  | jump (info : Info) (keyword : String)
  /-- The definition of a subroutine. -/
  | sub (info : Info) (name : String) (returns : Option Ty) (body : Block)
  /-- The package that the file makes up. -/
  | package (info : Info) (name : String)
  /-- A package that the file uses. -/
  | use (info : Info) (name : String)
  /-- A type for coming declarations. -/
  | pragma (info : Info) (targets : List PragmaTarget) (type : Ty)
  /-- A comment. -/
  | comment (info : Info) (text : String)

/-- The body of a statement. -/
inductive Block where
  /-- There is none. -/
  | absent
  /-- The statements of a body. -/
  | mk (info : Info) (stmts : List Stmt)

/-- A further branch of a condition. -/
inductive ElseIf where
  /-- The test and the body of a branch. -/
  | mk (info : Info) (test : Expr) (body : Block)

end

instance : Inhabited Stmt := ⟨.comment default ""⟩
instance : Inhabited Block := ⟨.absent⟩

namespace Block

/-- The number and position of a body. -/
def info : Block → Info
  | absent => default
  | mk i _ => i

/-- The statements of a body. -/
def stmts : Block → List Stmt
  | absent => []
  | mk _ ss => ss

/-- There is a body. -/
def isPresent : Block → Bool
  | absent => false
  | mk _ _ => true

end Block

namespace Stmt

/-- The number and position of a statement. -/
def info : Stmt → Info
  | expr i _ | cond i _ _ _ _ _ | loop i _ _ _ _ | steps i _ _ _ _ | foreach i _ _ _ _ | ret i _
  | jump i _ | sub i _ _ _ | package i _ | use i _ | pragma i _ _ | comment i _ => i
  | block b => b.info

/-- The number of a statement. -/
def id (s : Stmt) : Nat := s.info.id

/-- The position of a statement. -/
def pos (s : Stmt) : Pos := s.info.pos

/-- The variable of a loop over a list that has none of its own. -/
def implicitVar (info : Info) (implicit : Nat) : Variable :=
  { info := ⟨implicit, info.pos⟩, name := "_", sigil := .scalar, decl := .my }

end Stmt

/-- The tree of one source file. -/
structure SourceUnit where
  /-- The name of the source file. -/
  file : String
  /-- The class that the file asks for. -/
  className : String
  /-- Its statements. -/
  stmts : List Stmt
deriving Inhabited

end TypedPerl
