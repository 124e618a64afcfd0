import TypedPerl.Tree.Basic

/-!
# What the syntax tells

Properties of an expression that follow from its form alone.
-/

namespace TypedPerl.Expr

/-- The expression is never null: it is no variable, element or undefined value, and no choice or
assignment that may give one. -/
def isNotNull : Expr → Bool
  | var _ | index _ _ _ _ _ _ | deref _ _ _ | undef _ => false
  | assign _ op _ r => if op = "=" then r.isNotNull else true
  | list _ es =>
    match es with
    | [e] => e.isNotNull
    | _ => true
  | ternary _ _ y n => y.isNotNull && n.isNotNull
  | _ => true

/-- The string holds expressions. -/
def isInterpolated (pieces : List (Option String)) : Bool :=
  pieces.any Option.isNone

/-- A number, or a string that holds no expression. -/
def isConstant : Expr → Bool
  | number _ _ => true
  | string _ pieces _ => !isInterpolated pieces
  | _ => false

/-- The undefined value. -/
def isUndef : Expr → Bool
  | undef _ => true
  | _ => false

/-- The expression gives a row of values of which one counts where one is wanted: a call, or a list
of any other length than one. -/
def isMultiValued : Expr → Bool
  | call _ _ _ _ => true
  | list _ es => es.length ≠ 1
  | _ => false

/-- An assignment to the expression takes a list. -/
def isListTarget : Expr → Bool
  | var v => v.sigil = .array || v.sigil = .hash
  | index _ _ _ _ _ c => c ≠ .scalar
  | deref _ _ s => s = .array || s = .hash
  | list _ _ => true
  | _ => false

mutual

/-- The expression and all its parts, each before its own parts. -/
def preorder : Expr → List Expr
  | number i t => [number i t]
  | string i p es => string i p es :: preorderList es
  | undef i => [undef i]
  | var v => [var v]
  | index i th t k b c => index i th t k b c :: (t.preorder ++ k.preorder)
  | deref i t s => deref i t s :: t.preorder
  | makeRef i t => makeRef i t :: t.preorder
  | anonArray i es t => anonArray i es t :: preorderList es
  | anonHash i es t => anonHash i es t :: preorderList es
  | list i es => list i es :: preorderList es
  | assign i op l r => assign i op l r :: (l.preorder ++ r.preorder)
  | incDec i op b t => incDec i op b t :: t.preorder
  | binary i op l r => binary i op l r :: (l.preorder ++ r.preorder)
  | unary i op t => unary i op t :: t.preorder
  | ternary i c y n => ternary i c y n :: (c.preorder ++ (y.preorder ++ n.preorder))
  | call i p n es => call i p n es :: preorderList es

/-- The expressions of a list and all their parts. -/
def preorderList : List Expr → List Expr
  | [] => []
  | e :: es => e.preorder ++ preorderList es

end

/-- The expression itself changes something: an assignment, an increment or a call. -/
def changes : Expr → Bool
  | assign _ _ _ _ | incDec _ _ _ _ | call _ _ _ _ => true
  | _ => false

/-- Evaluating the expression twice is the same as evaluating it once: nothing in it changes
anything. -/
def isRepeatable (e : Expr) : Bool :=
  !e.preorder.any changes

/-- The variables that the expression declares. -/
def declared (e : Expr) : List Variable :=
  e.preorder.filterMap fun x =>
    match x with
    | var v => if v.decl = .use then none else some v
    | _ => none

end TypedPerl.Expr
