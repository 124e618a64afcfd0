import TypedPerl.Tree.Predicates

/-!
# Parts of a tree

The parts of a statement in the order of the source. The variable of a loop over a list that has
none of its own belongs to the tree only once it was made; `made` says for which numbers that is
so.
-/

namespace TypedPerl

/-- A part of a tree. -/
inductive Part where
  /-- An expression. -/
  | expr (e : Expr)
  /-- A statement; a body counts as one. -/
  | stmt (s : Stmt)
  /-- A further branch of a condition. -/
  | branch (b : ElseIf)

namespace Part

/-- The number and position of a part. -/
def info : Part → Info
  | expr e => e.info
  | stmt s => s.info
  | branch (.mk i _ _) => i

/-- The body as a part, if there is one. -/
def ofBlock : Block → List Part
  | .absent => []
  | b => [stmt (.block b)]

/-- The variable of a loop over a list. -/
def loopVar (made : Nat → Bool) (info : Info) (var : Option Variable) (implicit : Nat) :
    List Part :=
  match var with
  | some v => [expr (.var v)]
  | none => if made implicit then [expr (.var (Stmt.implicitVar info implicit))] else []

/-- The direct parts of a part. -/
def children (made : Nat → Bool) : Part → List Part
  | expr e => e.children.map expr
  | branch (.mk _ test body) => expr test :: ofBlock body
  | stmt s =>
    match s with
    | .expr _ e => [expr e]
    | .block b => b.stmts.map stmt
    | .cond _ _ test yes elsifs no =>
      expr test :: (ofBlock yes ++ (elsifs.map branch ++ ofBlock no))
    | .loop _ _ _ test body => expr test :: ofBlock body
    | .steps _ init test post body =>
      init.map expr ++ (test.map expr ++ (post.map expr ++ ofBlock body))
    | .foreach i var implicit list body =>
      loopVar made i var implicit ++ (expr list :: ofBlock body)
    | .ret _ value => (value.map expr).toList
    | .sub _ _ _ body => ofBlock body
    | .jump _ _ | .package _ _ | .use _ _ | .pragma _ _ _ | .comment _ _ => []

end Part

/-! ## All parts -/

mutual

/-- The statement and all its parts, each before its own parts. -/
def Stmt.preorder (made : Nat → Bool) : Stmt → List Part
  | .expr i e => .stmt (.expr i e) :: e.preorder.map .expr
  | .block b => b.preorder made
  | .cond i neg test yes elsifs no =>
    .stmt (.cond i neg test yes elsifs no) ::
      (test.preorder.map .expr ++ (yes.preorder made ++
        (Stmt.preorderBranches made elsifs ++ no.preorder made)))
  | .loop i neg first test body =>
    .stmt (.loop i neg first test body) :: (test.preorder.map .expr ++ body.preorder made)
  | .steps i init test post body =>
    .stmt (.steps i init test post body) ::
      ((Expr.preorderList (init ++ (test ++ post))).map .expr ++ body.preorder made)
  | .foreach i var implicit list body =>
    .stmt (.foreach i var implicit list body) ::
      (Part.loopVar made i var implicit ++ (list.preorder.map .expr ++ body.preorder made))
  | .ret i value =>
    .stmt (.ret i value) :: (Expr.preorderList value.toList).map .expr
  | .sub i name returns body => .stmt (.sub i name returns body) :: body.preorder made
  | .jump i keyword => [.stmt (.jump i keyword)]
  | .package i name => [.stmt (.package i name)]
  | .use i name => [.stmt (.use i name)]
  | .pragma i targets type => [.stmt (.pragma i targets type)]
  | .comment i text => [.stmt (.comment i text)]

/-- The body and all its parts. -/
def Block.preorder (made : Nat → Bool) : Block → List Part
  | .absent => []
  | .mk i stmts => .stmt (.block (.mk i stmts)) :: Stmt.preorderList made stmts

/-- The branch and all its parts. -/
def ElseIf.preorder (made : Nat → Bool) : ElseIf → List Part
  | .mk i test body =>
    .branch (.mk i test body) :: (test.preorder.map .expr ++ body.preorder made)

/-- The statements of a list and all their parts. -/
def Stmt.preorderList (made : Nat → Bool) : List Stmt → List Part
  | [] => []
  | s :: rest => s.preorder made ++ Stmt.preorderList made rest

/-- The branches of a list and all their parts. -/
def Stmt.preorderBranches (made : Nat → Bool) : List ElseIf → List Part
  | [] => []
  | b :: rest => b.preorder made ++ Stmt.preorderBranches made rest

end

/-- All parts of the tree of a file. -/
def SourceUnit.preorder (made : Nat → Bool) (u : SourceUnit) : List Part :=
  Stmt.preorderList made u.stmts

end TypedPerl
