import TypedPerl.Tree.Part

/-!
# The nodes of a tree

The numbers of the nodes of an expression, a statement and a unit, in the order of `preorder`. The
variable of every loop over a list is counted, also one that is only made during the walk.

A unit is `Numbered` when no two of its nodes have the same number. What was generated for a node is
kept by its number, so that this is what makes the nodes of a tree different things.
-/

namespace TypedPerl

/-! ## Expressions -/

namespace Expr

/-- The numbers of the nodes of an expression. -/
def nodes (e : Expr) : List Nat :=
  e.preorder.map id

/-- The numbers of the nodes of several expressions. -/
def nodesList (es : List Expr) : List Nat :=
  (preorderList es).map id

@[simp] theorem nodes_number (i : Info) (t : String) : (number i t).nodes = [i.id] := rfl

@[simp] theorem nodes_undef (i : Info) : (undef i).nodes = [i.id] := rfl

@[simp] theorem nodes_var (v : Variable) : (var v).nodes = [v.info.id] := rfl

@[simp] theorem nodes_string (i : Info) (p : List (Option String)) (es : List Expr) :
    (string i p es).nodes = i.id :: nodesList es := rfl

@[simp] theorem nodes_index (i : Info) (th : Bool) (t k : Expr) (b : Bool) (c : Sigil) :
    (index i th t k b c).nodes = i.id :: (t.nodes ++ k.nodes) := by
  simp [nodes, preorder, id, info]

@[simp] theorem nodes_deref (i : Info) (t : Expr) (s : Sigil) :
    (deref i t s).nodes = i.id :: t.nodes := rfl

@[simp] theorem nodes_makeRef (i : Info) (t : Expr) : (makeRef i t).nodes = i.id :: t.nodes := rfl

@[simp] theorem nodes_anonArray (i : Info) (es : List Expr) (t : Option Ty) :
    (anonArray i es t).nodes = i.id :: nodesList es := rfl

@[simp] theorem nodes_anonHash (i : Info) (es : List Expr) (t : Option Ty) :
    (anonHash i es t).nodes = i.id :: nodesList es := rfl

@[simp] theorem nodes_list (i : Info) (es : List Expr) :
    (list i es).nodes = i.id :: nodesList es := rfl

@[simp] theorem nodes_assign (i : Info) (op : String) (l r : Expr) :
    (assign i op l r).nodes = i.id :: (l.nodes ++ r.nodes) := by
  simp [nodes, preorder, id, info]

@[simp] theorem nodes_incDec (i : Info) (op : String) (b : Bool) (t : Expr) :
    (incDec i op b t).nodes = i.id :: t.nodes := rfl

@[simp] theorem nodes_binary (i : Info) (op : String) (l r : Expr) :
    (binary i op l r).nodes = i.id :: (l.nodes ++ r.nodes) := by
  simp [nodes, preorder, id, info]

@[simp] theorem nodes_unary (i : Info) (op : String) (t : Expr) :
    (unary i op t).nodes = i.id :: t.nodes := rfl

@[simp] theorem nodes_ternary (i : Info) (c y n : Expr) :
    (ternary i c y n).nodes = i.id :: (c.nodes ++ (y.nodes ++ n.nodes)) := by
  simp [nodes, preorder, id, info]

@[simp] theorem nodes_call (i : Info) (p n : String) (es : List Expr) :
    (call i p n es).nodes = i.id :: nodesList es := rfl

@[simp] theorem nodesList_nil : nodesList [] = [] := rfl

@[simp] theorem nodesList_cons (e : Expr) (es : List Expr) :
    nodesList (e :: es) = e.nodes ++ nodesList es := by
  simp [nodesList, nodes, preorderList]

theorem nodesList_append (es fs : List Expr) :
    nodesList (es ++ fs) = nodesList es ++ nodesList fs := by
  induction es with
  | nil => rfl
  | cons e es ih => simp [ih]

end Expr

/-! ## Statements -/

/-- The numbers of some parts. -/
def Part.numbers (ps : List Part) : List Nat :=
  ps.map (·.info.id)

/-- The numbers of the nodes of a statement. -/
def Stmt.nodes (s : Stmt) : List Nat :=
  Part.numbers (s.preorder fun _ => true)

/-- The numbers of the nodes of several statements. -/
def Stmt.nodesList (ss : List Stmt) : List Nat :=
  Part.numbers (Stmt.preorderList (fun _ => true) ss)

/-- The numbers of the nodes of further branches. -/
def Stmt.nodesBranches (bs : List ElseIf) : List Nat :=
  Part.numbers (Stmt.preorderBranches (fun _ => true) bs)

/-- The numbers of the nodes of a body. -/
def Block.nodes (b : Block) : List Nat :=
  Part.numbers (b.preorder fun _ => true)

/-- The numbers of the nodes of a unit. -/
def SourceUnit.nodes (u : SourceUnit) : List Nat :=
  Stmt.nodesList u.stmts

/-- No two nodes of the unit have the same number. -/
def SourceUnit.Numbered (u : SourceUnit) : Prop :=
  u.nodes.Nodup

instance (u : SourceUnit) : Decidable u.Numbered :=
  inferInstanceAs (Decidable u.nodes.Nodup)

namespace Part

@[simp] theorem numbers_append (ps qs : List Part) :
    numbers (ps ++ qs) = numbers ps ++ numbers qs :=
  List.map_append

theorem numbers_stmt (s : Stmt) (ps : List Part) :
    numbers (stmt s :: ps) = s.id :: numbers ps := rfl

theorem numbers_branch (i : Info) (test : Expr) (body : Block) (ps : List Part) :
    numbers (branch (.mk i test body) :: ps) = i.id :: numbers ps := rfl

@[simp] theorem numbers_map_expr (es : List Expr) : numbers (es.map expr) = es.map Expr.id := by
  simp [numbers, Part.info, Expr.id, Function.comp_def]

/-- The variable of a loop over a list: its own, or the one made for it. -/
theorem numbers_loopVar (i : Info) (var : Option Variable) (implicit : Nat) :
    numbers (loopVar (fun _ => true) i var implicit) =
      [(var.getD (Stmt.implicitVar i implicit)).info.id] := by
  cases var with
  | none => rfl
  | some v => rfl

end Part

namespace Block

@[simp] theorem nodes_absent : absent.nodes = [] := rfl

@[simp] theorem nodes_mk (i : Info) (ss : List Stmt) :
    (mk i ss).nodes = i.id :: Stmt.nodesList ss := rfl

end Block

namespace Stmt

@[simp] theorem nodes_expr (i : Info) (e : Expr) : (expr i e).nodes = i.id :: e.nodes := by
  simp only [nodes, preorder, Part.numbers_stmt, Part.numbers_map_expr]
  rfl

@[simp] theorem nodes_block (b : Block) : (block b).nodes = b.nodes := rfl

@[simp] theorem nodes_cond (i : Info) (neg : Bool) (test : Expr) (yes : Block)
    (elsifs : List ElseIf) (no : Block) :
    (cond i neg test yes elsifs no).nodes =
      i.id :: (test.nodes ++ (yes.nodes ++ (nodesBranches elsifs ++ no.nodes))) := by
  simp only [nodes, preorder, Part.numbers_stmt, Part.numbers_append, Part.numbers_map_expr]
  rfl

@[simp] theorem nodes_loop (i : Info) (neg first : Bool) (test : Expr) (body : Block) :
    (loop i neg first test body).nodes = i.id :: (test.nodes ++ body.nodes) := by
  simp only [nodes, preorder, Part.numbers_stmt, Part.numbers_append, Part.numbers_map_expr]
  rfl

@[simp] theorem nodes_steps (i : Info) (init test post : List Expr) (body : Block) :
    (steps i init test post body).nodes =
      i.id :: (Expr.nodesList (init ++ (test ++ post)) ++ body.nodes) := by
  simp only [nodes, preorder, Part.numbers_stmt, Part.numbers_append, Part.numbers_map_expr]
  rfl

@[simp] theorem nodes_foreach (i : Info) (var : Option Variable) (implicit : Nat) (list : Expr)
    (body : Block) :
    (foreach i var implicit list body).nodes =
      i.id :: ((var.getD (implicitVar i implicit)).info.id :: (list.nodes ++ body.nodes)) := by
  simp only [nodes, preorder, Part.numbers_stmt, Part.numbers_append, Part.numbers_map_expr,
    Part.numbers_loopVar]
  rfl

@[simp] theorem nodes_ret (i : Info) (value : Option Expr) :
    (ret i value).nodes = i.id :: Expr.nodesList value.toList := by
  simp only [nodes, preorder, Part.numbers_stmt, Part.numbers_map_expr]
  rfl

@[simp] theorem nodes_sub (i : Info) (name : String) (returns : Option Ty) (body : Block) :
    (sub i name returns body).nodes = i.id :: body.nodes := rfl

@[simp] theorem nodes_jump (i : Info) (keyword : String) : (jump i keyword).nodes = [i.id] := rfl

@[simp] theorem nodes_package (i : Info) (name : String) : (package i name).nodes = [i.id] := rfl

@[simp] theorem nodes_use (i : Info) (name : String) : (use i name).nodes = [i.id] := rfl

@[simp] theorem nodes_pragma (i : Info) (targets : List PragmaTarget) (type : Ty) :
    (pragma i targets type).nodes = [i.id] := rfl

@[simp] theorem nodes_comment (i : Info) (text : String) : (comment i text).nodes = [i.id] := rfl

@[simp] theorem nodesList_nil : nodesList [] = [] := rfl

@[simp] theorem nodesList_cons (s : Stmt) (ss : List Stmt) :
    nodesList (s :: ss) = s.nodes ++ nodesList ss := by
  simp [nodesList, nodes, preorderList]

@[simp] theorem nodesBranches_nil : nodesBranches [] = [] := rfl

@[simp] theorem nodesBranches_cons (i : Info) (test : Expr) (body : Block) (bs : List ElseIf) :
    nodesBranches (.mk i test body :: bs) =
      i.id :: (test.nodes ++ (body.nodes ++ nodesBranches bs)) := by
  simp only [nodesBranches, preorderBranches, ElseIf.preorder, Part.numbers_append,
    Part.numbers_branch, Part.numbers_map_expr, List.cons_append, List.append_assoc]
  rfl

end Stmt

/-! ## Parts of a tree and its nodes -/

theorem Part.loopVar_sublist (made : Nat → Bool) (i : Info) (var : Option Variable)
    (implicit : Nat) :
    (Part.loopVar made i var implicit).Sublist (Part.loopVar (fun _ => true) i var implicit) := by
  unfold Part.loopVar
  split
  · exact .refl _
  · split
    · exact .refl _
    · exact List.nil_sublist _

mutual

/-- Loop variables that are not made are the only parts that a tree may lack. -/
theorem Stmt.preorder_sublist (made : Nat → Bool) :
    ∀ s : Stmt, (s.preorder made).Sublist (s.preorder fun _ => true)
  | .block b => b.preorder_sublist made
  | .cond _ _ _ yes elsifs no =>
    .cons_cons _ ((List.Sublist.refl _).append ((yes.preorder_sublist made).append
      ((Stmt.preorderBranches_sublist made elsifs).append (no.preorder_sublist made))))
  | .loop _ _ _ _ b | .steps _ _ _ _ b =>
    .cons_cons _ ((List.Sublist.refl _).append (b.preorder_sublist made))
  | .foreach i var implicit _ b =>
    -- the one statement with a part that may not be there
    .cons_cons _ ((Part.loopVar_sublist made i var implicit).append
      ((List.Sublist.refl _).append (b.preorder_sublist made)))
  | .sub _ _ _ b => .cons_cons _ (b.preorder_sublist made)
  | .expr _ _ | .ret _ _ | .jump _ _ | .package _ _ | .use _ _ | .pragma _ _ _ | .comment _ _ =>
    .refl _

theorem Block.preorder_sublist (made : Nat → Bool) :
    ∀ b : Block, (b.preorder made).Sublist (b.preorder fun _ => true)
  | .absent => .refl _
  | .mk _ ss => .cons_cons _ (Stmt.preorderList_sublist made ss)

theorem Stmt.preorderList_sublist (made : Nat → Bool) : ∀ ss : List Stmt,
    (Stmt.preorderList made ss).Sublist (Stmt.preorderList (fun _ => true) ss)
  | [] => .refl _
  | s :: rest => (s.preorder_sublist made).append (Stmt.preorderList_sublist made rest)

theorem Stmt.preorderBranches_sublist (made : Nat → Bool) : ∀ bs : List ElseIf,
    (Stmt.preorderBranches made bs).Sublist (Stmt.preorderBranches (fun _ => true) bs)
  | [] => .refl _
  | .mk _ _ b :: rest =>
    (List.Sublist.cons_cons _ ((List.Sublist.refl _).append (b.preorder_sublist made))).append
      (Stmt.preorderBranches_sublist made rest)

end

/-- The number of each part of a tree is one of the nodes of the tree. -/
theorem SourceUnit.id_mem_nodes {u : SourceUnit} {made : Nat → Bool} {p : Part}
    (h : p ∈ u.preorder made) : p.info.id ∈ u.nodes :=
  List.mem_map_of_mem ((Stmt.preorderList_sublist made u.stmts).subset h)

end TypedPerl
