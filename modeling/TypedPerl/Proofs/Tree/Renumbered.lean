import TypedPerl.Tree.Basic

/-!
# Trees with other numbers

`renumber num` puts `num i` for each number `i` of a node in a tree and leaves everything else as it
is. Two trees are the same up to the numbers of their nodes when they are the same with all numbers
made one.
-/

namespace TypedPerl

variable (num : Nat → Nat)

def Info.renumber (i : Info) : Info :=
  { i with id := num i.id }

def Variable.renumber (v : Variable) : Variable :=
  { v with info := v.info.renumber num }

namespace Expr

mutual

/-- The expression with other numbers. -/
def renumber : Expr → Expr
  | number i t => number (i.renumber num) t
  | string i ps es => string (i.renumber num) ps (renumberList es)
  | undef i => undef (i.renumber num)
  | var v => var (v.renumber num)
  | index i r t k b c => index (i.renumber num) r t.renumber k.renumber b c
  | deref i t s => deref (i.renumber num) t.renumber s
  | makeRef i t => makeRef (i.renumber num) t.renumber
  | anonArray i es t => anonArray (i.renumber num) (renumberList es) t
  | anonHash i es t => anonHash (i.renumber num) (renumberList es) t
  | list i es => list (i.renumber num) (renumberList es)
  | assign i op l r => assign (i.renumber num) op l.renumber r.renumber
  | incDec i op b t => incDec (i.renumber num) op b t.renumber
  | binary i op l r => binary (i.renumber num) op l.renumber r.renumber
  | unary i op x => unary (i.renumber num) op x.renumber
  | ternary i c y n => ternary (i.renumber num) c.renumber y.renumber n.renumber
  | call i p n es => call (i.renumber num) p n (renumberList es)

/-- The expressions with other numbers. -/
def renumberList : List Expr → List Expr
  | [] => []
  | e :: es => e.renumber :: renumberList es

end

theorem renumberList_eq_map (es : List Expr) : renumberList num es = es.map (renumber num) := by
  induction es with
  | nil => rfl
  | cons e es ih => rw [renumberList, ih, List.map_cons]

end Expr

mutual

/-- The statement with other numbers. -/
def Stmt.renumber : Stmt → Stmt
  | .expr i e => .expr (i.renumber num) (e.renumber num)
  | .block b => .block b.renumber
  | .cond i neg t y bs n =>
    .cond (i.renumber num) neg (t.renumber num) y.renumber (ElseIf.renumberList bs) n.renumber
  | .loop i neg first t b => .loop (i.renumber num) neg first (t.renumber num) b.renumber
  | .steps i init t post b =>
    .steps (i.renumber num) (Expr.renumberList num init) (Expr.renumberList num t)
      (Expr.renumberList num post) b.renumber
  | .foreach i v implicit l b =>
    .foreach (i.renumber num) (v.map (Variable.renumber num)) (num implicit) (l.renumber num)
      b.renumber
  | .ret i v => .ret (i.renumber num) (v.map (Expr.renumber num))
  | .jump i k => .jump (i.renumber num) k
  | .sub i n t b => .sub (i.renumber num) n t b.renumber
  | .package i n => .package (i.renumber num) n
  | .use i n => .use (i.renumber num) n
  | .pragma i ts t => .pragma (i.renumber num) ts t
  | .comment i t => .comment (i.renumber num) t

/-- The body with other numbers. -/
def Block.renumber : Block → Block
  | .absent => .absent
  | .mk i ss => .mk (i.renumber num) (Stmt.renumberList ss)

/-- The branch with other numbers. -/
def ElseIf.renumber : ElseIf → ElseIf
  | .mk i t b => .mk (i.renumber num) (t.renumber num) b.renumber

/-- The statements with other numbers. -/
def Stmt.renumberList : List Stmt → List Stmt
  | [] => []
  | s :: ss => s.renumber :: Stmt.renumberList ss

/-- The branches with other numbers. -/
def ElseIf.renumberList : List ElseIf → List ElseIf
  | [] => []
  | b :: bs => b.renumber :: ElseIf.renumberList bs

end

theorem Stmt.renumberList_eq_map (ss : List Stmt) :
    Stmt.renumberList num ss = ss.map (Stmt.renumber num) := by
  induction ss with
  | nil => rfl
  | cons s ss ih => rw [Stmt.renumberList, ih, List.map_cons]

theorem ElseIf.renumberList_eq_map (bs : List ElseIf) :
    ElseIf.renumberList num bs = bs.map (ElseIf.renumber num) := by
  induction bs with
  | nil => rfl
  | cons b bs ih => rw [ElseIf.renumberList, ih, List.map_cons]

/-- The unit with other numbers. -/
def SourceUnit.renumber (u : SourceUnit) : SourceUnit :=
  { u with stmts := u.stmts.map (Stmt.renumber num) }

/-! ## The same numbers -/

mutual

theorem Expr.renumber_id : ∀ e : Expr, e.renumber (fun i => i) = e
  | .number _ _ | .undef _ | .var _ => rfl
  | .string i ps es => congrArg (Expr.string i ps) (Expr.renumberList_id es)
  | .index i r t k b c => by
    rw [Expr.renumber, t.renumber_id, k.renumber_id]
    rfl
  | .deref i t s => congrArg (Expr.deref i · s) t.renumber_id
  | .makeRef i t => congrArg (Expr.makeRef i) t.renumber_id
  | .anonArray i es t => congrArg (Expr.anonArray i · t) (Expr.renumberList_id es)
  | .anonHash i es t => congrArg (Expr.anonHash i · t) (Expr.renumberList_id es)
  | .list i es => congrArg (Expr.list i) (Expr.renumberList_id es)
  | .assign i op l r | .binary i op l r => by
    rw [Expr.renumber, l.renumber_id, r.renumber_id]
    rfl
  | .incDec i op b t => congrArg (Expr.incDec i op b) t.renumber_id
  | .unary i op x => congrArg (Expr.unary i op) x.renumber_id
  | .ternary i c y n => by
    rw [Expr.renumber, c.renumber_id, y.renumber_id, n.renumber_id]
    rfl
  | .call i p n es => congrArg (Expr.call i p n) (Expr.renumberList_id es)

theorem Expr.renumberList_id : ∀ es : List Expr, Expr.renumberList (fun i => i) es = es
  | [] => rfl
  | e :: es => by rw [Expr.renumberList, e.renumber_id, Expr.renumberList_id es]

end

mutual

theorem Stmt.renumber_id : ∀ s : Stmt, s.renumber (fun i => i) = s
  | .expr i e => congrArg (Stmt.expr i) e.renumber_id
  | .block b => congrArg Stmt.block b.renumber_id
  | .cond i neg t y bs n => by
    rw [Stmt.renumber, t.renumber_id, y.renumber_id, ElseIf.renumberList_id bs, n.renumber_id]
    rfl
  | .loop i neg first t b => by
    rw [Stmt.renumber, t.renumber_id, b.renumber_id]
    rfl
  | .steps i init t post b => by
    rw [Stmt.renumber, Expr.renumberList_id, Expr.renumberList_id, Expr.renumberList_id,
      b.renumber_id]
    rfl
  | .foreach i v implicit l b => by
    rw [Stmt.renumber, l.renumber_id, b.renumber_id]
    cases v <;> rfl
  | .ret i v => by
    cases v with
    | none => rfl
    | some e => exact congrArg (fun e => Stmt.ret i (some e)) e.renumber_id
  | .sub i n t b => congrArg (Stmt.sub i n t) b.renumber_id
  | .jump _ _ | .package _ _ | .use _ _ | .pragma _ _ _ | .comment _ _ => rfl

theorem Block.renumber_id : ∀ b : Block, b.renumber (fun i => i) = b
  | .absent => rfl
  | .mk i ss => congrArg (Block.mk i) (Stmt.renumberList_id ss)

theorem ElseIf.renumber_id : ∀ b : ElseIf, b.renumber (fun i => i) = b
  | .mk i t b => by
    rw [ElseIf.renumber, t.renumber_id, b.renumber_id]
    rfl

theorem Stmt.renumberList_id : ∀ ss : List Stmt, Stmt.renumberList (fun i => i) ss = ss
  | [] => rfl
  | s :: ss => by rw [Stmt.renumberList, s.renumber_id, Stmt.renumberList_id ss]

theorem ElseIf.renumberList_id : ∀ bs : List ElseIf, ElseIf.renumberList (fun i => i) bs = bs
  | [] => rfl
  | b :: bs => by rw [ElseIf.renumberList, b.renumber_id, ElseIf.renumberList_id bs]

end

theorem SourceUnit.renumber_id (u : SourceUnit) : u.renumber (fun i => i) = u := by
  rw [SourceUnit.renumber, ← Stmt.renumberList_eq_map, Stmt.renumberList_id]

end TypedPerl
