import TypedPerl.Compile.Unit
import TypedPerl.Proofs.Twin.Resolve
import TypedPerl.Proofs.Twin.Statement
import TypedPerl.Proofs.Walk.Settled

/-!
# The walk in two runs

Twin states stay twins through the walk over every expression and every statement of a tree whose
written types are well formed (`walkExpr_twin`, `statement_twin`), and so through a pass over a
unit (`pass_twin`).
-/

namespace TypedPerl

namespace Part

theorem allTyped_cons {p : Part} {ps : List Part} :
    AllTyped (p :: ps) ↔ Ty.Fine p.writtenType ∧ AllTyped ps :=
  List.forall_mem_cons

theorem allTyped_append {ps qs : List Part} :
    AllTyped (ps ++ qs) ↔ AllTyped ps ∧ AllTyped qs :=
  List.forall_mem_append

theorem allTyped_expr {es : List Expr} :
    AllTyped (es.map .expr) ↔ ∀ e ∈ es, Ty.Fine e.writtenType :=
  List.forall_mem_map

end Part

namespace Compile

open TypedPerl.Part (AllTyped allTyped_cons allTyped_append allTyped_expr)

variable {c : Comparison} {s t : State}

/-! ## Expressions -/

theorem resolveExpr_twin {e : Expr} (he : Ty.Fine e.writtenType) : TwinStep c (resolveExpr e) := by
  cases e with
  | var v => exact resolveVariableWith_twin v he Ty.fine_none
  | call i package name args => exact resolveCall_twin i package name
  | _ => exact .pure trivial

theorem finishExpr_twin {e : Expr} (he : Ty.Fine e.writtenType) (u : Usage) :
    TwinStep c (finishExpr e u) := by
  refine Twin.seq ((resolveExpr_twin he).located e.pos) (Twin.located e.pos ?_)
  exact (exprOutput_twin he u).bind fun _ _ hout => setOutput_twin e.id hout

theorem walkParts_twin {ps : List (Expr × Usage)}
    (h : ∀ p ∈ ps, TwinStep c (walkExpr p.1 p.2)) : TwinStep c (walkParts ps) := by
  induction ps with
  | nil => exact .pure trivial
  | cons p rest ih =>
    exact (h p List.mem_cons_self).seq (ih fun q hq => h q (List.mem_cons_of_mem p hq))

/-- The walk over an expression keeps states twins. -/
theorem walkExpr_twin {e : Expr} (he : ∀ x ∈ e.preorder, Ty.Fine x.writtenType) (u : Usage) :
    TwinStep c (walkExpr e u) := by
  revert he
  refine e.parts_induction (P := fun e u => (∀ x ∈ e.preorder, Ty.Fine x.writtenType) →
    TwinStep c (walkExpr e u)) (fun e u ih he => ?_) u
  -- the parts first, then the expression itself
  rw [walkExpr_eq]
  refine Twin.seq (walkParts_twin fun p hp => ih p hp fun x hx => ?_)
    (finishExpr_twin (he e e.self_mem_preorder) u)
  exact he x ((Expr.mem_preorder_iff u).mpr (.inr ⟨p, hp, hx⟩))

theorem walkExprs_twin {es : List Expr} (h : ∀ x ∈ Expr.preorderList es, Ty.Fine x.writtenType)
    (usage : Nat → Usage) : TwinStep c (walkExprs es usage) := by
  induction es generalizing usage with
  | nil =>
    rw [walkExprs]
    exact .pure trivial
  | cons e rest ih =>
    obtain ⟨he, hrest⟩ := List.forall_mem_append.1 h
    rw [walkExprs]
    exact (walkExpr_twin he _).seq (ih hrest _)

/-! ## Scopes and loop variables -/

theorem finishStmt_twin (x : Stmt) : TwinStep c (finishStmt x) :=
  Twin.located x.pos ((stmtOutput_twin x).bind fun _ _ hout => setOutput_twin x.id hout)

theorem inBlock_twin {x : Compile Unit} (h : TwinStep c x) : TwinStep c (inBlock x) := by
  intro s t hst
  refine .change_bind ?_
  exact h.ensuring (fun _ _ hst => hst.exit) _ _ (hst.enter .block)

theorem blockSteps_twin (info : Info) (stmts : List Stmt) {x : Compile Unit} (h : TwinStep c x) :
    TwinStep c (blockSteps info stmts x) :=
  (inBlock_twin h).seq (finishStmt_twin _)

theorem inSub_twin (info : Info) (name : String) {returns : Option Ty} (ht : Ty.Fine returns)
    {x : Compile Unit} (h : TwinStep c x) : TwinStep c (inSub info name returns x) :=
  (enterSub_twin info name ht).seq (h.ensuring fun _ _ hst => hst.closeSub)

/-- A loop without a variable is given the same in both runs. -/
theorem loopVariable_twin (info : Info) {var : Option Variable} (implicit : Nat)
    (h : AllTyped (Part.loopVar (fun _ => true) info var implicit)) :
    Twin c (fun v w => v = w ∧ Ty.Fine v.type) (loopVariable info var implicit)
      (loopVariable info var implicit) := by
  cases var with
  | some v => exact .pure ⟨rfl, h _ List.mem_cons_self⟩
  | none =>
    -- an implicit variable is made once, and both runs have made the same ones
    have hmade : TwinStep c (modify fun st : State =>
        if st.made.contains implicit then st else { st with made := implicit :: st.made }) := by
      refine .change fun s t hst => ?_
      rw [show s.made = t.made from congrArg (·.made) hst.shared]
      split
      · exact hst
      · exact hst.of_shared rfl rfl (congrArg (fun r : State =>
          { r with made := implicit :: t.made }) hst.shared)
    exact hmade.bind fun _ _ _ => .pure ⟨rfl, Ty.fine_none⟩

theorem walkLoopVariable_twin (v : Variable) (hv : Ty.Fine v.type) (list : Expr) :
    TwinStep c (walkLoopVariable v list) := by
  intro s t h
  obtain ⟨hlike, -⟩ := h.output list.id
  refine .get_bind ?_
  rw [← hlike.type]
  refine (resolveLoopVariable_twin v hv hlike.fine s t h).bind fun _ _ s t h _ => ?_
  refine Twin.located v.info.pos ?_ s t h
  exact (variableOutput_twin v .void).bind fun _ _ hout => setOutput_twin v.info.id hout

/-! ## Statements -/

-- Induction is on the syntax. The steps of a statement follow each other as its parts keep twins; a
-- step of a part that fails ends them in both runs, and both recover.
mutual

/-- The walk over a statement keeps states twins, and fails in both runs or in none. -/
theorem statement_twin : ∀ x : Stmt, AllTyped (x.preorder fun _ => true) →
    Twin c Eq (statement x) (statement x)
  | .block .absent, _ => by
    rw [statement]
    exact .pure rfl
  | .block (.mk i stmts), h => by
    rw [Stmt.preorder, Block.preorder, allTyped_cons] at h
    rw [statement]
    exact recovering_twin _ (blockSteps_twin i stmts (statements_twin stmts h.2))
  | .expr i e, h => by
    rw [Stmt.preorder, allTyped_cons, allTyped_expr] at h
    rw [statement]
    exact recovering_twin _ ((walkExpr_twin h.2 _).seq (finishStmt_twin _))
  | .cond i negated test yes elsifs no, h => by
    simp only [Stmt.preorder, allTyped_cons, allTyped_append, allTyped_expr] at h
    obtain ⟨-, htest, hyes, helsifs, hno⟩ := h
    rw [statement]
    exact recovering_twin _ ((walkExpr_twin htest _).seq ((body_twin yes hyes).seq
      ((walkBranches_twin elsifs helsifs).seq ((body_twin no hno).seq (finishStmt_twin _)))))
  | .loop i negated bodyFirst test b, h => by
    simp only [Stmt.preorder, allTyped_cons, allTyped_append, allTyped_expr] at h
    obtain ⟨-, htest, hbody⟩ := h
    rw [statement]
    refine recovering_twin _ ?_
    split
    · exact (body_twin b hbody).seq ((walkExpr_twin htest _).seq (finishStmt_twin _))
    · exact (walkExpr_twin htest _).seq ((body_twin b hbody).seq (finishStmt_twin _))
  | .steps i init test post b, h => by
    -- the three rows of a header stand in one row of the tree
    simp only [Stmt.preorder, allTyped_cons, allTyped_append, allTyped_expr,
      Expr.preorderList_eq_flatMap, List.flatMap_append, List.forall_mem_append] at h
    simp only [← Expr.preorderList_eq_flatMap] at h
    obtain ⟨-, ⟨hinit, htest, hpost⟩, hbody⟩ := h
    rw [statement]
    exact recovering_twin _ (inBlock_twin ((walkExprs_twin hinit _).seq
      ((walkExprs_twin htest _).seq ((walkExprs_twin hpost _).seq
        ((body_twin b hbody).seq (finishStmt_twin _))))))
  | .foreach i var implicit list b, h => by
    simp only [Stmt.preorder, allTyped_cons, allTyped_append, allTyped_expr] at h
    obtain ⟨-, hvar, hlist, hbody⟩ := h
    rw [statement]
    refine recovering_twin _ ((walkExpr_twin hlist _).seq (inBlock_twin ?_))
    refine (loopVariable_twin i implicit hvar).bind fun v w hvw => ?_
    obtain ⟨rfl, hv⟩ := hvw
    exact (walkLoopVariable_twin v hv list).seq ((body_twin b hbody).seq (finishStmt_twin _))
  | .ret i value, h => by
    rw [Stmt.preorder, allTyped_cons, allTyped_expr] at h
    rw [statement]
    refine recovering_twin _ fun s t hst => .get_bind ?_
    have husage : returnUsage s = returnUsage t := by
      unfold returnUsage
      rw [hst.walking]
    rw [husage]
    exact (walkExprs_twin h.2 _).seq (finishStmt_twin _) s t hst
  | .sub i name returns b, h => by
    rw [Stmt.preorder, allTyped_cons] at h
    rw [statement]
    exact recovering_twin _ (inSub_twin i name h.1 ((body_twin b h.2).seq (finishStmt_twin _)))
  | .package i name, _ => by
    rw [statement]
    exact recovering_twin _
      (((resolvePackageDecl_twin i.pos name).located i.pos).seq (finishStmt_twin _))
  | .use i name, _ => by
    rw [statement]
    exact recovering_twin _ (((resolveUse_twin i.pos name).located i.pos).seq (finishStmt_twin _))
  | .pragma i targets type, h => by
    rw [Stmt.preorder, allTyped_cons] at h
    rw [statement]
    exact recovering_twin _ ((resolvePragma_twin targets (h.1 type rfl)).seq (finishStmt_twin _))
  | .jump i keyword, _ => by
    rw [statement]
    exact recovering_twin _ (finishStmt_twin _)
  | .comment i text, _ => by
    rw [statement]
    exact recovering_twin _ (finishStmt_twin _)

theorem body_twin : ∀ b : Block, AllTyped (b.preorder fun _ => true) → TwinStep c (body b)
  | .absent, _ => by
    rw [body]
    exact .pure trivial
  | .mk i stmts, h => by
    rw [Block.preorder, allTyped_cons] at h
    rw [body]
    exact (recovering_twin i.pos (blockSteps_twin i stmts (statements_twin stmts h.2))).bind
      fun _ _ _ => .pure trivial

theorem statements_twin : ∀ stmts : List Stmt,
    AllTyped (Stmt.preorderList (fun _ => true) stmts) → TwinStep c (statements stmts)
  | [], _ => by
    rw [statements]
    exact .pure trivial
  | x :: rest, h => by
    rw [Stmt.preorderList, allTyped_append] at h
    rw [statements]
    exact (statement_twin x h.1).bind fun _ _ _ => statements_twin rest h.2

theorem walkBranches_twin : ∀ branches : List ElseIf,
    AllTyped (Stmt.preorderBranches (fun _ => true) branches) →
    TwinStep c (walkBranches branches)
  | [], _ => by
    rw [walkBranches]
    exact .pure trivial
  | .mk i test b :: rest, h => by
    simp only [Stmt.preorderBranches, ElseIf.preorder, List.cons_append, List.append_assoc,
      allTyped_cons, allTyped_append, allTyped_expr] at h
    obtain ⟨-, htest, hbody, hrest⟩ := h
    rw [walkBranches]
    exact (walkExpr_twin htest _).seq ((body_twin b hbody).seq
      ((Twin.located i.pos (setOutput_twin i.id (.refl c ⟨rfl, rfl, Ty.fine_none⟩))).seq
        (walkBranches_twin rest hrest)))

end

/-! ## Passes -/

/-- The statements that go into the main method are the same. -/
theorem topLevel_twin : ∀ stmts : List Stmt,
    AllTyped (Stmt.preorderList (fun _ => true) stmts) →
    Twin c (fun a b => c.same → a = b) (topLevel stmts) (topLevel stmts)
  | [], _ => .pure fun _ => rfl
  | x :: rest, h => by
    rw [Stmt.preorderList, allTyped_append] at h
    rw [topLevel]
    refine (statement_twin x h.1).bind fun ok _ hok => ?_
    cases hok
    intro s t hst
    refine .get_bind ((topLevel_twin rest h.2 s t hst).bind fun a b s' t' hst' hab => ?_)
    refine .pure hst' fun hs => ?_
    rw [hst.lineOf? hs, hab hs]

theorem Twins.restart (h : Twins c s t) : Twins c s.restart t.restart where
  outputs := h.outputs
  paths _ := .none
  methods := .nil
  bindings := h.bindings
  bound := h.bound
  called := h.called
  table := h.table
  left := h.left
  right := h.right
  shared := congrArg (fun r : State => r.restart) h.shared

theorem subsTyped_of_allTyped {stmts : List Stmt}
    (h : AllTyped (Stmt.preorderList (fun _ => true) stmts)) : SubsTyped stmts := by
  intro info name returns body hmem
  induction stmts with
  | nil => exact absurd hmem List.not_mem_nil
  | cons x rest ih =>
    rw [Stmt.preorderList, allTyped_append] at h
    rcases List.mem_cons.1 hmem with rfl | hmem
    · exact h.1 _ List.mem_cons_self
    · exact ih h.2 hmem

/-- A pass over a unit keeps states twins. -/
theorem pass_twin {stmts : List Stmt} (h : AllTyped (Stmt.preorderList (fun _ => true) stmts)) :
    Twin c (fun a b => c.same → a = b) (pass stmts) (pass stmts) := by
  refine (prepare_twin (subsTyped_of_allTyped h)).bind fun _ _ _ => ?_
  have hrestart : TwinStep c (modify State.restart) := .change fun _ _ hst => hst.restart
  exact hrestart.bind fun _ _ _ => topLevel_twin stmts h

end Compile

end TypedPerl
