import TypedPerl.Proofs.Walk.OwnStep

/-!
# The plan of a statement

The walk over a statement as data: the steps that the statement takes itself, the statements that
it calls, the scopes that it opens around the rest of its steps, and at the end the step that
finishes it. The cases of the syntax are gone through once, to show that the walk over a statement
runs the plan of the statement (`statement_eq`) and that the plan generates the nodes of the
statement (`nodes_plan_perm`). What holds of every walk is then proved by induction on plans.
-/

namespace TypedPerl

namespace Compile

/-! ## Plans -/

/-- What the walk over a statement does. -/
inductive Plan where
  /-- The statement is finished. -/
  | finish (s : Stmt)
  /-- A step of the statement itself, then the rest. -/
  | step (own : OwnStep) (rest : Plan)
  /-- A call of another statement with a plan of its own, then the rest. -/
  | call (inner rest : Plan)
  /-- The rest in a block scope. -/
  | inBlock (rest : Plan)
  /-- The rest in the body of a subroutine. -/
  | inSub (info : Info) (name : String) (returns : Option Ty) (rest : Plan)

namespace Plan

/-- The statement that the plan is for. -/
def stmt : Plan → Stmt
  | finish s => s
  | step _ rest | call _ rest | inBlock rest | inSub _ _ _ rest => rest.stmt

/-- The nodes that the plan generates, those of called statements included. -/
def nodes : Plan → List Nat
  | finish s => [s.id]
  | step own rest => own.nodes ++ rest.nodes
  | call inner rest => inner.nodes ++ rest.nodes
  | inBlock rest | inSub _ _ _ rest => rest.nodes

/-- Runs a plan. A called statement that fails does not stop the plan. -/
def exec : Plan → Compile Unit
  | finish s => finishStmt s
  | step own rest => do
    own.run
    rest.exec
  | call inner rest => do
    let _ ← recovering inner.stmt.pos inner.exec
    rest.exec
  | inBlock rest => Compile.inBlock rest.exec
  | inSub info name returns rest => Compile.inSub info name returns rest.exec

end Plan

end Compile

open Compile (Plan OwnStep)

/-- There is something to walk: all statements but an absent body. -/
def Stmt.isPresent : Stmt → Bool
  | .block b => b.isPresent
  | _ => true

mutual

/-- The plan of a statement. -/
def Stmt.plan : Stmt → Plan
  | .block .absent => .finish (.block .absent)
  | .block (.mk i stmts) => .inBlock (Stmt.planList stmts (.finish (.block (.mk i stmts))))
  | .expr i e => .step (.expr e .void) (.finish (.expr i e))
  | .cond i negated test yes elsifs no =>
    .step (.expr test .boolean) (yes.planBody (Stmt.planBranches elsifs
      (no.planBody (.finish (.cond i negated test yes elsifs no)))))
  | .loop i negated true test b =>
    b.planBody (.step (.expr test .boolean) (.finish (.loop i negated true test b)))
  | .loop i negated false test b =>
    .step (.expr test .boolean) (b.planBody (.finish (.loop i negated false test b)))
  | .steps i init test post b =>
    .inBlock (.step (.exprs init fun _ => .void) (.step (.exprs test fun _ => .boolean)
      (.step (.exprs post fun _ => .void) (b.planBody (.finish (.steps i init test post b))))))
  | .foreach i var implicit list b =>
    .step (.expr list .list) (.inBlock (.step (.loopVar i var implicit list)
      (b.planBody (.finish (.foreach i var implicit list b)))))
  | .ret i value => .step (.value value) (.finish (.ret i value))
  | .sub i name returns b =>
    .inSub i name returns (b.planBody (.finish (.sub i name returns b)))
  | .package i name =>
    .step (.check (Compile.located i.pos (Compile.resolvePackageDecl i.pos name))
      ((Compile.resolvePackageDecl_steady i.pos name).located i.pos)) (.finish (.package i name))
  | .use i name =>
    .step (.check (Compile.located i.pos (Compile.resolveUse i.pos name))
      ((Compile.resolveUse_steady i.pos name).located i.pos)) (.finish (.use i name))
  | .pragma i targets type =>
    .step (.check (Compile.resolvePragma targets type)
      (Compile.resolvePragma_steady targets type)) (.finish (.pragma i targets type))
  | .jump i keyword => .finish (.jump i keyword)
  | .comment i text => .finish (.comment i text)

/-- Calls a body, if there is one, before the rest of a plan. -/
def Block.planBody : Block → Plan → Plan
  | .absent, k => k
  | .mk i stmts, k => .call (.inBlock (Stmt.planList stmts (.finish (.block (.mk i stmts))))) k

/-- Calls statements in order before the rest of a plan. -/
def Stmt.planList : List Stmt → Plan → Plan
  | [], k => k
  | s :: rest, k =>
    if s.isPresent then .call s.plan (Stmt.planList rest k) else Stmt.planList rest k

/-- Goes through further branches of a condition before the rest of a plan. -/
def Stmt.planBranches : List ElseIf → Plan → Plan
  | [], k => k
  | .mk i test b :: rest, k =>
    .step (.expr test .boolean) (b.planBody (.step (.branch i) (Stmt.planBranches rest k)))

end

/-! ## The statement and the nodes of a plan -/

/-- Only an absent body is not there. -/
theorem Stmt.eq_absent {s : Stmt} (h : ¬s.isPresent = true) : s = .block .absent := by
  unfold Stmt.isPresent at h
  split at h
  · rename_i b
    cases b with
    | absent => rfl
    | mk i stmts => exact absurd rfl h
  · exact absurd rfl h

theorem Stmt.nodes_of_not_isPresent {s : Stmt} (h : ¬s.isPresent = true) : s.nodes = [] := by
  rw [Stmt.eq_absent h]
  rfl

@[simp] theorem Block.stmt_planBody (b : Block) (k : Plan) : (b.planBody k).stmt = k.stmt := by
  cases b <;> simp [Block.planBody, Plan.stmt]

@[simp] theorem Stmt.stmt_planList (ss : List Stmt) (k : Plan) :
    (Stmt.planList ss k).stmt = k.stmt := by
  induction ss with
  | nil => simp [Stmt.planList]
  | cons s rest ih =>
    unfold Stmt.planList
    split
    · exact ih
    · exact ih

@[simp] theorem Stmt.stmt_planBranches (bs : List ElseIf) (k : Plan) :
    (Stmt.planBranches bs k).stmt = k.stmt := by
  induction bs with
  | nil => simp [Stmt.planBranches]
  | cons b rest ih =>
    obtain ⟨i, test, body⟩ := b
    simp only [Stmt.planBranches, Plan.stmt, Block.stmt_planBody]
    exact ih

/-- The plan of a statement is for the statement. -/
@[simp] theorem Stmt.stmt_plan (s : Stmt) : s.plan.stmt = s := by
  cases s with
  | block b => cases b <;> simp [Stmt.plan, Plan.stmt]
  | loop i negated bodyFirst test b =>
    cases bodyFirst <;> simp [Stmt.plan, Plan.stmt]
  | _ => simp [Stmt.plan, Plan.stmt]

-- The walk goes through the parts of a statement in another order than `Stmt.nodes` lists them, the
-- node of the statement coming last, so that occurrences are counted. Induction is on the syntax.
mutual

private theorem Stmt.count_plan (n : Nat) :
    ∀ s : Stmt, s.isPresent = true → s.plan.nodes.count n = s.nodes.count n
  | .block .absent, h => nomatch h
  | .block (.mk i stmts), _ => by
    have hlist := Stmt.count_planList n stmts (.finish (.block (.mk i stmts)))
    simp only [Stmt.plan, Plan.nodes, hlist, Stmt.nodes_block, Block.nodes_mk, List.count_cons,
      List.count_nil, Stmt.id, Stmt.info, Block.info]
    omega
  | .expr i e, _ => by
    simp only [Stmt.plan, Plan.nodes, OwnStep.expr, Stmt.nodes_expr, List.count_append,
      List.count_cons, List.count_nil, Stmt.id, Stmt.info]
    omega
  | .cond i negated test yes elsifs no, _ => by
    simp only [Stmt.plan, Plan.nodes, OwnStep.expr, Block.count_planBody n yes,
      Stmt.count_planBranches n elsifs, Block.count_planBody n no, Stmt.nodes_cond,
      List.count_append, List.count_cons, List.count_nil, Stmt.id, Stmt.info]
    omega
  | .loop i negated true test b, _ => by
    simp only [Stmt.plan, Plan.nodes, OwnStep.expr, Block.count_planBody n b, Stmt.nodes_loop,
      List.count_append, List.count_cons, List.count_nil, Stmt.id, Stmt.info]
    omega
  | .loop i negated false test b, _ => by
    simp only [Stmt.plan, Plan.nodes, OwnStep.expr, Block.count_planBody n b, Stmt.nodes_loop,
      List.count_append, List.count_cons, List.count_nil, Stmt.id, Stmt.info]
    omega
  | .steps i init test post b, _ => by
    simp only [Stmt.plan, Plan.nodes, OwnStep.exprs, Block.count_planBody n b, Stmt.nodes_steps,
      Expr.nodesList_append, List.count_append, List.count_cons, List.count_nil, Stmt.id,
      Stmt.info]
    omega
  | .foreach i var implicit list b, _ => by
    simp only [Stmt.plan, Plan.nodes, OwnStep.expr, OwnStep.loopVar, Block.count_planBody n b,
      Stmt.nodes_foreach, List.count_append, List.count_cons, List.count_nil, Stmt.id, Stmt.info]
    omega
  | .ret i value, _ => by
    simp only [Stmt.plan, Plan.nodes, OwnStep.value, Stmt.nodes_ret, List.count_append,
      List.count_cons, List.count_nil, Stmt.id, Stmt.info]
    omega
  | .sub i name returns b, _ => by
    simp only [Stmt.plan, Plan.nodes, Block.count_planBody n b, Stmt.nodes_sub, List.count_cons,
      List.count_nil, Stmt.id, Stmt.info]
    omega
  | .package _ _, _ | .use _ _, _ | .pragma _ _ _, _ | .jump _ _, _ | .comment _ _, _ => rfl

private theorem Block.count_planBody (n : Nat) :
    ∀ (b : Block) (k : Plan), (b.planBody k).nodes.count n = b.nodes.count n + k.nodes.count n
  | .absent, k => by simp [Block.planBody]
  | .mk i stmts, k => by
    have hlist := Stmt.count_planList n stmts (.finish (.block (.mk i stmts)))
    simp only [Block.planBody, Plan.nodes, hlist, Block.nodes_mk, List.count_append,
      List.count_cons, List.count_nil, Stmt.id, Stmt.info, Block.info]
    omega

private theorem Stmt.count_planList (n : Nat) :
    ∀ (ss : List Stmt) (k : Plan),
      (Stmt.planList ss k).nodes.count n = (Stmt.nodesList ss).count n + k.nodes.count n
  | [], k => by simp [Stmt.planList]
  | s :: rest, k => by
    have hrest := Stmt.count_planList n rest k
    unfold Stmt.planList
    split
    · rename_i hs
      simp only [Plan.nodes, Stmt.count_plan n s hs, hrest, Stmt.nodesList_cons, List.count_append]
      omega
    · -- an absent body has no nodes
      rename_i hs
      have hnone : s.nodes = [] := Stmt.nodes_of_not_isPresent hs
      simp only [hrest, Stmt.nodesList_cons, hnone, List.nil_append]

private theorem Stmt.count_planBranches (n : Nat) :
    ∀ (bs : List ElseIf) (k : Plan),
      (Stmt.planBranches bs k).nodes.count n = (Stmt.nodesBranches bs).count n + k.nodes.count n
  | [], k => by simp [Stmt.planBranches]
  | .mk i test b :: rest, k => by
    simp only [Stmt.planBranches, Plan.nodes, OwnStep.expr, OwnStep.branch,
      Block.count_planBody n b, Stmt.count_planBranches n rest k, Stmt.nodesBranches_cons,
      List.count_append, List.count_cons, List.count_nil]
    omega

end

/-- The plan of a statement generates the nodes of the statement, each once. -/
theorem Stmt.nodes_plan_perm {s : Stmt} (h : s.isPresent = true) : s.plan.nodes.Perm s.nodes :=
  List.perm_iff_count.mpr fun n => Stmt.count_plan n s h

/-! ## The walk runs the plan -/

namespace Compile

/-- A statement is recovered from, so that walking it always gives an answer. -/
theorem recovering_ok (pos : Pos) (x : Compile Unit) (env : Env) (st : State) :
    ∃ ok st', recovering pos x env st = (.ok ok, st') := by
  unfold recovering
  split
  · exact ⟨true, _, rfl⟩
  · exact ⟨false, _, rfl⟩

/-- A called statement does not stop the plan. -/
theorem Plan.exec_call (inner rest : Plan) (env : Env) (st : State) :
    (Plan.call inner rest).exec env st =
      rest.exec env (recovering inner.stmt.pos inner.exec env st).2 := by
  obtain ⟨ok, st', hrun⟩ := recovering_ok inner.stmt.pos inner.exec env st
  rw [Plan.exec, run_bind_ok hrun, hrun]

/-- Walking a statement always gives an answer. -/
theorem statement_ok (s : Stmt) (env : Env) (st : State) :
    ∃ ok st', statement s env st = (.ok ok, st') := by
  unfold statement
  split
  · exact ⟨true, st, rfl⟩
  all_goals exact recovering_ok _ _ _ _

/-- Statements are walked one after the other, whatever comes of each. -/
theorem run_statements_cons (s : Stmt) (rest : List Stmt) (env : Env) (st : State) :
    statements (s :: rest) env st = statements rest env (statement s env st).2 := by
  obtain ⟨ok, st', hs⟩ := statement_ok s env st
  rw [statements, run_bind_ok hs, hs]

/-- Walking statements never fails. -/
theorem statements_ok (ss : List Stmt) (env : Env) (st : State) :
    ∃ st', statements ss env st = (.ok (), st') := by
  induction ss generalizing st with
  | nil =>
    rw [statements]
    exact ⟨st, rfl⟩
  | cons s rest ih =>
    rw [run_statements_cons]
    exact ih _

theorem statement_absent {s : Stmt} (h : ¬s.isPresent = true) : statement s = pure true := by
  rw [Stmt.eq_absent h, statement]

/-- A step in a block runs with a scope more, which is closed whatever comes of the step. -/
theorem run_inBlock (x : Compile Unit) (env : Env) (st : State) :
    inBlock x env st = ((x env (st.setTable (st.table.enter .block))).1,
      (x env (st.setTable (st.table.enter .block))).2.setTable
        (x env (st.setTable (st.table.enter .block))).2.table.exit) := rfl

/-- A plan that runs in a scope more closes it whatever comes of the run. -/
theorem Plan.exec_inBlock (rest : Plan) (env : Env) (st : State) :
    (Plan.inBlock rest).exec env st =
      ((rest.exec env (st.setTable (st.table.enter .block))).1,
        (rest.exec env (st.setTable (st.table.enter .block))).2.setTable
          (rest.exec env (st.setTable (st.table.enter .block))).2.table.exit) := by
  rw [Plan.exec, run_inBlock]

/-- A plan that runs in the body of a subroutine, once that is opened, closes it whatever comes of
the run. -/
theorem Plan.exec_inSub {i : Info} {name : String} {returns : Option Ty} {env : Env}
    {st st₁ : State} (h : enterSub i name returns env st = (.ok (), st₁)) (rest : Plan) :
    (Plan.inSub i name returns rest).exec env st =
      ((rest.exec env st₁).1, (rest.exec env st₁).2.closeSub) := by
  rw [Plan.exec, Compile.inSub, run_bind_ok h, run_ensuring]

/-- A plan that succeeds gets through its first step, and the rest of it succeeds. -/
theorem Plan.exec_step_inv {own : OwnStep} {rest : Plan} {env : Env} {st : State}
    (h : ((Plan.step own rest).exec env st).1 = .ok ()) :
    ∃ st₁, own.run env st = (.ok (), st₁) ∧
      (Plan.step own rest).exec env st = rest.exec env st₁ := by
  rw [Plan.exec, run_bind] at h
  rcases hrun : own.run env st with ⟨f | _, st₁⟩
  · rw [hrun] at h
    cases h
  · refine ⟨st₁, rfl, ?_⟩
    rw [Plan.exec, run_bind, hrun]

theorem State.drain_setTable (st : State) (t : Table) :
    (st.setTable t).drain = (st.drain.1, st.drain.2.setTable t) := by
  obtain ⟨⟨table, pending⟩, outputs, bindings, subs, made, marks, paths, effects⟩ := st
  cases marks with
  | nil => rfl
  | cons m rest => rfl

/-- The code of a block comes from its statements alone, so that it is the same in any scope. -/
theorem finishStmt_block_setTable (b : Block) (env : Env) (st : State) (t : Table) :
    finishStmt (.block b) env (st.setTable t) =
      ((finishStmt (.block b) env st).1, (finishStmt (.block b) env st).2.setTable t) := by
  have hcode (st : State) : stmtCode (.block b) env st = (.ok (bodyCode st [] b), st) := rfl
  rw [run_finishStmt, run_finishStmt, hcode, hcode]
  simp only [State.drain_setTable]
  have hsame (st : State) (id : Nat) : (st.setTable t).isGenerated id = st.isGenerated id := rfl
  rw [hsame]
  split
  · rfl
  · rfl

/-- A block may as well be finished before its scope is closed. -/
theorem blockSteps_eq (i : Info) (ss : List Stmt) :
    blockSteps i ss (statements ss) =
      inBlock (statements ss >>= fun _ => finishStmt (.block (.mk i ss))) := by
  funext env st
  obtain ⟨st', hss⟩ := statements_ok ss env (st.setTable (st.table.enter .block))
  have hopen : inBlock (statements ss) env st = (.ok (), st'.setTable st'.table.exit) := by
    rw [run_inBlock, hss]
  rw [blockSteps, run_bind_ok hopen, finishStmt_block_setTable, run_inBlock, run_bind_ok hss]
  -- finishing the block leaves the table alone
  have htable : (finishStmt (.block (.mk i ss)) env st').2.table = st'.table := by
    have h := finishStmt_block_setTable (.mk i ss) env st' st'.table
    exact congrArg (fun r => r.2.table) h
  rw [htable]

-- A plan is built from its end, so that each part of a statement is put before the plan `k` of what
-- comes behind it.
mutual

/-- The walk over a statement runs its plan, and recovers when the plan fails. -/
theorem statement_eq : ∀ s : Stmt, s.isPresent = true →
    statement s = recovering s.pos s.plan.exec
  | .block .absent, h => nomatch h
  | .block (.mk i ss), _ => by
    -- the plan finishes a block inside of its scope
    rw [statement, blockSteps_eq, Stmt.plan, Plan.exec, ← statements_then]
    rfl
  | .expr i e, _ => by
    rw [statement, Stmt.plan]
    rfl
  | .cond i negated test yes elsifs no, _ => by
    rw [statement, Stmt.plan, Plan.exec, ← body_then, ← branches_then, ← body_then]
    rfl
  | .loop i negated true test b, _ => by
    rw [statement, Stmt.plan, ← body_then]
    rfl
  | .loop i negated false test b, _ => by
    rw [statement, Stmt.plan, Plan.exec, ← body_then]
    rfl
  | .steps i init test post b, _ => by
    rw [statement, Stmt.plan]
    simp only [Plan.exec, ← body_then]
    rfl
  | .foreach i var implicit list b, _ => by
    -- resolving the loop variable and generating it are one step of the plan
    rw [statement, Stmt.plan]
    simp only [Plan.exec, ← body_then, OwnStep.expr, OwnStep.loopVar, bind_assoc]
    rfl
  | .ret i value, _ => by
    rw [statement, Stmt.plan]
    simp only [Plan.exec, OwnStep.value, bind_assoc]
    rfl
  | .sub i name returns b, _ => by
    rw [statement, Stmt.plan, Plan.exec, ← body_then]
    rfl
  | .package i name, _ => by
    rw [statement, Stmt.plan]
    rfl
  | .use i name, _ => by
    rw [statement, Stmt.plan]
    rfl
  | .pragma i targets type, _ => by
    rw [statement, Stmt.plan]
    rfl
  | .jump i keyword, _ => by
    rw [statement, Stmt.plan]
    rfl
  | .comment i text, _ => by
    rw [statement, Stmt.plan]
    rfl

theorem body_then : ∀ (b : Block) (k : Plan),
    (body b >>= fun _ => k.exec) = (b.planBody k).exec
  | .absent, k => by
    rw [body, Block.planBody]
    rfl
  | .mk i ss, k => by
    rw [body, blockSteps_eq, Block.planBody, Plan.exec, Plan.exec, ← statements_then, bind_assoc]
    simp only [Plan.stmt, Stmt.stmt_planList]
    rfl

theorem statements_then : ∀ (ss : List Stmt) (k : Plan),
    (statements ss >>= fun _ => k.exec) = (Stmt.planList ss k).exec
  | [], k => by
    rw [statements, Stmt.planList]
    rfl
  | s :: rest, k => by
    rw [statements, bind_assoc]
    unfold Stmt.planList
    split
    · rename_i hs
      rw [Plan.exec, Stmt.stmt_plan, ← statement_eq s hs, ← statements_then rest k]
    · -- an absent body is passed over
      rename_i hs
      rw [← statements_then rest k, statement_absent hs]
      rfl

theorem branches_then : ∀ (bs : List ElseIf) (k : Plan),
    (walkBranches bs >>= fun _ => k.exec) = (Stmt.planBranches bs k).exec
  | [], k => by
    rw [walkBranches, Stmt.planBranches]
    rfl
  | .mk i test b :: rest, k => by
    rw [walkBranches, Stmt.planBranches, Plan.exec, ← body_then, Plan.exec, ← branches_then]
    simp only [bind_assoc]
    rfl

end

/-! ## Called statements have plans of their own -/

/-- Each statement that is called in the plan is called with its own plan. -/
def Plan.Nested : Plan → Prop
  | .finish _ => True
  | .step _ rest | .inBlock rest | .inSub _ _ _ rest => rest.Nested
  | .call inner rest =>
    inner.stmt.isPresent = true ∧ inner = inner.stmt.plan ∧ inner.Nested ∧ rest.Nested

mutual

/-- The plan of a statement calls statements with their own plans. -/
theorem nested_plan : ∀ s : Stmt, s.plan.Nested
  | .block .absent => by
    rw [Stmt.plan]
    trivial
  | .block (.mk i ss) => by
    rw [Stmt.plan]
    exact nested_planList ss trivial
  | .cond i negated test yes elsifs no => by
    rw [Stmt.plan]
    exact nested_planBody yes (nested_planBranches elsifs (nested_planBody no trivial))
  | .loop i negated true test b => by
    rw [Stmt.plan]
    exact nested_planBody b trivial
  | .loop i negated false test b => by
    rw [Stmt.plan]
    exact nested_planBody b trivial
  | .steps i init test post b => by
    rw [Stmt.plan]
    exact nested_planBody b trivial
  | .foreach i var implicit list b => by
    rw [Stmt.plan]
    exact nested_planBody b trivial
  | .sub i name returns b => by
    rw [Stmt.plan]
    exact nested_planBody b trivial
  | .expr _ _ | .ret _ _ | .package _ _ | .use _ _ | .pragma _ _ _ | .jump _ _ | .comment _ _ => by
    rw [Stmt.plan]
    trivial

theorem nested_planBody : ∀ (b : Block) {k : Plan}, k.Nested → (b.planBody k).Nested
  | .absent, k, hk => by
    rw [Block.planBody]
    exact hk
  | .mk i ss, k, hk => by
    rw [Block.planBody]
    -- a body is called as the statement that it is
    have hstmt : (Plan.inBlock (Stmt.planList ss (.finish (.block (.mk i ss))))).stmt =
        .block (.mk i ss) := Stmt.stmt_planList ss _
    refine ⟨?_, ?_, nested_planList ss trivial, hk⟩
    · rw [hstmt]
      rfl
    · rw [hstmt, Stmt.plan]

theorem nested_planList : ∀ (ss : List Stmt) {k : Plan}, k.Nested → (Stmt.planList ss k).Nested
  | [], k, hk => by
    rw [Stmt.planList]
    exact hk
  | s :: rest, k, hk => by
    unfold Stmt.planList
    split
    · rename_i hs
      refine ⟨?_, ?_, nested_plan s, nested_planList rest hk⟩
      · rw [Stmt.stmt_plan]
        exact hs
      · rw [Stmt.stmt_plan]
    · exact nested_planList rest hk

theorem nested_planBranches : ∀ (bs : List ElseIf) {k : Plan}, k.Nested →
    (Stmt.planBranches bs k).Nested
  | [], k, hk => by
    rw [Stmt.planBranches]
    exact hk
  | .mk i test b :: rest, k, hk => by
    rw [Stmt.planBranches]
    have hrest : (Plan.step (.branch i) (Stmt.planBranches rest k)).Nested :=
      nested_planBranches rest hk
    exact nested_planBody b hrest

end

/-! ## The statements of a tree -/

/-- The statements that the plan calls at any depth if nothing fails. -/
def Plan.stmts : Plan → List Stmt
  | .finish _ => []
  | .step _ rest | .inBlock rest | .inSub _ _ _ rest => rest.stmts
  | .call inner rest => inner.stmts ++ inner.stmt :: rest.stmts

namespace Plan

/-- The statement of a plan is one of its nodes. -/
theorem stmt_mem_nodes (p : Plan) : p.stmt.id ∈ p.nodes := by
  induction p with
  | finish s => exact List.mem_singleton_self _
  | step own rest ih => exact List.mem_append_right _ ih
  | call inner rest _ ih => exact List.mem_append_right _ ih
  | inBlock rest ih => exact ih
  | inSub i name returns rest ih => exact ih

/-- The statements that a plan calls are among its nodes. -/
theorem id_mem_nodes (p : Plan) : ∀ s ∈ p.stmts, s.id ∈ p.nodes := by
  induction p with
  | finish s =>
    intro s hs
    exact absurd hs List.not_mem_nil
  | step own rest ih =>
    intro s hs
    exact List.mem_append_right _ (ih s hs)
  | call inner rest ihInner ihRest =>
    intro s hs
    -- inside the nested statement, the nested statement, or behind it
    rcases List.mem_append.mp hs with hs | hs
    · exact List.mem_append_left _ (ihInner s hs)
    · rcases List.mem_cons.mp hs with rfl | hs
      · exact List.mem_append_left _ inner.stmt_mem_nodes
      · exact List.mem_append_right _ (ihRest s hs)
  | inBlock rest ih => exact ih
  | inSub i name returns rest ih => exact ih

end Plan

theorem stmt_not_mem_loopVar (made : Nat → Bool) (i : Info) (var : Option Variable) (implicit : Nat)
    (s : Stmt) : Part.stmt s ∉ Part.loopVar made i var implicit := by
  unfold Part.loopVar
  split
  · simp
  · split <;> simp

theorem preorder_of_not_isPresent {s : Stmt} (h : ¬s.isPresent = true) (made : Nat → Bool) :
    s.preorder made = [] := by
  rw [Stmt.eq_absent h]
  rfl

section Members

variable (made : Nat → Bool) (t : Stmt)

mutual

/-- The statements of a tree are those that its plan calls, and the one that the plan is for. -/
theorem mem_stmts_plan : ∀ s : Stmt, s.isPresent = true →
    (Part.stmt t ∈ s.preorder made ↔ t ∈ s.plan.stmts ∨ t = s)
  | .block .absent, h => nomatch h
  | .block (.mk i ss), _ => by
    simp [Stmt.plan, Plan.stmts, Stmt.preorder, Block.preorder, mem_stmts_planList ss, or_comm]
  | .cond i negated test yes elsifs no, _ => by
    simp [Stmt.plan, Plan.stmts, Stmt.preorder, mem_stmts_planBody yes,
      mem_stmts_planBranches elsifs, mem_stmts_planBody no, or_comm]
  | .loop i negated true test b, _ => by
    simp [Stmt.plan, Plan.stmts, Stmt.preorder, mem_stmts_planBody b, or_comm]
  | .loop i negated false test b, _ => by
    simp [Stmt.plan, Plan.stmts, Stmt.preorder, mem_stmts_planBody b, or_comm]
  | .steps i init test post b, _ => by
    simp [Stmt.plan, Plan.stmts, Stmt.preorder, mem_stmts_planBody b, or_comm]
  | .foreach i var implicit list b, _ => by
    simp [Stmt.plan, Plan.stmts, Stmt.preorder, mem_stmts_planBody b, stmt_not_mem_loopVar,
      or_comm]
  | .sub i name returns b, _ => by
    simp [Stmt.plan, Plan.stmts, Stmt.preorder, mem_stmts_planBody b, or_comm]
  | .expr _ _, _ | .ret _ _, _ | .package _ _, _ | .use _ _, _ | .pragma _ _ _, _ | .jump _ _, _
  | .comment _ _, _ => by
    simp [Stmt.plan, Plan.stmts, Stmt.preorder]

theorem mem_stmts_planBody : ∀ (b : Block) (k : Plan),
    (t ∈ (b.planBody k).stmts ↔ Part.stmt t ∈ b.preorder made ∨ t ∈ k.stmts)
  | .absent, k => by simp [Block.planBody, Block.preorder]
  | .mk i ss, k => by
    simp [Block.planBody, Plan.stmts, Plan.stmt, Block.preorder, mem_stmts_planList ss,
      or_left_comm, or_assoc]

theorem mem_stmts_planList : ∀ (ss : List Stmt) (k : Plan),
    (t ∈ (Stmt.planList ss k).stmts ↔ Part.stmt t ∈ Stmt.preorderList made ss ∨ t ∈ k.stmts)
  | [], k => by simp [Stmt.planList, Stmt.preorderList]
  | s :: rest, k => by
    have hrest := mem_stmts_planList rest k
    by_cases hs : s.isPresent = true
    · simp [Stmt.planList, hs, Plan.stmts, Stmt.preorderList, mem_stmts_plan s hs, hrest, or_assoc]
    · simp [Stmt.planList, hs, Stmt.preorderList, preorder_of_not_isPresent hs, hrest]

theorem mem_stmts_planBranches : ∀ (bs : List ElseIf) (k : Plan),
    (t ∈ (Stmt.planBranches bs k).stmts ↔
      Part.stmt t ∈ Stmt.preorderBranches made bs ∨ t ∈ k.stmts)
  | [], k => by simp [Stmt.planBranches, Stmt.preorderBranches]
  | .mk i test b :: rest, k => by
    simp [Stmt.planBranches, Plan.stmts, Stmt.preorderBranches, ElseIf.preorder,
      mem_stmts_planBody b, mem_stmts_planBranches rest k, or_assoc]

end

end Members

end Compile

end TypedPerl
