import TypedPerl.Proofs.Walk.Generated
import TypedPerl.Proofs.Walk.Records

/-!
# The methods of a class

A run adds the methods of the calls that it makes, in the order in which these return
(`Outline.exec_records`), so that the class of a tree has the methods of the subroutines in the tree
(`tree_methods`).
-/

namespace TypedPerl.Compile

open State (Records)

/-! ## The methods of a run -/

/-- The method that the call defines itself, if it gets there. -/
def Call.method? (env : Env) (c : Call) : Option Method :=
  (c.generatedIn? env).bind fun gst => gst.methodOf? c.stmt

theorem Call.filterMap_cons (env : Env) (c : Call) (cs : List Call) :
    (c :: cs).filterMap (Call.method? env) =
      (c.method? env).toList ++ cs.filterMap (Call.method? env) := by
  cases hc : c.method? env with
  | none => simp [hc]
  | some m => simp [hc]

/-- The methods that a run of the plan defines: those of its calls, and at the end its own. -/
def Plan.methods (env : Env) (p : Plan) (st : State) : List Method :=
  (p.calls env st).filterMap (Call.method? env) ++
    ((p.generatedIn? env st).bind fun gst => gst.methodOf? p.stmt).toList

/-- A call adds what its plan does to the methods. -/
theorem Plan.Ready.recovering_records {p : Plan} {st : State} {ms : List Method}
    (h : p.Ready st.pending.size st.marks st.begin) (pos : Pos) {env : Env}
    (hplan : Records ms st.begin (p.exec env st.begin).2) :
    Records ms st (recovering pos p.exec env st).2 := by
  have hbegin : Records [] st st.begin := .of_same rfl rfl
  have hrun := hbegin.append hplan
  rcases hexec : p.exec env st.begin with ⟨f | _, st'⟩
  · -- a failure takes back what was queued and opened, but no method
    rw [hexec] at hrun
    rw [Plan.recovering_failed (p.exec_outcome env h) hexec]
    exact hrun.congr rfl rfl
  · rw [hexec] at hrun
    rw [Plan.recovering_done hexec]
    exact hrun

/-- A run defines the methods of its calls in the order in which these return, and at the end its
own. -/
theorem Outline.exec_records (p : Outline) (env : Env) :
    ∀ {mark : Nat} {outer : List Nat} {st : State}, p.toPlan.Ready mark outer st →
      p.toPlan.Nested → Records (p.toPlan.methods env st) st (p.toPlan.exec env st).2 := by
  induction p with
  | finish s =>
    intro mark outer st _ _
    exact finishStmt_records s env st
  | own o rest ih =>
    intro mark outer st h hn
    have hown := o.run_records env st
    have hready := h.behindStep env
    rw [toPlan, Plan.methods, Plan.calls, Plan.generatedIn?, Plan.exec, run_bind]
    generalize o.step.run env st = r at hown hready ⊢
    rcases r with ⟨f | _, st₁⟩
    · exact hown
    · exact hown.append (ih hready hn)
  | call inner rest ihInner ihRest =>
    intro mark outer st h hn
    obtain ⟨-, hplan, hinner, hrest⟩ := hn
    have hcalled := h.called.recovering_records inner.toPlan.stmt.pos (ihInner h.called hinner)
    have hboth := hcalled.append (ihRest (h.behind (h.calls env)) hrest)
    -- what the called plan defines itself is the method of the call
    have hown : Call.method? env ⟨inner.toPlan.stmt, st⟩ =
        (inner.toPlan.generatedIn? env st.begin).bind fun gst =>
          gst.methodOf? inner.toPlan.stmt := by
      rw [Call.method?, Call.generatedIn?, ← hplan]
    rw [toPlan, Plan.exec_call]
    simpa only [Plan.methods, Plan.calls, Plan.generatedIn?, Plan.stmt, List.filterMap_append,
      Call.filterMap_cons, hown, List.append_assoc] using hboth
  | inBlock rest ih =>
    intro mark outer st h hn
    have hopened : Records [] st (st.setTable (st.table.enter .block)) := .of_same rfl rfl
    have hrest := ih h.inBlock hn
    rw [toPlan, Plan.exec_inBlock]
    exact (hopened.append hrest).congr rfl rfl
  | inSub i name returns rest ih =>
    intro mark outer st h hn
    obtain ⟨st₁, henter, ho, -⟩ := Plan.enterSub_opened i name returns env st
    have hopened := enterSub_records i name returns env st
    have hrest := ih (h.opened ho rfl) hn
    rw [henter] at hopened
    rw [toPlan, Plan.methods, Plan.calls, Plan.generatedIn?, Plan.exec, Compile.inSub,
      run_bind_ok henter, run_ensuring, henter]
    exact (hopened.append hrest).congr rfl rfl

theorem Call.Ready.records {c : Call} (h : c.Ready) (env : Env) :
    Records (c.stmt.plan.methods env c.before.begin) c.before (c.after env) := by
  have hplan := c.stmt.outline.exec_records env h.outline c.nested_stmt
  rw [c.stmt.toPlan_outline] at hplan
  rw [Call.after, Call.run_eq h.present]
  have hcalled := h.plan.recovering_records c.stmt.plan.stmt.pos hplan
  rw [Stmt.stmt_plan] at hcalled
  exact hcalled

/-- Walking statements defines the methods of the calls, in the order in which these return. -/
theorem statements_records (ss : List Stmt) (env : Env) : ∀ {st : State}, Fresh ss st →
    Records ((stmtCalls env ss st).filterMap (Call.method? env)) st (statements ss env st).2 := by
  induction ss with
  | nil =>
    intro st _
    rw [statements]
    exact .of_same rfl rfl
  | cons s rest ih =>
    intro st h
    have hrest := ih (h.tail (h.statement env).2)
    rw [run_statements_cons, stmtCalls, List.filterMap_append]
    refine Records.append ?_ hrest
    by_cases hs : s.isPresent = true
    · have hcalled := (h.ready hs).records env
      -- the call of the statement itself returns last
      have hmethods : s.plan.methods env st.begin =
          (s.plan.calls env st.begin ++ [(⟨s, st⟩ : Call)]).filterMap (Call.method? env) := by
        have hown : Call.method? env ⟨s, st⟩ =
            (s.plan.generatedIn? env st.begin).bind fun gst => gst.methodOf? s := rfl
        rw [Plan.methods, Stmt.stmt_plan, List.filterMap_append, Call.filterMap_cons, ← hown,
          List.filterMap_nil, List.append_nil]
      rw [if_pos hs, ← hmethods]
      exact hcalled
    · rw [if_neg hs, statement_absent hs]
      exact .of_same rfl rfl

/-! ## Calls that a call makes -/

/-- The calls that a call of the run makes are calls of the run. -/
theorem Plan.calls_closed (p : Plan) (env : Env) : ∀ {st : State}, p.Nested →
    ∀ c ∈ p.calls env st, ∀ d ∈ c.stmt.plan.calls env c.before.begin, d ∈ p.calls env st := by
  induction p with
  | finish s =>
    intro st _ c hc
    exact absurd hc List.not_mem_nil
  | step own rest ih =>
    intro st hn c hc d hd
    obtain ⟨st₁, hrun, hc⟩ := mem_calls_step hc
    rw [calls, hrun]
    exact ih hn c hc d hd
  | call inner rest ihInner ihRest =>
    intro st hn c hc d hd
    obtain ⟨-, hplan, hinner, hrest⟩ := hn
    rw [calls] at hc ⊢
    rcases List.mem_append.mp hc with hc | hc
    · exact List.mem_append_left _ (ihInner hinner c hc d hd)
    · rcases List.mem_cons.mp hc with rfl | hc
      · -- the plan of the call itself is the one that runs here
        rw [← hplan] at hd
        exact List.mem_append_left _ hd
      · have hmem := ihRest hrest c hc d hd
        exact List.mem_append_right _ (List.mem_cons_of_mem _ hmem)
  | inBlock rest ih =>
    intro st hn c hc d hd
    exact ih hn c hc d hd
  | inSub i name returns rest ih =>
    intro st hn c hc d hd
    obtain ⟨st₁, henter, -, -⟩ := enterSub_opened i name returns env st
    rw [calls, henter] at hc ⊢
    exact ih hn c hc d hd

theorem stmtCalls_closed (ss : List Stmt) (env : Env) : ∀ {st : State},
    ∀ c ∈ stmtCalls env ss st, ∀ d ∈ c.stmt.plan.calls env c.before.begin,
      d ∈ stmtCalls env ss st := by
  induction ss with
  | nil =>
    intro st c hc
    exact absurd hc List.not_mem_nil
  | cons s rest ih =>
    intro st c hc d hd
    rw [mem_stmtCalls_cons]
    rcases mem_stmtCalls_cons.mp hc with ⟨hs, hc | rfl⟩ | hc
    -- calls inside a nested call are in the plan; those of the statement come with it
    · exact .inl ⟨hs, .inl (s.plan.calls_closed env (nested_plan s) c hc d hd)⟩
    · exact .inl ⟨hs, .inl hd⟩
    · exact .inr (ih c hc d hd)

/-- The calls of a plan are calls of its statements. -/
theorem Plan.stmt_mem_stmts (p : Plan) (env : Env) : ∀ {st : State},
    ∀ c ∈ p.calls env st, c.stmt ∈ p.stmts := by
  induction p with
  | finish s =>
    intro st c hc
    exact absurd hc List.not_mem_nil
  | step own rest ih =>
    intro st c hc
    obtain ⟨_, -, hc⟩ := mem_calls_step hc
    exact ih c hc
  | call inner rest ihInner ihRest =>
    intro st c hc
    rw [calls] at hc
    -- a call inside the nested statement, the nested statement, or a call behind it
    rcases List.mem_append.mp hc with hc | hc
    · exact List.mem_append_left _ (ihInner c hc)
    · apply List.mem_append_right
      rcases List.mem_cons.mp hc with rfl | hc
      · exact List.mem_cons_self
      · exact List.mem_cons_of_mem _ (ihRest c hc)
  | inBlock rest ih =>
    intro st c hc
    exact ih c hc
  | inSub i name returns rest ih =>
    intro st c hc
    obtain ⟨st₁, henter, -, -⟩ := enterSub_opened i name returns env st
    rw [calls, henter] at hc
    exact ih c hc

theorem stmt_mem_allStmts (ss : List Stmt) (env : Env) : ∀ {st : State},
    ∀ c ∈ stmtCalls env ss st, c.stmt ∈ allStmts ss := by
  induction ss with
  | nil =>
    intro st c hc
    exact absurd hc List.not_mem_nil
  | cons s rest ih =>
    intro st c hc
    rw [allStmts]
    -- only a statement that is present is called
    rcases mem_stmtCalls_cons.mp hc with ⟨hs, hc | rfl⟩ | hc
    · rw [if_pos hs]
      exact List.mem_append_left _ (List.mem_append_left _ (s.plan.stmt_mem_stmts env c hc))
    · rw [if_pos hs]
      exact List.mem_append_left _ (List.mem_append_right _ List.mem_cons_self)
    · exact List.mem_append_right _ (ih c hc)

/-- A body calls each of its statements, whatever comes of those before it. -/
theorem calls_planList (ss : List Stmt) (k : Plan) (env : Env) : ∀ {st : State},
    ∀ s ∈ ss, s.isPresent = true → ∃ c ∈ (Stmt.planList ss k).calls env st, c.stmt = s := by
  induction ss with
  | nil =>
    intro st s hs
    exact absurd hs List.not_mem_nil
  | cons t rest ih =>
    intro st s hs hpresent
    rw [Stmt.planList]
    -- the first statement has its call; the others have theirs in the rest
    rcases List.mem_cons.mp hs with rfl | hs
    · rw [if_pos hpresent, Plan.calls, Stmt.stmt_plan]
      exact ⟨⟨s, st⟩, List.mem_append_right _ List.mem_cons_self, rfl⟩
    · split
      · obtain ⟨c, hc, hstmt⟩ := ih s hs hpresent
        exact ⟨c, List.mem_append_right _ (List.mem_cons_of_mem _ hc), hstmt⟩
      · exact ih s hs hpresent

/-! ## Trees -/

section Tree

variable (settings : Settings) (catalog : Option Catalog) (registry : Registry) (u : SourceUnit)

/-- The methods of a tree are those of its calls, in the order in which these return. -/
theorem tree_methods (hu : u.Numbered) :
    (tree settings catalog registry 1 u).state.methods =
      (treeCalls settings catalog registry u).filterMap
        (Call.method? (envOf settings catalog)) := by
  have hrecords := statements_records u.stmts (envOf settings catalog)
    (fresh_startState settings catalog registry u hu)
  rw [tree_state, hrecords.methods]
  -- the class starts empty
  exact List.nil_append _

/-- In a walk without faults all nodes of a statement are generated when its call returns. -/
theorem tree_call_complete (hu : u.Numbered)
    (hok : (tree settings catalog registry 1 u).errors = []) :
    ∀ c ∈ treeCalls settings catalog registry u, ∀ n ∈ c.stmt.nodes,
      (c.after (envOf settings catalog)).isGenerated n = true := by
  intro c hc n hn
  have hready := ready_of_mem_treeCalls settings catalog registry u hu c hc
  have hsucceed := tree_calls_succeed settings catalog registry u hu hok
  have haccount := Account.ofCall hready rfl
    (c.stmt.plan.account (envOf settings catalog) hready.plan (nested_plan c.stmt))
  refine haccount.complete trivial (fun d hd => hsucceed d ?_) n
    ((Stmt.nodes_plan_perm hready.present).mem_iff.mpr hn)
  rcases List.mem_append.mp hd with hd | hd
  · exact stmtCalls_closed u.stmts (envOf settings catalog) c hc d hd
  · exact List.mem_singleton.mp hd ▸ hc

end Tree

end TypedPerl.Compile
