import TypedPerl.Proofs.Walk.Calls

/-!
# Recovery accounts for every statement

Each call of a statement that does not succeed records one fault, and faults stand in the order in
which the calls return. A statement is generated exactly when its call succeeds, and a walk without
faults has generated every part of the tree.

The facts about a stretch of a run are gathered in `Account`. Stretches that follow each other add
up (`Account.append`), since the second generates other nodes than the first.
-/

namespace TypedPerl.Compile

open State (Adds)

/-! ## Faults of a call -/

namespace Call

variable {c : Call} {env : Env}

/-- A call that does not succeed records one fault behind those of its plan, and one that succeeds
records none. -/
theorem Ready.recorded (h : c.Ready) (env : Env) :
    (c.after env).errors =
      (c.stmt.plan.exec env c.before.begin).2.errors ++ (c.error? env).toList := by
  rcases h.returns env with ⟨st', hplan, hcall⟩ | ⟨f, st', hplan, hcall⟩
  · simp [error?, succeeds, after, hplan, hcall]
  · simp [error?, succeeds, after, hplan, hcall]

/-- A call that does not succeed records a fault. -/
theorem Ready.error_isSome (h : c.Ready) (env : Env) :
    (c.error? env).isSome = !c.succeeds env := by
  rcases h.returns env with ⟨st', hplan, hcall⟩ | ⟨f, st', hplan, hcall⟩
  · simp [error?, succeeds, hcall]
  · simp [error?, succeeds, after, hcall]

/-- The call succeeds exactly when its plan does. -/
theorem Ready.succeeds_iff (h : c.Ready) (env : Env) :
    c.succeeds env = true ↔ (c.stmt.plan.exec env c.before.begin).1 = .ok () := by
  rcases h.returns env with ⟨st', hplan, hcall⟩ | ⟨f, st', hplan, hcall⟩
  · simp [succeeds, hplan, hcall]
  · simp [succeeds, hplan, hcall]

/-- What the call has generated is what its plan has. -/
theorem Ready.outputs_after (h : c.Ready) (env : Env) :
    (c.after env).outputs = (c.stmt.plan.exec env c.before.begin).2.outputs := by
  rcases h.returns env with ⟨st', hplan, hcall⟩ | ⟨f, st', hplan, hcall⟩
  · simp only [after, hplan, hcall]
  · simp only [after, hplan, hcall]

/-- The fault that a call records is a diagnostic with a code of the walk. -/
theorem Ready.error_code (h : c.Ready) {f : Fault} (hf : c.error? env = some f) :
    ∃ r cause, f = .report r cause ∧ r.code ∈ Code.ofWalk := by
  rcases h.returns env with ⟨st', hplan, hcall⟩ | ⟨g, st', hplan, hcall⟩
  · simp [error?, succeeds, hcall] at hf
  · have hraises := (c.stmt.plan.exec_outcome env h.plan).raises
    rw [hplan] at hraises
    obtain ⟨r, cause, heq, hr⟩ := (hraises g rfl).diagnose c.stmt.pos
    simp only [error?, succeeds, after, hcall, heq] at hf
    refine ⟨r, cause, ?_, hr⟩
    simpa using hf.symm

end Call

/-! ## Stretches of a run -/

/-- What is known of a stretch of a run from `st` to `st'` that may generate `nodes`, has `stmts` to
call and makes `calls`. If it comes to its end, as `ended` says, it has left out nothing. -/
structure Account (env : Env) (nodes : List Nat) (stmts : List Stmt) (calls : List Call)
    (ended : Prop) (st st' : State) : Prop extends Adds nodes st st' where
  /-- The faults of the calls are recorded in order. -/
  errors : st'.errors = st.errors ++ calls.filterMap (Call.error? env)
  /-- No statement is called twice. -/
  once : (calls.map (·.stmt.id)).Nodup
  /-- Called statements are among the nodes. -/
  reached : ∀ c ∈ calls, c.stmt.id ∈ nodes
  /-- What a call has made of its statement stays. -/
  settled : ∀ c ∈ calls, st'.outputs.get? c.stmt.id = (c.after env).outputs.get? c.stmt.id
  /-- Statements that are to be called are among the nodes. -/
  members : ∀ s ∈ stmts, s.id ∈ nodes
  /-- A statement is generated only by a call of it. -/
  called : ∀ s ∈ stmts, st'.isGenerated s.id = true → ∃ c ∈ calls, c.stmt = s
  /-- When all calls succeed, all nodes are generated. -/
  complete : ended → (∀ c ∈ calls, c.succeeds env = true) →
    ∀ n ∈ nodes, st'.isGenerated n = true

namespace Account

variable {env : Env} {nodes nodes₁ nodes₂ : List Nat} {stmts stmts₁ stmts₂ : List Stmt}
  {calls calls₁ calls₂ : List Call} {ended ended₁ ended₂ : Prop} {st st₁ st₂ : State}

/-- One stretch after the other. -/
theorem append (h₁ : Account env nodes₁ stmts₁ calls₁ ended₁ st st₁)
    (h₂ : Account env nodes₂ stmts₂ calls₂ ended₂ st₁ st₂) (hdistinct : (nodes₁ ++ nodes₂).Nodup)
    (hended : ended₂ → ended₁) :
    Account env (nodes₁ ++ nodes₂) (stmts₁ ++ stmts₂) (calls₁ ++ calls₂) ended₂ st st₂ := by
  obtain ⟨-, -, hapart⟩ := List.nodup_append.mp hdistinct
  -- the second stretch leaves the nodes of the first alone
  have hout (n : Nat) (hn : n ∈ nodes₁) : st₂.outputs.get? n = st₁.outputs.get? n :=
    h₂.only n fun hmem => hapart n hn n hmem rfl
  have hkept (n : Nat) (hn : n ∈ nodes₁) : st₂.isGenerated n = st₁.isGenerated n :=
    congrArg Option.isSome (hout n hn)
  constructor
  · exact h₁.toAdds.append h₂.toAdds
  · rw [h₂.errors, h₁.errors, List.filterMap_append, List.append_assoc]
  · -- both stretches call nodes of their own
    rw [List.map_append, List.nodup_append]
    refine ⟨h₁.once, h₂.once, fun m hm n hn => ?_⟩
    obtain ⟨c, hc, rfl⟩ := List.mem_map.mp hm
    obtain ⟨d, hd, rfl⟩ := List.mem_map.mp hn
    exact hapart _ (h₁.reached c hc) _ (h₂.reached d hd)
  · intro c hc
    rcases List.mem_append.mp hc with hc | hc
    · exact List.mem_append_left _ (h₁.reached c hc)
    · exact List.mem_append_right _ (h₂.reached c hc)
  · intro c hc
    rcases List.mem_append.mp hc with hc | hc
    · rw [hout _ (h₁.reached c hc)]
      exact h₁.settled c hc
    · exact h₂.settled c hc
  · intro s hs
    rcases List.mem_append.mp hs with hs | hs
    · exact List.mem_append_left _ (h₁.members s hs)
    · exact List.mem_append_right _ (h₂.members s hs)
  · intro s hs hgenerated
    rcases List.mem_append.mp hs with hs | hs
    · rw [hkept _ (h₁.members s hs)] at hgenerated
      obtain ⟨c, hc, rfl⟩ := h₁.called s hs hgenerated
      exact ⟨c, List.mem_append_left _ hc, rfl⟩
    · obtain ⟨c, hc, rfl⟩ := h₂.called s hs hgenerated
      exact ⟨c, List.mem_append_right _ hc, rfl⟩
  · intro hend hall n hn
    rcases List.mem_append.mp hn with hn | hn
    · rw [hkept n hn]
      exact h₁.complete (hended hend) (fun c hc => hall c (List.mem_append_left _ hc)) n hn
    · exact h₂.complete hend (fun c hc => hall c (List.mem_append_right _ hc)) n hn

/-- Between states with other scopes and queues the account is the same. -/
theorem congr {st₀ st₃ : State} (h : Account env nodes stmts calls ended st st₁)
    (hout : st.outputs = st₀.outputs) (herr : st.errors = st₀.errors)
    (hout' : st₃.outputs = st₁.outputs) (herr' : st₃.errors = st₁.errors) :
    Account env nodes stmts calls ended st₀ st₃ := by
  -- an account reads outputs and errors only
  have hsame (n : Nat) : st₃.isGenerated n = st₁.isGenerated n := by
    unfold State.isGenerated
    rw [hout']
  have hin : Adds nodes st₀ st := .of_eq hout
  have hback : Adds nodes st₁ st₃ := .of_eq hout'
  constructor
  · exact (hin.trans h.toAdds).trans hback
  · rw [herr', h.errors, herr]
  · exact h.once
  · exact h.reached
  · intro c hc
    rw [hout']
    exact h.settled c hc
  · exact h.members
  · intro s hs
    rw [hsame]
    exact h.called s hs
  · intro hend hall n hn
    rw [hsame]
    exact h.complete hend hall n hn

theorem mono_ended (h : Account env nodes stmts calls ended₁ st st₁) (hended : ended₂ → ended₁) :
    Account env nodes stmts calls ended₂ st st₁ :=
  { h with complete := fun hend => h.complete (hended hend) }

/-- The nodes may be named in any order. -/
theorem of_mem_iff (h : Account env nodes₁ stmts calls ended st st₁)
    (hiff : ∀ n, n ∈ nodes₁ ↔ n ∈ nodes₂) : Account env nodes₂ stmts calls ended st st₁ where
  toAdds := h.toAdds.mono fun n => (hiff n).mp
  errors := h.errors
  once := h.once
  reached c hc := (hiff _).mp (h.reached c hc)
  settled := h.settled
  members s hs := (hiff _).mp (h.members s hs)
  called := h.called
  complete hend hall n hn := h.complete hend hall n ((hiff n).mpr hn)

/-- A stretch without calls generates no statement that is to be called. -/
theorem quiet (hadds : Adds nodes st st₁) (herrors : st₁.errors = st.errors)
    (hmembers : ∀ s ∈ stmts, s.id ∈ nodes) (hnot : ∀ s ∈ stmts, st₁.isGenerated s.id = false)
    (hcomplete : ended → ∀ n ∈ nodes, st₁.isGenerated n = true) :
    Account env nodes stmts [] ended st st₁ := by
  -- without calls there is nothing to be recorded or settled
  constructor
  · exact hadds
  · simp [herrors]
  · exact List.nodup_nil
  · intro c hc
    exact absurd hc List.not_mem_nil
  · intro c hc
    exact absurd hc List.not_mem_nil
  · exact hmembers
  · intro s hs hgenerated
    rw [hnot s hs] at hgenerated
    cases hgenerated
  · intro hend _
    exact hcomplete hend

/-- A step of a statement itself calls nothing. -/
theorem ownStep (own : OwnStep) (env : Env) (st : State) :
    Account env own.nodes [] [] ((own.run env st).1 = .ok ()) st (own.run env st).2 := by
  have hkeeps := own.generates.keeps env st
  refine .quiet hkeeps.toAdds hkeeps.errors (by simp) (by simp) fun hok => ?_
  exact own.generates.complete env st _ (Prod.ext hok rfl)

end Account

namespace Plan

/-- The statements that a plan calls are different nodes, and different from its own statement. -/
theorem calls_sublist (p : Plan) (env : Env) : ∀ st : State,
    ((p.calls env st).map (·.stmt.id) ++ [p.stmt.id]).Sublist p.nodes := by
  induction p with
  | finish s =>
    intro st
    exact .refl _
  | step own rest ih =>
    intro st
    rw [calls]
    split
    · exact (ih _).trans (List.sublist_append_right _ _)
    -- behind a step that failed only the statement itself is left
    · exact List.singleton_sublist.mpr (stmt_mem_nodes _)
  | call inner rest ihInner ihRest =>
    intro st
    -- the nested statement closes its own calls before those behind it begin
    have hboth := (ihInner st.begin).append
      (ihRest (recovering inner.stmt.pos inner.exec env st).2)
    simpa [calls, stmt, nodes] using hboth
  | inBlock rest ih =>
    intro st
    exact ih _
  | inSub i name returns rest ih =>
    intro st
    rw [calls]
    split
    · exact ih _
    · exact List.singleton_sublist.mpr (stmt_mem_nodes _)

/-- Finishing a statement records no fault: that is left to the call. -/
theorem finishStmt_errors (s : Stmt) (env : Env) (st : State) :
    (finishStmt s env st).2.errors = st.errors := by
  have hsteady : Steady [] (stmtCode s) := stmtCode_steady s
  have hcode := (hsteady.keeps env st).errors
  rw [run_finishStmt]
  rcases hrun : stmtCode s env st with ⟨f | code, st'⟩
  · rw [hrun] at hcode
    exact hcode
  · rw [hrun] at hcode
    -- draining moves the queue only
    have hdrain : st'.drain.2.errors = st'.errors := by
      unfold State.drain
      split
      · rfl
      · rfl
    dsimp only
    split
    · exact hdrain.trans hcode
    · exact hdrain.trans hcode

end Plan

/-- A call adds its own fault and its statement to the account of its plan. It always comes to its
end. -/
theorem Account.ofCall {env : Env} {c : Call} {p : Plan} (hc : c.Ready) (hp : c.stmt.plan = p)
    (h : Account env p.nodes p.stmts (p.calls env c.before.begin)
      ((p.exec env c.before.begin).1 = .ok ()) c.before.begin (p.exec env c.before.begin).2) :
    Account env p.nodes (p.stmts ++ [c.stmt]) (p.calls env c.before.begin ++ [c]) True c.before
      (c.after env) := by
  subst hp
  have hsame (n : Nat) : (c.after env).isGenerated n =
      (c.stmt.plan.exec env c.before.begin).2.isGenerated n := by
    unfold State.isGenerated
    rw [hc.outputs_after]
  have hown : c.stmt.id ∈ c.stmt.plan.nodes := by
    have hmem := c.stmt.plan.stmt_mem_nodes
    rw [Stmt.stmt_plan] at hmem
    exact hmem
  constructor
  · exact (hc.called env).adds
  · -- the fault of the call comes behind those of the calls that its plan makes
    have hbegin : c.before.begin.errors = c.before.errors := rfl
    rw [hc.recorded, h.errors, hbegin, List.filterMap_append, List.append_assoc]
    cases hf : c.error? env with
    | none => simp [hf]
    | some f => simp [hf]
  · -- the statement of the call is none of those that its plan calls
    have hsub := (c.stmt.plan.calls_sublist env c.before.begin).nodup hc.plan.distinct
    rw [Stmt.stmt_plan] at hsub
    simpa using hsub
  · intro d hd
    rcases List.mem_append.mp hd with hd | hd
    · exact h.reached d hd
    · cases List.mem_singleton.mp hd
      exact hown
  · intro d hd
    rcases List.mem_append.mp hd with hd | hd
    · rw [hc.outputs_after]
      exact h.settled d hd
    · cases List.mem_singleton.mp hd
      rfl
  · intro s hs
    rcases List.mem_append.mp hs with hs | hs
    · exact h.members s hs
    · cases List.mem_singleton.mp hs
      exact hown
  · intro s hs hgenerated
    rcases List.mem_append.mp hs with hs | hs
    · rw [hsame] at hgenerated
      obtain ⟨d, hd, rfl⟩ := h.called s hs hgenerated
      exact ⟨d, List.mem_append_left _ hd, rfl⟩
    · cases List.mem_singleton.mp hs
      exact ⟨c, List.mem_append_right _ (List.mem_singleton_self _), rfl⟩
  · -- a call that succeeds has run its plan to the end
    intro _ hall n hn
    have hplan := (hc.succeeds_iff env).mp (hall c (by simp))
    rw [hsame]
    exact h.complete hplan (fun d hd => hall d (List.mem_append_left _ hd)) n hn

/-- The account of a run of a plan. -/
theorem Plan.account (p : Plan) (env : Env) : ∀ {mark : Nat} {outer : List Nat} {st : State},
    p.Ready mark outer st → p.Nested →
    Account env p.nodes p.stmts (p.calls env st) ((p.exec env st).1 = .ok ()) st
      (p.exec env st).2 := by
  induction p with
  | finish s =>
    intro mark outer st h _
    have hout := (Plan.finish s).exec_outcome env h
    refine .quiet hout.within.toAdds (Plan.finishStmt_errors s env st)
      (fun s hs => absurd hs List.not_mem_nil) (fun s hs => absurd hs List.not_mem_nil) ?_
    intro hok n hn
    cases List.mem_singleton.mp hn
    exact (hout.done hok).2.2
  | step own rest ih =>
    intro mark outer st h hn
    have hown := Account.ownStep own env st
    have hready := h.behindStep env
    rw [Plan.exec, run_bind, Plan.calls]
    rcases hrun : own.run env st with ⟨f | _, st₁⟩
    · rw [hrun] at hown hready
      -- the rest is not run, and what it would call is not generated
      have hskip : Account env rest.nodes rest.stmts [] False st₁ st₁ :=
        .quiet (.of_eq rfl) rfl rest.id_mem_nodes
          (fun s hs => hready.fresh _ (rest.id_mem_nodes s hs)) False.elim
      refine (hown.append hskip h.distinct False.elim).mono_ended fun hok => ?_
      cases hok
    · rw [hrun] at hown hready
      exact hown.append (ih hready hn) h.distinct fun _ => rfl
  | call inner rest ihInner ihRest =>
    intro mark outer st h hn
    obtain ⟨hpresent, hplan, hinner, hrest⟩ := hn
    have hcall : Call.Ready ⟨inner.stmt, st⟩ := ⟨hpresent, hplan ▸ h.called⟩
    have hfirst := Account.ofCall hcall hplan.symm (ihInner h.called hinner)
    -- the rest starts in the state in which the call returns
    have hafter := Plan.recovering_called hpresent hplan env st
    have hready := h.behind (h.calls env)
    rw [hafter] at hready
    have hboth := hfirst.append (ihRest hready hrest) h.distinct fun _ => trivial
    rw [Plan.exec_call, Plan.calls, hafter]
    simpa only [Plan.nodes, Plan.stmts, List.append_assoc, List.singleton_append] using hboth
  | inBlock rest ih =>
    intro mark outer st h hn
    -- a scope has no part in the account
    have ho := Plan.opened_enter st .block
    rw [Plan.exec_inBlock]
    exact (ih (h.opened ho rfl) hn).congr ho.outputs ho.errors rfl rfl
  | inSub i name returns rest ih =>
    intro mark outer st h hn
    obtain ⟨st₁, henter, ho, -⟩ := Plan.enterSub_opened i name returns env st
    rw [Plan.exec_inSub henter, Plan.calls, henter]
    exact (ih (h.opened ho rfl) hn).congr ho.outputs ho.errors rfl rfl

/-! ## Walks over statements -/

/-- The statements that a walk over some statements calls at any depth if nothing fails. -/
def allStmts : List Stmt → List Stmt
  | [] => []
  | s :: rest => (if s.isPresent then s.plan.stmts ++ [s] else []) ++ allStmts rest

/-- The account of a walk over statements. -/
theorem statements_account (ss : List Stmt) (env : Env) : ∀ {st : State}, Fresh ss st →
    Account env (Stmt.nodesList ss) (allStmts ss) (stmtCalls env ss st) True st
      (statements ss env st).2 := by
  induction ss with
  | nil =>
    intro st _
    rw [statements]
    exact .quiet (.of_eq rfl) rfl (by simp [allStmts]) (by simp [allStmts]) (by simp)
  | cons s rest ih =>
    intro st h
    have hrest := ih (h.tail (h.statement env).2)
    rw [run_statements_cons, stmtCalls, allStmts, Stmt.nodesList_cons]
    have hdistinct : (s.nodes ++ Stmt.nodesList rest).Nodup := by
      rw [← Stmt.nodesList_cons]
      exact h.distinct
    refine Account.append ?_ hrest hdistinct id
    by_cases hs : s.isPresent = true
    · have hready := h.ready hs
      have hplan := s.plan.account env hready.plan (nested_plan s)
      rw [if_pos hs, if_pos hs]
      exact (Account.ofCall hready rfl hplan).of_mem_iff fun n => (Stmt.nodes_plan_perm hs).mem_iff
    · -- an absent body is passed over
      rw [if_neg hs, if_neg hs, statement_absent hs, Stmt.nodes_of_not_isPresent hs]
      exact .quiet (.of_eq rfl) rfl (by simp) (by simp) (by simp)

/-- The walk over statements is to call each statement among their parts, and no other. -/
theorem mem_allStmts (made : Nat → Bool) (t : Stmt) (ss : List Stmt) :
    t ∈ allStmts ss ↔ Part.stmt t ∈ Stmt.preorderList made ss := by
  induction ss with
  | nil => simp [allStmts, Stmt.preorderList]
  | cons s rest ih =>
    by_cases hs : s.isPresent = true
    · simp [allStmts, hs, Stmt.preorderList, ih, mem_stmts_plan made t s hs, or_assoc]
    · simp [allStmts, hs, Stmt.preorderList, ih, preorder_of_not_isPresent hs]

section Tree

variable (settings : Settings) (catalog : Option Catalog) (registry : Registry) (u : SourceUnit)

/-- The account of the walk over a numbered tree. -/
theorem tree_account (hu : u.Numbered) :
    Account (envOf settings catalog) u.nodes (allStmts u.stmts)
      (treeCalls settings catalog registry u) True (startState settings catalog registry u)
      (tree settings catalog registry 1 u).state := by
  rw [tree_state]
  exact statements_account u.stmts _ (fresh_startState settings catalog registry u hu)

/-- The faults of a numbered tree are those of its calls, in the order in which these return. -/
theorem tree_errors_eq (hu : u.Numbered) :
    (tree settings catalog registry 1 u).errors =
      (treeCalls settings catalog registry u).filterMap (Call.error? (envOf settings catalog)) := by
  obtain ⟨-, -, hstart⟩ := startState_empty settings catalog registry u
  rw [tree_errors, (tree_account settings catalog registry u hu).errors, hstart, List.nil_append]

/-- Behind the walk a statement that was called is generated exactly if its call succeeded. -/
theorem tree_isGenerated_eq (hu : u.Numbered) {c : Call}
    (hc : c ∈ treeCalls settings catalog registry u) :
    (tree settings catalog registry 1 u).state.isGenerated c.stmt.id =
      c.succeeds (envOf settings catalog) := by
  have hready := ready_of_mem_treeCalls settings catalog registry u hu c hc
  have hsettled := (tree_account settings catalog registry u hu).settled c hc
  rw [hready.succeeds_eq]
  exact congrArg Option.isSome hsettled

/-- Only a call that succeeds can have generated a statement. -/
theorem tree_call_of_generated (hu : u.Numbered) {made : Nat → Bool} {s : Stmt}
    (hs : Part.stmt s ∈ u.preorder made)
    (hgenerated : (tree settings catalog registry 1 u).state.isGenerated s.id = true) :
    ∃ c ∈ treeCalls settings catalog registry u, c.stmt = s ∧
      c.succeeds (envOf settings catalog) = true := by
  have hmem : s ∈ allStmts u.stmts := (mem_allStmts made s u.stmts).mpr hs
  obtain ⟨c, hc, rfl⟩ := (tree_account settings catalog registry u hu).called s hmem hgenerated
  exact ⟨c, hc, rfl, (tree_isGenerated_eq settings catalog registry u hu hc).symm.trans hgenerated⟩

/-- Each statement of a numbered tree is called at most once. A call that does not succeed records
exactly one fault, and the faults stand in the order in which the calls return; each is a diagnostic
with a code of the walk. A statement is generated exactly when a call of it succeeds. If there is no
fault, every part of the tree is generated, and so are loop variables that the walk makes. -/
theorem tree_recovery_accounts (hu : u.Numbered) :
    ((treeCalls settings catalog registry u).map (·.stmt.id)).Nodup ∧
    (tree settings catalog registry 1 u).errors =
      (treeCalls settings catalog registry u).filterMap (Call.error? (envOf settings catalog)) ∧
    (∀ c ∈ treeCalls settings catalog registry u,
      (c.error? (envOf settings catalog)).isSome = !c.succeeds (envOf settings catalog)) ∧
    (∀ made s, .stmt s ∈ u.preorder made →
      ((tree settings catalog registry 1 u).state.isGenerated s.id = true ↔
        ∃ c ∈ treeCalls settings catalog registry u,
          c.stmt = s ∧ c.succeeds (envOf settings catalog) = true)) ∧
    (∀ f ∈ (tree settings catalog registry 1 u).errors, ∃ r cause, f = .report r cause ∧
      r.code.toText ∈ ["T001", "S001", "S002", "S003", "S004", "S005", "G001"]) ∧
    ((tree settings catalog registry 1 u).errors = [] → ∀ made, ∀ p ∈ u.preorder made,
      (tree settings catalog registry 1 u).state.isGenerated p.info.id = true) := by
  have haccount := tree_account settings catalog registry u hu
  have herrors := tree_errors_eq settings catalog registry u hu
  have hready := ready_of_mem_treeCalls settings catalog registry u hu
  have hgenerates (c : Call) (hc : c ∈ treeCalls settings catalog registry u) :=
    tree_isGenerated_eq settings catalog registry u hu hc
  refine ⟨haccount.once, herrors, fun c hc => (hready c hc).error_isSome _, ?_, ?_, ?_⟩
  · intro made s hs
    constructor
    · exact tree_call_of_generated settings catalog registry u hu hs
    · rintro ⟨c, hc, rfl, hsucceeds⟩
      exact (hgenerates c hc).trans hsucceeds
  · intro f hf
    rw [herrors] at hf
    obtain ⟨c, hc, hcf⟩ := List.mem_filterMap.mp hf
    obtain ⟨r, cause, heq, hr⟩ := (hready c hc).error_code hcf
    refine ⟨r, cause, heq, ?_⟩
    rw [← Code.toText_ofWalk]
    exact List.mem_map_of_mem hr
  · intro hnone made p hp
    refine haccount.complete trivial (fun c hc => ?_) _ (SourceUnit.id_mem_nodes hp)
    -- a call that did not succeed would have recorded a fault
    rw [herrors] at hnone
    have hno := List.filterMap_eq_nil_iff.mp hnone c hc
    have hsome := (hready c hc).error_isSome (envOf settings catalog)
    rw [hno] at hsome
    simpa using hsome.symm

end Tree

/-- The one call without success gives the one fault of the tree. -/
theorem undeclaredInBody_accounts :
    (treeCalls {} none {} undeclaredInBody).map (·.succeeds (envOf {} none)) =
      [false, true, true, true, true] ∧
    (tree {} none {} 1 undeclaredInBody).errors =
      (treeCalls {} none {} undeclaredInBody).filterMap (Call.error? (envOf {} none)) := by
  have hu : undeclaredInBody.Numbered := by decide
  obtain ⟨-, herrors, -⟩ := tree_recovery_accounts {} none {} undeclaredInBody hu
  exact ⟨by decide +kernel, herrors⟩

end TypedPerl.Compile
