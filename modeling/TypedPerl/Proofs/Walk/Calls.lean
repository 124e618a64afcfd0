import TypedPerl.Compile.Unit
import TypedPerl.Proofs.Walk.Outcome

/-!
# The calls of a run

A `Call` is a statement together with the state in which its walk is entered. `Plan.calls` lists
the calls that a run of a plan makes at any depth, in the order in which they return, and
`treeCalls` those of the walk over a whole tree. A run from a state without outputs of its nodes
enters every statement in such a state again (`ready_of_mem_treeCalls`), so that what is known of
the plan of one statement holds for each call of the run.
-/

namespace TypedPerl.Compile

open State (Adds Balanced)

/-- A call of a statement, with the state in which it is entered. -/
structure Call where
  /-- The statement. -/
  stmt : Stmt
  /-- The state in which the call is entered. -/
  before : State

namespace Call

/-- The state in which the call returns. -/
def after (env : Env) (c : Call) : State :=
  (statement c.stmt env c.before).2

/-- The call returns that the statement was generated. -/
def succeeds (env : Env) (c : Call) : Bool :=
  match (statement c.stmt env c.before).1 with
  | .ok ok => ok
  | .error _ => false

/-- The fault that the call records if it does not succeed: the last one when it returns. -/
def error? (env : Env) (c : Call) : Option Fault :=
  if c.succeeds env then none else (c.after env).errors.getLast?

/-- The call is one of a statement that is there, and its plan can run. -/
structure Ready (c : Call) : Prop where
  present : c.stmt.isPresent = true
  plan : c.stmt.plan.Ready c.before.pending.size c.before.marks c.before.begin

/-- The call runs the plan of its statement. -/
theorem run_eq {c : Call} (h : c.stmt.isPresent = true) (env : Env) :
    statement c.stmt env c.before = recovering c.stmt.pos c.stmt.plan.exec env c.before := by
  rw [statement_eq c.stmt h]

/-- What a call that is ready does to its state. -/
theorem Ready.called {c : Call} (h : c.Ready) (env : Env) :
    c.stmt.plan.Called c.before (statement c.stmt env c.before) := by
  rw [run_eq h.present]
  exact (c.stmt.plan.exec_outcome env h.plan).called c.stmt.pos

/-- How a call that is ready returns: with the state of its plan, or with the queue and the marks
put back and a fault recorded. -/
theorem Ready.returns {c : Call} (h : c.Ready) (env : Env) :
    (∃ st', c.stmt.plan.exec env c.before.begin = (.ok (), st') ∧
      statement c.stmt env c.before = (.ok true, st')) ∨
    (∃ f st', c.stmt.plan.exec env c.before.begin = (.error f, st') ∧
      statement c.stmt env c.before = (.ok false,
        { st' with
          pending := c.before.pending, marks := c.before.marks,
          errors := st'.errors ++ [f.diagnose c.stmt.pos] })) := by
  have hout := c.stmt.plan.exec_outcome env h.plan
  rw [run_eq h.present]
  rcases hrun : c.stmt.plan.exec env c.before.begin with ⟨f | _, st'⟩
  · exact .inr ⟨f, st', rfl, Plan.recovering_failed hout hrun⟩
  · exact .inl ⟨st', rfl, Plan.recovering_done hrun⟩

/-- A call that is ready generates its statement if it succeeds, and only then. -/
theorem Ready.succeeds_eq {c : Call} (h : c.Ready) (env : Env) :
    c.succeeds env = (c.after env).isGenerated c.stmt.id := by
  have hgenerated := (h.called env).generated
  rw [Stmt.stmt_plan] at hgenerated
  unfold succeeds after
  rw [hgenerated]

end Call

/-! ## Calls of a plan -/

namespace Plan

/-- The calls that a run of the plan makes, in the order in which they return: those that a called
statement makes itself come before its own. -/
def calls (env : Env) : Plan → State → List Call
  | finish _, _ => []
  | step own rest, st =>
    match own.run env st with
    | (.ok _, st') => rest.calls env st'
    | (.error _, _) => []
  | call inner rest, st =>
    inner.calls env st.begin ++
      ⟨inner.stmt, st⟩ :: rest.calls env (recovering inner.stmt.pos inner.exec env st).2
  | inBlock rest, st => rest.calls env (st.setTable (st.table.enter .block))
  | inSub info name returns rest, st =>
    match enterSub info name returns env st with
    | (.ok _, st') => rest.calls env st'
    | (.error _, _) => []

variable {p : Plan} {mark : Nat} {outer : List Nat} {env : Env}

/-- The calls behind a step of a plan are made if the step succeeds. -/
theorem mem_calls_step {own : OwnStep} {rest : Plan} {st : State} {c : Call}
    (h : c ∈ (step own rest).calls env st) :
    ∃ st₁, own.run env st = (.ok (), st₁) ∧ c ∈ rest.calls env st₁ := by
  rw [calls] at h
  rcases hrun : own.run env st with ⟨f | _, st₁⟩
  · rw [hrun] at h
    exact absurd h List.not_mem_nil
  · rw [hrun] at h
    exact ⟨st₁, rfl, h⟩

/-- A statement that is called in a plan is called as a call of its own. -/
theorem recovering_called {inner : Plan} (hpresent : inner.stmt.isPresent = true)
    (hplan : inner = inner.stmt.plan) (env : Env) (st : State) :
    (recovering inner.stmt.pos inner.exec env st).2 = Call.after env ⟨inner.stmt, st⟩ := by
  rw [Call.after, Call.run_eq hpresent, ← hplan]

/-- Each call that a plan makes is ready if the plan is. -/
theorem ready_of_mem_calls (p : Plan) : ∀ {mark : Nat} {outer : List Nat} {st : State},
    p.Ready mark outer st → p.Nested → ∀ c ∈ p.calls env st, c.Ready := by
  -- the run is followed step by step: what is ready stays ready up to each call
  induction p with
  | finish s =>
    intro mark outer st _ _ c hc
    exact absurd hc List.not_mem_nil
  | step own rest ih =>
    intro mark outer st h hn c hc
    obtain ⟨st₁, hrun, hc⟩ := mem_calls_step hc
    exact ih (h.behind_run hrun) hn c hc
  | call inner rest ihInner ihRest =>
    intro mark outer st h hn c hc
    obtain ⟨hpresent, hplan, hinner, hrest⟩ := hn
    rw [calls] at hc
    rcases List.mem_append.mp hc with hc | hc
    · exact ihInner h.called hinner c hc
    · rcases List.mem_cons.mp hc with rfl | hc
      · -- the call itself, which runs the plan of its statement
        refine ⟨hpresent, ?_⟩
        rw [← hplan]
        exact h.called
      · exact ihRest (h.behind (h.calls env)) hrest c hc
  | inBlock rest ih =>
    intro mark outer st h hn c hc
    exact ih h.inBlock hn c hc
  | inSub i name returns rest ih =>
    intro mark outer st h hn c hc
    obtain ⟨st₁, henter, ho, -⟩ := enterSub_opened i name returns env st
    rw [calls, henter] at hc
    exact ih (h.opened ho rfl) hn c hc

end Plan

/-! ## Calls of a walk over statements -/

/-- The calls of the walk over some statements, in the order in which they return. -/
def stmtCalls (env : Env) : List Stmt → State → List Call
  | [], _ => []
  | s :: rest, st =>
    (if s.isPresent then s.plan.calls env st.begin ++ [⟨s, st⟩] else []) ++
      stmtCalls env rest (statement s env st).2

/-- A call of the walk is made inside the first statement, is the call of that statement, or is made
behind it. -/
theorem mem_stmtCalls_cons {env : Env} {s : Stmt} {rest : List Stmt} {st : State} {c : Call} :
    c ∈ stmtCalls env (s :: rest) st ↔
      (s.isPresent = true ∧ (c ∈ s.plan.calls env st.begin ∨ c = ⟨s, st⟩)) ∨
        c ∈ stmtCalls env rest (statement s env st).2 := by
  rw [stmtCalls, List.mem_append]
  refine or_congr_left ?_
  split
  · next hs => simp [hs]
  · next hs => simp [hs]

/-- The nodes of the statements are different from one another and not generated yet. -/
structure Fresh (ss : List Stmt) (st : State) : Prop where
  distinct : (Stmt.nodesList ss).Nodup
  fresh : ∀ n ∈ Stmt.nodesList ss, st.isGenerated n = false

namespace Fresh

variable {s : Stmt} {rest : List Stmt} {st st₁ : State}

/-- A statement whose nodes are not generated can be called, in whatever state. -/
theorem ready (h : Fresh (s :: rest) st) (hs : s.isPresent = true) : Call.Ready ⟨s, st⟩ := by
  have hdistinct := h.distinct
  rw [Stmt.nodesList_cons, List.nodup_append] at hdistinct
  have hperm := Stmt.nodes_plan_perm hs
  refine ⟨hs, hperm.nodup_iff.mpr hdistinct.1, fun n hn => ?_, rfl, Nat.le_refl _⟩
  refine h.fresh n ?_
  rw [Stmt.nodesList_cons]
  exact List.mem_append_left _ (hperm.mem_iff.mp hn)

/-- The statements behind a statement are not touched by it. -/
theorem tail (h : Fresh (s :: rest) st) (hadds : Adds s.nodes st st₁) : Fresh rest st₁ := by
  have hdistinct := h.distinct
  rw [Stmt.nodesList_cons, List.nodup_append] at hdistinct
  obtain ⟨-, hrest, hapart⟩ := hdistinct
  refine ⟨hrest, fun n hn => ?_⟩
  rw [hadds.isGenerated_eq fun hmem => hapart n hmem n hn rfl]
  refine h.fresh n ?_
  rw [Stmt.nodesList_cons]
  exact List.mem_append_right _ hn

/-- Walking a statement is balanced, and generates nodes of the statement only. -/
theorem statement (h : Fresh (s :: rest) st) (env : Env) :
    Balanced st (Compile.statement s env st).2 ∧
      Adds s.nodes st (Compile.statement s env st).2 := by
  by_cases hs : s.isPresent = true
  · have hcalled := (h.ready hs).called env
    exact ⟨hcalled.balanced, hcalled.adds.mono fun n => (Stmt.nodes_plan_perm hs).mem_iff.mp⟩
  · rw [statement_absent hs]
    exact ⟨⟨rfl, rfl, rfl, rfl, rfl⟩, .of_eq rfl⟩

end Fresh

/-- Each call of a walk over statements is ready if the nodes are not generated yet. -/
theorem ready_of_mem_stmtCalls {env : Env} (ss : List Stmt) : ∀ {st : State}, Fresh ss st →
    ∀ c ∈ stmtCalls env ss st, c.Ready := by
  induction ss with
  | nil =>
    intro st _ c hc
    exact absurd hc List.not_mem_nil
  | cons s rest ih =>
    intro st h c hc
    rcases mem_stmtCalls_cons.mp hc with ⟨hs, hc | rfl⟩ | hc
    · exact s.plan.ready_of_mem_calls (h.ready hs).plan (nested_plan s) c hc
    · exact h.ready hs
    · exact ih (h.tail (h.statement env).2) c hc

/-- Walking statements in order is balanced, and generates nodes of the statements only. -/
theorem statements_balanced (env : Env) (ss : List Stmt) : ∀ {st : State}, Fresh ss st →
    Balanced st (statements ss env st).2 ∧
      Adds (Stmt.nodesList ss) st (statements ss env st).2 := by
  induction ss with
  | nil =>
    intro st _
    rw [statements]
    exact ⟨⟨rfl, rfl, rfl, rfl, rfl⟩, .of_eq rfl⟩
  | cons s rest ih =>
    intro st h
    obtain ⟨hfirst, hadds⟩ := h.statement env
    obtain ⟨hrest, hmore⟩ := ih (h.tail hadds)
    rw [run_statements_cons, Stmt.nodesList_cons]
    exact ⟨hfirst.trans hrest, hadds.append hmore⟩

/-! ## The walk over a tree -/

/-- Declaring subroutines changes names only. -/
theorem declareSubs_ok (ss : List Stmt) (env : Env) : ∀ st : State,
    ∃ t subs, declareSubs ss env st = (.ok (), st.setNames t subs) ∧
      t.depth = st.table.depth := by
  induction ss with
  | nil =>
    intro st
    exact ⟨st.table, st.subs, rfl, rfl⟩
  | cons s rest ih =>
    intro st
    cases s with
    | sub i name returns b =>
      obtain ⟨s, t, subs, hdeclare, hdepth⟩ := Plan.declareSub_ok i name returns env st
      obtain ⟨t', subs', hrest, hdepth'⟩ := ih (st.setNames t subs)
      -- the subroutine declared here is kept by those declared behind it
      refine ⟨t', subs', ?_, hdepth'.trans hdepth⟩
      rw [declareSubs, run_bind_ok hdeclare, hrest]
      rfl
    | _ => exact ih st

/-- Opening the package of a unit and declaring its subroutines changes names only. -/
theorem prepare_ok (ss : List Stmt) (env : Env) (st : State) :
    ∃ t subs, prepare ss env st = (.ok (), st.setNames t subs) ∧
      t.depth = st.table.depth := by
  unfold prepare
  cases leadingPackage? ss with
  | none => exact declareSubs_ok ss env st
  | some name =>
    obtain ⟨t, subs, hrun, hdepth⟩ :=
      declareSubs_ok ss env (st.setTable (st.table.openPackage name).2)
    exact ⟨t, subs, hrun, hdepth.trans (st.table.depth_openPackage name)⟩

section Tree

variable (settings : Settings) (catalog : Option Catalog) (registry : Registry) (u : SourceUnit)

/-- The state in which the walk over the statements of a tree starts. -/
def startState : State :=
  (prepare u.stmts (envOf settings catalog)
    { table := { registry := registry }, pending := {} }).2.restart

/-- The calls of the walk over a tree, in the order in which they return. -/
def treeCalls : List Call :=
  stmtCalls (envOf settings catalog) u.stmts (startState settings catalog registry u)

/-- Before the walk nothing is open, queued or generated. -/
theorem startState_empty :
    (startState settings catalog registry u).outputs = [] ∧
      Balanced { table := {}, pending := {} } (startState settings catalog registry u) ∧
      (startState settings catalog registry u).errors = [] := by
  obtain ⟨t, subs, hrun, hdepth⟩ := prepare_ok u.stmts (envOf settings catalog)
    { table := { registry := registry }, pending := {} }
  unfold startState
  rw [hrun]
  exact ⟨rfl, ⟨rfl, rfl, rfl, rfl, hdepth⟩, rfl⟩

/-- The lines of the main method are read off beside the walk, which is the same without them. -/
theorem topLevel_state (ss : List Stmt) (env : Env) : ∀ st : State,
    ∃ lines, topLevel ss env st = (.ok lines, (statements ss env st).2) := by
  induction ss with
  | nil =>
    intro st
    rw [statements]
    exact ⟨[], rfl⟩
  | cons s rest ih =>
    intro st
    -- the line of a statement is read off its output, without a change of the state
    obtain ⟨ok, st', hs⟩ := statement_ok s env st
    obtain ⟨lines, hrest⟩ := ih st'
    have hlines : topLevel (s :: rest) env st =
        (do
          let lines ← topLevel rest
          return (if ok then st'.lineOf? s.id else none).toList ++ lines : Compile _) env st' := by
      rw [topLevel, run_bind_ok hs]
      rfl
    rw [hlines, run_bind_ok hrest, run_statements_cons, hs]
    exact ⟨_, rfl⟩

theorem pass_state (env : Env) (st : State) :
    (pass u.stmts env st).2 = (statements u.stmts env (prepare u.stmts env st).2.restart).2 := by
  obtain ⟨t, subs, hprepare, -⟩ := prepare_ok u.stmts env st
  obtain ⟨lines, hlines⟩ := topLevel_state u.stmts env (st.setNames t subs).restart
  have hpass : pass u.stmts env st = topLevel u.stmts env (st.setNames t subs).restart := by
    rw [pass, run_bind_ok hprepare]
    rfl
  rw [hpass, hlines, hprepare]

/-- The state behind a tree is the one that the walk over its statements leaves. -/
theorem tree_state :
    (tree settings catalog registry 1 u).state =
      (statements u.stmts (envOf settings catalog) (startState settings catalog registry u)).2 :=
  pass_state u (envOf settings catalog) { table := { registry := registry }, pending := {} }

/-- The faults of a tree are those that the walk over its statements records. -/
theorem tree_errors :
    (tree settings catalog registry 1 u).errors =
      (tree settings catalog registry 1 u).state.errors := rfl

/-- A numbered tree has no outputs of its nodes when the walk starts. -/
theorem fresh_startState (hu : u.Numbered) :
    Fresh u.stmts (startState settings catalog registry u) := by
  refine ⟨hu, fun n _ => ?_⟩
  unfold State.isGenerated
  rw [(startState_empty settings catalog registry u).1]
  rfl

/-- Each call of the walk over a numbered tree is ready. -/
theorem ready_of_mem_treeCalls (hu : u.Numbered) :
    ∀ c ∈ treeCalls settings catalog registry u, c.Ready :=
  ready_of_mem_stmtCalls u.stmts (fresh_startState settings catalog registry u hu)

end Tree

/-- A condition in a block that declares a variable in its test, with a body in which a variable is
named that is not declared, and which goes on behind it. -/
def undeclaredInBody : SourceUnit where
  file := "sample.pl"
  className := ""
  stmts :=
    [.block (.mk ⟨1, default⟩
      [.cond ⟨2, default⟩ false
        (.assign ⟨3, default⟩ "="
          (.var { info := ⟨4, default⟩, name := "n", sigil := .scalar, decl := .my,
                  type := some .integer })
          (.number ⟨5, default⟩ "1"))
        (.mk ⟨6, default⟩
          [.expr ⟨7, default⟩ (.var { info := ⟨8, default⟩, name := "x", sigil := .scalar }),
            .comment ⟨9, default⟩ "# behind"]) [] .absent])]

end TypedPerl.Compile
