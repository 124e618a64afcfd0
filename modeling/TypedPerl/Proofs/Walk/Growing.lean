import TypedPerl.Proofs.Walk.Records
import TypedPerl.Proofs.Walk.Variables

/-!
# Runs only add

What was generated and what nodes mean stays (`State.Grows`): within a statement up to the state in
which it is put together (`Outline.generatedIn_grows`) and behind each of its own steps
(`Outline.owns_ran`), from the end of a call to the end of the call around it, and to the end of the
walk over a tree (`tree_grows`), whatever comes of the other statements.
-/

namespace TypedPerl.Compile

/-! ## States that grow -/

/-- All outputs of the first state are outputs of the second. -/
def State.Keeps (st st' : State) : Prop :=
  ∀ n out, st.outputs.get? n = some out → st'.outputs.get? n = some out

/-- What is generated and what nodes mean in the first state is so in the second. -/
structure State.Grows (st st' : State) : Prop where
  outputs : st.Keeps st'
  known : st.Known st'
  subs : st.KeepsSubs st'

namespace State.Grows

variable {st st₁ st₂ : State}

theorem of_eq (houtputs : st₁.outputs = st.outputs) (hbindings : st₁.bindings = st.bindings)
    (hsubs : st₁.subs = st.subs) : Grows st st₁ where
  outputs n out h := by
    rw [houtputs]
    exact h
  known := .of_eq hbindings
  subs n s h := by
    rw [hsubs]
    exact h

theorem trans (h₁ : Grows st st₁) (h₂ : Grows st₁ st₂) : Grows st st₂ where
  outputs n out h := h₂.outputs n out (h₁.outputs n out h)
  known := h₁.known.trans h₂.known
  subs n s h := h₂.subs n s (h₁.subs n s h)

theorem get (h : Grows st st₁) {n : Nat} (hn : st.isGenerated n = true) :
    st₁.outputs.get? n = st.outputs.get? n := by
  obtain ⟨out, hout⟩ := Option.isSome_iff_exists.mp hn
  rw [hout]
  exact h.outputs n out hout

theorem isGenerated (h : Grows st st₁) {n : Nat} (hn : st.isGenerated n = true) :
    st₁.isGenerated n = true := by
  rw [State.isGenerated, h.get hn]
  exact hn

theorem output (h : Grows st st₁) {n : Nat} (hn : st.isGenerated n = true) :
    st₁.output n = st.output n := by
  rw [State.output, h.get hn]
  rfl

end State.Grows

/-- The state behind the walk of an expression, with the outputs of a later state. -/
def State.setOutputs (st : State) (outputs : Keyed Nat Output) : State :=
  { st with outputs := outputs }

theorem finishExpr_grows (e : Expr) (u : Usage) (env : Env) (st : State) :
    st.Grows (finishExpr e u env st).2 where
  outputs := ((finishExpr_generates e u).keeps env st).kept
  known := (finishExpr_logs e u env st).known
  subs := (finishExpr_along blind_records (fun _ _ => .of_same rfl rfl) e u env st).subs

theorem finishAll_grows (ps : List (Expr × Usage)) (env : Env) (st : State) :
    st.Grows (finishAll ps env st).2 := by
  induction ps generalizing st with
  | nil => exact .of_eq rfl rfl rfl
  | cons p rest ih =>
    have hfirst := finishExpr_grows p.1 p.2 env st
    rw [finishAll, run_bind]
    generalize finishExpr p.1 p.2 env st = r at hfirst ⊢
    rcases r with ⟨f | _, st₁⟩
    · exact hfirst
    · exact hfirst.trans (ih st₁)

theorem Own.run_grows (o : Own) (env : Env) (st : State) : st.Grows (o.step.run env st).2 where
  outputs := (o.step.generates.keeps env st).kept
  known := (o.run_logs env st).known
  subs := (o.run_records env st).subs

theorem Plan.Ready.recovering_subs {p : Plan} {st : State}
    (h : p.Ready st.pending.size st.marks st.begin) (pos : Pos) (env : Env) :
    (recovering pos p.exec env st).2.subs = (p.exec env st.begin).2.subs := by
  rcases hrun : p.exec env st.begin with ⟨f | _, st'⟩
  · rw [Plan.recovering_failed (p.exec_outcome env h) hrun]
  · rw [Plan.recovering_done hrun]

/-- No run forgets which subroutine a node means. -/
theorem Outline.exec_subs (p : Outline) (env : Env) :
    ∀ {mark : Nat} {outer : List Nat} {st : State}, p.toPlan.Ready mark outer st →
      st.KeepsSubs (p.toPlan.exec env st).2 := by
  induction p with
  | finish s => exact fun _ => (finishStmt_records s env _).subs
  | own o rest ih =>
    intro mark outer st h
    have hown := (o.run_records env st).subs
    have hready := h.behindStep env
    rw [toPlan, Plan.exec, run_bind]
    generalize o.step.run env st = r at hown hready ⊢
    rcases r with ⟨f | _, st₁⟩
    · exact hown
    · exact fun n s hn => ih hready n s (hown n s hn)
  | call inner rest ihInner ihRest =>
    intro mark outer st h n s hn
    rw [toPlan, Plan.exec_call]
    -- a call leaves the subroutines as its plan does
    refine ihRest (h.behind (h.calls env)) n s ?_
    rw [h.called.recovering_subs]
    exact ihInner h.called n s hn
  | inBlock rest ih =>
    intro mark outer st h
    rw [toPlan, Plan.exec_inBlock]
    exact ih h.inBlock
  | inSub i name returns rest ih =>
    intro mark outer st h n s hn
    obtain ⟨st₁, henter, ho, -⟩ := Plan.enterSub_opened i name returns env st
    have hopened := (enterSub_records i name returns env st).subs
    rw [henter] at hopened
    rw [toPlan, Plan.exec_inSub henter]
    exact ih (h.opened ho rfl) n s (hopened n s hn)

theorem Outline.exec_grows {p : Outline} {mark : Nat} {outer : List Nat} {st : State}
    (h : p.toPlan.Ready mark outer st) (env : Env) : st.Grows (p.toPlan.exec env st).2 where
  outputs := (p.toPlan.exec_outcome env h).within.kept
  known := (p.exec_logs env h).known
  subs := p.exec_subs env h

/-- A called statement adds what its plan does. -/
theorem Outline.call_grows {inner rest : Outline} {mark : Nat} {outer : List Nat} {st : State}
    (h : (Outline.call inner rest).toPlan.Ready mark outer st) (env : Env) :
    st.Grows (recovering inner.toPlan.stmt.pos inner.toPlan.exec env st).2 where
  outputs := (h.calls env).adds.kept
  known := by
    obtain ⟨-, hbindings⟩ := h.called.recovering_named inner.toPlan.stmt.pos env
    exact (inner.exec_logs env h.called).known.trans (.of_eq hbindings)
  subs n s hn := by
    rw [h.called.recovering_subs]
    exact inner.exec_subs env h.called n s hn

/-- The state in which a statement is put together lies between the start and the end of its
run. -/
theorem Outline.generatedIn_grows (p : Outline) (env : Env) :
    ∀ {mark : Nat} {outer : List Nat} {st gst : State}, p.toPlan.Ready mark outer st →
      p.toPlan.generatedIn? env st = some gst →
      st.Grows gst ∧ gst.Grows (p.toPlan.exec env st).2 := by
  induction p with
  | finish s =>
    intro mark outer st gst h hgst
    cases hgst
    exact ⟨.of_eq rfl rfl rfl, Outline.exec_grows (p := .finish s) h env⟩
  -- the walk is followed from step to step, and what lies before the text only grows
  | own o rest ih =>
    intro mark outer st gst h hgst
    have hown := o.run_grows env st
    obtain ⟨st₁, hrun, hgst⟩ := Plan.generatedIn?_step hgst
    rw [hrun] at hown
    rw [toPlan, Plan.exec, run_bind_ok hrun]
    obtain ⟨hbefore, hafter⟩ := ih (h.behind_run hrun) hgst
    exact ⟨hown.trans hbefore, hafter⟩
  | call inner rest _ ih =>
    intro mark outer st gst h hgst
    obtain ⟨hbefore, hafter⟩ := ih (h.behind (h.calls env)) hgst
    rw [toPlan, Plan.exec_call]
    exact ⟨(call_grows h env).trans hbefore, hafter⟩
  | inBlock rest ih =>
    intro mark outer st gst h hgst
    obtain ⟨hbefore, hafter⟩ := ih h.inBlock hgst
    have hopened : st.Grows (st.setTable (st.table.enter .block)) := .of_eq rfl rfl rfl
    rw [toPlan, Plan.exec_inBlock]
    exact ⟨hopened.trans hbefore, hafter.trans (.of_eq rfl rfl rfl)⟩
  | inSub i name returns rest ih =>
    intro mark outer st gst h hgst
    obtain ⟨st₁, henter, ho, -⟩ := Plan.enterSub_opened i name returns env st
    obtain ⟨st₂, b, henter', -, hlogs⟩ := enterSub_logs i name returns env st
    -- the two lemmas on entering a subroutine speak of the same state
    cases (henter.symm.trans henter')
    have hopened : st.Grows st₁ := by
      have hrecords := enterSub_records i name returns env st
      rw [henter] at hrecords
      refine ⟨fun n out hn => ?_, hlogs.known, hrecords.subs⟩
      rw [ho.outputs]
      exact hn
    rw [toPlan, Plan.generatedIn?, henter] at hgst
    rw [toPlan, Plan.exec_inSub henter]
    obtain ⟨hbefore, hafter⟩ := ih (h.opened ho rfl) hgst
    exact ⟨hopened.trans hbefore, hafter.trans (.of_eq rfl rfl rfl)⟩

/-- The steps of the statement itself, in order. -/
def Outline.owns : Outline → List Own
  | finish _ => []
  | own o rest => o :: rest.owns
  | call _ rest | inBlock rest | inSub _ _ _ rest => rest.owns

theorem Outline.vars_owns (p : Outline) : p.vars = p.owns.flatMap Own.vars := by
  induction p with
  | finish s => rfl
  | own o rest ih => rw [vars, owns, List.flatMap_cons, ih]
  | call inner rest _ ih | inBlock rest ih | inSub i name returns rest ih => exact ih

/-- When a statement is put together each of its own steps has run, and what the step left has only
grown since. -/
theorem Outline.owns_ran (p : Outline) (env : Env) :
    ∀ {mark : Nat} {outer : List Nat} {st gst : State}, p.toPlan.Ready mark outer st →
      p.toPlan.generatedIn? env st = some gst →
      ∀ o ∈ p.owns, ∃ st₀ st₁, o.step.run env st₀ = (.ok (), st₁) ∧ st₁.Grows gst := by
  induction p with
  | finish s =>
    intro mark outer st gst _ _ o ho
    exact absurd ho List.not_mem_nil
  | own first rest ih =>
    intro mark outer st gst h hgst o ho
    obtain ⟨st₁, hrun, hrest⟩ := Plan.generatedIn?_step hgst
    have hready := h.behind_run hrun
    rcases List.mem_cons.mp ho with rfl | ho
    · exact ⟨st, st₁, hrun, (rest.generatedIn_grows env hready hrest).1⟩
    · exact ih hready hrest o ho
  | call inner rest _ ih =>
    intro mark outer st gst h hgst
    exact ih (h.behind (h.calls env)) hgst
  | inBlock rest ih =>
    intro mark outer st gst h hgst
    exact ih h.inBlock hgst
  | inSub i name returns rest ih =>
    intro mark outer st gst h hgst
    obtain ⟨st₁, henter, hopened, -⟩ := Plan.enterSub_opened i name returns env st
    rw [toPlan, Plan.generatedIn?, henter] at hgst
    exact ih (h.opened hopened rfl) hgst

/-! ## Calls of a run -/

namespace Call

variable {c : Call}

theorem Ready.exec_ok (h : c.Ready) {env : Env} (hok : c.succeeds env = true) :
    (c.stmt.outline.toPlan.exec env c.before.begin).1 = .ok () := by
  rw [Stmt.toPlan_outline]
  exact (h.succeeds_iff env).mp hok

/-- What the run of the outline has added is there when the call returns. -/
theorem Ready.exec_grows (h : c.Ready) (env : Env) :
    (c.stmt.outline.toPlan.exec env c.before.begin).2.Grows (c.after env) := by
  refine .of_eq ?_ (h.names_after env).2 ?_
  · rw [Stmt.toPlan_outline]
    exact h.outputs_after env
  · rw [Call.after, Call.run_eq h.present, Stmt.toPlan_outline]
    exact h.plan.recovering_subs c.stmt.pos env

end Call

/-- What a call leaves stays until the outline that makes the call has run. -/
theorem Outline.calls_grow (p : Outline) (env : Env) :
    ∀ {mark : Nat} {outer : List Nat} {st : State}, p.toPlan.Ready mark outer st →
      p.toPlan.Nested →
      ∀ c ∈ p.toPlan.calls env st, (c.after env).Grows (p.toPlan.exec env st).2 := by
  induction p with
  | finish s =>
    intro mark outer st _ _ c hc
    exact absurd hc List.not_mem_nil
  | own o rest ih =>
    intro mark outer st h hn c hc
    obtain ⟨st₁, hrun, hc⟩ := Plan.mem_calls_step hc
    rw [toPlan, Plan.exec, run_bind_ok hrun]
    exact ih (h.behind_run hrun) hn c hc
  | call inner rest ihInner ihRest =>
    intro mark outer st h hn c hc
    obtain ⟨hpresent, hplan, hinner, hrest⟩ := hn
    have hready := h.behind (h.calls env)
    have hcall : Call.Ready ⟨inner.toPlan.stmt, st⟩ := ⟨hpresent, hplan ▸ h.called⟩
    have hreturn := hcall.exec_grows env
    rw [Stmt.toPlan_outline, ← hplan, ← Plan.recovering_called hpresent hplan] at hreturn
    -- the rest only adds to what the called statement leaves
    have hkept := rest.exec_grows hready env
    rw [toPlan, Plan.exec_call]
    rcases List.mem_append.mp hc with hc | hc
    · exact ((ihInner h.called hinner c hc).trans hreturn).trans hkept
    · rcases List.mem_cons.mp hc with rfl | hc
      · rw [← Plan.recovering_called hpresent hplan]
        exact hkept
      · exact ihRest hready hrest c hc
  | inBlock rest ih =>
    intro mark outer st h hn c hc
    rw [toPlan, Plan.exec_inBlock]
    exact (ih h.inBlock hn c hc).trans (.of_eq rfl rfl rfl)
  | inSub i name returns rest ih =>
    intro mark outer st h hn c hc
    obtain ⟨st₁, henter, ho, -⟩ := Plan.enterSub_opened i name returns env st
    rw [toPlan, Plan.calls, henter] at hc
    rw [toPlan, Plan.exec_inSub henter]
    exact (ih (h.opened ho rfl) hn c hc).trans (.of_eq rfl rfl rfl)

/-- What a call inside a call leaves stays until the outer one returns. -/
theorem Call.Ready.calls_grow {c : Call} (h : c.Ready) (env : Env) :
    ∀ d ∈ c.stmt.plan.calls env c.before.begin, (d.after env).Grows (c.after env) := by
  have hplan := c.stmt.outline.calls_grow env h.outline c.nested_stmt
  have hreturn := h.exec_grows env
  rw [Stmt.toPlan_outline] at hplan hreturn
  exact fun d hd => (hplan d hd).trans hreturn

/-! ## Calls of a walk over statements -/

theorem statements_subs (ss : List Stmt) (env : Env) : ∀ {st : State}, Fresh ss st →
    st.KeepsSubs (statements ss env st).2 := by
  induction ss with
  | nil =>
    intro st _ n s hn
    rw [statements]
    exact hn
  | cons s rest ih =>
    intro st h n t hn
    rw [run_statements_cons]
    refine ih (h.tail (h.statement env).2) n t ?_
    by_cases hs : s.isPresent = true
    · have hcall := (h.ready hs).exec_grows env
      exact hcall.subs n t (s.outline.exec_subs env (h.ready hs).outline n t hn)
    · rw [statement_absent hs]
      exact hn

theorem statements_grow (ss : List Stmt) (env : Env) {st : State} (h : Fresh ss st) :
    st.Grows (statements ss env st).2 where
  outputs := (statements_balanced env ss h).2.kept
  known := (statements_logs ss env h).known
  subs := statements_subs ss env h

/-- What a call leaves stays until all statements are walked. -/
theorem stmtCalls_grow (ss : List Stmt) (env : Env) : ∀ {st : State}, Fresh ss st →
    ∀ c ∈ stmtCalls env ss st, (c.after env).Grows (statements ss env st).2 := by
  induction ss with
  | nil =>
    intro st _ c hc
    exact absurd hc List.not_mem_nil
  | cons s rest ih =>
    intro st h c hc
    have htail := h.tail (h.statement env).2
    have hkept := statements_grow rest env htail
    rw [run_statements_cons]
    rcases mem_stmtCalls_cons.mp hc with ⟨hs, hc | rfl⟩ | hc
    · exact ((h.ready hs).calls_grow env c hc).trans hkept
    · exact hkept
    · exact ih htail c hc

/-! ## Trees -/

section Tree

variable (settings : Settings) (catalog : Option Catalog) (registry : Registry) (u : SourceUnit)

/-- What a call of the walk over a numbered tree leaves stays to the end. -/
theorem tree_grows (hu : u.Numbered) : ∀ c ∈ treeCalls settings catalog registry u,
    (c.after (envOf settings catalog)).Grows (tree settings catalog registry 1 u).state := by
  rw [tree_state]
  exact stmtCalls_grow u.stmts _ (fresh_startState settings catalog registry u hu)

/-- In a walk without faults every call succeeds. -/
theorem tree_calls_succeed (hu : u.Numbered)
    (hok : (tree settings catalog registry 1 u).errors = []) :
    ∀ c ∈ treeCalls settings catalog registry u, c.succeeds (envOf settings catalog) = true := by
  intro c hc
  rw [tree_errors_eq settings catalog registry u hu] at hok
  have hnone := List.filterMap_eq_nil_iff.mp hok c hc
  have hsome := (ready_of_mem_treeCalls settings catalog registry u hu c hc).error_isSome
    (envOf settings catalog)
  rw [hnone] at hsome
  simpa using hsome.symm

/-- In a walk without faults every statement of the tree is called. -/
theorem tree_called (hu : u.Numbered) (hok : (tree settings catalog registry 1 u).errors = [])
    {s : Stmt} (hs : s ∈ allStmts u.stmts) :
    ∃ c ∈ treeCalls settings catalog registry u, c.stmt = s := by
  have haccount := tree_account settings catalog registry u hu
  refine haccount.called s hs ?_
  exact haccount.complete trivial (tree_calls_succeed settings catalog registry u hu hok) _
    (haccount.members s hs)

end Tree

end TypedPerl.Compile
