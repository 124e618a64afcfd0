import TypedPerl.Proofs.Walk.Recovery

/-!
# Declarations are hoisted once

The declarations of generated variables stand in one queue that all open statements share.
`Plan.queued` gives those that a statement queues itself, outside of the statements that it calls.
The text of a statement is these declarations, in the order of the queue, and then its code, which
does not depend on the queue.
-/

namespace TypedPerl

/-- Behind a mark stands what stood there before, and then what was queued since. -/
theorem Pending.drop_of_prefix {q q' : Pending} {m : Nat} (hm : m ≤ q.size)
    (h : q.decls <+: q'.decls) : q'.decls.drop m = q.decls.drop m ++ q'.decls.drop q.size := by
  obtain ⟨more, hmore⟩ := h
  rw [← hmore, List.drop_append_of_le_length hm]
  simp [Pending.size]

namespace Compile

/-- The declarations that are queued in the second state behind those of the first. -/
def State.queuedSince (st st' : State) : List Declaration :=
  st'.pending.decls.drop st.pending.size

theorem State.queuedSince_same {st st' : State} (h : st'.pending = st.pending) :
    st.queuedSince st' = [] := by
  rw [State.queuedSince, h]
  exact List.drop_length

/-- The state with another queue. -/
def State.setPending (st : State) (q : Pending) : State :=
  { st with pending := q }

/-! ## What a statement queues itself -/

namespace Plan

/-- The declarations that a run of the plan queues itself, up to the point where its statement is
generated. What is queued while a called statement is open is not among them. -/
def queued (env : Env) : Plan → State → List Declaration
  | finish s, st => st.queuedSince (stmtCode s env st).2
  | step own rest, st =>
    match own.run env st with
    | (.ok _, st') => st.queuedSince st' ++ rest.queued env st'
    | (.error _, st') => st.queuedSince st'
  | call inner rest, st => rest.queued env (recovering inner.stmt.pos inner.exec env st).2
  | inBlock rest, st => rest.queued env (st.setTable (st.table.enter .block))
  | inSub info name returns rest, st =>
    match enterSub info name returns env st with
    | (.ok _, st') => st.queuedSince st' ++ rest.queued env st'
    | (.error _, st') => st.queuedSince st'

/-- The state in which a run of the plan generates the code of its statement, if it gets there. -/
def generatedIn? (env : Env) : Plan → State → Option State
  | finish _, st => some st
  | step own rest, st =>
    match own.run env st with
    | (.ok _, st') => rest.generatedIn? env st'
    | (.error _, _) => none
  | call inner rest, st => rest.generatedIn? env (recovering inner.stmt.pos inner.exec env st).2
  | inBlock rest, st => rest.generatedIn? env (st.setTable (st.table.enter .block))
  | inSub info name returns rest, st =>
    match enterSub info name returns env st with
    | (.ok _, st') => rest.generatedIn? env st'
    | (.error _, _) => none

/-- A statement behind a step is only generated if the step succeeds. -/
theorem generatedIn?_step {own : OwnStep} {rest : Plan} {env : Env} {st gst : State}
    (h : (step own rest).generatedIn? env st = some gst) :
    ∃ st₁, own.run env st = (.ok (), st₁) ∧ rest.generatedIn? env st₁ = some gst := by
  rw [generatedIn?] at h
  rcases hrun : own.run env st with ⟨f | _, st₁⟩
  · rw [hrun] at h
    cases h
  · rw [hrun] at h
    exact ⟨st₁, rfl, h⟩

/-- A plan that succeeds generates its statement from the declarations that stood behind the mark
and those that the plan queues itself, followed by the code. -/
theorem exec_text (p : Plan) (env : Env) :
    ∀ {mark : Nat} {outer : List Nat} {st st' : State}, p.Ready mark outer st →
      p.exec env st = (.ok (), st') →
      ∃ gst code, p.generatedIn? env st = some gst ∧ (stmtCode p.stmt env gst).1 = .ok code ∧
        st'.outputs.get? p.stmt.id =
          some (stmtText (st.pending.decls.drop mark ++ p.queued env st) code) := by
  induction p with
  | finish s =>
    intro mark outer st st' h hrun
    have hsteady : Steady [] (stmtCode s) := stmtCode_steady s
    have hkeeps := hsteady.keeps env st
    rw [exec, run_finishStmt] at hrun
    rcases hcode : stmtCode s env st with ⟨f | code, st₁⟩
    · rw [hcode] at hrun
      cases hrun
    · rw [hcode] at hrun hkeeps
      -- generating the code may queue declarations as well, which the drain takes too
      have hdrain := State.drain_of_marks (hkeeps.marks.trans h.marks)
      refine ⟨st, code, rfl, congrArg Prod.fst hcode, ?_⟩
      have hqueue : st₁.drain.1 = st.pending.decls.drop mark ++ (Plan.finish s).queued env st := by
        rw [hdrain, Pending.drop_of_prefix h.bounded hkeeps.pending, queued, hcode]
        rfl
      dsimp only at hrun
      split at hrun
      · cases hrun
      · cases hrun
        rw [hqueue]
        exact Keyed.get?_put_self _ _ _
  | step own rest ih =>
    intro mark outer st st' h hrun
    have hkeeps := own.generates.keeps env st
    have hready := h.behindStep env
    obtain ⟨st₁, hown, hexec⟩ := exec_step_inv (congrArg Prod.fst hrun)
    rw [hexec] at hrun
    rw [hown] at hkeeps hready
    rw [generatedIn?, queued, hown]
    obtain ⟨gst, code, hgst, hcode, htext⟩ := ih hready hrun
    refine ⟨gst, code, hgst, hcode, htext.trans ?_⟩
    -- what the step queues comes behind what stood there, and before what the rest queues
    rw [Pending.drop_of_prefix h.bounded hkeeps.pending, List.append_assoc]
    rfl
  | call inner rest ihInner ihRest =>
    intro mark outer st st' h hrun
    have hcalled := h.calls env
    rw [exec_call] at hrun
    -- the queue is as it was when the call returns
    have hrest := ihRest (h.behind hcalled) hrun
    rw [hcalled.balanced.pending] at hrest
    exact hrest
  | inBlock rest ih =>
    intro mark outer st st' h hrun
    have hready : rest.Ready mark outer _ := h.inBlock
    -- closing the scope leaves what was generated in it
    rw [exec_inBlock] at hrun
    obtain ⟨hok, rfl⟩ := Prod.mk.inj hrun
    obtain ⟨gst, code, hgst, hcode, htext⟩ := ih hready (Prod.ext hok rfl)
    exact ⟨gst, code, hgst, hcode, htext⟩
  | inSub i name returns rest ih =>
    intro mark outer st st' h hrun
    obtain ⟨st₁, henter, ho, -⟩ := enterSub_opened i name returns env st
    have hready : rest.Ready mark outer st₁ := h.opened ho rfl
    rw [exec_inSub henter] at hrun
    obtain ⟨hok, rfl⟩ := Prod.mk.inj hrun
    rw [generatedIn?, queued, henter]
    obtain ⟨gst, code, hgst, hcode, htext⟩ := ih hready (Prod.ext hok rfl)
    refine ⟨gst, code, hgst, hcode, htext.trans ?_⟩
    dsimp only
    rw [State.queuedSince_same ho.pending, List.nil_append, ho.pending]

end Plan

/-! ## Code does not depend on the queue -/

mutual

theorem exprStatement_setPending (env : Env) (st : State) (q : Pending) :
    ∀ e : Expr, exprStatement env (st.setPending q) e = exprStatement env st e
  | .var v => by
    rw [exprStatement, exprStatement]
    rfl
  | .list i es => by
    rw [exprStatement, exprStatement, exprStatements_setPending env st q es]
  | .binary i op left right => by
    rw [exprStatement, exprStatement, exprStatement_setPending env st q right]
    rfl
  -- the other nodes read their outputs only
  | .number _ _ | .string _ _ _ | .undef _ | .index _ _ _ _ _ _ | .deref _ _ _ | .makeRef _ _
  | .anonArray _ _ _ | .anonHash _ _ _ | .assign _ _ _ _ | .incDec _ _ _ _ | .unary _ _ _
  | .ternary _ _ _ _ | .call _ _ _ _ => by
    simp only [exprStatement]
    rfl

theorem exprStatements_setPending (env : Env) (st : State) (q : Pending) :
    ∀ es : List Expr, exprStatements env (st.setPending q) es = exprStatements env st es
  | [] => by rw [exprStatements, exprStatements]
  | e :: rest => by
    rw [exprStatements, exprStatements, exprStatement_setPending env st q e,
      exprStatements_setPending env st q rest]

end

theorem foreachCode_setPending (v : Variable) (list : Expr) (b : Block) (env : Env) (st : State)
    (q : Pending) :
    (foreachCode v list b env (st.setPending q)).1 = (foreachCode v list b env st).1 := by
  have hlist : (st.setPending q).operandOf list = st.operandOf list := rfl
  have hvar : (st.setPending q).binding? v = st.binding? v := rfl
  have hdecl : (st.setPending q).isLocalDecl v = st.isLocalDecl v := rfl
  rw [foreachCode, run_get_bind, run_get_bind, hlist, hvar, hdecl, run_lift_bind, run_lift_bind]
  cases sequenceOf (st.operandOf list) with
  | error f => rfl
  | ok r =>
    obtain ⟨code, t⟩ := r
    dsimp only
    cases st.binding? v with
    | none => rfl
    | some loop =>
      dsimp only
      split
      · rfl
      · -- the auxiliary variable is named by the table
        have haux : (st.setPending q).table.auxiliary "" = st.table.auxiliary "" := rfl
        rw [run_bind_ok (run_onTable _ _ _), run_bind_ok (run_onTable _ _ _), run_lift_bind,
          run_lift_bind, haux]
        cases Conversion.convert (.ofElement (st.table.auxiliary "").1 (t.map Ty.elem))
            (some loop.type) with
        | error f => rfl
        | ok value => rfl

theorem defineMethod_setPending (id : Nat) (name : String) (b : Block) (env : Env) (st : State)
    (q : Pending) :
    (defineMethod id name b env (st.setPending q)).1 = (defineMethod id name b env st).1 := by
  have hframes : (st.setPending q).frames = st.frames := rfl
  have hsubs : (st.setPending q).subs = st.subs := rfl
  rw [defineMethod, run_get_bind, run_get_bind, hframes, hsubs]
  rcases st.frames with _ | ⟨f, rest⟩
  · rfl
  · rcases st.subs.get? id with _ | s
    · rfl
    · rfl

/-- The code of a statement is the same with any queue. -/
theorem stmtCode_setPending (s : Stmt) (env : Env) (st : State) (q : Pending) :
    (stmtCode s env (st.setPending q)).1 = (stmtCode s env st).1 := by
  cases s with
  | expr i e =>
    rw [stmtCode, run_read_bind, run_read_bind, run_get_bind, run_get_bind]
    exact exprStatement_setPending env st q e
  | foreach i var implicit list b =>
    rw [stmtCode, run_read_bind, run_read_bind, run_get_bind, run_get_bind]
    exact foreachCode_setPending _ list b env st q
  | sub i name returns b =>
    rw [stmtCode, run_read_bind, run_read_bind, run_get_bind, run_get_bind]
    dsimp only
    rw [run_bind, run_bind]
    -- the method is defined before the code is given, which is empty
    have hmethod := defineMethod_setPending i.id name b env st q
    generalize defineMethod i.id name b env (st.setPending q) = r at hmethod ⊢
    generalize defineMethod i.id name b env st = r' at hmethod ⊢
    obtain ⟨out, st₁⟩ := r
    obtain ⟨out', st₂⟩ := r'
    change out = out' at hmethod
    rw [hmethod]
    cases out' with
    | error f => rfl
    | ok _ => rfl
  | _ => rfl

/-! ## The text of a statement -/

namespace Call

/-- The declarations that the call queues itself. -/
def queued (env : Env) (c : Call) : List Declaration :=
  c.stmt.plan.queued env c.before.begin

/-- The state in which the call generates the code of its statement, if it gets there. -/
def generatedIn? (env : Env) (c : Call) : Option State :=
  c.stmt.plan.generatedIn? env c.before.begin

/-- The text that a call which succeeds generates for its statement. -/
theorem Ready.text {c : Call} (h : c.Ready) {env : Env} (hok : c.succeeds env = true) :
    ∃ gst code, c.generatedIn? env = some gst ∧ (stmtCode c.stmt env gst).1 = .ok code ∧
      (c.after env).outputs.get? c.stmt.id = some (stmtText (c.queued env) code) := by
  have hplan := (h.succeeds_iff env).mp hok
  obtain ⟨gst, code, hgst, hcode, htext⟩ :=
    c.stmt.plan.exec_text env h.plan (Prod.ext hplan rfl)
  rw [Stmt.stmt_plan] at hcode htext
  -- nothing stands behind the mark when the call begins
  have hmark : c.before.begin.pending.decls.drop c.before.pending.size = [] := List.drop_length
  rw [hmark, List.nil_append] at htext
  refine ⟨gst, code, hgst, hcode, ?_⟩
  rw [h.outputs_after]
  exact htext

end Call

section Tree

variable (settings : Settings) (catalog : Option Catalog) (registry : Registry) (u : SourceUnit)

/-- Behind the walk over a numbered tree, the text of a statement whose call succeeded is the
declarations that the call queued itself, each once and in order, followed by the code of the
statement, which is the same whatever stands in the queue. A statement whose call did not succeed
has no text. In both cases the call leaves the queue as it found it, so that no declaration of a
called statement is left to the statement around it. -/
theorem tree_hoists_once (hu : u.Numbered) :
    ∀ c ∈ treeCalls settings catalog registry u,
      (c.succeeds (envOf settings catalog) = true →
        ∃ gst code, c.generatedIn? (envOf settings catalog) = some gst ∧
          (∀ q, (stmtCode c.stmt (envOf settings catalog) (gst.setPending q)).1 = .ok code) ∧
          ((tree settings catalog registry 1 u).state.output c.stmt.id).code =
            Text.join "\n" ((c.queued (envOf settings catalog)).map Declaration.render ++
              Java.nonEmpty [code])) ∧
      (c.succeeds (envOf settings catalog) = false →
        (tree settings catalog registry 1 u).state.outputs.get? c.stmt.id = none) ∧
      (c.after (envOf settings catalog)).pending = c.before.pending := by
  intro c hc
  have hready := ready_of_mem_treeCalls settings catalog registry u hu c hc
  have hsettled := (tree_account settings catalog registry u hu).settled c hc
  -- whether or not the call succeeds, the queue is as long behind it as before
  refine ⟨fun hok => ?_, fun hfailed => ?_, (hready.called _).balanced.pending⟩
  · obtain ⟨gst, code, hgst, hcode, htext⟩ := hready.text hok
    refine ⟨gst, code, hgst, fun q => ?_, ?_⟩
    · rw [stmtCode_setPending]
      exact hcode
    · unfold State.output
      rw [hsettled, htext]
      rfl
  · have hnot := tree_isGenerated_eq settings catalog registry u hu hc
    rw [hfailed] at hnot
    exact Option.not_isSome_iff_eq_none.mp (by simpa [State.isGenerated] using hnot)

end Tree

/-- The condition declares the variable of its test before itself. -/
theorem undeclaredInBody_hoists :
    ∃ c ∈ treeCalls {} none {} undeclaredInBody,
      (c.queued (envOf {} none)).map (·.javaName) = ["n"] ∧
      ∃ code, ((tree {} none {} 1 undeclaredInBody).state.output c.stmt.id).code =
        Text.join "\n" ((c.queued (envOf {} none)).map Declaration.render ++
          Java.nonEmpty [code]) := by
  have hu : undeclaredInBody.Numbered := by decide
  have hcall : ∃ c ∈ treeCalls {} none {} undeclaredInBody,
      c.succeeds (envOf {} none) = true ∧ (c.queued (envOf {} none)).map (·.javaName) = ["n"] := by
    decide +kernel
  obtain ⟨c, hc, hok, hname⟩ := hcall
  obtain ⟨htext, -⟩ := tree_hoists_once {} none {} undeclaredInBody hu c hc
  obtain ⟨gst, code, -, -, heq⟩ := htext hok
  exact ⟨c, hc, hname, code, heq⟩

end Compile

end TypedPerl
