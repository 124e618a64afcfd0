import TypedPerl.Proofs.Walk.Recovery
import TypedPerl.Proofs.Walk.Resolving

/-!
# Names follow the lexical scopes

The walk over a tree writes a log: scopes that it opens and closes, variables that it declares and
names that it looks up, in the order in which this happens and also where statements fail. The
scopes and the meanings of nodes are at every point those that the log leads to, and every lookup is
answered from them (`Logs`). So each use of a name means the latest declaration in a scope that is
still open, and fails exactly if there is none.
-/

namespace TypedPerl

/-! ## What a log may tell -/

/-- The fault of a name that means no variable. -/
def undeclared (pos : Pos) (v : Variable) : Fault :=
  .report ⟨.undeclared, pos, "undeclared variable " ++ v.sigil.toText ++ v.name⟩ none

/-- What an unqualified name means in scopes with these variables. -/
def answerIn (scopes : List (Keyed VarKey Binding)) (v : Variable) : Except Fault Binding :=
  match lookupIn scopes v.name v.sigil with
  | some b => .ok b
  | none => .error (undeclared v.info.pos v)

/-- The event is true of a unit in which these scopes are open: what is declared has the name and
mark that the node gives it, and an unqualified name is answered from the scopes. -/
def Event.Right (scopes : List (Keyed VarKey Binding)) : Event → Prop
  | .opened | .closed => True
  | .declared (some v) b => v.declares = true ∧ b.name = v.name ∧ b.sigil = v.sigil
  | .declared none b => b.name = "_" ∧ b.sigil = .array
  | .used v answer => v.package = "" → answer = answerIn scopes v

/-- Each event is true of the scopes that are open at it. -/
def RightFrom (scopes : List (Keyed VarKey Binding)) : List Event → Prop
  | [] => True
  | ev :: rest => ev.Right scopes ∧ RightFrom (ev.step scopes) rest

theorem rightFrom_append {scopes : List (Keyed VarKey Binding)} {log more : List Event} :
    RightFrom scopes (log ++ more) ↔ RightFrom scopes log ∧ RightFrom (replay log scopes) more := by
  induction log generalizing scopes with
  | nil => simp [RightFrom]
  | cons ev rest ih => rw [List.cons_append, RightFrom, RightFrom, ih, replay_cons, and_assoc]

namespace Compile

/-! ## The log of a run -/

/-- What resolving a variable writes into the log. -/
def variableEvents (env : Env) (v : Variable) (fallback : Option Ty) (st : State) : List Event :=
  if (st.binding? v).isSome then []
  else if v.declares then
    ((resolveVariableWith v fallback env st).2.binding? v).toList.map (.declared (some v))
  else [.used v (lookupVariable v env st).1]

/-- What finishing an expression writes into the log. -/
def exprEvents (env : Env) (e : Expr) (st : State) : List Event :=
  match e with
  | .var v => variableEvents env v none st
  | _ => []

/-- What finishing expressions in order writes into the log, up to the first that fails. -/
def visitEvents (env : Env) : List (Expr × Usage) → State → List Event
  | [], _ => []
  | p :: rest, st =>
    exprEvents env p.1 st ++ match finishExpr p.1 p.2 env st with
      | (.ok _, st') => visitEvents env rest st'
      | (.error _, _) => []

/-- What a step of a statement writes into the log. -/
def Own.log (env : Env) (o : Own) (st : State) : List Event :=
  match o with
  | .loopVar i var implicit list =>
    let st := (loopVariable i var implicit env st).2
    variableEvents env (var.getD (Stmt.implicitVar i implicit)) (loopType st list) st
  | o => visitEvents env (o.visits st) st

/-- The log of a run of an outline. The arguments of a subroutine count as declared. -/
def Outline.log (env : Env) : Outline → State → List Event
  | finish _, _ => []
  | own o rest, st =>
    o.log env st ++ match o.step.run env st with
      | (.ok _, st') => rest.log env st'
      | (.error _, _) => []
  | call inner rest, st =>
    inner.log env st.begin ++
      rest.log env (recovering inner.toPlan.stmt.pos inner.toPlan.exec env st).2
  | inBlock rest, st =>
    .opened :: (rest.log env (st.setTable (st.table.enter .block)) ++ [.closed])
  | inSub info name returns rest, st =>
    match enterSub info name returns env st with
    | (.ok _, st') =>
      .opened :: ((st'.table.lookup? "_" .array).toList.map (.declared none) ++
        rest.log env st' ++ [.closed])
    | (.error _, _) => []

/-- The log of a walk over statements. -/
def stmtLog (env : Env) : List Stmt → State → List Event
  | [], _ => []
  | s :: rest, st =>
    (if s.isPresent then s.outline.log env st.begin else []) ++
      stmtLog env rest (statement s env st).2

/-! ## Logs are well nested -/

theorem declared_wellNested (node : Option Variable) (b : Option Binding) :
    WellNested (b.toList.map (.declared node)) := by
  cases b with
  | none => exact .nil
  | some b => exact .declared node b

theorem variableEvents_wellNested (env : Env) (v : Variable) (fallback : Option Ty) (st : State) :
    WellNested (variableEvents env v fallback st) := by
  unfold variableEvents
  split
  · exact .nil
  · split
    · exact declared_wellNested _ _
    · exact .used v _

theorem visitEvents_wellNested (env : Env) (ps : List (Expr × Usage)) (st : State) :
    WellNested (visitEvents env ps st) := by
  induction ps generalizing st with
  | nil => exact .nil
  | cons p rest ih =>
    have hfirst : WellNested (exprEvents env p.1 st) := by
      unfold exprEvents
      split
      · exact variableEvents_wellNested env _ none st
      · exact .nil
    rw [visitEvents]
    split
    · exact hfirst.append (ih _)
    · exact hfirst.append .nil

theorem Own.log_wellNested (env : Env) (o : Own) (st : State) : WellNested (o.log env st) := by
  cases o with
  | loopVar i var implicit list => exact variableEvents_wellNested _ _ _ _
  | _ => exact visitEvents_wellNested _ _ _

theorem Outline.log_wellNested (env : Env) (p : Outline) (st : State) :
    WellNested (p.log env st) := by
  induction p generalizing st with
  | finish s => exact .nil
  | own o rest ih =>
    rw [log]
    split
    · exact (o.log_wellNested env st).append (ih _)
    · exact (o.log_wellNested env st).append .nil
  | call inner rest ihInner ihRest => exact (ihInner _).append (ihRest _)
  -- a block and a subroutine are the two that open a scope, and both close it behind the rest
  | inBlock rest ih => exact .scope (ih _)
  | inSub info name returns rest ih =>
    rw [log]
    split
    · exact .scope ((declared_wellNested _ _).append (ih _))
    · exact .nil

theorem stmtLog_wellNested (env : Env) (ss : List Stmt) (st : State) :
    WellNested (stmtLog env ss st) := by
  induction ss generalizing st with
  | nil => exact .nil
  | cons s rest ih =>
    refine .append ?_ (ih _)
    split
    · exact s.outline.log_wellNested env _
    · exact .nil

/-! ## States behind a log -/

/-- The second state is the first with what the log tells: the variables of the open scopes, and the
meanings of nodes. What the log tells is true. -/
structure State.Logs (log : List Event) (st st' : State) : Prop where
  scopes : st'.table.scopeVars = replay log st.table.scopeVars
  bindings : ∀ n b, st'.bindings.get? n = some b ↔
    st.bindings.get? n = some b ∨ ∃ ev ∈ log, ev.bound? = some (n, b)
  right : RightFrom st.table.scopeVars log

namespace State.Logs

variable {log more : List Event} {st st₁ st₂ : State}

theorem of_same (hscopes : st₁.table.scopes = st.table.scopes)
    (hbindings : st₁.bindings = st.bindings) : Logs [] st st₁ where
  scopes := by
    rw [Table.scopeVars, hscopes]
    rfl
  bindings n b := by simp [hbindings]
  right := trivial

theorem append (h : Logs log st st₁) (h' : Logs more st₁ st₂) : Logs (log ++ more) st st₂ where
  scopes := by rw [h'.scopes, h.scopes, replay_append]
  bindings n b := by
    rw [h'.bindings, h.bindings, or_assoc]
    simp only [List.mem_append, or_and_right, exists_or]
  right := rightFrom_append.mpr ⟨h.right, h.scopes ▸ h'.right⟩

/-- What leaves names alone may come behind. -/
theorem named (h : Logs log st st₁) (hscopes : st₂.table.scopes = st₁.table.scopes)
    (hbindings : st₂.bindings = st₁.bindings) : Logs log st st₂ :=
  List.append_nil log ▸ h.append (of_same hscopes hbindings)

theorem quiet (h : State.Quiet st st₁) : Logs [] st st₁ := by
  refine of_same ?_ h.bindings
  rw [Table.scopes, Table.scopes, h.inner, h.fileScope]

/-- An event that binds no node. -/
theorem unbound {ev : Event} (hscopes : st₁.table.scopeVars = ev.step st.table.scopeVars)
    (hbindings : st₁.bindings = st.bindings) (hev : ev.bound? = none)
    (hright : ev.Right st.table.scopeVars) : Logs [ev] st st₁ where
  scopes := hscopes
  bindings n b := by simp [hev, hbindings]
  right := ⟨hright, trivial⟩

/-- A node that meant nothing is bound to what the event tells. -/
theorem bound {ev : Event} {n : Nat} {b : Binding} (hev : ev.bound? = some (n, b))
    (hscopes : st₁.table.scopeVars = ev.step st.table.scopeVars)
    (hbindings : st₁.bindings = st.bindings) (hn : st.bindings.get? n = none)
    (hright : ev.Right st.table.scopeVars) : Logs [ev] st (st₁.bind n b) where
  scopes := hscopes
  bindings m c := by
    rw [State.bind, hbindings]
    by_cases heq : n = m
    · subst heq
      rw [Keyed.get?_put_self, hn]
      simp [hev, eq_comm]
    · rw [Keyed.get?_put_of_ne _ _ heq]
      simp [hev, heq]
  right := ⟨hright, trivial⟩

end State.Logs

/-! ## Steps of statements -/

theorem right_used {v : Variable} {env : Env} {st : State} {answer : Except Fault Binding}
    {st₁ : State} (h : lookupVariable v env st = (answer, st₁)) :
    Event.Right st.table.scopeVars (.used v answer) := by
  intro hpackage
  -- without a package the answer is read from the open scopes alone
  rw [lookupVariable_unqualified hpackage, Table.lookup_eq] at h
  unfold answerIn
  cases hlookup : lookupIn st.table.scopeVars v.name v.sigil with
  | some b =>
    rw [hlookup] at h
    cases h
    rfl
  | none =>
    rw [hlookup] at h
    cases h
    rfl

/-- Resolving a variable does what it writes into the log. -/
theorem resolveVariableWith_logs (v : Variable) (fallback : Option Ty) (env : Env) (st : State) :
    State.Logs (variableEvents env v fallback st) st (resolveVariableWith v fallback env st).2 := by
  have hstep := resolveVariableWith_step v fallback env st
  unfold variableEvents
  generalize resolveVariableWith v fallback env st = r at hstep ⊢
  have hquiet := lookupVariable_silent v env st
  -- one case for each way a variable is resolved, with the event it leaves
  cases hstep with
  | known h =>
    rw [h]
    exact .of_same rfl rfl
  | @declared st₁ h hv hq t =>
    have hscopes : st₁.table.scopes = st.table.scopes := by
      rw [Table.scopes, Table.scopes, hq.inner, hq.fileScope]
    have hvars : st₁.table.scopeVars = st.table.scopeVars := by
      rw [Table.scopeVars, hscopes]
      rfl
    have hbound (st : State) (b : Binding) : (st.bind v.info.id b).binding? v = some b :=
      Keyed.get?_put_self _ _ _
    rw [h, hv, hbound]
    obtain ⟨hname, hsigil, -⟩ := st₁.table.declare_spec v.name v.sigil t (v.decl = .our)
    refine .bound rfl ?_ hq.bindings h ⟨hv, hname, hsigil⟩
    rw [← hvars]
    exact st₁.table.scopeVars_declare _ _ _ _ _
  | @refused st₁ f h hv hq =>
    have hnone : st₁.binding? v = none := by
      rw [State.binding?, hq.bindings]
      exact h
    rw [h, hv, hnone]
    exact .quiet hq
  | @found st₁ b h hv hrun =>
    rw [hrun] at hquiet
    rw [h, hv, hrun]
    refine .bound rfl ?_ hquiet.bindings h (right_used hrun)
    rw [Table.scopeVars, Table.scopes, hquiet.inner, hquiet.fileScope]
    rfl
  | @missing st₁ f h hv hrun =>
    rw [hrun] at hquiet
    rw [h, hv, hrun]
    refine .unbound ?_ hquiet.bindings rfl (right_used hrun)
    rw [Table.scopeVars, Table.scopes, hquiet.inner, hquiet.fileScope]
    rfl

theorem finishExpr_logs (e : Expr) (u : Usage) (env : Env) (st : State) :
    State.Logs (exprEvents env e st) st (finishExpr e u env st).2 := by
  obtain ⟨hscopes, hbindings⟩ := finishExpr_named e u env st
  refine State.Logs.named ?_ hscopes hbindings
  cases e with
  | var v => exact resolveVariableWith_logs v none env st
  | call i package name args => exact .quiet (resolveCall_silent i package name env st)
  | _ => exact .of_same rfl rfl

theorem finishAll_logs (ps : List (Expr × Usage)) (env : Env) (st : State) :
    State.Logs (visitEvents env ps st) st (finishAll ps env st).2 := by
  induction ps generalizing st with
  | nil => exact .of_same rfl rfl
  | cons p rest ih =>
    have hfirst := finishExpr_logs p.1 p.2 env st
    rw [visitEvents, finishAll, run_bind]
    generalize finishExpr p.1 p.2 env st = r at hfirst ⊢
    rcases r with ⟨f | _, st₁⟩
    · rw [List.append_nil]
      exact hfirst
    · exact hfirst.append (ih st₁)

/-- A step of a statement does what it writes into the log. -/
theorem Own.run_logs (o : Own) (env : Env) (st : State) :
    State.Logs (o.log env st) st (o.step.run env st).2 := by
  cases o with
  | expr | exprs | value =>
    rw [Own.run_visits rfl]
    exact finishAll_logs _ env st
  | loopVar i var implicit list =>
    -- making the variable of the loop is silent; resolving it leaves the event
    obtain ⟨st₁, hrun, hquiet⟩ := run_loopVariable i var implicit env st
    have hstep : (OwnStep.loopVar i var implicit list).run env st =
        walkLoopVariable (var.getD (Stmt.implicitVar i implicit)) list env st₁ :=
      run_bind_ok hrun
    obtain ⟨hscopes, hbindings⟩ :=
      walkLoopVariable_named (var.getD (Stmt.implicitVar i implicit)) list env st₁
    rw [Own.step, hstep, Own.log, hrun]
    exact (State.Logs.quiet hquiet).append
      ((resolveVariableWith_logs _ _ env st₁).named hscopes hbindings)
  | branch | package | use | pragma => exact .quiet (Own.silent rfl env st)

/-! ## Runs -/

theorem State.drain_named (st : State) :
    st.drain.2.table = st.table ∧ st.drain.2.bindings = st.bindings := by
  unfold State.drain
  split
  · exact ⟨rfl, rfl⟩
  · exact ⟨rfl, rfl⟩

/-- Finishing a statement does nothing to names. -/
theorem finishStmt_nameless (s : Stmt) : Nameless (finishStmt s) := by
  intro env st
  obtain ⟨hscopes, hbindings⟩ := (stmtCode_drawing s).nameless env st
  rw [run_finishStmt]
  rcases hrun : stmtCode s env st with ⟨f | code, st'⟩
  · rw [hrun] at hscopes hbindings
    exact ⟨hscopes, hbindings⟩
  · rw [hrun] at hscopes hbindings
    obtain ⟨htable, hsame⟩ := st'.drain_named
    dsimp only
    split
    · exact ⟨htable ▸ hscopes, hsame.trans hbindings⟩
    · exact ⟨htable ▸ hscopes, hsame.trans hbindings⟩

/-- A call that fails has nothing to put back in the scopes, since its plan has closed its own. -/
theorem Plan.Ready.recovering_named {p : Plan} {st : State}
    (h : p.Ready st.pending.size st.marks st.begin) (pos : Pos) (env : Env) :
    (recovering pos p.exec env st).2.table = (p.exec env st.begin).2.table ∧
      (recovering pos p.exec env st).2.bindings = (p.exec env st.begin).2.bindings := by
  rcases hrun : p.exec env st.begin with ⟨f | _, st'⟩
  · rw [Plan.recovering_failed (p.exec_outcome env h) hrun]
    exact ⟨rfl, rfl⟩
  · rw [Plan.recovering_done hrun]
    exact ⟨rfl, rfl⟩

namespace Call

variable {c : Call}

/-- A call runs the outline of its statement. -/
theorem Ready.outline (h : c.Ready) :
    c.stmt.outline.toPlan.Ready c.before.pending.size c.before.marks c.before.begin := by
  rw [Stmt.toPlan_outline]
  exact h.plan

theorem nested_stmt (c : Call) : c.stmt.outline.toPlan.Nested := by
  rw [Stmt.toPlan_outline]
  exact nested_plan c.stmt

/-- A call leaves the names as the run of the outline does. -/
theorem Ready.names_after (h : c.Ready) (env : Env) :
    (c.after env).table = (c.stmt.outline.toPlan.exec env c.before.begin).2.table ∧
      (c.after env).bindings = (c.stmt.outline.toPlan.exec env c.before.begin).2.bindings := by
  rw [Call.after, Call.run_eq h.present, Stmt.toPlan_outline]
  exact h.plan.recovering_named c.stmt.pos env

end Call

theorem declareSub_scopes (i : Info) (name : String) (returns : Option Ty) (env : Env)
    (st : State) : (declareSub i name returns env st).2.table.scopes = st.table.scopes := by
  have htable (returns : Ty) : (st.table.declareSub name returns).2.scopes = st.table.scopes := by
    unfold Table.declareSub
    dsimp only
    split
    · rfl
    · rfl
  rw [declareSub, run_get_bind]
  cases st.subs.get? i.id with
  | some s => rfl
  | none => exact htable _

/-- Opening the body of a subroutine opens a scope and declares the arguments in it. -/
theorem enterSub_logs (i : Info) (name : String) (returns : Option Ty) (env : Env) (st : State) :
    ∃ st₁ b, enterSub i name returns env st = (.ok (), st₁) ∧
      st₁.table.lookup? "_" .array = some b ∧ State.Logs [.opened, .declared none b] st st₁ := by
  have hscopes := declareSub_scopes i name returns env st
  obtain ⟨s, t, subs, hdeclare, -⟩ := Plan.declareSub_ok i name returns env st
  rw [hdeclare] at hscopes
  -- the name of the subroutine is no variable, so the scopes are those from before with one more
  have hentered : (t.enter .function).scopeVars = Event.opened.step st.table.scopeVars := by
    rw [t.scopeVars_enter, Table.scopeVars, Table.scopeVars]
    exact congrArg (fun scopes => Event.opened.step (scopes.map (·.vars))) hscopes
  have henter : enterSub i name returns env st = (.ok (),
      State.openSub (st.setNames ((t.enter .function).declare "_" .array argsType false).2 subs) s
        ((t.enter .function).declare "_" .array argsType false).1.javaName) :=
    Plan.enterSub_run hdeclare
  have hfound := (t.enter .function).lookup_declare "_" .array argsType false
  have hspec := (t.enter .function).declare_spec "_" .array argsType false
  have hvars := (t.enter .function).scopeVars_declare none "_" .array argsType false
  rw [hentered] at hvars
  -- of the declaration only these four facts are needed
  generalize (t.enter .function).declare "_" .array argsType false = d at henter hspec hvars hfound
  obtain ⟨b, t'⟩ := d
  obtain ⟨hname, hsigil, -⟩ := hspec
  refine ⟨_, b, henter, hfound, hvars, fun n c => ?_, trivial, ⟨hname, hsigil⟩, trivial⟩
  simp [Event.bound?, State.openSub, State.setNames, State.setTable]

/-- A scope that is open is closed. -/
theorem closed_logs {st st₁ : State} (h : 0 < st.table.depth)
    (htable : st₁.table = st.table.exit) (hbindings : st₁.bindings = st.bindings) :
    State.Logs [.closed] st st₁ :=
  .unbound (htable ▸ Table.scopeVars_exit h) hbindings rfl trivial

/-- The scope around a run is open behind it. -/
theorem Plan.Ready.exec_depth {p : Plan} {mark : Nat} {outer : List Nat} {st st₁ : State}
    (h : p.Ready mark outer st₁) (ho : Plan.Opened st st₁) (env : Env) :
    0 < (p.exec env st₁).2.table.depth := by
  rw [(p.exec_outcome env h).within.depth, ho.depth]
  exact Nat.succ_pos _

/-- A run does what it writes into its log, whatever fails in it. -/
theorem Outline.exec_logs (p : Outline) (env : Env) :
    ∀ {mark : Nat} {outer : List Nat} {st : State}, p.toPlan.Ready mark outer st →
      State.Logs (p.log env st) st (p.toPlan.exec env st).2 := by
  induction p with
  | finish s =>
    intro mark outer st _
    obtain ⟨hscopes, hbindings⟩ := finishStmt_nameless s env st
    exact .of_same hscopes hbindings
  | own o rest ih =>
    intro mark outer st h
    have hown := o.run_logs env st
    have hrest := h.behindStep env
    rw [log, toPlan, Plan.exec, run_bind]
    generalize o.step.run env st = r at hown hrest ⊢
    -- a step that failed ends the log
    rcases r with ⟨f | _, st₁⟩
    · rw [List.append_nil]
      exact hown
    · exact hown.append (ih hrest)
  | call inner rest ihInner ihRest =>
    intro mark outer st h
    obtain ⟨htable, hbindings⟩ := h.called.recovering_named inner.toPlan.stmt.pos env
    have hbegin : State.Logs [] st st.begin := .of_same rfl rfl
    -- recovering from an error leaves scopes and bindings alone
    have hcalled :=
      (hbegin.append (ihInner h.called)).named (congrArg Table.scopes htable) hbindings
    rw [toPlan, Plan.exec_call]
    exact hcalled.append (ihRest (h.behind (h.calls env)))
  | inBlock rest ih =>
    intro mark outer st h
    have ho := Plan.opened_enter st .block
    have hrest : rest.toPlan.Ready mark outer _ := h.opened ho rfl
    -- the scope opened here is closed behind the rest
    have hopened : State.Logs [.opened] st (st.setTable (st.table.enter .block)) :=
      .unbound (st.table.scopeVars_enter .block) rfl rfl trivial
    rw [toPlan, Plan.exec_inBlock]
    exact hopened.append ((ih hrest).append (closed_logs (hrest.exec_depth ho env) rfl rfl))
  | inSub i name returns rest ih =>
    intro mark outer st h
    obtain ⟨st₁, henter, ho, -⟩ := Plan.enterSub_opened i name returns env st
    obtain ⟨st₂, b, henter', hargs, hlogs⟩ := enterSub_logs i name returns env st
    cases (henter.symm.trans henter')
    have hrest : rest.toPlan.Ready mark outer st₁ := h.opened ho rfl
    rw [log, henter, toPlan, Plan.exec_inSub henter]
    dsimp only
    rw [hargs]
    exact hlogs.append ((ih hrest).append (closed_logs (hrest.exec_depth ho env) rfl rfl))

/-- A call does what its statement writes into the log. -/
theorem Call.Ready.logs {c : Call} (h : c.Ready) (env : Env) :
    State.Logs (c.stmt.outline.log env c.before.begin) c.before (c.after env) := by
  obtain ⟨htable, hbindings⟩ := h.names_after env
  have hbegin : State.Logs [] c.before c.before.begin := .of_same rfl rfl
  exact (hbegin.append (c.stmt.outline.exec_logs env h.outline)).named
    (congrArg Table.scopes htable) hbindings

/-- A walk over statements does what it writes into its log. -/
theorem statements_logs (ss : List Stmt) (env : Env) : ∀ {st : State}, Fresh ss st →
    State.Logs (stmtLog env ss st) st (statements ss env st).2 := by
  induction ss with
  | nil =>
    intro st _
    rw [statements]
    exact .of_same rfl rfl
  | cons s rest ih =>
    intro st h
    have hrest := ih (h.tail (h.statement env).2)
    rw [run_statements_cons, stmtLog]
    refine State.Logs.append ?_ hrest
    -- an absent statement leaves no events
    by_cases hs : s.isPresent = true
    · rw [if_pos hs]
      exact (h.ready hs).logs env
    · rw [if_neg hs, statement_absent hs]
      exact .of_same rfl rfl

/-! ## Names that mean nothing -/

theorem diagnose_undeclared (pos q : Pos) (v : Variable) :
    ∃ r, (undeclared q v).diagnose pos = undeclared r v := by
  by_cases hq : q = .unknown
  · exact ⟨pos, by simp [Fault.diagnose, Fault.locate, Fault.report?, undeclared, hq]⟩
  · exact ⟨q, by simp [Fault.diagnose, Fault.locate, Fault.report?, undeclared, hq]⟩

/-- The fault of the name is raised. -/
def Misses {α : Type} (v : Variable) (r : Except Fault α) : Prop :=
  ∃ pos, r = .error (undeclared pos v)

theorem Misses.located {α : Type} {v : Variable} {x : Compile α} {env : Env} {st : State}
    (h : Misses v (x env st).1) (pos : Pos) : Misses v (located pos x env st).1 := by
  obtain ⟨q, hq⟩ := h
  obtain ⟨r, hr⟩ := diagnose_undeclared pos q v
  refine ⟨r, ?_⟩
  rw [run_located, hq]
  exact congrArg Except.error hr

theorem Misses.bind {α β : Type} {v : Variable} {x : Compile α} {env : Env} {st : State}
    (h : Misses v (x env st).1) (k : α → Compile β) : Misses v ((x >>= k) env st).1 := by
  obtain ⟨q, hq⟩ := h
  refine ⟨q, ?_⟩
  rw [run_bind]
  generalize x env st = r at hq
  obtain ⟨r, st₁⟩ := r
  dsimp only at hq
  rw [hq]

section

variable {v : Variable} {q : Pos} {env : Env} {st : State}

theorem resolveVariableWith_misses {w : Variable} {fallback : Option Ty}
    (h : .used v (.error (undeclared q v)) ∈ variableEvents env w fallback st) :
    Misses v (resolveVariableWith w fallback env st).1 := by
  have hstep := resolveVariableWith_step w fallback env st
  unfold variableEvents at h
  split at h
  · cases h
  · next hnew =>
    split at h
    · -- a declaration is no use
      simp at h
    · next huse =>
      obtain ⟨rfl, hanswer⟩ := Event.used.inj (List.mem_singleton.mp h)
      generalize resolveVariableWith v fallback env st = r at hstep ⊢
      cases hstep with
      | known hknown => exact absurd (by rw [hknown]; rfl) hnew
      | declared _ hv => exact absurd hv huse
      | refused _ hv => exact absurd hv huse
      | found _ _ hrun =>
        rw [hrun] at hanswer
        cases hanswer
      | missing _ _ hrun =>
        rw [hrun] at hanswer
        cases hanswer
        exact ⟨q, rfl⟩

theorem finishExpr_misses {e : Expr} {u : Usage}
    (h : .used v (.error (undeclared q v)) ∈ exprEvents env e st) :
    Misses v (finishExpr e u env st).1 := by
  cases e with
  | var w =>
    have hresolve : Misses v (resolveExpr (.var w) env st).1 := resolveVariableWith_misses h
    exact (hresolve.located _).bind _
  | _ => cases h

theorem finishAll_misses {ps : List (Expr × Usage)}
    (h : .used v (.error (undeclared q v)) ∈ visitEvents env ps st) :
    Misses v (finishAll ps env st).1 := by
  induction ps generalizing st with
  | nil => cases h
  | cons p rest ih =>
    rw [visitEvents] at h
    rcases List.mem_append.mp h with hfirst | hrest
    · exact (finishExpr_misses hfirst).bind _
    · rw [finishAll, run_bind]
      generalize finishExpr p.1 p.2 env st = r at hrest ⊢
      rcases r with ⟨f | _, st₁⟩
      · cases hrest
      · exact ih hrest

theorem Own.run_misses {o : Own} (h : .used v (.error (undeclared q v)) ∈ o.log env st) :
    Misses v (o.step.run env st).1 := by
  cases o with
  | expr | exprs | value =>
    rw [Own.run_visits rfl]
    exact finishAll_misses h
  | loopVar i var implicit list =>
    -- the loop is walked from the state in which its variable has been made
    obtain ⟨st₁, hrun, -⟩ := run_loopVariable i var implicit env st
    have hstep : (OwnStep.loopVar i var implicit list).run env st =
        walkLoopVariable (var.getD (Stmt.implicitVar i implicit)) list env st₁ :=
      run_bind_ok hrun
    rw [Own.log, hrun] at h
    rw [Own.step, hstep]
    exact (resolveVariableWith_misses h).bind _
  | branch | package | use | pragma => cases h

end

/-- A call records the fault of a name that its plan raises, and keeps those that are recorded. -/
theorem Plan.Ready.recovering_misses {p : Plan} {v : Variable} {st : State}
    (h : p.Ready st.pending.size st.marks st.begin) (pos : Pos) (env : Env)
    (hmisses : Misses v (p.exec env st.begin).1 ∨
      ∃ q, undeclared q v ∈ (p.exec env st.begin).2.errors) :
    ∃ q, undeclared q v ∈ (recovering pos p.exec env st).2.errors := by
  -- a failed call records its own fault; either way what inner calls recorded stays
  rcases hrun : p.exec env st.begin with ⟨f | _, st'⟩
  · rw [hrun] at hmisses
    rw [Plan.recovering_failed (p.exec_outcome env h) hrun]
    rcases hmisses with ⟨q, hq⟩ | ⟨q, hq⟩
    · cases hq
      obtain ⟨r, hr⟩ := diagnose_undeclared pos q v
      exact ⟨r, List.mem_append_right _ (hr ▸ List.mem_singleton_self _)⟩
    · exact ⟨q, List.mem_append_left _ hq⟩
  · rw [hrun] at hmisses
    rw [Plan.recovering_done hrun]
    rcases hmisses with ⟨q, hq⟩ | hrecorded
    · cases hq
    · exact hrecorded

/-- A name that means nothing fails its statement, and the fault is recorded. -/
theorem Outline.exec_misses (p : Outline) {v : Variable} {q : Pos} (env : Env) :
    ∀ {mark : Nat} {outer : List Nat} {st : State}, p.toPlan.Ready mark outer st →
      p.toPlan.Nested → .used v (.error (undeclared q v)) ∈ p.log env st →
      Misses v (p.toPlan.exec env st).1 ∨
        ∃ pos, undeclared pos v ∈ (p.toPlan.exec env st).2.errors := by
  induction p with
  | finish s =>
    intro mark outer st _ _ h
    cases h
  | own o rest ih =>
    intro mark outer st hready hnested h
    rw [log] at h
    rcases List.mem_append.mp h with hown | hrest
    · exact .inl ((Own.run_misses hown).bind _)
    · have hbehind := hready.behindStep env
      rw [toPlan, Plan.exec, run_bind]
      generalize o.step.run env st = r at hrest hbehind ⊢
      rcases r with ⟨f | _, st₁⟩
      · cases hrest
      · exact ih hbehind hnested hrest
  | call inner rest ihInner ihRest =>
    intro mark outer st hready hnested h
    obtain ⟨-, -, hinner, hrest⟩ := hnested
    have hbehind := hready.behind (hready.calls env)
    rw [toPlan, Plan.exec_call]
    rcases List.mem_append.mp h with h | h
    · -- what the call has recorded stays
      obtain ⟨pos, hpos⟩ := hready.called.recovering_misses inner.toPlan.stmt.pos env
        (ihInner hready.called hinner h)
      refine .inr ⟨pos, ?_⟩
      rw [(rest.toPlan.account env hbehind hrest).errors]
      exact List.mem_append_left _ hpos
    · exact ihRest hbehind hrest h
  | inBlock rest ih =>
    intro mark outer st hready hnested h
    have hrest : rest.toPlan.Ready mark outer _ := hready.inBlock
    rw [toPlan, Plan.exec_inBlock]
    refine ih hrest hnested ?_
    simpa [log] using h
  | inSub i name returns rest ih =>
    intro mark outer st hready hnested h
    obtain ⟨st₁, henter, ho, -⟩ := Plan.enterSub_opened i name returns env st
    have hrest : rest.toPlan.Ready mark outer st₁ := hready.opened ho rfl
    rw [toPlan, Plan.exec_inSub henter]
    refine ih hrest hnested ?_
    rw [log, henter] at h
    simpa using h

/-- A call that finds a variable undeclared records so. -/
theorem Call.Ready.misses {c : Call} (h : c.Ready) {v : Variable} {q : Pos} {env : Env}
    (hused : .used v (.error (undeclared q v)) ∈ c.stmt.outline.log env c.before.begin) :
    ∃ pos, undeclared pos v ∈ (c.after env).errors := by
  have hplan := c.stmt.outline.exec_misses env h.outline c.nested_stmt hused
  rw [Stmt.toPlan_outline] at hplan
  rw [Call.after, Call.run_eq h.present]
  exact h.plan.recovering_misses c.stmt.pos env hplan

theorem statements_misses (ss : List Stmt) {v : Variable} {q : Pos} (env : Env) :
    ∀ {st : State}, Fresh ss st → .used v (.error (undeclared q v)) ∈ stmtLog env ss st →
      ∃ pos, undeclared pos v ∈ (statements ss env st).2.errors := by
  induction ss with
  | nil =>
    intro st _ h
    cases h
  | cons s rest ih =>
    intro st hfresh h
    have htail := hfresh.tail (hfresh.statement env).2
    rw [run_statements_cons]
    rw [stmtLog] at h
    rcases List.mem_append.mp h with h | h
    · split at h
      · next hs =>
        obtain ⟨pos, hpos⟩ := (hfresh.ready hs).misses h
        refine ⟨pos, ?_⟩
        -- the statements behind only add to the errors
        rw [(statements_account rest env htail).errors]
        exact List.mem_append_left _ hpos
      · cases h
    · exact ih htail h

/-! ## Trees -/

theorem prepare_scopes (ss : List Stmt) (env : Env) (st : State) :
    (prepare ss env st).2.table.scopes = st.table.scopes := by
  -- the subroutines declared ahead are entries of packages
  have hsubs (ss : List Stmt) : ∀ st : State,
      (declareSubs ss env st).2.table.scopes = st.table.scopes := by
    induction ss with
    | nil => exact fun st => rfl
    | cons s rest ih =>
      intro st
      cases s with
      | sub i name returns b =>
        have hscopes := declareSub_scopes i name returns env st
        obtain ⟨s, t, subs, hdeclare, -⟩ := Plan.declareSub_ok i name returns env st
        rw [hdeclare] at hscopes
        rw [declareSubs, run_bind_ok hdeclare, ih]
        exact hscopes
      | _ => exact ih st
  have hopen (name : String) : (st.table.openPackage name).2.scopes = st.table.scopes := by
    unfold Table.openPackage
    split
    · rfl
    · rfl
  unfold prepare
  cases leadingPackage? ss with
  | none => exact hsubs ss st
  | some name => exact (hsubs ss _).trans (hopen name)

section Tree

variable (settings : Settings) (catalog : Option Catalog) (registry : Registry) (u : SourceUnit)

/-- The log of the walk over a tree. -/
def treeLog : List Event :=
  stmtLog (envOf settings catalog) u.stmts (startState settings catalog registry u)

/-- The walk starts in one empty scope, and no node means anything. -/
theorem startState_names :
    (startState settings catalog registry u).table.scopeVars = [[]] ∧
      (startState settings catalog registry u).bindings = [] := by
  have hscopes := prepare_scopes u.stmts (envOf settings catalog)
    { table := { registry := registry }, pending := {} }
  obtain ⟨t, subs, hrun, -⟩ := prepare_ok u.stmts (envOf settings catalog)
    { table := { registry := registry }, pending := {} }
  unfold startState
  rw [hrun] at hscopes ⊢
  refine ⟨?_, rfl⟩
  show (t.scopes.map _) = _
  rw [show t.scopes = _ from hscopes]
  rfl

theorem tree_logs (hu : u.Numbered) :
    State.Logs (treeLog settings catalog registry u) (startState settings catalog registry u)
      (tree settings catalog registry 1 u).state := by
  rw [tree_state]
  exact statements_logs u.stmts _ (fresh_startState settings catalog registry u hu)

/-- The state whose scopes a statement with a scope of its own leaves: the one it found, or for a
loop over a list the one behind the list. -/
def outside? (env : Env) (s : Stmt) (st : State) : Option State :=
  match s with
  | .block _ | .steps _ _ _ _ _ | .sub _ _ _ _ => some st
  | .foreach _ _ _ list _ => some (walkExpr list .list env st.begin).2
  | _ => none

/-- Behind a statement with a scope of its own nothing that was declared in the scope is there. -/
theorem Call.Ready.scopes_after {c : Call} (h : c.Ready) (env : Env) {st : State}
    (hout : outside? env c.stmt c.before = some st) :
    (c.after env).table.scopeVars = st.table.scopeVars := by
  have hscopes := (h.logs env).scopes
  obtain ⟨s, before⟩ := c
  cases s with
  | block b =>
    cases hout
    cases b with
    | absent => exact nomatch h.present
    | mk i ss => exact hscopes.trans ((Outline.log_wellNested _ _ _).replay_scope _)
  | steps i init test post b =>
    cases hout
    exact hscopes.trans ((Outline.log_wellNested _ _ _).replay_scope _)
  | sub i name returns b =>
    cases hout
    obtain ⟨st₁, henter, -⟩ := Plan.enterSub_opened i name returns env before.begin
    rw [Stmt.outline, Outline.log, henter] at hscopes
    have hinner := (declared_wellNested none (st₁.table.lookup? "_" .array)).append
      (Outline.log_wellNested env (b.outlineBody (.finish (.sub i name returns b))) st₁)
    exact hscopes.trans (hinner.replay_scope _)
  | foreach i var implicit list b =>
    cases hout
    -- the list is walked outside of the scope of the loop
    have hlist := (Own.expr list .list).run_logs env before.begin
    rw [Stmt.outline, Outline.log, replay_append] at hscopes
    refine hscopes.trans (Eq.trans ?_ hlist.scopes.symm)
    split
    · exact (Outline.log_wellNested _ _ _).replay_scope _
    · rfl
  | _ => cases hout

/-- Names follow the lexical scopes in the walk over a numbered tree, as every decoded tree is,
wherever statements fail. What nodes mean is what the log of the walk tells. An unqualified name
means the latest declaration of its name and mark in a scope that is still open, and if there is
none, its use is refused and the fault is recorded. What is declared has the name and mark of its
node, or is the row of arguments of a subroutine. Behind a block, a loop or a subroutine the scopes
are those from before it. -/
theorem tree_names_lexical (hu : u.Numbered) :
    (∀ n b, (tree settings catalog registry 1 u).state.bindings.get? n = some b ↔
      ∃ ev ∈ treeLog settings catalog registry u, ev.bound? = some (n, b)) ∧
    (∀ before v answer after,
      treeLog settings catalog registry u = before ++ .used v answer :: after → v.package = "" →
      (∀ b, answer = .ok b ↔ Visible before v.name v.sigil b) ∧
      (answer = .error (undeclared v.info.pos v) ↔ ∀ b, ¬Visible before v.name v.sigil b) ∧
      ((∀ b, ¬Visible before v.name v.sigil b) →
        ∃ pos, undeclared pos v ∈ (tree settings catalog registry 1 u).errors)) ∧
    (∀ node b, .declared node b ∈ treeLog settings catalog registry u →
      match node with
      | some v => v.declares = true ∧ b.name = v.name ∧ b.sigil = v.sigil
      | none => b.name = "_" ∧ b.sigil = .array) ∧
    (∀ c ∈ treeCalls settings catalog registry u, ∀ st,
      outside? (envOf settings catalog) c.stmt c.before = some st → ∀ name sigil,
      (c.after (envOf settings catalog)).table.lookup? name sigil =
        st.table.lookup? name sigil) := by
  have hlogs := tree_logs settings catalog registry u hu
  obtain ⟨hscopes, hbindings⟩ := startState_names settings catalog registry u
  have hright := hlogs.right
  rw [hscopes] at hright
  refine ⟨fun n b => ?_, fun before v answer after hlog hpackage => ?_, fun node b hmem => ?_,
    fun c hc st hout name sigil => ?_⟩
  · rw [hlogs.bindings, hbindings]
    simp [Keyed.get?]
  -- the whole log is well nested, so the outermost scope is open before every event
  · have hopen : StillOpen before := by
      have hall : StillOpen (before ++ .used v answer :: after) := by
        rw [← hlog]
        exact (stmtLog_wellNested _ _ _).stillOpen
      exact hall.of_append
    rw [hlog, rightFrom_append] at hright
    have hanswer : answer = answerIn (replay before [[]]) v := hright.2.1 hpackage
    have hsome (b : Binding) : answer = .ok b ↔ Visible before v.name v.sigil b := by
      rw [← lookupIn_eq_some_iff hopen, hanswer, answerIn]
      cases lookupIn (replay before [[]]) v.name v.sigil <;> simp
    have hnone : answer = .error (undeclared v.info.pos v) ↔
        ∀ b, ¬Visible before v.name v.sigil b := by
      rw [← lookupIn_eq_none_iff hopen, hanswer, answerIn]
      cases lookupIn (replay before [[]]) v.name v.sigil <;> simp
    refine ⟨hsome, hnone, fun hmissing => ?_⟩
    -- a use without a visible declaration is logged as such, and that error is recorded
    have hmem : .used v (.error (undeclared v.info.pos v)) ∈
        treeLog settings catalog registry u := by
      rw [hlog, hnone.mpr hmissing]
      exact List.mem_append_right _ List.mem_cons_self
    rw [tree_errors, tree_state]
    exact statements_misses u.stmts _ (fresh_startState settings catalog registry u hu) hmem
  · obtain ⟨before, after, hlog⟩ := List.append_of_mem hmem
    rw [hlog, rightFrom_append] at hright
    cases node with
    | none => exact hright.2.1
    | some v => exact hright.2.1
  · have hready := ready_of_mem_treeCalls settings catalog registry u hu c hc
    rw [Table.lookup_eq, Table.lookup_eq, hready.scopes_after _ hout]

end Tree

/-- A variable, one of the same name in a block that starts with the value of the outer one, and
behind the block a use of the name and of a name that is not declared. -/
def shadowingInBlock : SourceUnit where
  file := "sample.pl"
  className := ""
  stmts :=
    [.expr ⟨1, default⟩ (.assign ⟨2, default⟩ "="
        (.var { info := ⟨3, default⟩, name := "x", sigil := .scalar, decl := .my,
                type := some .integer })
        (.number ⟨4, default⟩ "1")),
      .block (.mk ⟨5, default⟩
        [.expr ⟨6, default⟩ (.assign ⟨7, default⟩ "="
          (.var { info := ⟨8, default⟩, name := "x", sigil := .scalar, decl := .my,
                  type := some .integer })
          (.var { info := ⟨9, default⟩, name := "x", sigil := .scalar }))]),
      .expr ⟨10, default⟩ (.assign ⟨11, default⟩ "="
        (.var { info := ⟨12, default⟩, name := "y", sigil := .scalar })
        (.var { info := ⟨13, default⟩, name := "x", sigil := .scalar }))]

/-- Both uses of the name mean the outer variable: at the first one the inner one is not declared
yet, and at the second one its block is closed. The name at the end means nothing. -/
theorem shadowingInBlock_lexical :
    ((treeLog {} none {} shadowingInBlock).filterMap Event.bound?).map
      (fun p => (p.1, p.2.javaName)) = [(3, "x"), (9, "x"), (8, "pd_1x"), (13, "x")] ∧
    (∃ before v answer, treeLog {} none {} shadowingInBlock = before ++ [.used v answer] ∧
      v.name = "y" ∧ (∀ b, ¬Visible before v.name v.sigil b) ∧
      ∃ pos, undeclared pos v ∈ (tree {} none {} 1 shadowingInBlock).errors) := by
  have hu : shadowingInBlock.Numbered := by decide
  obtain ⟨-, huses, -⟩ := tree_names_lexical {} none {} shadowingInBlock hu
  have hlast : (treeLog {} none {} shadowingInBlock).getLast?.any (fun ev => match ev with
      | .used v (.error _) => v.name = "y" && v.package = ""
      | _ => false) = true := by decide +kernel
  refine ⟨by decide +kernel, ?_⟩
  -- the last event is the use outside the block, which sees no declaration
  rcases hev : (treeLog {} none {} shadowingInBlock).getLast? with _ | ev
  · rw [hev] at hlast
    cases hlast
  · obtain ⟨before, hlog⟩ := List.getLast?_eq_some_iff.mp hev
    rw [hev] at hlast
    rcases ev with _ | _ | _ | ⟨v, f | b⟩
    · cases hlast
    · cases hlast
    · cases hlast
    · simp only [Option.any_some, Bool.and_eq_true, decide_eq_true_eq] at hlast
      obtain ⟨hname, hpackage⟩ := hlast
      obtain ⟨hsome, -, hrecorded⟩ := huses before v (.error f) [] hlog hpackage
      have hmissing (b : Binding) : ¬Visible before v.name v.sigil b := fun hb =>
        nomatch (hsome b).mpr hb
      exact ⟨before, v, .error f, hlog, hname, hmissing, hrecorded hmissing⟩
    · cases hlast

end Compile

end TypedPerl
