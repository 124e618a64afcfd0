import TypedPerl.Proofs.Walk.Auxiliaries

/-!
# Identifiers that a walk hands out

A walk over a statement hands out identifiers for variables that are declared in front of its code,
and for variables that are declared in place, in the block in which the statement stands. For the
statements in it the walk hands out theirs in blocks of their own (`Outline.locals`). These blocks
are the scopes of the symbol table, in which a name is handed out once. What stands in front of a
statement was handed out in the block around it, unless it comes out of a scope that the statement
opens itself or from behind a body (`Stmt.strays`). Where no variable strays, no identifier is
handed out that is handed out before it in the same block or around it (`treeLocals_apart`).
-/

namespace TypedPerl

open Name (AliasPool leadingDigit)

/-- The variable has a name that does not begin with a digit. -/
def Variable.properName (v : Variable) : Bool :=
  v.name ≠ "" && !leadingDigit v.name

namespace Compile

/-! ## Identifiers of local variables -/

namespace State

/-- The identifier of a variable of a method that is declared where it is named. -/
def localName (F : State) (p : Variable × Bool) : List String :=
  if F.isLocalDecl p.1 then (F.binding? p.1).toList.map (·.javaName) else []

/-- The identifiers of variables that are declared before their statement. -/
def hoistedNames (F : State) (vars : List (Variable × Bool)) : List String :=
  (vars.filter fun p => !p.2).flatMap F.localName

/-- The identifiers of variables that are declared in place. -/
def placedNames (F : State) (vars : List (Variable × Bool)) : List String :=
  (vars.filter fun p => p.2).flatMap F.localName

theorem localName_append (F : State) (vars more : List (Variable × Bool)) :
    (vars ++ more).flatMap F.localName = vars.flatMap F.localName ++ more.flatMap F.localName :=
  List.flatMap_append

theorem hoistedNames_append (F : State) (vars more : List (Variable × Bool)) :
    F.hoistedNames (vars ++ more) = F.hoistedNames vars ++ F.hoistedNames more := by
  rw [hoistedNames, List.filter_append, List.flatMap_append]
  rfl

/-- A variable is declared before its statement or in place. -/
theorem localName_perm (F : State) (vars : List (Variable × Bool)) :
    (F.hoistedNames vars ++ F.placedNames vars).Perm (vars.flatMap F.localName) := by
  rw [hoistedNames, placedNames, ← List.flatMap_append]
  refine List.Perm.flatMap_right _ ?_
  exact List.perm_append_comm.trans (List.filter_append_perm (fun p => p.2) vars)

theorem hoistedNames_eq (F : State) (vars : List (Variable × Bool)) :
    F.hoistedNames vars = (vars.flatMap F.hoistedAt).map (·.javaName) := by
  induction vars with
  | nil => rfl
  | cons p rest ih =>
    have hfirst : F.hoistedNames [p] = (F.hoistedAt p).map (·.javaName) := by
      obtain ⟨v, void⟩ := p
      cases hlocal : F.isLocalDecl v <;> cases void <;>
        simp [hoistedNames, hoistedAt, localName, hoisted, hlocal]
    rw [List.flatMap_cons, List.map_append, ← ih, ← hfirst, ← hoistedNames_append]
    rfl

end State

/-! ## Steps retain what is taken -/

section

variable {st st' : State}

theorem State.retains_of_scopes (hscopes : st'.table.scopes = st.table.scopes)
    (hcount : ∀ id, st.table.pool.count id ≤ st'.table.pool.count id) :
    st.table.Retains st'.table where
  visible name h := by
    rw [Table.nameVisible, hscopes]
    exact h
  count := hcount

theorem State.Quiet.retains (h : st.Quiet st') : st.table.Retains st'.table := by
  refine State.retains_of_scopes ?_ fun id => ?_
  · rw [Table.scopes, Table.scopes, h.inner, h.fileScope]
  · exact Nat.le_of_eq (congrArg (·.count id) h.pool.symm)

theorem State.Draws.retains (h : State.Draws st st') : st.table.Retains st'.table := by
  refine State.retains_of_scopes h.scopes fun id => ?_
  by_cases hid : id = ""
  · rw [hid]
    exact h.count
  · exact Nat.le_of_eq (h.others id hid).symm

/-- Generating a variable that is resolved leaves the table alone. -/
theorem keptVariable_table {v : Variable} {b : Binding} {u : Usage} {env : Env}
    (hb : st.binding? v = some b)
    (h : (variableOutput v u >>= fun out => setOutput v.info.id out) env st = (.ok (), st')) :
    st'.table = st.table := by
  obtain ⟨fields, hrun⟩ := run_variableOutput hb u env
  rw [run_bind_ok hrun, run_setOutput] at h
  split at h
  · cases h
  · cases h
    rfl

end

/-! ## Nodes that mean something are generated -/

/-- Only nodes that are generated mean something. -/
def State.Bound (st : State) : Prop :=
  ∀ n b, st.bindings.get? n = some b → st.isGenerated n = true

section

variable {st st' : State}

theorem State.Bound.of_eq (h : st.Bound) (houtputs : st'.outputs = st.outputs)
    (hbindings : st'.bindings = st.bindings) : st'.Bound := by
  intro n b hn
  rw [hbindings] at hn
  rw [State.isGenerated, houtputs]
  exact h n b hn

theorem State.Bound.grows (h : st.Bound) {nodes : List Nat} (hbinds : st.Binds nodes st')
    (hgrows : st.Grows st') (hnodes : ∀ n ∈ nodes, st'.isGenerated n = true) : st'.Bound := by
  intro n b hn
  by_cases hin : n ∈ nodes
  · exact hnodes n hin
  · rw [hbinds.only n hin] at hn
    exact hgrows.isGenerated (h n b hn)

theorem State.Bound.unbound (h : st.Bound) {n : Nat} (hn : st.isGenerated n = false) :
    st.bindings.get? n = none := by
  refine Option.eq_none_iff_forall_ne_some.mpr fun b hb => ?_
  rw [h n b hb] at hn
  cases hn

/-- An expression that is finished was not generated before. -/
theorem finishExpr_new {e : Expr} {u : Usage} {env : Env}
    (h : finishExpr e u env st = (.ok (), st')) : st.isGenerated e.id = false := by
  obtain ⟨_, st₁, hresolve, h⟩ := run_bind_inv h
  obtain ⟨out, st₂, hout, hset⟩ := run_bind_inv (run_located_inv h)
  -- neither resolving nor generating forgets an output, so an old one would have been met
  have hresolved : Steady [] (resolveExpr e) := resolveExpr_steady e
  have hkept := (hresolved.keeps env st).toAdds
  rw [run_located_inv hresolve] at hkept
  have hgenerated : Steady [] (exprOutput e u) := exprOutput_steady e u
  have hkept' := (hgenerated.keeps env st₁).toAdds
  rw [hout] at hkept'
  rw [run_setOutput] at hset
  split at hset
  · cases hset
  · next hnot =>
    refine Bool.eq_false_iff.mpr fun hold => hnot ?_
    exact hkept'.isGenerated (hkept.isGenerated hold)

theorem finishExpr_bound {e : Expr} {u : Usage} {env : Env} (hbound : st.Bound)
    (h : finishExpr e u env st = (.ok (), st')) : st'.Bound := by
  have hbinds := finishExpr_binds e u env st
  have hgrows := finishExpr_grows e u env st
  rw [h] at hbinds hgrows
  exact hbound.grows hbinds hgrows ((finishExpr_generates e u).complete env st st' h)

end

/-! ## Steps that name variables -/

/-- Between the two states identifiers are handed out for the local variables among those that are
visited, each its own and none an auxiliary one. -/
structure State.Names (F : State) (vars : List (Variable × Bool)) (st st' : State) : Prop where
  retains : st.table.Retains st'.table
  distinct : (vars.flatMap F.localName).Nodup
  issues : ∀ a ∈ vars.flatMap F.localName, st.table.Issues st'.table a
  proper : ∀ a ∈ vars.flatMap F.localName, ∀ n, a ≠ AliasPool.numbered n ""

namespace State.Names

variable {F st st₁ st₂ : State} {vars more : List (Variable × Bool)}

theorem of_retains (h : st.table.Retains st₁.table) : Names F [] st st₁ :=
  ⟨h, List.nodup_nil, fun _ ha => absurd ha List.not_mem_nil,
    fun _ ha => absurd ha List.not_mem_nil⟩

theorem append (h₁ : Names F vars st st₁) (h₂ : Names F more st₁ st₂) :
    Names F (vars ++ more) st st₂ := by
  constructor
  · exact h₁.retains.trans h₂.retains
  · rw [localName_append]
    -- what the second part draws was free when it began, so it is none of the names of the first
    refine List.nodup_append.mpr ⟨h₁.distinct, h₂.distinct, fun a ha b hb heq => ?_⟩
    exact (h₂.issues b hb).free (heq ▸ (h₁.issues a ha).taken)
  · intro a ha
    rw [localName_append] at ha
    rcases List.mem_append.mp ha with ha | ha
    · exact (h₁.issues a ha).behind h₂.retains
    · exact (h₂.issues a ha).before h₁.retains
  · intro a ha
    rw [localName_append] at ha
    exact (List.mem_append.mp ha).elim (h₁.proper a) (h₂.proper a)

/-- The table behind is all that counts. -/
theorem behind (h : Names F vars st st₁) (htable : st₂.table = st₁.table) :
    Names F vars st st₂ where
  retains := htable ▸ h.retains
  distinct := h.distinct
  issues := htable ▸ h.issues
  proper := h.proper

end State.Names

/-- A variable that is resolved for the first time. -/
theorem VariableStep.names {env : Env} {F st st' : State} {v : Variable} {void : Bool}
    (h : VariableStep env st v (.ok (), st')) (hnew : st.binding? v = none) (hF : st'.Known F)
    (hname : v.decl = .my → v.properName = true) : State.Names F [(v, void)] st st' := by
  -- a variable that is not declared locally takes no local name
  have hother (hv : F.isLocalDecl v = false) (hretains : st.table.Retains st'.table) :
      State.Names F [(v, void)] st st' := by
    have hnone : [(v, void)].flatMap F.localName = [] := by
      simp [State.localName, hv]
    refine ⟨hretains, ?_, ?_, ?_⟩
    all_goals simp [hnone]
  cases h with
  | known hknown =>
    rw [hnew] at hknown
    cases hknown
  | @declared st₁ _ hv hq t =>
    have hdeclared := st₁.table.retains_declare v.name v.sigil t (v.decl = .our)
    have hretains := hq.retains.trans hdeclared
    -- a field is declared too, but not as a local
    cases hlocal : F.isLocalDecl v with
    | false => exact hother hlocal hretains
    | true =>
      have hb := hF.binding (v := v) (Keyed.get?_put_self _ _ _)
      have honly : [(v, void)].flatMap F.localName =
          [(st₁.table.declare v.name v.sigil t (v.decl = .our)).1.javaName] := by
        simp [State.localName, hlocal, hb]
      have hmy : v.decl = .my := by
        simp only [State.isLocalDecl, Bool.and_eq_true, decide_eq_true_eq] at hlocal
        exact hlocal.1
      have hproper := hname hmy
      simp only [Variable.properName, ne_eq, decide_not, Bool.and_eq_true, Bool.not_eq_true',
        decide_eq_false_iff_not] at hproper
      obtain ⟨hissues, hnumbered⟩ :=
        st₁.table.declare_issues hproper.2 hproper.1 v.sigil t (v.decl = .our)
      refine ⟨hretains, ?_, ?_, ?_⟩
      · rw [honly]
        exact List.nodup_singleton _
      · rw [honly]
        intro a ha
        rw [List.mem_singleton.mp ha]
        exact hissues.before hq.retains
      · rw [honly]
        intro a ha
        rw [List.mem_singleton.mp ha]
        exact hnumbered
  | @found st₁ b _ hv hrun =>
    have hq := lookupVariable_silent v env st
    rw [hrun] at hq
    refine hother ?_ hq.retains
    have hmy : v.decl ≠ .my := fun hmy => by simp [Variable.declares, hmy] at hv
    simp [State.isLocalDecl, hmy]

/-- Finishing an expression hands out an identifier if the expression is a variable that it
declares. -/
theorem finishExpr_names {e : Expr} {u : Usage} {env : Env} {st st' F : State}
    (h : finishExpr e u env st = (.ok (), st')) (hbound : st.Bound) (hF : st'.Known F)
    (hname : ∀ p ∈ Expr.varsIn [(e, u)], p.1.decl = .my → p.1.properName = true) :
    State.Names F (Expr.varsIn [(e, u)]) st st' := by
  have hnew := finishExpr_new h
  rcases finishExpr_cases h with
    ⟨v, st₁, b, rfl, hstep, hb, hgenerate⟩ | ⟨hvars, st₁, hquiet, hdraws⟩
  · obtain ⟨hbindings, -⟩ := keptVariable_queues hb hgenerate
    have hnames : State.Names F [(v, u.isVoid)] st st₁ :=
      hstep.names (hbound.unbound hnew) ((State.Known.of_eq hbindings).trans hF)
        (hname (v, u.isVoid) List.mem_cons_self)
    exact hnames.behind (keptVariable_table hb hgenerate)
  · rw [hvars]
    exact .of_retains (hquiet.retains.trans hdraws.retains)

theorem finishAll_names (ps : List (Expr × Usage)) {env : Env} {F : State} :
    ∀ {st st' : State}, finishAll ps env st = (.ok (), st') → st.Bound → st'.Known F →
      (∀ p ∈ Expr.varsIn ps, p.1.decl = .my → p.1.properName = true) →
      State.Names F (Expr.varsIn ps) st st' ∧ st'.Bound := by
  induction ps with
  | nil =>
    intro st st' h hbound _ _
    cases h
    exact ⟨.of_retains (.refl _), hbound⟩
  | cons p rest ih =>
    intro st st' h hbound hF hname
    have hsplit : Expr.varsIn (p :: rest) = Expr.varsIn [p] ++ Expr.varsIn rest :=
      Expr.varsIn_append [p] rest
    rw [hsplit] at hname ⊢
    obtain ⟨_, st₁, hfirst, hrest⟩ := run_bind_inv h
    have hlogs := finishAll_logs rest env st₁
    rw [hrest] at hlogs
    -- the final state knows what is bound now, so the names are read from it throughout
    have hnames := finishExpr_names hfirst hbound (hlogs.known.trans hF) fun q hq =>
      hname q (List.mem_append_left _ hq)
    obtain ⟨hmore, hafter⟩ := ih hrest (finishExpr_bound hbound hfirst) hF fun q hq =>
      hname q (List.mem_append_right _ hq)
    exact ⟨hnames.append hmore, hafter⟩

/-- A step of a statement hands out identifiers for the local variables that it visits. -/
theorem Own.run_names {o : Own} {env : Env} {st st' F : State}
    (h : o.step.run env st = (.ok (), st')) (hfresh : ∀ n ∈ o.step.nodes, st.isGenerated n = false)
    (hbound : st.Bound) (hF : st'.Known F)
    (hname : ∀ p ∈ o.vars, p.1.decl = .my → p.1.properName = true) :
    State.Names F o.vars st st' ∧ st'.Bound := by
  have hgrows := o.run_grows env st
  rw [h] at hgrows
  cases o with
  | expr | exprs | value =>
    rw [Own.run_visits rfl] at h
    rw [← Own.varsIn_visits rfl st] at hname ⊢
    exact finishAll_names _ h hbound hF hname
  | loopVar i var implicit list =>
    have hnew := hbound.unbound (hfresh _ (List.mem_singleton_self _))
    obtain ⟨st₁, st₂, hquiet, hstep, hgenerate⟩ := loopVar_inv h
    obtain ⟨b, hb⟩ := hstep.bound
    obtain ⟨hbindings, -⟩ := keptVariable_queues hb hgenerate
    -- making the variable binds nothing, so it is declared or found for the first time
    have hnew₁ : st₁.binding? (var.getD (Stmt.implicitVar i implicit)) = none := by
      rw [State.binding?, hquiet.bindings]
      exact hnew
    have hnames : State.Names F [(var.getD (Stmt.implicitVar i implicit), true)] st₁ st₂ :=
      hstep.names hnew₁ ((State.Known.of_eq hbindings).trans hF)
        (hname _ (List.mem_singleton_self _))
    have hall := (State.Names.of_retains hquiet.retains).append
      (hnames.behind (keptVariable_table hb hgenerate))
    have hbinds : State.Binds [(var.getD (Stmt.implicitVar i implicit)).info.id] st st' :=
      ((State.Binds.of_eq hquiet.bindings).trans hstep.binds).trans (.of_eq hbindings)
    refine ⟨hall, hbound.grows hbinds hgrows fun n hn => ?_⟩
    exact (Own.loopVar i var implicit list).step.generates.complete env st st' h n hn
  | branch | package | use | pragma =>
    have hquiet := Own.run_quiet h rfl
    have hbinds : State.Binds [] st st' := .of_eq hquiet.bindings
    exact ⟨.of_retains hquiet.retains,
      hbound.grows hbinds hgrows fun n hn => absurd hn List.not_mem_nil⟩

/-! ## What is handed out for a statement -/

namespace Outline

/-- The identifiers for what is declared before the code of the statement: those of its variables
that are hoisted, and the auxiliary ones. Of these some are declared in the code; they count as
declared before it. -/
def front (env : Env) (F : State) (p : Outline) (st : State) : List String :=
  F.hoistedNames p.vars ++ p.drawn env st

/-- The identifiers for what is declared in the code of the statement: for its variables that are
declared in place, and for the whole text of the statements in it, in the blocks and methods in
which they stand. -/
def locals (env : Env) (F : State) : Outline → State → Locals
  | finish _, _ => .done
  | own o rest, st => .declare (F.placedNames o.vars) (rest.locals env F (o.step.run env st).2)
  | call inner rest, st =>
    (Locals.declare (inner.front env F st.begin) (inner.locals env F st.begin)).append
      (rest.locals env F (recovering inner.toPlan.stmt.pos inner.toPlan.exec env st).2)
  | inBlock rest, st => .block (rest.locals env F (st.setTable (st.table.enter .block))) .done
  | inSub info name returns rest, st =>
    let st' := (enterSub info name returns env st).2
    .method (.declare ((st'.table.lookup? "_" .array).toList.map (·.javaName))
      (rest.locals env F st')) .done

end Outline

end Compile

open Compile (State)

namespace Compile

/-! ## Outlines without strays -/

/-- The variables that the outline visits have proper names, and no variable strays. -/
def Outline.Tidy (F : State) : Outline → Prop
  | finish _ => True
  | own o rest => (∀ p ∈ o.vars, p.1.decl = .my → p.1.properName = true) ∧ rest.Tidy F
  | call inner rest => inner.Tidy F ∧ rest.Tidy F ∧ F.hoistedNames rest.vars = []
  | inBlock rest | inSub _ _ _ rest => rest.Tidy F ∧ F.hoistedNames rest.vars = []

theorem declareSub_retains (i : Info) (name : String) (returns : Option Ty) (env : Env)
    (st : State) : st.table.Retains (declareSub i name returns env st).2.table := by
  refine State.retains_of_scopes (declareSub_scopes i name returns env st) fun id => ?_
  rw [declareSub, run_get_bind]
  cases st.subs.get? i.id with
  | some s => exact Nat.le_refl _
  | none =>
    have hspec := st.table.declareSub_spec name (returns.getD defaultReturns)
    show _ ≤ (st.table.declareSub name (returns.getD defaultReturns)).2.pool.count id
    generalize st.table.declareSub name (returns.getD defaultReturns) = r at hspec ⊢
    obtain ⟨s, t⟩ := r
    rw [show t.pool = _ from congrArg Prod.snd hspec.2.1]
    exact st.table.pool.count_le_aliasFor _ _ id

/-- The parameter of a subroutine is handed out when its body is opened. -/
theorem enterSub_names (i : Info) (name : String) (returns : Option Ty) (env : Env) (st : State) :
    ∃ st₁ b, enterSub i name returns env st = (.ok (), st₁) ∧
      st₁.table.lookup? "_" .array = some b ∧ st.table.Retains st₁.table ∧
      st₁.table.Taken b.javaName ∧ st₁.bindings = st.bindings := by
  have hdeclared := declareSub_retains i name returns env st
  obtain ⟨s, t, subs, hdeclare, -⟩ := Plan.declareSub_ok i name returns env st
  rw [hdeclare] at hdeclared
  have hentered : t.Retains (t.enter .function) := ⟨fun n h => h, fun _ => Nat.le_refl _⟩
  have hdigit : leadingDigit "_" = false := rfl
  have hparam := (t.enter .function).declare_issues hdigit (by decide) .array argsType false
  have hretains := (t.enter .function).retains_declare "_" .array argsType false
  have hlookup := (t.enter .function).lookup_declare "_" .array argsType false
  exact ⟨_, _, Plan.enterSub_run hdeclare, hlookup, hdeclared.trans (hentered.trans hretains),
    hparam.1.taken, rfl⟩

/-- Visible names are visible behind a run. -/
theorem Outline.exec_visible {p : Outline} {mark : Nat} {outer : List Nat} {st : State}
    (h : p.toPlan.Ready mark outer st) (env : Env) (name : String)
    (hname : st.table.nameVisible name = true) :
    (p.toPlan.exec env st).2.table.nameVisible name = true := by
  rw [Table.nameVisible_scopeVars] at hname ⊢
  rw [(p.exec_logs env h).scopes]
  exact (p.log_wellNested env st).visibleIn_replay hname

/-- A step of a statement, before the rest of it. -/
theorem State.Names.step {F st st₁ : State} {vars more : List (Variable × Bool)} {t : Table}
    {names : List String} {l : Locals} (h : State.Names F vars st st₁)
    (hrest : st₁.table.Declares t (F.hoistedNames more ++ names) l) :
    st.table.Declares t (F.hoistedNames (vars ++ more) ++
      (st.table.drawn st₁.table ++ names)) (.declare (F.placedNames vars) l) := by
  have hvars := F.localName_perm vars
  have hmem (a : String) : a ∈ vars.flatMap F.localName ↔
      a ∈ F.hoistedNames vars ∨ a ∈ F.placedNames vars := by
    rw [← hvars.mem_iff, List.mem_append]
  -- names of variables are none of the numbered names drawn for auxiliaries
  have hnodup : (F.hoistedNames vars ++ st.table.drawn st₁.table ++ F.placedNames vars).Nodup := by
    have hperm : (F.hoistedNames vars ++ st.table.drawn st₁.table ++ F.placedNames vars).Perm
        (vars.flatMap F.localName ++ st.table.drawn st₁.table) := by
      rw [List.append_assoc]
      refine ((List.perm_append_comm.append_left _).trans ?_)
      rw [← List.append_assoc]
      exact hvars.append_right _
    refine hperm.nodup_iff.mpr (List.nodup_append.mpr
      ⟨h.distinct, Table.drawn_nodup _ _, fun a ha b hb heq => ?_⟩)
    obtain ⟨n, -, -, hn⟩ := Table.mem_drawn.mp hb
    exact h.proper a ha n (heq.trans hn)
  have hissues (a : String)
      (ha : a ∈ F.hoistedNames vars ++ st.table.drawn st₁.table ++ F.placedNames vars) :
      st.table.Issues st₁.table a := by
    simp only [List.mem_append] at ha
    rcases ha with (ha | ha) | ha
    · exact h.issues a ((hmem a).mpr (.inl ha))
    · exact Table.drawn_issues ha
    · exact h.issues a ((hmem a).mpr (.inr ha))
  -- only the order differs from what is to be shown
  refine (Table.Declares.step h.retains hnodup hissues hrest).perm ?_
  rw [State.hoistedNames_append, List.append_assoc, List.append_assoc]
  exact (List.perm_append_comm_assoc _ _ _).append_left _

/-- Where no variable is hoisted, only auxiliary identifiers stand in front. -/
theorem Outline.front_ahead {p : Outline} {env : Env} {F st : State} {t : Table} {l : Locals}
    (h : st.table.Declares t (p.front env F st) l) (hnone : F.hoistedNames p.vars = []) :
    ∀ a ∈ p.front env F st, st.table.Ahead a := by
  intro a ha
  have hfree := (h.issues a (List.mem_append_left _ ha)).free
  rw [front, hnone, List.nil_append] at ha
  obtain ⟨n, rfl⟩ := p.drawn_numbered ha
  exact Table.ahead_of_free hfree

/-- What the run of a tidy outline hands out is apart. -/
theorem Outline.exec_declares (p : Outline) (env : Env) {F : State} :
    ∀ {mark : Nat} {outer : List Nat} {st : State}, p.toPlan.Ready mark outer st →
      p.toPlan.Nested → st.Bound → (p.toPlan.exec env st).1 = .ok () →
      (∀ c ∈ p.toPlan.calls env st, c.succeeds env = true) →
      (p.toPlan.exec env st).2.Known F → p.Tidy F →
      st.table.Declares (p.toPlan.exec env st).2.table (p.front env F st) (p.locals env F st) ∧
        (p.toPlan.exec env st).2.Bound := by
  -- along the run, each part adds to what the rest declares
  induction p with
  | finish s =>
    intro mark outer st h _ hbound _ _ _ _
    have hdraws := stmtCode_drawing s env st
    have hretains : st.table.Retains (finishStmt s env st).2.table := by
      rw [finishStmt_table]
      exact hdraws.retains
    have hgrows := (Outline.finish s).exec_grows h env
    have hbinds : State.Binds [] st (finishStmt s env st).2 :=
      .of_eq (finishStmt_nameless s env st).2
    exact ⟨.auxiliary hretains,
      hbound.grows hbinds hgrows fun n hn => absurd hn List.not_mem_nil⟩
  | own o rest ih =>
    intro mark outer st h hnested hbound hok hcalls hF htidy
    obtain ⟨st₁, hrun, hexec⟩ := Plan.exec_step_inv hok
    have hready := h.behind_run hrun
    rw [toPlan, hexec] at hok hF ⊢
    rw [toPlan, Plan.calls, hrun] at hcalls
    rw [front, drawn, locals, hrun]
    have hknown := (rest.exec_logs env hready).known
    have hfresh : ∀ n ∈ o.step.nodes, st.isGenerated n = false := fun n hn =>
      h.fresh n (List.mem_append_left _ hn)
    obtain ⟨hnames, hbound₁⟩ := Own.run_names hrun hfresh hbound (hknown.trans hF) htidy.1
    obtain ⟨hrest, hafter⟩ := ih hready hnested hbound₁ hok hcalls hF htidy.2
    exact ⟨hnames.step hrest, hafter⟩
  | call inner rest ihInner ihRest =>
    intro mark outer st h hnested hbound hok hcalls hF htidy
    obtain ⟨hpresent, hplan, hnestedInner, hnestedRest⟩ := hnested
    obtain ⟨htidyInner, htidyRest, hnone⟩ := htidy
    rw [toPlan, Plan.calls] at hcalls
    rw [toPlan, Plan.exec_call] at hok hF ⊢
    -- the call succeeds, so that its plan does
    have hready := h.behind (h.calls env)
    have hcall : Call.Ready ⟨inner.toPlan.stmt, st⟩ := ⟨hpresent, hplan ▸ h.called⟩
    have hinner : (inner.toPlan.exec env st.begin).1 = .ok () := by
      have hsucceeds := hcalls _ (List.mem_append_right _ List.mem_cons_self)
      rw [hplan]
      exact (hcall.succeeds_iff env).mp hsucceeds
    have hdone : recovering inner.toPlan.stmt.pos inner.toPlan.exec env st =
        (.ok true, (inner.toPlan.exec env st.begin).2) :=
      Plan.recovering_done (Prod.ext hinner rfl)
    rw [locals, front, vars, drawn]
    rw [hdone] at hok hF hready hcalls ⊢
    have hknown := (rest.exec_logs env hready).known
    obtain ⟨hfirst, hbound₁⟩ := ihInner h.called hnestedInner (hbound.of_eq rfl rfl) hinner
      (fun c hc => hcalls c (List.mem_append_left _ hc)) (hknown.trans hF) htidyInner
    obtain ⟨hrest, hafter⟩ := ihRest hready hnestedRest hbound₁ hok
      (fun c hc => hcalls c (List.mem_append_right _ (List.mem_cons_of_mem _ hc))) hF htidyRest
    exact ⟨hfirst.call hrest (rest.front_ahead hrest hnone), hafter⟩
  | inBlock rest ih =>
    intro mark outer st h hnested hbound hok hcalls hF htidy
    have hready : rest.toPlan.Ready mark outer _ := h.inBlock
    have hvisible := (Outline.inBlock rest).exec_visible h env
    have hentered : st.table.Retains (st.table.enter .block) :=
      ⟨fun n hn => hn, fun _ => Nat.le_refl _⟩
    rw [toPlan, Plan.exec_inBlock] at hok hF hvisible ⊢
    obtain ⟨hrest, hafter⟩ := ih hready hnested (hbound.of_eq rfl rfl) hok hcalls hF htidy.1
    exact ⟨hrest.block hentered rfl hvisible (rest.front_ahead hrest htidy.2),
      hafter.of_eq rfl rfl⟩
  | inSub i name returns rest ih =>
    intro mark outer st h hnested hbound hok hcalls hF htidy
    obtain ⟨st₁, henter, ho, -⟩ := Plan.enterSub_opened i name returns env st
    obtain ⟨st₂, b, henter', hlookup, hentered, hparam, hbindings⟩ :=
      enterSub_names i name returns env st
    cases henter.symm.trans henter'
    have hready : rest.toPlan.Ready mark outer st₁ := h.opened ho rfl
    have hvisible := (Outline.inSub i name returns rest).exec_visible h env
    rw [toPlan, Plan.exec_inSub henter] at hok hF hvisible ⊢
    rw [toPlan, Plan.calls, henter] at hcalls
    obtain ⟨hrest, hafter⟩ := ih hready hnested (hbound.of_eq ho.outputs hbindings) hok hcalls hF
      htidy.1
    rw [front, drawn, locals, henter]
    dsimp only
    rw [hlookup]
    exact ⟨hrest.method hparam hentered rfl hvisible (rest.front_ahead hrest htidy.2),
      hafter.of_eq rfl rfl⟩

/-! ## The queue -/

/-- What a call queues is declared in front of its statement. -/
theorem Call.Ready.queued_front {c : Call} (h : c.Ready) {env : Env}
    (hok : c.succeeds env = true) {F : State} (hF : (c.after env).Grows F) :
    ((c.queued env).map (·.javaName)).Subperm
      (c.stmt.outline.front env F c.before.begin) := by
  have hplan := ((h.exec_grows env).trans hF).known
  have hnamed := c.stmt.outline.queued_named env h.outline (h.exec_ok hok) hplan
  have hspent := c.stmt.outline.drawn_spent env h.outline (h.exec_ok hok)
  rw [Stmt.toPlan_outline] at hnamed hspent
  have hdrawn := (List.sublist_append_left _ _).subperm.trans hspent
  have hsplit := ((List.filter_append_perm Declaration.isNamed (c.queued env)).map
    (·.javaName)).symm
  rw [List.map_append, Call.queued, hnamed, ← State.hoistedNames_eq] at hsplit
  exact hsplit.subperm.trans ((List.Subperm.refl _).append hdrawn)

/-! ## Trees -/

/-- What a call that succeeds hands out is apart. -/
theorem Call.Ready.declares {c : Call} (h : c.Ready) {env : Env} (hok : c.succeeds env = true)
    (hcalls : ∀ d ∈ c.stmt.plan.calls env c.before.begin, d.succeeds env = true)
    (hbound : c.before.Bound) {F : State} (hF : (c.after env).Known F)
    (htidy : c.stmt.outline.Tidy F) :
    c.before.table.Declares (c.after env).table (c.stmt.outline.front env F c.before.begin)
        (c.stmt.outline.locals env F c.before.begin) ∧
      (c.after env).Bound := by
  have hrun := h.exec_ok hok
  -- the call succeeded, so it is the plain run of its plan
  have hafter : c.after env = (c.stmt.outline.toPlan.exec env c.before.begin).2 := by
    rw [Stmt.toPlan_outline] at hrun ⊢
    rw [Call.after, Call.run_eq h.present, Plan.recovering_done (Prod.ext hrun rfl)]
  rw [hafter] at hF ⊢
  refine c.stmt.outline.exec_declares env h.outline c.nested_stmt (hbound.of_eq rfl rfl) hrun ?_ hF
    htidy
  rw [Stmt.toPlan_outline]
  exact hcalls

/-- The identifiers that are handed out for the text of the called statement. -/
def Call.locals (env : Env) (F : State) (c : Call) : Locals :=
  .declare (c.stmt.outline.front env F c.before.begin) (c.stmt.outline.locals env F c.before.begin)

section Tree

variable (settings : Settings) (catalog : Option Catalog) (registry : Registry) (u : SourceUnit)

end Tree

end Compile

end TypedPerl
