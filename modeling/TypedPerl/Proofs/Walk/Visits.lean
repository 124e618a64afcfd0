import TypedPerl.Proofs.Walk.Settled
import TypedPerl.Proofs.Walk.Plan

/-!
# What a statement visits

The walk over an expression finishes its nodes one after the other, each behind its parts:
`Expr.order` lists them with their usages, and `walkExpr_order` says that the walk finishes them in
this order. An `Own` is a step of a statement with the syntax that it is about, and an `Outline` is
a plan of such steps. What is read off the syntax along a run is defined on outlines; what is known
of plans holds of them, since the outline of a statement is its plan (`toPlan_outline`).
-/

namespace TypedPerl

/-! ## The order of the walk -/

namespace Expr

mutual

/-- The expression and its parts with their usages, in the order in which they are finished. -/
def order : Expr → Usage → List (Expr × Usage)
  | number i text, u => [(number i text, u)]
  | undef i, u => [(undef i, u)]
  | var v, u => [(var v, u)]
  | string i pieces es, u => orderList es (fun _ => .scalar) ++ [(string i pieces es, u)]
  | index i throughRef target key brace context, u =>
    target.order (if throughRef then .scalar else .list) ++
      (key.order (keyUsage key context) ++ [(index i throughRef target key brace context, u)])
  | deref i target sigil, u => target.order .scalar ++ [(deref i target sigil, u)]
  | makeRef i target, u => target.order .scalar ++ [(makeRef i target, u)]
  | anonArray i es t, u => orderList es (fun _ => .list) ++ [(anonArray i es t, u)]
  | anonHash i es t, u => orderList es (fun _ => .list) ++ [(anonHash i es t, u)]
  | list i es, u => orderList es (fun _ => elementUsage es.length u) ++ [(list i es, u)]
  | assign i op left right, u =>
    right.order (sourceUsage left) ++
      (left.order (targetUsage op u) ++ [(assign i op left right, u)])
  | incDec i op before target, u => target.order .update ++ [(incDec i op before target, u)]
  | binary i op left right, u =>
    left.order (leftUsage op u) ++
      (right.order (rightUsage op u) ++ [(binary i op left right, u)])
  | unary i op x, u => x.order (operandUsage op) ++ [(unary i op x, u)]
  | ternary i cond yes no, u =>
    cond.order .boolean ++ (yes.order (branchUsage u) ++
      (no.order (branchUsage u) ++ [(ternary i cond yes no, u)]))
  | call i package name args, u =>
    orderList args (argUsage package name) ++ [(call i package name args, u)]

/-- The expressions of a list and their parts; the usage of each follows from its place. -/
def orderList : List Expr → (Nat → Usage) → List (Expr × Usage)
  | [], _ => []
  | e :: rest, usage => e.order (usage 0) ++ orderList rest fun i => usage (i + 1)

end

theorem orderList_eq (es : List Expr) (usage : Nat → Usage) :
    orderList es usage = (es.mapIdx fun i x => (x, usage i)).flatMap fun p => p.1.order p.2 := by
  induction es generalizing usage with
  | nil => rfl
  | cons e es ih => rw [orderList, List.mapIdx_cons, List.flatMap_cons, ih]

theorem orderList_const (es : List Expr) (u : Usage) :
    orderList es (fun _ => u) = (es.map (·, u)).flatMap fun p => p.1.order p.2 := by
  induction es with
  | nil => rfl
  | cons e es ih => rw [orderList, List.map_cons, List.flatMap_cons, ih]

/-- An expression is finished behind its parts. -/
theorem order_eq (e : Expr) (u : Usage) :
    e.order u = (e.parts u).flatMap (fun p => p.1.order p.2) ++ [(e, u)] := by
  cases e with
  | call i package name args => rw [order, orderList_eq, parts]
  | _ => simp [order, parts, orderList_const]

/-- The walk finishes an expression and its parts, each once. -/
theorem order_perm (e : Expr) (u : Usage) : ((e.order u).map (·.1)).Perm e.preorder := by
  refine e.parts_induction (P := fun e u => ((e.order u).map (·.1)).Perm e.preorder)
    (fun e u ih => ?_) u
  have hparts : (((e.parts u).flatMap fun p => p.1.order p.2).map (·.1)).Perm
      ((e.parts u).flatMap fun p => p.1.preorder) := by
    rw [List.map_flatMap]
    exact List.Perm.flatMap_left _ ih
  rw [order_eq, List.map_append]
  exact (List.perm_append_comm.trans (hparts.cons e)).trans (e.preorder_parts u).symm

end Expr

namespace Compile

/-- Finishes expressions in order. -/
def finishAll : List (Expr × Usage) → Compile Unit
  | [] => return
  | p :: rest => do
    finishExpr p.1 p.2
    finishAll rest

theorem finishAll_append (ps qs : List (Expr × Usage)) :
    finishAll (ps ++ qs) = finishAll ps >>= fun _ => finishAll qs := by
  induction ps with
  | nil => simp only [List.nil_append, finishAll, pure_bind]
  | cons p rest ih => simp only [List.cons_append, finishAll, ih, bind_assoc]

theorem walkParts_order {ps : List (Expr × Usage)}
    (h : ∀ p ∈ ps, walkExpr p.1 p.2 = finishAll (p.1.order p.2)) :
    walkParts ps = finishAll (ps.flatMap fun p => p.1.order p.2) := by
  induction ps with
  | nil => rfl
  | cons p rest ih =>
    rw [walkParts, h p List.mem_cons_self, ih fun q hq => h q (List.mem_cons_of_mem p hq),
      List.flatMap_cons, finishAll_append]

/-- The walk over an expression finishes its nodes in order. -/
theorem walkExpr_order (e : Expr) (u : Usage) : walkExpr e u = finishAll (e.order u) := by
  refine e.parts_induction (P := fun e u => walkExpr e u = finishAll (e.order u))
    (fun e u ih => ?_) u
  rw [walkExpr_eq, walkParts_order ih, e.order_eq, finishAll_append]
  simp only [finishAll, bind_pure_unit]

theorem walkExprs_order (es : List Expr) (usage : Nat → Usage) :
    walkExprs es usage = finishAll (Expr.orderList es usage) := by
  rw [walkExprs_eq, walkParts_order fun p _ => walkExpr_order p.1 p.2, Expr.orderList_eq]

/-! ## What the walk settles -/

/-- What is known of a run that finishes expressions one after the other is known of each part of
the run. -/
def Divides (env : Env) (K : List (Expr × Usage) → State → State → Prop) : Prop :=
  ∀ {ps qs : List (Expr × Usage)} {st st₁ st₂ : State}, finishAll ps env st = (.ok (), st₁) →
    finishAll qs env st₁ = (.ok (), st₂) → K (ps ++ qs) st st₂ → K ps st st₁ ∧ K qs st₁ st₂

section

variable {env : Env} {S : State} {K : List (Expr × Usage) → State → State → Prop}
  {Q : Expr → Usage → Prop}

/-- When the walk over parts has come to its end, each part is settled. -/
theorem walkParts_everywhere (hK : Divides env K) {ps : List (Expr × Usage)}
    (ih : ∀ p ∈ ps, ∀ st st', walkExpr p.1 p.2 env st = (.ok (), st') →
      K (p.1.order p.2) st st' → p.1.nodes.Nodup → (∀ n ∈ p.1.nodes, st'.SameAt n S) →
      p.1.Everywhere Q p.2) :
    ∀ {st st' : State}, walkParts ps env st = (.ok (), st') →
      K (ps.flatMap fun p => p.1.order p.2) st st' → (partNodes ps).Nodup →
      (∀ n ∈ partNodes ps, st'.SameAt n S) → ∀ p ∈ ps, p.1.Everywhere Q p.2 := by
  induction ps with
  | nil =>
    intro st st' _ _ _ _ p hp
    exact absurd hp List.not_mem_nil
  | cons q rest ihRest =>
    intro st st' h hknown hdistinct hS
    obtain ⟨_, st₁, hq, hrest⟩ := run_bind_inv h
    obtain ⟨hfirst, hmore, hapart⟩ := List.nodup_append.mp hdistinct
    have hlocal : Local (partNodes rest) (walkParts rest) :=
      walkParts_local fun p _ => walkExpr_local p.1 p.2
    have horder : walkParts rest = finishAll (rest.flatMap fun p => p.1.order p.2) :=
      walkParts_order fun p _ => walkExpr_order p.1 p.2
    obtain ⟨hhead, htail⟩ := hK (walkExpr_order q.1 q.2 ▸ hq) (horder ▸ hrest) hknown
    intro p hp
    obtain rfl | hp := List.mem_cons.mp hp
    · refine ih p List.mem_cons_self st st₁ hq hhead hfirst fun n hn => ?_
      -- the other parts leave this one alone
      have hsame := hlocal env st₁ n fun hmem => hapart n hn n hmem rfl
      rw [hrest] at hsame
      exact hsame.trans (hS n (List.mem_append_left _ hn))
    · refine ihRest (fun p hp => ih p (List.mem_cons_of_mem q hp)) hrest htail hmore ?_ p hp
      exact fun n hn => hS n (List.mem_append_right _ hn)

/-- When the walk over an expression has come to its end, what follows for each node from finishing
it holds of the expression and of all its parts, and stays so as long as their outputs and paths
do. -/
theorem walkExpr_everywhere (hK : Divides env K)
    (hQ : ∀ e u st st', finishExpr e u env st = (.ok (), st') → K [(e, u)] st st' →
      e.id ∉ partNodes (e.parts u) → (∀ n ∈ e.nodes, st'.SameAt n S) → Q e u)
    (e : Expr) (u : Usage) :
    ∀ {st st' : State}, walkExpr e u env st = (.ok (), st') → K (e.order u) st st' →
      e.nodes.Nodup → (∀ n ∈ e.nodes, st'.SameAt n S) → e.Everywhere Q u := by
  refine e.parts_induction (P := fun e u => ∀ {st st' : State},
    walkExpr e u env st = (.ok (), st') → K (e.order u) st st' → e.nodes.Nodup →
      (∀ n ∈ e.nodes, st'.SameAt n S) → e.Everywhere Q u) (fun e u ih => ?_) u
  intro st st' h hknown hdistinct hS
  rw [walkExpr_eq] at h
  obtain ⟨_, st₁, hparts, hfinish⟩ := run_bind_inv h
  have hnodes := (e.nodes_parts u).nodup_iff.mp hdistinct
  obtain ⟨hnew, hdistinctParts⟩ := List.nodup_cons.mp hnodes
  have horder : walkParts (e.parts u) = finishAll ((e.parts u).flatMap fun p => p.1.order p.2) :=
    walkParts_order fun p _ => walkExpr_order p.1 p.2
  have hone : finishAll [(e, u)] env st₁ = (.ok (), st') := by
    simpa only [finishAll, bind_pure_unit] using hfinish
  rw [e.order_eq] at hknown
  obtain ⟨hbefore, hself⟩ := hK (horder ▸ hparts) hone hknown
  refine ⟨hQ e u st₁ st' hfinish hself hnew hS, ?_⟩
  refine walkParts_everywhere hK (fun p hp st st' => ih p hp) hparts hbefore hdistinctParts
    fun n hn => ?_
  -- the outputs of the parts are those before the expression was finished
  have hne : n ∉ [e.id] := fun hmem => hnew (List.mem_singleton.mp hmem ▸ hn)
  have hsame := finishExpr_local e u env st₁ n hne
  rw [hfinish] at hsame
  exact hsame.trans (hS n ((e.nodes_parts u).mem_iff.mpr (List.mem_cons_of_mem _ hn)))

/-- When the walk over an expression has come to its end, the expression and all its parts are
settled, and stay so as long as their outputs and paths do. -/
theorem walkExpr_settled (e : Expr) (u : Usage) {st st' : State}
    (h : walkExpr e u env st = (.ok (), st')) (hdistinct : e.nodes.Nodup)
    (hS : ∀ n ∈ e.nodes, st'.SameAt n S) : e.Everywhere (Made env S) u :=
  walkExpr_everywhere (K := fun _ _ _ => True) (fun _ _ _ => ⟨trivial, trivial⟩)
    (fun _ _ _ _ hfinish _ hnew hsame => made_of_finish hfinish hnew hsame) e u h trivial hdistinct
    hS

end

/-! ## Steps that bind no variable -/

/-- The scopes, the pool of names, the queue and what nodes mean are the same in both states. -/
structure State.Quiet (st st' : State) : Prop where
  inner : st'.table.inner = st.table.inner
  fileScope : st'.table.fileScope = st.table.fileScope
  pool : st'.table.pool = st.table.pool
  pending : st'.pending = st.pending
  bindings : st'.bindings = st.bindings

namespace State.Quiet

variable {st st₁ st₂ : State}

theorem refl (st : State) : Quiet st st :=
  ⟨rfl, rfl, rfl, rfl, rfl⟩

theorem trans (h₁ : Quiet st st₁) (h₂ : Quiet st₁ st₂) : Quiet st st₂ where
  inner := h₂.inner.trans h₁.inner
  fileScope := h₂.fileScope.trans h₁.fileScope
  pool := h₂.pool.trans h₁.pool
  pending := h₂.pending.trans h₁.pending
  bindings := h₂.bindings.trans h₁.bindings

end State.Quiet

/-- No run of the step binds a variable, names anything or queues a declaration. -/
def Silent {α : Type} (x : Compile α) : Prop :=
  ∀ env st, State.Quiet st (x env st).2

namespace Silent

variable {α β : Type}

theorem pure (a : α) : Silent (Pure.pure a : Compile α) := fun _ st => .refl st

theorem throw (f : Fault) : Silent (MonadExcept.throw f : Compile α) := fun _ st => .refl st

theorem change {f : State → State} (h : ∀ st, State.Quiet st (f st)) :
    Silent (modify f : Compile Unit) := fun _ st => h st

theorem onTable {f : Table → α × Table}
    (h : ∀ st : State, State.Quiet st (st.setTable (f st.table).2)) : Silent (Compile.onTable f) :=
  fun _ st => h st

theorem bind {x : Compile α} {k : α → Compile β} (hx : Silent x) (hk : ∀ a, Silent (k a)) :
    Silent (x >>= k) := by
  intro env st
  rw [run_bind]
  have hfirst := hx env st
  generalize x env st = r at hfirst ⊢
  rcases r with ⟨f | a, st'⟩
  · exact hfirst
  · exact hfirst.trans (hk a env st')

theorem get_bind {k : State → Compile α} (h : ∀ st, Silent (k st)) :
    Silent (get >>= k) := fun env st => h st env st

theorem read_bind {k : Env → Compile α} (h : ∀ env, Silent (k env)) :
    Silent (read >>= k) := fun env st => h env env st

theorem located {x : Compile α} (h : Silent x) (pos : Pos) : Silent (Compile.located pos x) := h

end Silent

theorem resolvePackage_silent (name : String) (pos : Pos) : Silent (resolvePackage name pos) := by
  refine .get_bind fun st => ?_
  split
  · exact .pure _
  · refine .read_bind fun env => ?_
    split
    · exact .throw _
    · split
      · exact .throw _
      · exact .onTable fun _ => ⟨rfl, rfl, rfl, rfl, rfl⟩

theorem resolveUse_silent (pos : Pos) (name : String) : Silent (resolveUse pos name) := by
  unfold resolveUse
  split
  · exact .pure _
  · exact .bind (resolvePackage_silent name pos) fun _ => .pure _

theorem resolvePackageDecl_silent (pos : Pos) (name : String) :
    Silent (resolvePackageDecl pos name) := by
  have hopen (st : State) : State.Quiet st (st.setTable (st.table.openPackage name).2) := by
    unfold Table.openPackage
    split
    · exact .refl st
    · exact ⟨rfl, rfl, rfl, rfl, rfl⟩
  refine .get_bind fun st => ?_
  split
  · exact .pure _
  · refine .bind (.onTable hopen) fun opened => ?_
    split
    · exact .throw _
    · exact .pure _

theorem resolvePragma_silent (targets : List PragmaTarget) (type : Ty) :
    Silent (resolvePragma targets type) := by
  refine .change fun st => ?_
  -- each announcement leaves scopes and names alone
  have hfold (t : Table) : State.Quiet (st.setTable t) (st.setTable
      (targets.foldl (fun t x => t.announce (announceKey x.sigil x.name) type) t)) := by
    induction targets generalizing t with
    | nil => exact .refl _
    | cons x rest ih =>
      have hfirst : State.Quiet (st.setTable t)
          (st.setTable (t.announce (announceKey x.sigil x.name) type)) :=
        ⟨rfl, rfl, rfl, rfl, rfl⟩
      exact hfirst.trans (ih _)
  exact hfold st.table

theorem setOutput_silent (id : Nat) (out : Output) : Silent (setOutput id out) := by
  intro env st
  rw [run_setOutput]
  split
  · exact .refl st
  · exact ⟨rfl, rfl, rfl, rfl, rfl⟩

theorem resolveCall_silent (info : Info) (package name : String) :
    Silent (resolveCall info package name) := by
  have hset (s : Sub) : Silent (setSub info.id s) := .change fun _ => ⟨rfl, rfl, rfl, rfl, rfl⟩
  -- a package that is loaded and a subroutine that is noted are neither scopes nor bindings
  refine .get_bind fun st => ?_
  split
  · exact .pure _
  · split
    · split
      · exact hset _
      · exact .throw _
    · split
      · exact hset _
      · refine .bind (resolvePackage_silent _ _) fun p => ?_
        split
        · exact hset _
        · exact .throw _

theorem lookupVariable_silent (v : Variable) : Silent (lookupVariable v) := by
  refine .get_bind fun st => ?_
  split
  · split
    · exact .pure _
    · exact .throw _
  · split
    · exact .pure _
    · refine .bind (resolvePackage_silent _ _) fun p => ?_
      split
      · exact .pure _
      · exact .throw _

theorem declaredType_silent (v : Variable) (fallback : Option Ty) :
    Silent (declaredType v fallback) := by
  refine .bind (.onTable fun _ => ⟨rfl, rfl, rfl, rfl, rfl⟩) fun announced => ?_
  dsimp only
  split
  · exact .throw _
  · split
    · exact .pure _
    · exact .throw _

/-! ## Outlines -/

/-- A step of a statement that calls no other statement, with the syntax that it is about. -/
inductive Own where
  /-- The walk over an expression. -/
  | expr (e : Expr) (u : Usage)
  /-- The walk over several expressions. -/
  | exprs (es : List Expr) (usage : Nat → Usage)
  /-- The walk over the value that a subroutine ends with. -/
  | value (v : Option Expr)
  /-- The variable of a loop over a list. -/
  | loopVar (info : Info) (var : Option Variable) (implicit : Nat) (list : Expr)
  /-- The mark of a further branch of a condition. -/
  | branch (info : Info)
  /-- The package of the unit. -/
  | package (info : Info) (name : String)
  /-- The use of a package. -/
  | use (info : Info) (name : String)
  /-- The types that a pragma announces. -/
  | pragma (targets : List PragmaTarget) (type : Ty)

theorem packageCheck_steady (i : Info) (name : String) :
    Steady [] (located i.pos (resolvePackageDecl i.pos name)) :=
  (resolvePackageDecl_steady i.pos name).located i.pos

theorem useCheck_steady (i : Info) (name : String) :
    Steady [] (located i.pos (resolveUse i.pos name)) :=
  (resolveUse_steady i.pos name).located i.pos

theorem pragmaCheck_steady (targets : List PragmaTarget) (type : Ty) :
    Steady [] (resolvePragma targets type) :=
  resolvePragma_steady targets type

namespace Own

/-- The step itself. -/
def step : Own → OwnStep
  | expr e u => .expr e u
  | exprs es usage => .exprs es usage
  | value v => .value v
  | loopVar i var implicit list => .loopVar i var implicit list
  | branch i => .branch i
  | package i name =>
    .check (located i.pos (resolvePackageDecl i.pos name)) (packageCheck_steady i name)
  | use i name => .check (located i.pos (resolveUse i.pos name)) (useCheck_steady i name)
  | pragma targets type => .check (resolvePragma targets type) (pragmaCheck_steady targets type)

/-- The expressions that the step finishes, in order. -/
def visits (st : State) : Own → List (Expr × Usage)
  | expr e u => e.order u
  | exprs es usage => Expr.orderList es usage
  | value v => Expr.orderList v.toList fun _ => returnUsage st
  | loopVar _ _ _ _ | branch _ | package _ _ | use _ _ | pragma _ _ => []

/-- The steps that finish expressions and do nothing else. -/
def onlyVisits : Own → Bool
  | expr _ _ | exprs _ _ | value _ => true
  | _ => false

theorem run_visits {o : Own} (h : o.onlyVisits = true) (env : Env) (st : State) :
    o.step.run env st = finishAll (o.visits st) env st := by
  cases o with
  | expr e u => exact congrFun (congrFun (walkExpr_order e u) env) st
  | exprs es usage => exact congrFun (congrFun (walkExprs_order es usage) env) st
  | value v => exact congrFun (congrFun (walkExprs_order v.toList _) env) st
  | _ => cases h

/-- The steps that are about neither expressions nor variables. -/
def checks : Own → Bool
  | branch _ | package _ _ | use _ _ | pragma _ _ => true
  | _ => false

theorem silent {o : Own} (h : o.checks = true) : Silent o.step.run := by
  cases o with
  | branch i => exact (setOutput_silent i.id {}).located i.pos
  | package i name => exact (resolvePackageDecl_silent i.pos name).located i.pos
  | use i name => exact (resolveUse_silent i.pos name).located i.pos
  | pragma targets type => exact resolvePragma_silent targets type
  | _ => cases h

theorem run_quiet {o : Own} {env : Env} {st : State} {r : Except Fault Unit × State}
    (hrun : o.step.run env st = r) (h : o.checks = true) : st.Quiet r.2 :=
  hrun ▸ silent h env st

end Own

/-- What the walk over a statement does, with the syntax that each step is about. -/
inductive Outline where
  /-- The statement is finished. -/
  | finish (s : Stmt)
  /-- A step of the statement itself, then the rest. -/
  | own (step : Own) (rest : Outline)
  /-- A call of another statement with an outline of its own, then the rest. -/
  | call (inner rest : Outline)
  /-- The rest in a block scope. -/
  | inBlock (rest : Outline)
  /-- The rest in the body of a subroutine. -/
  | inSub (info : Info) (name : String) (returns : Option Ty) (rest : Outline)

/-- The plan of an outline. -/
def Outline.toPlan : Outline → Plan
  | finish s => .finish s
  | own o rest => .step o.step rest.toPlan
  | call inner rest => .call inner.toPlan rest.toPlan
  | inBlock rest => .inBlock rest.toPlan
  | inSub info name returns rest => .inSub info name returns rest.toPlan

end Compile

open Compile (Own Outline OwnStep)

mutual

/-- The outline of a statement. -/
def Stmt.outline : Stmt → Outline
  | .block .absent => .finish (.block .absent)
  | .block (.mk i stmts) => .inBlock (Stmt.outlineList stmts (.finish (.block (.mk i stmts))))
  | .expr i e => .own (.expr e .void) (.finish (.expr i e))
  | .cond i negated test yes elsifs no =>
    .own (.expr test .boolean) (yes.outlineBody (Stmt.outlineBranches elsifs
      (no.outlineBody (.finish (.cond i negated test yes elsifs no)))))
  | .loop i negated true test b =>
    b.outlineBody (.own (.expr test .boolean) (.finish (.loop i negated true test b)))
  | .loop i negated false test b =>
    .own (.expr test .boolean) (b.outlineBody (.finish (.loop i negated false test b)))
  | .steps i init test post b =>
    .inBlock (.own (.exprs init fun _ => .void) (.own (.exprs test fun _ => .boolean)
      (.own (.exprs post fun _ => .void) (b.outlineBody (.finish (.steps i init test post b))))))
  | .foreach i var implicit list b =>
    .own (.expr list .list) (.inBlock (.own (.loopVar i var implicit list)
      (b.outlineBody (.finish (.foreach i var implicit list b)))))
  | .ret i value => .own (.value value) (.finish (.ret i value))
  | .sub i name returns b =>
    .inSub i name returns (b.outlineBody (.finish (.sub i name returns b)))
  | .package i name => .own (.package i name) (.finish (.package i name))
  | .use i name => .own (.use i name) (.finish (.use i name))
  | .pragma i targets type => .own (.pragma targets type) (.finish (.pragma i targets type))
  | .jump i keyword => .finish (.jump i keyword)
  | .comment i text => .finish (.comment i text)

/-- Calls a body, if there is one, before the rest of an outline. -/
def Block.outlineBody : Block → Outline → Outline
  | .absent, k => k
  | .mk i stmts, k =>
    .call (.inBlock (Stmt.outlineList stmts (.finish (.block (.mk i stmts))))) k

/-- Calls statements in order before the rest of an outline. -/
def Stmt.outlineList : List Stmt → Outline → Outline
  | [], k => k
  | s :: rest, k =>
    if s.isPresent then .call s.outline (Stmt.outlineList rest k) else Stmt.outlineList rest k

/-- Goes through further branches of a condition before the rest of an outline. -/
def Stmt.outlineBranches : List ElseIf → Outline → Outline
  | [], k => k
  | .mk i test b :: rest, k =>
    .own (.expr test .boolean)
      (b.outlineBody (.own (.branch i) (Stmt.outlineBranches rest k)))

end

mutual

/-- The outline of a statement is its plan. -/
@[simp] theorem Stmt.toPlan_outline : ∀ s : Stmt, s.outline.toPlan = s.plan
  | .block .absent => by rw [Stmt.outline, Stmt.plan, Outline.toPlan]
  | .block (.mk i ss) => by
    rw [Stmt.outline, Stmt.plan, Outline.toPlan, Stmt.toPlan_outlineList, Outline.toPlan]
  | .cond i negated test yes elsifs no => by
    rw [Stmt.outline, Stmt.plan, Outline.toPlan, Block.toPlan_outlineBody,
      Stmt.toPlan_outlineBranches, Block.toPlan_outlineBody, Outline.toPlan]
    rfl
  | .loop i negated true test b => by
    rw [Stmt.outline, Stmt.plan, Block.toPlan_outlineBody]
    rfl
  | .loop i negated false test b => by
    rw [Stmt.outline, Stmt.plan, Outline.toPlan, Block.toPlan_outlineBody]
    rfl
  | .steps i init test post b => by
    rw [Stmt.outline, Stmt.plan]
    simp only [Outline.toPlan, Block.toPlan_outlineBody]
    rfl
  | .foreach i var implicit list b => by
    rw [Stmt.outline, Stmt.plan]
    simp only [Outline.toPlan, Block.toPlan_outlineBody]
    rfl
  | .sub i name returns b => by
    rw [Stmt.outline, Stmt.plan, Outline.toPlan, Block.toPlan_outlineBody]
    rfl
  | .expr _ _ | .ret _ _ | .package _ _ | .use _ _ | .pragma _ _ _ | .jump _ _ | .comment _ _ => by
    rw [Stmt.outline, Stmt.plan]
    rfl

theorem Block.toPlan_outlineBody : ∀ (b : Block) (k : Outline),
    (b.outlineBody k).toPlan = b.planBody k.toPlan
  | .absent, k => by rw [Block.outlineBody, Block.planBody]
  | .mk i ss, k => by
    rw [Block.outlineBody, Block.planBody, Outline.toPlan, Outline.toPlan,
      Stmt.toPlan_outlineList, Outline.toPlan]

theorem Stmt.toPlan_outlineList : ∀ (ss : List Stmt) (k : Outline),
    (Stmt.outlineList ss k).toPlan = Stmt.planList ss k.toPlan
  | [], k => by rw [Stmt.outlineList, Stmt.planList]
  | s :: rest, k => by
    unfold Stmt.outlineList Stmt.planList
    split
    · rw [Outline.toPlan, Stmt.toPlan_outline, Stmt.toPlan_outlineList]
    · exact Stmt.toPlan_outlineList rest k

theorem Stmt.toPlan_outlineBranches : ∀ (bs : List ElseIf) (k : Outline),
    (Stmt.outlineBranches bs k).toPlan = Stmt.planBranches bs k.toPlan
  | [], k => by rw [Stmt.outlineBranches, Stmt.planBranches]
  | .mk i test b :: rest, k => by
    rw [Stmt.outlineBranches, Stmt.planBranches, Outline.toPlan, Block.toPlan_outlineBody,
      Outline.toPlan, Stmt.toPlan_outlineBranches]
    rfl

end

end TypedPerl
