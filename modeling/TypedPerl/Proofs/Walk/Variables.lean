import Mathlib.Data.List.Nodup
import Mathlib.Data.List.Perm.Subperm
import TypedPerl.Proofs.Walk.Hoisting
import TypedPerl.Proofs.Walk.Lexical

/-!
# The variables of a statement

A statement names variables in its own expressions, which its plan visits one after the other:
`Stmt.vars` lists them, and says of each whether its value is used. A variable of a method that
is declared where its value is used is queued, to be declared before the statement, and all else
that is queued are auxiliary variables (`Outline.queued_named`). Each variable of a numbered tree is
a variable of one statement (`treeVars_nodup`).
-/

namespace TypedPerl

/-! ## Usages that are not void -/

@[simp] theorem isVoid_leftUsage (op : String) (u : Usage) : (leftUsage op u).isVoid = false := by
  unfold leftUsage
  split <;> rfl

@[simp] theorem isVoid_keyUsage (key : Expr) (context : Sigil) :
    (keyUsage key context).isVoid = false := by
  unfold keyUsage
  split <;> split <;> rfl

@[simp] theorem isVoid_sourceUsage (left : Expr) : (sourceUsage left).isVoid = false := by
  unfold sourceUsage
  split <;> rfl

@[simp] theorem isVoid_operandUsage (op : String) : (operandUsage op).isVoid = false := by
  unfold operandUsage
  split <;> rfl

@[simp] theorem isVoid_branchUsage (u : Usage) : (branchUsage u).isVoid = false := by
  unfold branchUsage
  split <;> rfl

@[simp] theorem isVoid_argUsage (package name : String) (i : Nat) :
    (argUsage package name i).isVoid = false := by
  unfold argUsage
  split
  · rfl
  · split
    · rfl
    · split
      · rfl
      · split <;> rfl

@[simp] theorem isVoid_targetUsage (op : String) (u : Usage) :
    (targetUsage op u).isVoid = (decide (op = "=") && u.isVoid) := by
  unfold targetUsage
  split
  · next h =>
    cases hu : u.isVoid <;> simp [Usage.isVoid, h]
  · next h => simp [h, Usage.isVoid, Usage.update]

@[simp] theorem isVoid_rightUsage (op : String) (u : Usage) :
    (rightUsage op u).isVoid = (isLogical op && u.isVoid) := by
  unfold rightUsage
  split
  · next h =>
    rw [h]
    rfl
  · next h =>
    rw [isVoid_leftUsage]
    exact (Bool.eq_false_iff.mpr h).symm

@[simp] theorem isVoid_elementUsage (count : Nat) (u : Usage) :
    (elementUsage count u).isVoid = u.isVoid := by
  unfold elementUsage
  cases hu : u.isVoid
  · rw [Bool.false_and, if_neg Bool.false_ne_true]
    split
    · exact hu
    · split
      · rfl
      · exact hu
  · cases ha : u.assigned
    · rfl
    · exact hu

namespace Expr

/-- Parts of an expression whose value is used have values that are used. -/
theorem parts_used {e : Expr} {u : Usage} (h : u.isVoid = false) :
    ∀ p ∈ e.parts u, p.2.isVoid = false := by
  intro p hp
  -- where the use of a part depends on that of the whole, it is a statement only if the whole is
  -- one
  cases e with
  | number | undef | var => exact absurd hp List.not_mem_nil
  | string i pieces es | anonArray i es t | anonHash i es t =>
    obtain ⟨x, -, rfl⟩ := List.mem_map.mp hp
    rfl
  | list i es =>
    obtain ⟨x, -, rfl⟩ := List.mem_map.mp hp
    simp [h]
  | call i package name args =>
    obtain ⟨n, -, rfl⟩ := List.mem_mapIdx.mp hp
    simp
  | index i throughRef target key brace context =>
    simp only [parts, List.mem_cons, List.not_mem_nil, or_false] at hp
    rcases hp with rfl | rfl
    · cases throughRef <;> rfl
    · simp
  | deref | makeRef | incDec =>
    obtain rfl := List.mem_singleton.mp hp
    rfl
  | unary =>
    obtain rfl := List.mem_singleton.mp hp
    simp
  | assign i op left right | binary i op left right =>
    simp only [parts, List.mem_cons, List.not_mem_nil, or_false] at hp
    rcases hp with rfl | rfl <;> simp [h]
  | ternary i cond yes no =>
    simp only [parts, List.mem_cons, List.not_mem_nil, or_false] at hp
    rcases hp with rfl | rfl | rfl
    · rfl
    · simp
    · simp

/-- In an expression whose value is used every value is used. -/
theorem order_used (e : Expr) {u : Usage} (h : u.isVoid = false) :
    ∀ p ∈ e.order u, p.2.isVoid = false := by
  refine e.parts_induction (P := fun e u => u.isVoid = false → ∀ p ∈ e.order u, p.2.isVoid = false)
    (fun e u ih h p hp => ?_) u h
  rw [order_eq] at hp
  rcases List.mem_append.mp hp with hp | hp
  · obtain ⟨q, hq, hp⟩ := List.mem_flatMap.mp hp
    exact ih q hq (parts_used h q hq) p hp
  · rw [List.mem_singleton.mp hp]
    exact h

theorem parts_fst (e : Expr) (u w : Usage) : (e.parts u).map (·.1) = (e.parts w).map (·.1) := by
  cases e with
  | list => simp [parts, Function.comp_def]
  | _ => rfl

/-- The usage does not change the order of the walk. -/
theorem order_fst (e : Expr) (u w : Usage) : (e.order u).map (·.1) = (e.order w).map (·.1) := by
  refine e.parts_induction (P := fun e u => ∀ w, (e.order u).map (·.1) = (e.order w).map (·.1))
    (fun e u ih w => ?_) u w
  -- by parts of any usage, the order is that of the parts where nothing is used
  have hparts (w : Usage) : ((e.parts w).flatMap fun p => p.1.order p.2).map (·.1) =
      ((e.parts u).map (·.1)).flatMap fun x => (x.order .void).map (·.1) := by
    rw [e.parts_fst u w, List.map_flatMap, List.flatMap_map]
    refine List.flatMap_congr fun q hq => ?_
    have hmem : q.1 ∈ (e.parts u).map (·.1) := by
      rw [e.parts_fst u w]
      exact List.mem_map_of_mem hq
    obtain ⟨p, hp, heq⟩ := List.mem_map.mp hmem
    rw [← heq]
    exact (ih p hp q.2).symm.trans (ih p hp .void)
  rw [order_eq, order_eq, List.map_append, List.map_append, hparts u, hparts w]
  rfl

/-- Visited expressions, each with a mark that says that its value is not used. -/
def marked (ps : List (Expr × Usage)) : List (Expr × Bool) :=
  ps.map fun p => (p.1, p.2.isVoid)

/-- Where all values are used, the usages do not matter. -/
theorem marked_used {ps qs : List (Expr × Usage)} (h : ps.map (·.1) = qs.map (·.1))
    (hps : ∀ p ∈ ps, p.2.isVoid = false) (hqs : ∀ q ∈ qs, q.2.isVoid = false) :
    marked ps = marked qs := by
  have hflat {ps : List (Expr × Usage)} (hps : ∀ p ∈ ps, p.2.isVoid = false) :
      marked ps = (ps.map (·.1)).map (·, false) := by
    rw [marked, List.map_map]
    refine List.map_congr_left fun p hp => ?_
    rw [hps p hp]
    rfl
  rw [hflat hps, hflat hqs, h]

/-- The variables among visited expressions, with their marks. -/
def varsIn (ps : List (Expr × Usage)) : List (Variable × Bool) :=
  (marked ps).filterMap fun p => match p.1 with
    | var v => some (v, p.2)
    | _ => none

@[simp] theorem varsIn_nil : varsIn [] = [] := rfl

theorem varsIn_var (v : Variable) (u : Usage) (ps : List (Expr × Usage)) :
    varsIn ((var v, u) :: ps) = (v, u.isVoid) :: varsIn ps := rfl

theorem varsIn_append (ps qs : List (Expr × Usage)) :
    varsIn (ps ++ qs) = varsIn ps ++ varsIn qs := by
  rw [varsIn, marked, List.map_append]
  exact List.filterMap_append

end Expr

namespace Compile

/-! ## Variables of outlines -/

/-- The variables that the step visits, in order. -/
def Own.vars : Own → List (Variable × Bool)
  | expr e u => Expr.varsIn (e.order u)
  | exprs es usage => Expr.varsIn (Expr.orderList es usage)
  | value v => Expr.varsIn (Expr.orderList v.toList fun _ => .scalar)
  | loopVar i var implicit _ => [(var.getD (Stmt.implicitVar i implicit), true)]
  | branch _ | package _ _ | use _ _ | pragma _ _ => []

/-- The variables that the steps of the statement itself visit, in order. -/
def Outline.vars : Outline → List (Variable × Bool)
  | finish _ => []
  | own o rest => o.vars ++ rest.vars
  | call _ rest | inBlock rest | inSub _ _ _ rest => rest.vars

theorem isVoid_returnUsage (st : State) : (returnUsage st).isVoid = false := by
  unfold returnUsage
  split
  · split <;> rfl
  · rfl

/-- The value of a return is used, whatever the subroutine returns. -/
theorem marked_value (v : Option Expr) (st : State) :
    Expr.marked (Expr.orderList v.toList fun _ => returnUsage st) =
      Expr.marked (Expr.orderList v.toList fun _ => .scalar) := by
  cases v with
  | none => rfl
  | some e =>
    simp only [Option.toList_some, Expr.orderList, List.append_nil]
    exact Expr.marked_used (e.order_fst _ _) (e.order_used (isVoid_returnUsage st))
      (e.order_used rfl)

theorem Own.varsIn_visits {o : Own} (h : o.onlyVisits = true) (st : State) :
    Expr.varsIn (o.visits st) = o.vars := by
  cases o with
  | expr | exprs => rfl
  | value v => exact congrArg (List.filterMap _) (marked_value v st)
  | _ => cases h

/-! ## What nodes mean stays -/

/-- Nodes mean in the second state what they mean in the first. -/
def State.Known (st st' : State) : Prop :=
  ∀ n b, st.bindings.get? n = some b → st'.bindings.get? n = some b

namespace State.Known

variable {st st₁ st₂ : State}

theorem refl (st : State) : Known st st := fun _ _ h => h

theorem of_eq (h : st₁.bindings = st.bindings) : Known st st₁ := by
  intro n b hn
  rw [h]
  exact hn

theorem trans (h₁ : Known st st₁) (h₂ : Known st₁ st₂) : Known st st₂ :=
  fun n b h => h₂ n b (h₁ n b h)

end State.Known

theorem State.Logs.known {log : List Event} {st st' : State} (h : State.Logs log st st') :
    st.Known st' :=
  fun n b hn => (h.bindings n b).mpr (.inl hn)

section

variable {st st' : State} {v : Variable} {b : Binding}

theorem State.Known.binding (h : st.Known st') (hb : st.binding? v = some b) :
    st'.binding? v = some b :=
  h _ _ hb

theorem State.Known.isLocalDecl (h : st.Known st') (hb : st.binding? v = some b) :
    st'.isLocalDecl v = st.isLocalDecl v := by
  rw [State.isLocalDecl, State.isLocalDecl, h.binding hb, hb]

end

/-! ## The queue -/

end Compile

/-- The declaration is one of a variable of the source, which starts with a value. -/
def Declaration.isNamed (d : Declaration) : Bool :=
  d.init ≠ ""

theorem Java.emptyOf_ne (t : Ty) : Java.emptyOf t ≠ "" := by
  have hne {c : Char} {cs : List Char} {s : String} (h : s.toList = c :: cs) : s ≠ "" := by
    rintro rfl
    cases h
  unfold Java.emptyOf Java.newAggregate
  split
  · unfold Java.newArray
    rw [String.append_assoc, String.append_assoc, String.append_assoc, String.append_assoc]
    exact hne (String.toList_append)
  · exact hne rfl
  · exact hne rfl
  · exact hne rfl

namespace Compile

/-- What a visited variable has declared before its statement: itself, if it is a variable of a
method that is declared where its value is used. -/
def State.hoistedAt (st : State) (p : Variable × Bool) : List Declaration :=
  if st.isLocalDecl p.1 && !p.2 then (st.binding? p.1).toList.map hoisted else []

theorem State.hoists_var (st : State) (v : Variable) (u : Usage) :
    (st.hoists (.var v) u).map hoisted = st.hoistedAt (v, u.isVoid) := by
  unfold State.hoists State.hoistedAt
  dsimp only
  split
  · rfl
  · rfl

theorem State.Known.hoistedAt {st st' : State} {v : Variable} {b : Binding} (h : st.Known st')
    (hb : st.binding? v = some b) (void : Bool) :
    st'.hoistedAt (v, void) = st.hoistedAt (v, void) := by
  unfold State.hoistedAt
  rw [h.isLocalDecl hb, h.binding hb, hb]

theorem State.hoistedAt_named (st : State) (p : Variable × Bool) :
    (st.hoistedAt p).filter Declaration.isNamed = st.hoistedAt p := by
  refine List.filter_eq_self.mpr fun d hd => ?_
  unfold State.hoistedAt at hd
  split at hd
  · obtain ⟨b, -, rfl⟩ := List.mem_map.mp hd
    exact decide_eq_true (Java.emptyOf_ne b.type)
  · cases hd

/-- Between the two states declarations are queued, of which those with names are `named`, and the
others are those of auxiliary variables that are drawn. -/
structure State.Queues (st st' : State) (named : List Declaration) : Prop where
  count : st.table.pool.count "" ≤ st'.table.pool.count ""
  queue : ∃ ds, st'.pending.decls = st.pending.decls ++ ds ∧
    ds.filter Declaration.isNamed = named ∧
    Drawn (st.table.pool.count "") (st'.table.pool.count "")
      ((ds.filter fun d => !d.isNamed).map (·.javaName))

namespace State.Queues

variable {st st₁ st₂ : State} {named more : List Declaration}

theorem of_same (hcount : st.table.pool.count "" ≤ st₁.table.pool.count "")
    (h : st₁.pending = st.pending) : Queues st st₁ [] :=
  ⟨hcount, [], by rw [h, List.append_nil], rfl, .nil⟩

theorem quiet (h : State.Quiet st st₁) : Queues st st₁ [] := by
  refine .of_same (Nat.le_of_eq ?_) h.pending
  rw [h.pool]

theorem append (h₁ : Queues st st₁ named) (h₂ : Queues st₁ st₂ more) :
    Queues st st₂ (named ++ more) := by
  obtain ⟨ds, hds, rfl, hdrawn⟩ := h₁.queue
  obtain ⟨es, hes, rfl, hmore⟩ := h₂.queue
  refine ⟨Nat.le_trans h₁.count h₂.count, ds ++ es, ?_, List.filter_append .., ?_⟩
  · rw [hes, hds, List.append_assoc]
  · rw [List.filter_append, List.map_append]
    exact hdrawn.append hmore h₁.count h₂.count

theorem draws (h : State.Draws st st₁) : Queues st st₁ [] := by
  obtain ⟨ds, hds, hdrawn, hinit⟩ := h.queue
  have hunnamed : ∀ d ∈ ds, d.isNamed = false := fun d hd => by
    simp [Declaration.isNamed, hinit d hd]
  refine ⟨h.count, ds, hds, List.filter_eq_nil_iff.mpr fun d hd => ?_, ?_⟩
  · rw [hunnamed d hd]
    exact Bool.false_ne_true
  · have hall : ds.filter (fun d => !d.isNamed) = ds :=
      List.filter_eq_self.mpr fun d hd => by rw [hunnamed d hd]; rfl
    rw [hall]
    exact hdrawn

theorem queuedSince (h : Queues st st₁ named) :
    (st.queuedSince st₁).filter Declaration.isNamed = named := by
  obtain ⟨ds, hds, rfl, -⟩ := h.queue
  rw [State.queuedSince, hds, Pending.size, List.drop_left]

end State.Queues

/-- Resolving a variable queues nothing. -/
theorem VariableStep.queues {env : Env} {st : State} {v : Variable}
    {r : Except Fault Unit × State} (h : VariableStep env st v r) :
    State.Queues st r.2 [] := by
  cases h with
  | known => exact .quiet (.refl st)
  | @declared st₁ _ _ hq t =>
    -- a declaration may number the name of its variable, but never an auxiliary
    refine .of_same ?_ hq.pending
    rw [← hq.pool]
    exact st₁.table.count_declare v.name v.sigil t (v.decl = .our) ""
  | refused _ _ hq => exact .quiet hq
  | found _ _ hrun =>
    have hq := lookupVariable_silent v env st
    rw [hrun] at hq
    exact .of_same (Nat.le_of_eq (congrArg (·.count "") hq.pool.symm)) hq.pending
  | missing _ _ hrun =>
    have hq := lookupVariable_silent v env st
    rw [hrun] at hq
    exact .quiet hq

/-- Generating a variable that is resolved, and keeping what comes of it. -/
theorem keptVariable_queues {v : Variable} {b : Binding} {u : Usage} {env : Env} {st st' : State}
    (hb : st.binding? v = some b)
    (h : (variableOutput v u >>= fun out => setOutput v.info.id out) env st = (.ok (), st')) :
    st'.bindings = st.bindings ∧ State.Queues st st' (st.hoistedAt (v, u.isVoid)) := by
  obtain ⟨fields, hrun⟩ := run_variableOutput hb u env
  rw [run_bind_ok hrun, run_setOutput] at h
  split at h
  · cases h
  · cases h
    have hnamed := st.hoistedAt_named (v, u.isVoid)
    -- what is hoisted has a name, so no auxiliary is among it
    have hnone : (st.hoistedAt (v, u.isVoid)).filter (fun d => !d.isNamed) = [] :=
      List.filter_eq_nil_iff.mpr fun d hd => by simp [List.filter_eq_self.mp hnamed d hd]
    refine ⟨rfl, Nat.le_refl _, (st.hoists (.var v) u).map hoisted, rfl, ?_⟩
    rw [State.hoists_var, hnone]
    exact ⟨hnamed, .nil⟩

/-- How an expression is finished: a variable is resolved, generated and kept; anything else is
resolved without a change to names, and draws auxiliary identifiers when it is generated. -/
theorem finishExpr_cases {e : Expr} {u : Usage} {env : Env} {st st' : State}
    (h : finishExpr e u env st = (.ok (), st')) :
    (∃ v st₁ b, e = .var v ∧ VariableStep env st v (.ok (), st₁) ∧ st₁.binding? v = some b ∧
      (variableOutput v u >>= fun out => setOutput v.info.id out) env st₁ = (.ok (), st')) ∨
    Expr.varsIn [(e, u)] = [] ∧ ∃ st₁, State.Quiet st st₁ ∧ State.Draws st₁ st' := by
  obtain ⟨_, st₁, hresolve, hgenerate⟩ := run_bind_inv h
  have hresolve := run_located_inv hresolve
  have hgenerate := run_located_inv hgenerate
  -- any node but a variable queues auxiliaries only
  have hdraws (he : isVar e = false) : State.Draws st₁ st' := by
    have hdrawing : Drawing (exprOutput e u >>= fun out => setOutput e.id out) :=
      (exprOutput_drawing he u).bind fun out => setOutput_drawing e.id out
    have hstep := hdrawing env st₁
    rw [hgenerate] at hstep
    exact hstep
  cases e with
  | var v =>
    have hstep := resolveVariableWith_step v none env st
    rw [show resolveVariableWith v none env st = _ from hresolve] at hstep
    obtain ⟨b, hb⟩ := hstep.bound
    exact .inl ⟨v, st₁, b, rfl, hstep, hb, hgenerate⟩
  | call i package name args =>
    have hquiet := resolveCall_silent i package name env st
    rw [show resolveCall i package name env st = _ from hresolve] at hquiet
    exact .inr ⟨rfl, st₁, hquiet, hdraws rfl⟩
  | _ =>
    cases hresolve
    exact .inr ⟨rfl, st, .refl st, hdraws rfl⟩

/-- Finishing an expression queues the variable that it is, if that is to be declared, and else
auxiliary variables. -/
theorem finishExpr_queues {e : Expr} {u : Usage} {env : Env} {st st' F : State}
    (h : finishExpr e u env st = (.ok (), st')) (hF : st'.Known F) :
    State.Queues st st' ((Expr.varsIn [(e, u)]).flatMap F.hoistedAt) := by
  rcases finishExpr_cases h with ⟨v, st₁, b, rfl, hstep, hb, hgenerate⟩ | ⟨hvars, st₁, hquiet, hdraws⟩
  · obtain ⟨hbindings, hqueues⟩ := keptVariable_queues hb hgenerate
    have hknown : st₁.Known F := (State.Known.of_eq hbindings).trans hF
    have hall := hstep.queues.append hqueues
    rw [List.nil_append, ← hknown.hoistedAt hb] at hall
    rw [Expr.varsIn_var, Expr.varsIn_nil, List.flatMap_singleton]
    exact hall
  · rw [hvars]
    exact (State.Queues.quiet hquiet).append (.draws hdraws)

theorem finishAll_queues (ps : List (Expr × Usage)) {env : Env} {F : State} :
    ∀ {st st' : State}, finishAll ps env st = (.ok (), st') → st'.Known F →
      State.Queues st st' ((Expr.varsIn ps).flatMap F.hoistedAt) := by
  induction ps with
  | nil =>
    intro st st' h _
    cases h
    exact .quiet (.refl st)
  | cons p rest ih =>
    intro st st' h hF
    obtain ⟨_, st₁, hfirst, hrest⟩ := run_bind_inv h
    have hlogs := finishAll_logs rest env st₁
    rw [hrest] at hlogs
    -- what the first node queued stands before what the others queue
    have hall := (finishExpr_queues hfirst (hlogs.known.trans hF)).append (ih hrest hF)
    rw [← List.flatMap_append, ← Expr.varsIn_append] at hall
    exact hall

/-- How the variable of a loop is walked: it is found, resolved and generated. -/
theorem loopVar_inv {i : Info} {var : Option Variable} {implicit : Nat} {list : Expr} {env : Env}
    {st st' : State} (h : (OwnStep.loopVar i var implicit list).run env st = (.ok (), st')) :
    ∃ st₁ st₂, st.Quiet st₁ ∧
      VariableStep env st₁ (var.getD (Stmt.implicitVar i implicit)) (.ok (), st₂) ∧
      (variableOutput (var.getD (Stmt.implicitVar i implicit)) .void >>= fun out =>
        setOutput (var.getD (Stmt.implicitVar i implicit)).info.id out) env st₂ =
          (.ok (), st') := by
  obtain ⟨st₁, hmade, hquiet⟩ := run_loopVariable i var implicit env st
  -- the variable has been made or was given; from here on both are walked alike
  have hwalk : walkLoopVariable (var.getD (Stmt.implicitVar i implicit)) list env st₁ =
      (.ok (), st') := (run_bind_ok hmade).symm.trans h
  obtain ⟨_, st₂, hresolve, hgenerate⟩ := run_bind_inv
    (x := resolveVariableWith (var.getD (Stmt.implicitVar i implicit)) (loopType st₁ list)) hwalk
  refine ⟨st₁, st₂, hquiet, ?_, run_located_inv hgenerate⟩
  rw [← show resolveVariableWith _ (loopType st₁ list) env st₁ = _ from hresolve]
  exact resolveVariableWith_step _ _ env st₁

/-- A step of a statement queues the variables of it that are to be declared before the statement,
and auxiliary variables. -/
theorem Own.run_queues {o : Own} {env : Env} {st st' F : State}
    (h : o.step.run env st = (.ok (), st')) (hF : st'.Known F) :
    State.Queues st st' (o.vars.flatMap F.hoistedAt) := by
  cases o with
  | expr | exprs | value =>
    rw [Own.run_visits rfl] at h
    rw [← Own.varsIn_visits rfl st]
    exact finishAll_queues _ h hF
  | loopVar i var implicit list =>
    obtain ⟨st₁, st₂, hquiet, hstep, hgenerate⟩ := loopVar_inv h
    obtain ⟨b, hb⟩ := hstep.bound
    obtain ⟨-, hqueues⟩ := keptVariable_queues hb hgenerate
    -- the variable of a loop is declared by the loop
    have hnone (st : State) (v : Variable) : st.hoistedAt (v, true) = [] := by
      simp [State.hoistedAt]
    have hvoid : Usage.void.isVoid = true := rfl
    rw [hvoid, hnone] at hqueues
    simp only [Own.vars, List.flatMap_cons, List.flatMap_nil, hnone]
    exact ((State.Queues.quiet hquiet).append hstep.queues).append hqueues
  | branch | package | use | pragma =>
    exact .quiet (Own.run_quiet h rfl)

/-- The declarations with names that a run queues itself are those of its variables that are to be
declared before the statement. -/
theorem Outline.queued_named (p : Outline) (env : Env) {F : State} :
    ∀ {mark : Nat} {outer : List Nat} {st : State}, p.toPlan.Ready mark outer st →
      (p.toPlan.exec env st).1 = .ok () → (p.toPlan.exec env st).2.Known F →
      (p.toPlan.queued env st).filter Declaration.isNamed = p.vars.flatMap F.hoistedAt := by
  induction p with
  | finish s =>
    intro mark outer st _ _ _
    exact (State.Queues.draws (stmtCode_drawing s env st)).queuedSince
  | own o rest ih =>
    intro mark outer st h hok hF
    obtain ⟨st₁, hrun, hexec⟩ := Plan.exec_step_inv hok
    have hready := h.behind_run hrun
    rw [toPlan, hexec] at hok hF
    have hknown := (rest.exec_logs env hready).known
    rw [toPlan, Plan.queued, hrun]
    -- this step queues its own variables, and the rest those behind it
    dsimp only
    rw [List.filter_append, (Own.run_queues hrun (hknown.trans hF)).queuedSince,
      ih hready hok hF, vars, List.flatMap_append]
  | call inner rest _ ih =>
    intro mark outer st h hok hF
    rw [toPlan, Plan.exec_call] at hok hF
    exact ih (h.behind (h.calls env)) hok hF
  | inBlock rest ih =>
    intro mark outer st h hok hF
    rw [toPlan, Plan.exec_inBlock] at hok hF
    exact ih h.inBlock hok hF
  | inSub i name returns rest ih =>
    intro mark outer st h hok hF
    obtain ⟨st₁, henter, ho, -⟩ := Plan.enterSub_opened i name returns env st
    rw [toPlan, Plan.exec_inSub henter] at hok hF
    rw [toPlan, Plan.queued, henter]
    dsimp only
    -- the parameter of a subroutine is declared with it and never queued
    rw [List.filter_append, State.queuedSince_same ho.pending, List.filter_nil, List.nil_append]
    exact ih (h.opened ho rfl) hok hF

/-! ## Each variable belongs to one statement -/

/-- Each statement that is called in the outline is called with its own outline. -/
def Outline.Nested : Outline → Prop
  | finish _ => True
  | own _ rest | inBlock rest | inSub _ _ _ rest => rest.Nested
  | call inner rest => inner = inner.toPlan.stmt.outline ∧ inner.Nested ∧ rest.Nested

mutual

/-- The outline of a statement calls statements with their own outlines. -/
theorem nested_outline : ∀ s : Stmt, s.outline.Nested
  | .block .absent => by
    rw [Stmt.outline]
    trivial
  | .block (.mk i ss) => by
    rw [Stmt.outline]
    exact nested_outlineList ss trivial
  | .cond i negated test yes elsifs no => by
    rw [Stmt.outline]
    exact nested_outlineBody yes (nested_outlineBranches elsifs (nested_outlineBody no trivial))
  | .loop i negated true test b | .loop i negated false test b | .steps i _ _ _ b
  | .foreach i _ _ _ b | .sub i _ _ b => by
    rw [Stmt.outline]
    exact nested_outlineBody b trivial
  | .expr _ _ | .ret _ _ | .package _ _ | .use _ _ | .pragma _ _ _ | .jump _ _ | .comment _ _ => by
    rw [Stmt.outline]
    trivial

theorem nested_outlineBody : ∀ (b : Block) {k : Outline}, k.Nested → (b.outlineBody k).Nested
  | .absent, k, hk => by
    rw [Block.outlineBody]
    exact hk
  | .mk i ss, k, hk => by
    have hinner : (Stmt.block (.mk i ss)).outline =
        .inBlock (Stmt.outlineList ss (.finish (.block (.mk i ss)))) := by rw [Stmt.outline]
    rw [Block.outlineBody, ← hinner]
    refine ⟨?_, ?_, hk⟩
    · rw [Stmt.toPlan_outline, Stmt.stmt_plan]
    · rw [hinner]
      exact nested_outlineList ss trivial

theorem nested_outlineList : ∀ (ss : List Stmt) {k : Outline}, k.Nested →
    (Stmt.outlineList ss k).Nested
  | [], k, hk => by
    rw [Stmt.outlineList]
    exact hk
  | s :: rest, k, hk => by
    unfold Stmt.outlineList
    split
    · refine ⟨?_, nested_outline s, nested_outlineList rest hk⟩
      rw [Stmt.toPlan_outline, Stmt.stmt_plan]
    · exact nested_outlineList rest hk

theorem nested_outlineBranches : ∀ (bs : List ElseIf) {k : Outline}, k.Nested →
    (Stmt.outlineBranches bs k).Nested
  | [], k, hk => by
    rw [Stmt.outlineBranches]
    exact hk
  | .mk i test b :: rest, k, hk => by
    rw [Stmt.outlineBranches]
    have hrest : (Outline.own (.branch i) (Stmt.outlineBranches rest k)).Nested :=
      nested_outlineBranches rest hk
    exact nested_outlineBody b hrest

end

/-- The variables that the outline visits, those of called statements included. -/
def Outline.deepVars : Outline → List (Variable × Bool)
  | finish _ => []
  | own o rest => o.vars ++ rest.deepVars
  | call inner rest => inner.deepVars ++ rest.deepVars
  | inBlock rest | inSub _ _ _ rest => rest.deepVars

end Compile

/-- The variables that the statement names itself, outside of the statements in it. The mark says
that the value of the variable is not used. -/
def Stmt.vars (s : Stmt) : List (Variable × Bool) :=
  s.outline.vars

namespace Compile

/-- The variables that an outline visits are those of the statements that it calls and its own. -/
theorem Outline.deepVars_perm (p : Outline) (h : p.Nested) :
    p.deepVars.Perm (p.toPlan.stmts.flatMap Stmt.vars ++ p.vars) := by
  induction p with
  | finish s => exact .refl _
  | own o rest ih =>
    rw [deepVars, vars, toPlan, Plan.stmts]
    exact ((ih h).append_left _).trans (List.perm_append_comm_assoc _ _ _)
  | call inner rest ihInner ihRest =>
    -- the variables of the nested statement are those of its own outline
    obtain ⟨hinner, hnested, hrest⟩ := h
    have hown : inner.vars = inner.toPlan.stmt.vars := congrArg Outline.vars hinner
    rw [deepVars, vars, toPlan, Plan.stmts, List.flatMap_append, List.flatMap_cons, ← hown]
    exact ((ihInner hnested).append (ihRest hrest)).trans (by simp)
  | inBlock rest ih => exact ih h
  | inSub i name returns rest ih => exact ih h

theorem varsIn_sublist (ps : List (Expr × Usage)) :
    ((Expr.varsIn ps).map (·.1.info.id)).Sublist (ps.map (·.1.id)) := by
  induction ps with
  | nil => exact .refl _
  | cons p rest ih =>
    obtain ⟨e, u⟩ := p
    cases e with
    | var v => exact ih.cons_cons _
    | _ => exact ih.cons _

theorem varsIn_subperm (e : Expr) (u : Usage) :
    ((Expr.varsIn (e.order u)).map (·.1.info.id)).Subperm e.nodes := by
  have hperm := (e.order_perm u).map Expr.id
  rw [List.map_map] at hperm
  exact (varsIn_sublist _).subperm.trans hperm.subperm

theorem varsIn_orderList_subperm (es : List Expr) (usage : Nat → Usage) :
    ((Expr.varsIn (Expr.orderList es usage)).map (·.1.info.id)).Subperm (Expr.nodesList es) := by
  induction es generalizing usage with
  | nil => exact List.nil_subperm
  | cons e rest ih =>
    rw [Expr.orderList, Expr.varsIn_append, List.map_append, Expr.nodesList_cons]
    exact (varsIn_subperm e _).append (ih _)

/-- The variables that a step visits are nodes that it generates. -/
theorem Own.vars_subperm (o : Own) : (o.vars.map (·.1.info.id)).Subperm o.step.nodes := by
  cases o with
  | expr e u => exact varsIn_subperm e u
  | exprs es usage => exact varsIn_orderList_subperm es usage
  | value v => exact varsIn_orderList_subperm _ _
  | loopVar i var implicit list => exact .refl _
  | branch | package | use | pragma => exact List.nil_subperm

theorem Outline.deepVars_subperm (p : Outline) :
    (p.deepVars.map (·.1.info.id)).Subperm p.toPlan.nodes := by
  induction p with
  | finish s => exact List.nil_subperm
  | own o rest ih =>
    rw [deepVars, List.map_append]
    exact o.vars_subperm.append ih
  | call inner rest ihInner ihRest =>
    rw [deepVars, List.map_append]
    exact ihInner.append ihRest
  | inBlock rest ih => exact ih
  | inSub i name returns rest ih => exact ih

theorem mem_varsIn {ps : List (Expr × Usage)} {v : Variable} :
    v ∈ (Expr.varsIn ps).map (·.1) ↔ .var v ∈ ps.map (·.1) := by
  induction ps with
  | nil => simp
  | cons p rest ih =>
    obtain ⟨e, u⟩ := p
    cases e with
    | var w =>
      rw [Expr.varsIn_var, List.map_cons, List.map_cons, List.mem_cons, List.mem_cons, ih,
        Expr.var.injEq]
    | _ =>
      rw [List.map_cons, List.mem_cons, ← ih]
      exact ⟨.inr, fun h => h.resolve_left (by simp)⟩

theorem mem_varsIn_order (e : Expr) (u : Usage) (v : Variable) :
    v ∈ (Expr.varsIn (e.order u)).map (·.1) ↔ .var v ∈ e.preorder := by
  rw [mem_varsIn, (e.order_perm u).mem_iff]

theorem mem_varsIn_orderList (es : List Expr) (usage : Nat → Usage) (v : Variable) :
    v ∈ (Expr.varsIn (Expr.orderList es usage)).map (·.1) ↔ .var v ∈ Expr.preorderList es := by
  induction es generalizing usage with
  | nil => simp [Expr.orderList, Expr.preorderList]
  | cons e rest ih =>
    rw [Expr.orderList, Expr.varsIn_append, List.map_append, List.mem_append, mem_varsIn_order, ih,
      Expr.preorderList, List.mem_append]

theorem mem_loopVar (i : Info) (var : Option Variable) (implicit : Nat) (v : Variable) :
    Part.expr (.var v) ∈ Part.loopVar (fun _ => true) i var implicit ↔
      v = var.getD (Stmt.implicitVar i implicit) := by
  cases var with
  | none => simp [Part.loopVar]
  | some w => simp [Part.loopVar]

section Members

variable (v : Variable)

theorem mem_deepVars_own (o : Own) (rest : Outline) :
    v ∈ (Outline.own o rest).deepVars.map (·.1) ↔
      v ∈ o.vars.map (·.1) ∨ v ∈ rest.deepVars.map (·.1) := by
  rw [Outline.deepVars, List.map_append, List.mem_append]

theorem mem_deepVars_call (inner rest : Outline) :
    v ∈ (Outline.call inner rest).deepVars.map (·.1) ↔
      v ∈ inner.deepVars.map (·.1) ∨ v ∈ rest.deepVars.map (·.1) := by
  rw [Outline.deepVars, List.map_append, List.mem_append]

mutual

/-- The variables of a statement are those that its outline visits. -/
theorem mem_deepVars : ∀ s : Stmt,
    (Part.expr (.var v) ∈ s.preorder (fun _ => true) ↔ v ∈ s.outline.deepVars.map (·.1))
  | .block .absent => by simp [Stmt.outline, Outline.deepVars, Stmt.preorder, Block.preorder]
  | .block (.mk i ss) => by
    rw [Stmt.outline, Outline.deepVars, mem_deepVars_list ss]
    simp [Stmt.preorder, Block.preorder, Outline.deepVars]
  | .expr i e => by
    rw [Stmt.outline, mem_deepVars_own, Own.vars, mem_varsIn_order]
    simp [Stmt.preorder, Outline.deepVars]
  | .cond i negated test yes elsifs no => by
    rw [Stmt.outline, mem_deepVars_own, Own.vars, mem_varsIn_order, mem_deepVars_body yes,
      mem_deepVars_branches elsifs, mem_deepVars_body no]
    simp [Stmt.preorder, Outline.deepVars]
  | .loop i negated true test b => by
    rw [Stmt.outline, mem_deepVars_body b, mem_deepVars_own, Own.vars, mem_varsIn_order]
    simp [Stmt.preorder, Outline.deepVars, or_comm]
  | .loop i negated false test b => by
    rw [Stmt.outline, mem_deepVars_own, Own.vars, mem_varsIn_order, mem_deepVars_body b]
    simp [Stmt.preorder, Outline.deepVars]
  | .steps i init test post b => by
    rw [Stmt.outline, Outline.deepVars, mem_deepVars_own, mem_deepVars_own, mem_deepVars_own,
      Own.vars, Own.vars, Own.vars, mem_varsIn_orderList, mem_varsIn_orderList,
      mem_varsIn_orderList, mem_deepVars_body b]
    simp [Stmt.preorder, Outline.deepVars, Expr.preorderList_eq_flatMap]
  | .foreach i var implicit list b => by
    rw [Stmt.outline, mem_deepVars_own, Own.vars, mem_varsIn_order, Outline.deepVars,
      mem_deepVars_own, mem_deepVars_body b]
    simp [Stmt.preorder, mem_loopVar, Own.vars, Outline.deepVars, or_left_comm]
  | .ret i value => by
    rw [Stmt.outline, mem_deepVars_own, Own.vars, mem_varsIn_orderList]
    simp [Stmt.preorder, Outline.deepVars]
  | .sub i name returns b => by
    rw [Stmt.outline, Outline.deepVars, mem_deepVars_body b]
    simp [Stmt.preorder, Outline.deepVars]
  | .package _ _ | .use _ _ | .pragma _ _ _ | .jump _ _ | .comment _ _ => by
    simp [Stmt.outline, Outline.deepVars, Own.vars, Stmt.preorder]

theorem mem_deepVars_body : ∀ (b : Block) (k : Outline),
    (v ∈ (b.outlineBody k).deepVars.map (·.1) ↔
      Part.expr (.var v) ∈ b.preorder (fun _ => true) ∨ v ∈ k.deepVars.map (·.1))
  | .absent, k => by simp [Block.outlineBody, Block.preorder]
  | .mk i ss, k => by
    rw [Block.outlineBody, mem_deepVars_call, Outline.deepVars, mem_deepVars_list ss]
    simp [Block.preorder, Outline.deepVars]

theorem mem_deepVars_list : ∀ (ss : List Stmt) (k : Outline),
    (v ∈ (Stmt.outlineList ss k).deepVars.map (·.1) ↔
      Part.expr (.var v) ∈ Stmt.preorderList (fun _ => true) ss ∨ v ∈ k.deepVars.map (·.1))
  | [], k => by simp [Stmt.outlineList, Stmt.preorderList]
  | s :: rest, k => by
    have hrest := mem_deepVars_list rest k
    unfold Stmt.outlineList
    split
    · rw [mem_deepVars_call, hrest, ← mem_deepVars s, Stmt.preorderList, List.mem_append, or_assoc]
    · next hs =>
      rw [hrest, Stmt.preorderList, preorder_of_not_isPresent hs, List.nil_append]

theorem mem_deepVars_branches : ∀ (bs : List ElseIf) (k : Outline),
    (v ∈ (Stmt.outlineBranches bs k).deepVars.map (·.1) ↔
      Part.expr (.var v) ∈ Stmt.preorderBranches (fun _ => true) bs ∨
        v ∈ k.deepVars.map (·.1))
  | [], k => by simp [Stmt.outlineBranches, Stmt.preorderBranches]
  | .mk i test b :: rest, k => by
    rw [Stmt.outlineBranches, mem_deepVars_own, Own.vars, mem_varsIn_order, mem_deepVars_body b,
      mem_deepVars_own, mem_deepVars_branches rest k]
    simp [Stmt.preorderBranches, ElseIf.preorder, Own.vars, or_assoc]

end

end Members

end Compile

end TypedPerl
