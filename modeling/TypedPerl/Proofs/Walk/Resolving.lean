import TypedPerl.Proofs.Scope.Visible
import TypedPerl.Proofs.Walk.Draws

/-!
# Resolving variables

What resolving a variable can do, said once: a node that means a variable already is left alone; a
declaration enters a variable into the innermost scope, or is refused; a use takes what is looked
up, or fails. From there follows what finishing an expression does to names: only the node of a
variable is bound, and what a node means never changes (`State.Binds`).
-/

namespace TypedPerl

/-- The variable is declared where it is named. -/
def Variable.declares (v : Variable) : Bool :=
  v.decl = .my || v.decl = .our

namespace Compile

variable {α β : Type}

/-- The state in which a node means a variable. -/
def State.bind (st : State) (id : Nat) (b : Binding) : State :=
  { st with bindings := st.bindings.put id b }

/-- What resolving a variable can do. -/
inductive VariableStep (env : Env) (st : State) (v : Variable) :
    Except Fault Unit × State → Prop
  /-- The node means a variable already. -/
  | known {b : Binding} (h : st.binding? v = some b) : VariableStep env st v (.ok (), st)
  /-- The variable is declared in the innermost scope, and the node means it. -/
  | declared {st₁ : State} (h : st.binding? v = none) (hv : v.declares = true)
      (hq : st.Quiet st₁) (t : Ty) :
      VariableStep env st v (.ok (),
        (st₁.setTable (st₁.table.declare v.name v.sigil t (v.decl = .our)).2).bind v.info.id
          (st₁.table.declare v.name v.sigil t (v.decl = .our)).1)
  /-- The declaration is refused. -/
  | refused {st₁ : State} {f : Fault} (h : st.binding? v = none) (hv : v.declares = true)
      (hq : st.Quiet st₁) : VariableStep env st v (.error f, st₁)
  /-- The name is looked up, and the node means what is found. -/
  | found {st₁ : State} {b : Binding} (h : st.binding? v = none) (hv : v.declares = false)
      (hrun : lookupVariable v env st = (.ok b, st₁)) :
      VariableStep env st v (.ok (), st₁.bind v.info.id b)
  /-- Nothing is found. -/
  | missing {st₁ : State} {f : Fault} (h : st.binding? v = none) (hv : v.declares = false)
      (hrun : lookupVariable v env st = (.error f, st₁)) :
      VariableStep env st v (.error f, st₁)

/-- Declaring a variable with a type enters it, or changes nothing. -/
theorem declareVariable_run (v : Variable) (t : Ty) (env : Env) (st : State) :
    (∃ f, declareVariable v t env st = (.error f, st)) ∨
      declareVariable v t env st = (.ok (),
        (st.setTable (st.table.declare v.name v.sigil t (v.decl = .our)).2).bind v.info.id
          (st.table.declare v.name v.sigil t (v.decl = .our)).1) := by
  rw [declareVariable_eq, run_get_bind]
  split
  · exact .inl ⟨_, rfl⟩
  · split
    · exact .inl ⟨_, rfl⟩
    · exact .inr rfl

theorem resolveDeclared_step {v : Variable} {st : State} (fallback : Option Ty)
    (h : st.binding? v = none) (hv : v.declares = true) (env : Env) :
    VariableStep env st v (resolveDeclared v fallback env st) := by
  have hquiet := declaredType_silent v fallback env st
  rw [resolveDeclared, run_bind]
  generalize declaredType v fallback env st = r at hquiet ⊢
  rcases r with ⟨f | t, st₁⟩
  · exact .refused h hv hquiet
  · dsimp only
    rcases declareVariable_run v t env st₁ with ⟨f, hrun⟩ | hrun
    · rw [hrun]
      exact .refused h hv hquiet
    · rw [hrun]
      exact .declared h hv hquiet t

theorem resolveUsed_step {v : Variable} {st : State} (h : st.binding? v = none)
    (hv : v.declares = false) (env : Env) : VariableStep env st v (resolveUsed v env st) := by
  rw [resolveUsed, run_bind]
  rcases hrun : lookupVariable v env st with ⟨f | b, st₁⟩
  · exact .missing h hv hrun
  · exact .found h hv hrun

/-- Resolving a variable does one of these. -/
theorem resolveVariableWith_step (v : Variable) (fallback : Option Ty) (env : Env) (st : State) :
    VariableStep env st v (resolveVariableWith v fallback env st) := by
  rw [resolveVariableWith_eq, run_get_bind]
  rcases hknown : st.binding? v with _ | b
  · simp only [Option.isSome_none, Bool.false_eq_true, if_false]
    split
    · next hv => exact resolveDeclared_step fallback hknown hv env
    · next hv => exact resolveUsed_step hknown (Bool.eq_false_iff.mpr hv) env
  · exact .known hknown

/-- What an unqualified name means is read off the scopes. -/
theorem lookupVariable_unqualified {v : Variable} (h : v.package = "") (env : Env) (st : State) :
    lookupVariable v env st = match st.table.lookup? v.name v.sigil with
      | some b => (.ok b, st)
      | none => (.error (.report ⟨.undeclared, v.info.pos,
          "undeclared variable " ++ v.sigil.toText ++ v.name⟩ none), st) := by
  rw [lookupVariable, run_get_bind, if_pos h]
  cases st.table.lookup? v.name v.sigil with
  | none => rfl
  | some b => rfl

/-! ## What nodes mean -/

/-- What nodes mean stays, and of the others only `nodes` may mean something now. -/
structure State.Binds (nodes : List Nat) (st st' : State) : Prop where
  kept : ∀ n b, st.bindings.get? n = some b → st'.bindings.get? n = some b
  only : ∀ n, n ∉ nodes → st'.bindings.get? n = st.bindings.get? n

namespace State.Binds

variable {nodes : List Nat} {st st₁ st₂ : State}

theorem of_eq (h : st₁.bindings = st.bindings) : Binds nodes st st₁ := by
  constructor
  · intro n b hn
    rw [h]
    exact hn
  · intro n _
    rw [h]

theorem trans (h₁ : Binds nodes st st₁) (h₂ : Binds nodes st₁ st₂) : Binds nodes st st₂ where
  kept n b h := h₂.kept n b (h₁.kept n b h)
  only n h := (h₂.only n h).trans (h₁.only n h)

/-- A node that meant nothing is bound. -/
theorem bind {n : Nat} (h : st₁.bindings = st.bindings) (hn : st.bindings.get? n = none)
    (b : Binding) : Binds [n] st (st₁.bind n b) := by
  constructor
  · intro m c hm
    have hne : n ≠ m := by
      rintro rfl
      rw [hn] at hm
      cases hm
    rw [State.bind, Keyed.get?_put_of_ne _ _ hne, h]
    exact hm
  · intro m hm
    have hne : n ≠ m := fun heq => hm (List.mem_singleton.mpr heq.symm)
    rw [State.bind, Keyed.get?_put_of_ne _ _ hne, h]

end State.Binds

/-- Resolving a variable binds its node only. -/
theorem VariableStep.binds {env : Env} {st : State} {v : Variable}
    {r : Except Fault Unit × State} (h : VariableStep env st v r) :
    State.Binds [v.info.id] st r.2 := by
  -- a variable is bound where it is declared or found; every other step leaves the bindings
  cases h with
  | known => exact .of_eq rfl
  | @declared st₁ h _ hq t =>
    have hsame (t : Table) : (st₁.setTable t).bindings = st.bindings := hq.bindings
    exact .bind (hsame _) h _
  | refused _ _ hq => exact .of_eq hq.bindings
  | found h _ hrun =>
    have hq := lookupVariable_silent v env st
    rw [hrun] at hq
    exact .bind hq.bindings h _
  | missing _ _ hrun =>
    have hq := lookupVariable_silent v env st
    rw [hrun] at hq
    exact .of_eq hq.bindings

/-- A variable that was resolved without a fault means something. -/
theorem VariableStep.bound {env : Env} {st st' : State} {v : Variable}
    (h : VariableStep env st v (.ok (), st')) : ∃ b, st'.binding? v = some b := by
  cases h with
  | known h => exact ⟨_, h⟩
  | declared => exact ⟨_, Keyed.get?_put_self _ _ _⟩
  | found => exact ⟨_, Keyed.get?_put_self _ _ _⟩

theorem resolveExpr_binds (e : Expr) (env : Env) (st : State) :
    State.Binds [e.id] st (resolveExpr e env st).2 := by
  cases e with
  | var v => exact (resolveVariableWith_step v none env st).binds
  | call i package name args => exact .of_eq (resolveCall_silent i package name env st).bindings
  | _ => exact .of_eq rfl

/-- Generating a variable whose node means nothing is refused. -/
theorem run_variableOutput_unbound {v : Variable} {env : Env} {st : State}
    (h : st.binding? v = none) (u : Usage) :
    variableOutput v u env st = (.error (unresolved v), st) := by
  have hbinding : bindingOf st v = .error (unresolved v) := by
    unfold bindingOf
    rw [h]
  rw [variableOutput, run_get_bind, hbinding]
  rfl

/-! ## Generating what is resolved -/

/-- Every run of the step leaves the scopes and the meanings of nodes alone. -/
def Nameless (x : Compile α) : Prop :=
  ∀ env st, (x env st).2.table.scopes = st.table.scopes ∧ (x env st).2.bindings = st.bindings

/-- What comes behind a step does not change what the step has done to names. -/
theorem Nameless.behind {x : Compile α} {k : α → Compile β} (hk : ∀ a, Nameless (k a)) (env : Env)
    (st : State) :
    ((x >>= k) env st).2.table.scopes = (x env st).2.table.scopes ∧
      ((x >>= k) env st).2.bindings = (x env st).2.bindings := by
  rw [run_bind]
  rcases x env st with ⟨f | a, st₁⟩
  · exact ⟨rfl, rfl⟩
  · exact hk a env st₁

theorem Nameless.bind {x : Compile α} {k : α → Compile β} (hx : Nameless x)
    (hk : ∀ a, Nameless (k a)) : Nameless (x >>= k) := by
  intro env st
  obtain ⟨hscopes, hbindings⟩ := Nameless.behind hk env st
  rw [hscopes, hbindings]
  exact hx env st

theorem Nameless.located {x : Compile α} (h : Nameless x) (pos : Pos) :
    Nameless (Compile.located pos x) := h

theorem Drawing.nameless {x : Compile α} (h : Drawing x) : Nameless x :=
  fun env st => ⟨(h env st).scopes, (h env st).bindings⟩

theorem Silent.nameless {x : Compile α} (h : Silent x) : Nameless x := by
  intro env st
  have hquiet := h env st
  refine ⟨?_, hquiet.bindings⟩
  rw [Table.scopes, Table.scopes, hquiet.inner, hquiet.fileScope]

theorem variableOutput_nameless (v : Variable) (u : Usage) : Nameless (variableOutput v u) := by
  intro env st
  rcases h : st.binding? v with _ | b
  · rw [run_variableOutput_unbound h]
    exact ⟨rfl, rfl⟩
  · obtain ⟨fields, hrun⟩ := run_variableOutput h u env
    rw [hrun]
    exact ⟨rfl, rfl⟩

theorem exprOutput_nameless (e : Expr) (u : Usage) : Nameless (exprOutput e u) := by
  cases e with
  | var v => exact variableOutput_nameless v u
  | _ => exact (exprOutput_drawing rfl u).nameless

/-- Behind the resolving, finishing an expression does nothing to names. -/
theorem finishExpr_named (e : Expr) (u : Usage) (env : Env) (st : State) :
    (finishExpr e u env st).2.table.scopes = (resolveExpr e env st).2.table.scopes ∧
      (finishExpr e u env st).2.bindings = (resolveExpr e env st).2.bindings := by
  have hgenerate : Nameless (exprOutput e u >>= fun out => setOutput e.id out) :=
    (exprOutput_nameless e u).bind fun out => (setOutput_silent e.id out).nameless
  exact Nameless.behind (x := located e.pos (resolveExpr e)) (fun _ => hgenerate.located e.pos) env
    st

theorem finishExpr_binds (e : Expr) (u : Usage) (env : Env) (st : State) :
    State.Binds [e.id] st (finishExpr e u env st).2 :=
  (resolveExpr_binds e env st).trans (.of_eq (finishExpr_named e u env st).2)

/-- The type of the variable of a loop if none is given. -/
def loopType (st : State) (list : Expr) : Option Ty :=
  (st.output list.id).type.map fun t => if t.elem.isAggregate then t.elem.refTo else t.elem

/-- Finding the variable of a loop does nothing to names. -/
theorem run_loopVariable (i : Info) (var : Option Variable) (implicit : Nat) (env : Env)
    (st : State) :
    ∃ st₁, loopVariable i var implicit env st =
      (.ok (var.getD (Stmt.implicitVar i implicit)), st₁) ∧ st.Quiet st₁ := by
  cases var with
  | some v => exact ⟨st, rfl, .refl st⟩
  | none =>
    refine ⟨_, rfl, ?_⟩
    dsimp only
    split
    · exact .refl st
    · exact ⟨rfl, rfl, rfl, rfl, rfl⟩

/-- Behind the resolving, the walk over the variable of a loop does nothing to names. -/
theorem walkLoopVariable_named (v : Variable) (list : Expr) (env : Env) (st : State) :
    (walkLoopVariable v list env st).2.table.scopes =
        (resolveVariableWith v (loopType st list) env st).2.table.scopes ∧
      (walkLoopVariable v list env st).2.bindings =
        (resolveVariableWith v (loopType st list) env st).2.bindings := by
  have hgenerate : Nameless (variableOutput v .void >>= fun out => setOutput v.info.id out) :=
    (variableOutput_nameless v .void).bind fun out => (setOutput_silent v.info.id out).nameless
  exact Nameless.behind (x := resolveVariableWith v (loopType st list))
    (fun _ => hgenerate.located v.info.pos) env st

end Compile

end TypedPerl
