import TypedPerl.Compile.Walk
import TypedPerl.Proofs.Walk.Steady

/-!
# Steps along a relation

A step goes `Along` a relation between states when each of its runs, also one that fails, leads to
a related state. What is kept through the walk over expressions is read off such a relation that is
`Blind` to what resolving names and generating code changes: names, the queue, outputs, marked
effects and fields. Each step of an expression but the generation of an access goes along every
such relation (`resolveExpr_along`, `exprOutput_along`). An access keeps its path besides, so that
it goes along if the relation is blind to paths as well (`exprOutput_along_all`).
-/

namespace TypedPerl.Compile

variable {α β : Type}

/-- The relation between the states of a run does not look at what resolving and generating
expressions changes, but for the paths that are kept. Of the subroutines that nodes mean it may know
those that are there: only nodes without one are given another. -/
structure Blind (R : State → State → Prop) : Prop where
  refl : ∀ st, R st st
  trans : ∀ {st st₁ st₂}, R st st₁ → R st₁ st₂ → R st st₂
  access : ∀ st (acc : AccessState), R st { st with toAccessState := acc }
  outputs : ∀ st outs, R st { st with outputs := outs }
  bindings : ∀ st bs, R st { st with bindings := bs }
  subs : ∀ (st : State) n s, st.subs.get? n = none → R st { st with subs := st.subs.put n s }
  made : ∀ st ids, R st { st with made := ids }
  effects : ∀ st ids, R st { st with effects := ids }
  fields : ∀ st fs, R st { st with fields := fs }

/-- Every run of the step leads to a related state. -/
def Along (R : State → State → Prop) (x : Compile α) : Prop :=
  ∀ env st, R st (x env st).2

variable {R : State → State → Prop}

namespace Along

theorem pure (hR : Blind R) (a : α) : Along R (Pure.pure a : Compile α) := fun _ st => hR.refl st

theorem throw (hR : Blind R) (f : Fault) : Along R (MonadExcept.throw f : Compile α) :=
  fun _ st => hR.refl st

theorem lift (hR : Blind R) (x : Except Fault α) : Along R (liftM x : Compile α) :=
  fun _ st => hR.refl st

theorem get (hR : Blind R) : Along R (MonadState.get : Compile State) := fun _ st => hR.refl st

theorem read (hR : Blind R) : Along R (MonadReader.read : Compile Env) := fun _ st => hR.refl st

theorem change {f : State → State} (h : ∀ st, R st (f st)) : Along R (modify f : Compile Unit) :=
  fun _ st => h st

theorem onTable (hR : Blind R) (f : Table → α × Table) : Along R (Compile.onTable f) :=
  fun _ st => hR.access st _

theorem onAccess (hR : Blind R) (f : AccessState → α × AccessState) :
    Along R (Compile.onAccess f) :=
  fun _ st => hR.access st _

theorem bind (hR : Blind R) {x : Compile α} {k : α → Compile β} (hx : Along R x)
    (hk : ∀ a, Along R (k a)) : Along R (x >>= k) := by
  intro env st
  rw [run_bind]
  have hfirst := hx env st
  generalize x env st = r at hfirst ⊢
  rcases r with ⟨f | a, st'⟩
  · exact hfirst
  · exact hR.trans hfirst (hk a env st')

/-- A step that reads its state may put back a state made from it. -/
theorem get_bind {k : State → Compile α} (h : ∀ env st, R st ((k st) env st).2) :
    Along R (MonadState.get >>= k) := h

theorem located {x : Compile α} (h : Along R x) (pos : Pos) : Along R (Compile.located pos x) := h

end Along

/-- Resolving a package changes the table only. -/
theorem resolvePackage_state (name : String) (pos : Pos) (env : Env) (st : State) :
    ∃ t, (resolvePackage name pos env st).2 = st.setTable t := by
  rw [resolvePackage, run_get_bind]
  cases st.table.registry.package? name with
  | some p => exact ⟨st.table, rfl⟩
  | none =>
    dsimp only
    rw [run_read_bind]
    cases env.catalog with
    | none => exact ⟨st.table, rfl⟩
    | some c =>
      dsimp only
      cases c.get name with
      | error f => exact ⟨st.table, rfl⟩
      -- only a package read from the catalog is written to the registry
      | ok p => exact ⟨_, rfl⟩

section

variable (hR : Blind R)

include hR

/-! ## Resolving names -/

theorem resolvePackage_along (name : String) (pos : Pos) : Along R (resolvePackage name pos) := by
  intro env st
  obtain ⟨t, ht⟩ := resolvePackage_state name pos env st
  rw [ht]
  exact hR.access st ⟨t, st.pending⟩

theorem lookupVariable_along (v : Variable) : Along R (lookupVariable v) := by
  refine .bind hR (.get hR) fun st => ?_
  split
  · split
    · exact .pure hR _
    · exact .throw hR _
  · split
    · exact .pure hR _
    · refine .bind hR (resolvePackage_along hR _ _) fun p => ?_
      split
      · exact .pure hR _
      · exact .throw hR _

theorem setBinding_along (id : Nat) (b : Binding) : Along R (setBinding id b) :=
  .change fun st => hR.bindings st _

theorem enterVariable_along (v : Variable) (t : Ty) : Along R (enterVariable v t) :=
  .bind hR (.onTable hR _) fun b => setBinding_along hR _ b

theorem declareVariable_along (v : Variable) (t : Ty) : Along R (declareVariable v t) := by
  rw [declareVariable_eq]
  refine .bind hR (.get hR) fun st => ?_
  split
  · exact .throw hR _
  · split
    · exact .throw hR _
    · exact enterVariable_along hR v t

theorem declaredType_along (v : Variable) (fallback : Option Ty) :
    Along R (declaredType v fallback) := by
  refine .bind hR (.onTable hR _) fun announced => ?_
  dsimp only
  split
  · exact .throw hR _
  · split
    · exact .pure hR _
    · exact .throw hR _

theorem resolveVariableWith_along (v : Variable) (fallback : Option Ty) :
    Along R (resolveVariableWith v fallback) := by
  rw [resolveVariableWith_eq]
  refine .bind hR (.get hR) fun st => ?_
  split
  · exact .pure hR _
  · split
    · exact .bind hR (declaredType_along hR v fallback) fun t => declareVariable_along hR v t
    · exact .bind hR (lookupVariable_along hR v) fun b => setBinding_along hR _ b

theorem resolveCall_along (info : Info) (package name : String) :
    Along R (resolveCall info package name) := by
  intro env st
  rw [resolveCall, run_get_bind]
  split
  · exact hR.refl st
  · next hnew =>
    -- the node has no subroutine yet, and resolving a package does not give it one
    have hnone : st.subs.get? info.id = none := by
      cases h : st.subs.get? info.id with
      | none => rfl
      | some s => simp [h] at hnew
    have hset (s : Sub) : R st (setSub info.id s env st).2 := hR.subs st info.id s hnone
    split
    · cases st.table.lookupSub? "" name with
      | some s => exact hset s
      | none => exact hR.refl st
    · cases (ownPackage? st package).bind fun p => p.sub? name with
      | some s => exact hset s
      | none =>
        obtain ⟨t, ht⟩ := resolvePackage_state package info.pos env st
        have htable : R st (st.setTable t) := hR.access st ⟨t, st.pending⟩
        dsimp only
        rw [run_bind]
        generalize resolvePackage package info.pos env st = r at ht ⊢
        rcases r with ⟨f | p, st₁⟩
        · exact ht ▸ htable
        · obtain rfl : st₁ = st.setTable t := ht
          dsimp only
          cases p.sub? name with
          | some s => exact hR.trans htable (hR.subs (st.setTable t) info.id s hnone)
          | none => exact htable

theorem resolveExpr_along (e : Expr) : Along R (resolveExpr e) := by
  unfold resolveExpr
  split
  · exact resolveVariableWith_along hR _ _
  · exact resolveCall_along hR _ _ _
  · exact .pure hR _

/-! ## Generating code -/

theorem setOutput_along (id : Nat) (out : Output) : Along R (setOutput id out) := by
  intro env st
  rw [run_setOutput]
  split
  · exact hR.refl st
  · exact hR.outputs st _

theorem markEffect_along (id : Nat) : Along R (markEffect id) :=
  .change fun st => hR.effects st _

theorem nameOutput_along (b : Binding) : Along R (nameOutput b) :=
  .bind hR (.get hR) fun _ => .pure hR _

theorem localOutput_along (v : Variable) (u : Usage) (b : Binding) :
    Along R (localOutput v u b) := by
  refine .bind hR (.get hR) fun st => ?_
  dsimp only
  split
  · exact .bind hR (.change fun st => hR.access st _) fun _ => nameOutput_along hR b
  · exact nameOutput_along hR b

theorem variableOutput_along (v : Variable) (u : Usage) : Along R (variableOutput v u) := by
  have hfield (b : Binding) (st : State) : R st (st.addField b) := by
    unfold State.addField
    split
    · exact hR.refl st
    · exact hR.fields st _
  rw [variableOutput_eq]
  refine .bind hR (.get hR) fun st => .bind hR (.lift hR _) fun b => ?_
  dsimp only
  split
  · exact .bind hR (.change fun st => hfield b st) fun _ => localOutput_along hR v u b
  · exact localOutput_along hR v u b

theorem choice_along (op : String) (l : Operand) (t : Option Ty) (repeatable : Bool)
    (rc again first : String) : Along R (choice op l t repeatable rc again first) := by
  refine .bind hR (.lift hR _) fun test => ?_
  split
  · exact .pure hR _
  · exact .pure hR _

theorem logicalValue_along (op : String) (l r : Operand) (repeatable : Bool) :
    Along R (logicalValue op l r repeatable) := by
  rw [logicalValue_eq]
  refine .bind hR (.lift hR _) fun lc => .bind hR (.lift hR _) fun rc => ?_
  dsimp only
  split
  · exact .bind hR (.pure hR _) fun _ => choice_along hR _ _ _ _ _ _ _
  · exact .bind hR (.onAccess hR _) fun _ => choice_along hR _ _ _ _ _ _ _

theorem binaryValue_along (op : String) (l r : Operand) (repeatable : Bool) (u : Usage) :
    Along R (binaryValue op l r repeatable u) := by
  unfold binaryValue
  dsimp only
  split
  · exact logicalValue_along hR _ _ _ _
  · exact .bind hR (.read hR) fun env => .lift hR _

theorem updatedVariable_along (v : Variable) (st : State) : Along R (updatedVariable v st) :=
  .bind hR (.lift hR _) fun _ => .pure hR _

/-- The state that is put back differs from the one that was read in its names and queue only. -/
theorem updatedPath_along (target : Expr) (env : Env) (st : State) :
    R st (updatedPath target st env st).2 := by
  rw [updatedPath, run_lift_bind]
  split
  · rw [run_lift_bind]
    split
    · rw [run_read_bind, run_lift_bind]
      split
      · exact hR.access st _
      · exact hR.refl st
    · exact hR.refl st
  · exact hR.refl st

theorem updatedPlace_along (target : Expr) : Along R (updatedPlace target) := by
  rw [updatedPlace_eq]
  refine .get_bind fun env st => ?_
  cases target with
  | var v => exact updatedVariable_along hR v st env st
  | index i throughRef target key brace context => exact updatedPath_along hR _ env st
  | deref i target sigil => exact updatedPath_along hR _ env st
  | _ => exact hR.refl st

theorem updateOutput_along (place : Path.ReadWrite) (t : Option Ty) (u : Usage)
    (result : Operand) : Along R (updateOutput place t u result) :=
  .bind hR (.lift hR _) fun _ => .pure hR _

theorem compoundAssign_along (op : String) (left right : Expr) (u : Usage) :
    Along R (compoundAssign op left right u) := by
  rw [compoundAssign_eq]
  refine .bind hR (updatedPlace_along hR left) fun r => .bind hR (.get hR) fun st => ?_
  dsimp only
  split
  · exact .bind hR (logicalValue_along hR _ _ _ _) fun result => updateOutput_along hR _ _ _ _
  · exact .bind hR (.read hR) fun env => .bind hR (.lift hR _) fun result =>
      updateOutput_along hR _ _ _ _

theorem assignItems_along (nullChecks : Bool) (st : State) (src : Operand) (targets : List Expr) :
    Along R (assignItems nullChecks st src targets) :=
  .bind hR (.lift hR _) fun _ => .bind hR (.onTable hR _) fun _ =>
    .bind hR (.lift hR _) fun _ => .pure hR _

theorem assignSeveral_along (nullChecks : Bool) (st : State) (src : Operand)
    (targets : List Expr) (u : Usage) : Along R (assignSeveral nullChecks st src targets u) := by
  unfold assignSeveral
  split
  · exact assignItems_along hR _ _ _ _
  · exact .throw hR _

theorem assignList_along (targets : List Expr) (right : Expr) (u : Usage) :
    Along R (assignList targets right u) := by
  rw [assignList_eq]
  refine .bind hR (.read hR) fun env => .bind hR (.get hR) fun st => ?_
  split
  · exact .bind hR (.lift hR _) fun r => .pure hR _
  · exact assignSeveral_along hR _ _ _ _ _

theorem assignOutput_along (op : String) (left right : Expr) (u : Usage) :
    Along R (assignOutput op left right u) := by
  unfold assignOutput
  split
  · exact compoundAssign_along hR _ _ _ _
  · split
    · exact assignList_along hR _ _ _
    · exact .bind hR (.get hR) fun st => .bind hR (.read hR) fun env =>
        .bind hR (.lift hR _) fun r => .pure hR _

theorem stepOutput_along (op : String) (before : Bool) (target : Expr) (u : Usage) :
    Along R (stepOutput op before target u) := by
  refine .bind hR (.get hR) fun st => ?_
  split
  · exact .pure hR _
  · refine .bind hR (.read hR) fun env => .bind hR (updatedPlace_along hR target) fun r => ?_
    refine .bind hR (.lift hR _) fun rc => .bind hR (.lift hR _) fun value => ?_
    split
    · exact .pure hR _
    · exact .lift hR _

theorem callOutput_along (id : Nat) (name : String) (args : List Expr) (u : Usage) :
    Along R (callOutput id name args u) := by
  refine .bind hR (.get hR) fun st => ?_
  split
  · exact .bind hR (.lift hR _) fun list => .bind hR (markEffect_along hR _) fun _ => .pure hR _
  · refine .bind hR (.read hR) fun env => .bind hR (.lift hR _) fun r => ?_
    dsimp only
    split
    · exact .bind hR (markEffect_along hR _) fun _ => .pure hR _
    · exact .pure hR _

/-- All that generating an access does behind keeping its path. -/
theorem pathOutput_along (id : Nat) (p : Path) (u : Usage) (env : Env) (st : State) :
    R { st with paths := st.paths.put id p } (pathOutput id p u env st).2 := by
  have hrest : Along R (do
      if u.deleted then
        let o ← p.delete env.nullChecks
        markEffect id
        return o.toOutput
      else if u.assigned || u.updated then return { type := ← p.target }
      else
        let o ← p.read env.nullChecks
        return o.toOutput : Compile Output) := by
    split
    · exact .bind hR (.lift hR _) fun o => .bind hR (markEffect_along hR id) fun _ => .pure hR _
    · split
      · exact .bind hR (.lift hR _) fun t => .pure hR _
      · exact .bind hR (.lift hR _) fun o => .pure hR _
  -- the path is recorded first, whatever becomes of it
  exact hrest env { st with paths := st.paths.put id p }

end

/-- The expression is an element, a slice or a whole dereference. -/
def isAccess : Expr → Bool
  | .index _ _ _ _ _ _ | .deref _ _ _ => true
  | _ => false

theorem exprOutput_along (hR : Blind R) {e : Expr} (h : isAccess e = false) (u : Usage) :
    Along R (exprOutput e u) := by
  refine .bind hR (.get hR) fun st => .bind hR (.read hR) fun env => ?_
  -- what is made of a value is pure; only places, calls and changes touch the state
  cases e with
  | index i throughRef target key brace context => cases h
  | deref i target sigil => cases h
  | number i text => exact .lift hR _
  | string i pieces es => exact .lift hR _
  | undef i => exact .pure hR _
  | var v => exact variableOutput_along hR v u
  | makeRef i target => exact .pure hR _
  | anonArray i es t => exact .lift hR _
  | anonHash i es t => exact .lift hR _
  | list i es =>
    rcases es with _ | ⟨x, _ | ⟨y, rest⟩⟩
    · exact .lift hR _
    · exact .pure hR _
    · exact .lift hR _
  | assign i op left right => exact assignOutput_along hR _ _ _ _
  | incDec i op before target => exact stepOutput_along hR _ _ _ _
  | binary i op left right => exact .bind hR (binaryValue_along hR _ _ _ _ _) fun o => .pure hR _
  | unary i op x => exact .lift hR _
  | ternary i cond yes no => exact .lift hR _
  | call i package name args => exact callOutput_along hR i.id name args u

theorem exprOutput_index (i : Info) (throughRef : Bool) (target key : Expr) (brace : Bool)
    (context : Sigil) (u : Usage) (env : Env) (st : State) :
    exprOutput (.index i throughRef target key brace context) u env st =
      pathOutput i.id (accessPath st throughRef target key brace context) u env st := rfl

theorem exprOutput_deref (i : Info) (target : Expr) (sigil : Sigil) (u : Usage) (env : Env)
    (st : State) :
    exprOutput (.deref i target sigil) u env st =
      pathOutput i.id (derefPath st target sigil) u env st := rfl

/-- Generating any expression goes along a relation that does not look at paths either. -/
theorem exprOutput_along_all (hR : Blind R)
    (hpaths : ∀ st ps, R st { st with paths := ps }) (e : Expr) (u : Usage) :
    Along R (exprOutput e u) := by
  have hpath (id : Nat) (p : Path) (env : Env) (st : State) : R st (pathOutput id p u env st).2 :=
    hR.trans (hpaths st _) (pathOutput_along hR id p u env st)
  intro env st
  cases e with
  | index i throughRef target key brace context =>
    rw [exprOutput_index]
    exact hpath _ _ _ _
  | deref i target sigil =>
    rw [exprOutput_deref]
    exact hpath _ _ _ _
  | _ => exact exprOutput_along hR rfl u env st

end TypedPerl.Compile
