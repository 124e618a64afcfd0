import TypedPerl.Proofs.Walk.Visits

/-!
# What steps record

A method is defined where the definition of a subroutine is put together, and nowhere else: the
steps of a statement itself define none (`Own.run_records`). No step forgets which subroutine a node
means.
-/

namespace TypedPerl.Compile

/-! ## Steps that define no method -/

/-- Nodes mean in the second state the subroutines that they mean in the first. -/
def State.KeepsSubs (st st' : State) : Prop :=
  ∀ n s, st.subs.get? n = some s → st'.subs.get? n = some s

/-- Between the two states the methods `ms` are defined, and no subroutine is forgotten. -/
structure State.Records (ms : List Method) (st st' : State) : Prop where
  methods : st'.methods = st.methods ++ ms
  subs : st.KeepsSubs st'

namespace State.Records

variable {ms more : List Method} {st st₁ st₂ : State}

theorem of_same (hmethods : st₁.methods = st.methods) (hsubs : st₁.subs = st.subs) :
    Records [] st st₁ where
  methods := by rw [hmethods, List.append_nil]
  subs n s h := by
    rw [hsubs]
    exact h

theorem append (h₁ : Records ms st st₁) (h₂ : Records more st₁ st₂) :
    Records (ms ++ more) st st₂ where
  methods := by rw [h₂.methods, h₁.methods, List.append_assoc]
  subs n s h := h₂.subs n s (h₁.subs n s h)

theorem congr (h : Records ms st st₁) (hmethods : st₂.methods = st₁.methods)
    (hsubs : st₂.subs = st₁.subs) : Records ms st st₂ := by
  have hboth := h.append (.of_same hmethods hsubs)
  rwa [List.append_nil] at hboth

end State.Records

open State (Records)

/-- Names, outputs and fields have no part in the methods that are defined. -/
theorem blind_records : Blind (Records []) where
  refl _ := .of_same rfl rfl
  trans h₁ h₂ := h₁.append h₂
  access _ _ := .of_same rfl rfl
  outputs _ _ := .of_same rfl rfl
  bindings _ _ := .of_same rfl rfl
  subs st n s hnone := by
    refine ⟨(List.append_nil _).symm, fun m t hm => ?_⟩
    -- a node that means a subroutine is another one
    have hne : n ≠ m := by
      rintro rfl
      rw [hnone] at hm
      cases hm
    exact (Keyed.get?_put_of_ne _ _ hne).trans hm
  made _ _ := .of_same rfl rfl
  effects _ _ := .of_same rfl rfl
  fields _ _ := .of_same rfl rfl

section Along

variable {R : State → State → Prop} (hR : Blind R)

include hR

theorem resolvePackageDecl_along (pos : Pos) (name : String) :
    Along R (resolvePackageDecl pos name) := by
  refine .bind hR (.get hR) fun st => ?_
  split
  · exact .pure hR _
  · refine .bind hR (.onTable hR _) fun opened => ?_
    split
    · exact .throw hR _
    · exact .pure hR _

theorem resolveUse_along (pos : Pos) (name : String) : Along R (resolveUse pos name) := by
  unfold resolveUse
  split
  · exact .pure hR _
  · exact .bind hR (resolvePackage_along hR name pos) fun _ => .pure hR _

theorem declareSub_along (i : Info) (name : String) (returns : Option Ty) :
    Along R (declareSub i name returns) := by
  intro env st
  rw [declareSub, run_get_bind]
  cases hsub : st.subs.get? i.id with
  | some s => exact hR.refl st
  | none =>
    have htable (t : Table) : R st (st.setTable t) := hR.access st ⟨t, st.pending⟩
    exact hR.trans (htable _) (hR.subs (st.setTable _) i.id _ hsub)

variable (hpaths : ∀ st ps, R st { st with paths := ps })

include hpaths

theorem finishExpr_along (e : Expr) (u : Usage) : Along R (finishExpr e u) := by
  refine .bind hR ((resolveExpr_along hR e).located e.pos) fun _ => ?_
  apply Along.located
  exact .bind hR (exprOutput_along_all hR hpaths e u) fun out => setOutput_along hR e.id out

theorem finishAll_along (ps : List (Expr × Usage)) : Along R (finishAll ps) := by
  induction ps with
  | nil => exact .pure hR _
  | cons p rest ih => exact .bind hR (finishExpr_along hR hpaths p.1 p.2) fun _ => ih

/-- A step of a statement that calls no other goes along any relation that looks neither at names
nor at what is generated. -/
theorem Own.run_along (o : Own) : Along R o.step.run := by
  cases o with
  | expr | exprs | value =>
    intro env st
    rw [Own.run_visits rfl]
    exact finishAll_along hR hpaths _ env st
  | loopVar i var implicit list =>
    -- a variable the loop leaves out is made here
    have hfind : Along R (loopVariable i var implicit) := by
      cases var with
      | some v => exact .pure hR v
      | none =>
        refine .bind hR (.change fun st => ?_) fun _ => .pure hR _
        split
        · exact hR.refl st
        · exact hR.made st _
    refine .bind hR hfind fun v => .bind hR (.get hR) fun st => ?_
    refine .bind hR (resolveVariableWith_along hR v _) fun _ => ?_
    apply Along.located
    exact .bind hR (variableOutput_along hR v .void) fun out => setOutput_along hR v.info.id out
  | branch i => exact (setOutput_along hR i.id {}).located i.pos
  | package i name => exact (resolvePackageDecl_along hR i.pos name).located i.pos
  | use i name => exact (resolveUse_along hR i.pos name).located i.pos
  | pragma targets type => exact .change fun st => hR.access st _

end Along

theorem Own.run_records (o : Own) : Along (Records []) o.step.run :=
  o.run_along blind_records fun _ _ => .of_same rfl rfl

/-! ## The method of a definition -/

/-- The method that the statement defines when it is put together in the state, if it is the
definition of a subroutine. -/
def State.methodOf? (st : State) : Stmt → Option Method
  | .sub i _ _ b =>
    match st.frames, st.subs.get? i.id with
    | f :: _, some s =>
      some { javaName := s.javaName, returns := some s.returns, param := f.param,
             body := methodBody st f.sub.returns b }
    | _, _ => none
  | _ => none

theorem defineMethod_records (i : Info) (name : String) (returns : Option Ty) (b : Block)
    (env : Env) (st : State) :
    Records (st.methodOf? (.sub i name returns b)).toList st (defineMethod i.id name b env st).2 := by
  rw [defineMethod, run_get_bind, State.methodOf?]
  rcases st.frames with _ | ⟨f, rest⟩
  · exact .of_same rfl rfl
  · cases st.subs.get? i.id with
    | none => exact .of_same rfl rfl
    | some s => exact ⟨rfl, fun n t h => h⟩

/-- Generating the code of a statement defines the method of the statement. -/
theorem stmtCode_records (s : Stmt) (env : Env) (st : State) :
    Records (st.methodOf? s).toList st (stmtCode s env st).2 := by
  have hR := blind_records
  rw [stmtCode, run_read_bind, run_get_bind]
  cases s with
  | sub i name returns b =>
    have hdefine := defineMethod_records i name returns b env st
    dsimp only
    rw [run_bind]
    generalize defineMethod i.id name b env st = r at hdefine ⊢
    rcases r with ⟨f | _, st'⟩
    · exact hdefine
    · exact hdefine
  -- a loop draws a name and no more, so nothing is recorded
  | foreach i var implicit list b =>
    have hforeach (v : Variable) : Along (Records []) (foreachCode v list b) := by
      refine .bind hR (.get hR) fun st => .bind hR (.lift hR _) fun r => ?_
      obtain ⟨code, t⟩ := r
      dsimp only
      split
      · exact .throw hR _
      · split
        · exact .pure hR _
        · exact .bind hR (.onTable hR _) fun aux => .bind hR (.lift hR _) fun value => .pure hR _
    exact hforeach _ env st
  | expr | cond | loop | steps | ret | jump => exact Along.lift hR _ env st
  | block | comment | package | use | pragma => exact Along.pure hR _ env st

theorem State.drain_records (st : State) : Records [] st st.drain.2 := by
  unfold State.drain
  split
  · exact .of_same rfl rfl
  · exact .of_same rfl rfl

theorem finishStmt_records (s : Stmt) (env : Env) (st : State) :
    Records (st.methodOf? s).toList st (finishStmt s env st).2 := by
  have hcode := stmtCode_records s env st
  rw [run_finishStmt]
  rcases hrun : stmtCode s env st with ⟨f | code, st'⟩
  · rw [hrun] at hcode
    exact hcode
  · rw [hrun] at hcode
    have hdrained := hcode.append st'.drain_records
    rw [List.append_nil] at hdrained
    dsimp only
    split
    · exact hdrained
    · exact hdrained.congr rfl rfl

theorem enterSub_records (i : Info) (name : String) (returns : Option Ty) :
    Along (Records []) (enterSub i name returns) :=
  .bind blind_records (declareSub_along blind_records i name returns) fun _ =>
    .bind blind_records (.onTable blind_records _) fun _ => .change fun _ => .of_same rfl rfl

end TypedPerl.Compile
