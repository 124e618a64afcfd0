import TypedPerl.Proofs.Walk.Expr

/-!
# The steps of a statement itself

What a statement does besides calling other statements: it walks its expressions, resolves and
generates the variable of a loop, checks names, and is finished by the step that generates its own
code. An `OwnStep` is a step of the first kinds together with the nodes that it generates.
-/

namespace TypedPerl.Compile

open State (Extends)

variable {nodes : List Nat}

/-! ## The code of a statement -/

theorem foreachCode_steady (v : Variable) (list : Expr) (b : Block) :
    Steady nodes (foreachCode v list b) := by
  refine .bind .get fun st => .bind (.lift (sequenceOf_raises _)) fun r => ?_
  obtain ⟨code, t⟩ := r
  dsimp only
  split
  · exact .throw (Fault.bare_unsupported _).walkable
  · split
    · exact .pure _
    · exact .bind (.onTable fun _ => rfl) fun aux =>
        .bind (.lift (convert_bare _ _)) fun value => .pure _

theorem defineMethod_steady (id : Nat) (name : String) (b : Block) :
    Steady nodes (defineMethod id name b) := by
  refine .get_bind fun env st => ?_
  split
  · exact ⟨.of_same rfl rfl, .ok _⟩
  · exact ⟨.refl _ _, .error (Fault.bare_unsupported _).walkable⟩

/-- Generating the code of a statement is steady. -/
theorem stmtCode_steady (s : Stmt) : Steady nodes (stmtCode s) := by
  refine .bind .read fun env => .bind .get fun st => ?_
  cases s with
  | expr i e => exact .lift (exprStatement_raises _ _ _)
  | block b => exact .pure _
  | cond i negated test yes elsifs no => exact .lift (condCode_raises _ _ _ _ _ _ _)
  | loop i negated bodyFirst test b => exact .lift (loopCode_raises _ _ _ _ _ _)
  | steps i init test post b => exact .lift (stepsCode_raises _ _ _ _ _ _)
  | foreach i var implicit list b => exact foreachCode_steady _ _ _
  | ret i value => exact .lift (returnCode_raises _ _)
  | jump i keyword => exact .lift (jumpCode_raises _)
  | sub i name returns b => exact .bind (defineMethod_steady _ _ _) fun _ => .pure _
  | comment | package | use | pragma => exact .pure _

/-- What a statement is generated with: the declarations, then the code. -/
def stmtText (decls : List Declaration) (code : String) : Output :=
  { code := Text.join "\n" (decls.map Declaration.render ++ Java.nonEmpty [code]) }

/-- A statement is finished in three steps: its code is generated, the queue is drained to its
mark, and what comes of both is kept for its node. -/
theorem run_finishStmt (s : Stmt) (env : Env) (st : State) :
    finishStmt s env st = match stmtCode s env st with
      | (.error f, st') => (.error (f.diagnose s.pos), st')
      | (.ok code, st') =>
        if st'.drain.2.isGenerated s.id then
          (.error (Fault.alreadyGenerated.diagnose s.pos), st'.drain.2)
        else
          (.ok (), { st'.drain.2 with
            outputs := st'.drain.2.outputs.put s.id (stmtText st'.drain.1 code) }) := by
  unfold finishStmt
  rw [run_located, run_bind]
  unfold stmtOutput
  rw [run_bind]
  -- the queue is drained only where there is code to put behind it
  rcases stmtCode s env st with ⟨f | code, st'⟩
  · rfl
  · show Prod.mk ((setOutput s.id (stmtText st'.drain.1 code) env st'.drain.2).1.mapError _)
      (setOutput s.id (stmtText st'.drain.1 code) env st'.drain.2).2 = _
    rw [run_setOutput]
    dsimp only
    split
    · rfl
    · rfl

/-! ## Own steps -/

/-- A step that reads its state generates nodes if it does whatever it reads. -/
theorem Generates.get_bind {k : State → Compile Unit} (h : ∀ st, Generates nodes (k st)) :
    Generates nodes (get >>= k) where
  keeps env st := (h st).keeps env st
  raises env st := (h st).raises env st
  complete env st st' hrun := (h st).complete env st st' hrun

/-- A step of a statement that calls no other statement. -/
structure OwnStep where
  /-- The nodes that the step generates. -/
  nodes : List Nat
  /-- The step. -/
  run : Compile Unit
  /-- The step generates these nodes and leaves alone what belongs to statements. -/
  generates : Generates nodes run

namespace OwnStep

/-- The walk over an expression. -/
def expr (e : Expr) (u : Usage) : OwnStep :=
  ⟨e.nodes, walkExpr e u, walkExpr_generates e u⟩

/-- The walk over several expressions. -/
def exprs (es : List Expr) (usage : Nat → Usage) : OwnStep :=
  ⟨Expr.nodesList es, walkExprs es usage, walkExprs_generates es usage⟩

/-- The walk over the value that a subroutine ends with. -/
def value (v : Option Expr) : OwnStep where
  nodes := Expr.nodesList v.toList
  run := do
    let usage := returnUsage (← get)
    walkExprs v.toList fun _ => usage
  generates := .get_bind fun _ => walkExprs_generates _ _

/-- A further branch of a condition is marked as generated. -/
def branch (i : Info) : OwnStep :=
  ⟨[i.id], located i.pos (setOutput i.id {}), (setOutput_generates i.id {}).located i.pos⟩

/-- A step that generates nothing. -/
def check (x : Compile Unit) (h : Steady [] x) : OwnStep :=
  ⟨[], x, .of_steady h⟩

end OwnStep

/-- Resolving and generating the variable of a loop generates its node. -/
theorem walkLoopVariable_generates (v : Variable) (list : Expr) :
    Generates [v.info.id] (walkLoopVariable v list) := by
  have hgenerate := Generates.keep (variableOutput_steady v .void) v.info.id
  exact .get_bind fun st => (Generates.of_steady (resolveVariableWith_steady v _)).seq
    (hgenerate.located v.info.pos)

/-- Taking note of a loop variable that is made changes nothing that belongs to statements. -/
theorem noteMade_steady (implicit : Nat) :
    Steady nodes (modify fun st =>
      if st.made.contains implicit then st else { st with made := implicit :: st.made }) := by
  refine .change fun st => ?_
  split
  · exact .refl _ _
  · exact .of_same rfl rfl

/-- The variable of a loop over a list, its own or the one that is made for it. -/
def OwnStep.loopVar (i : Info) (var : Option Variable) (implicit : Nat) (list : Expr) :
    OwnStep where
  nodes := [(var.getD (Stmt.implicitVar i implicit)).info.id]
  run := do
    let v ← loopVariable i var implicit
    walkLoopVariable v list
  generates := by
    cases var with
    | some v => exact walkLoopVariable_generates v list
    | none =>
      exact (Generates.of_steady (noteMade_steady implicit)).seq
        (walkLoopVariable_generates (Stmt.implicitVar i implicit) list)

end TypedPerl.Compile
