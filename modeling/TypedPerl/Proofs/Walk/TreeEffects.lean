import TypedPerl.Proofs.Walk.ExprStatements
import TypedPerl.Proofs.Walk.Growing

/-!
# The effects of a tree

What is generated while a statement is walked stays until the walk over the tree is done, whatever
comes of the other statements (`tree_grows`). The outputs of a tree are therefore those that each
expression statement was put together from, and the text of such a statement tells of every call,
assignment and step in it.
-/

namespace TypedPerl

/-! ## Expression statements in a tree -/

namespace Part

/-- With an expression statement all parts of its expression are among the parts. -/
def Closed (ps : List Part) : Prop :=
  ∀ i e, .stmt (.expr i e) ∈ ps → ∀ x ∈ e.preorder, .expr x ∈ ps

variable {ps qs : List Part}

theorem Closed.append (hp : Closed ps) (hq : Closed qs) : Closed (ps ++ qs) := by
  intro i e h x hx
  rcases List.mem_append.mp h with h | h
  · exact List.mem_append_left _ (hp i e h x hx)
  · exact List.mem_append_right _ (hq i e h x hx)

/-- Another statement, or a branch, before parts. -/
theorem Closed.cons {p : Part} (h : Closed ps) (hp : ∀ i e, .stmt (.expr i e) ≠ p) :
    Closed (p :: ps) := by
  intro i e hmem x hx
  rcases List.mem_cons.mp hmem with heq | hmem
  · exact absurd heq (hp i e)
  · exact List.mem_cons_of_mem _ (h i e hmem x hx)

/-- Where no statements are there is nothing to show. -/
theorem closed_of_no_stmt (h : ∀ s, .stmt s ∉ ps) : Closed ps :=
  fun _ _ hmem => absurd hmem (h _)

theorem closed_exprs (es : List Expr) : Closed (es.map .expr) :=
  closed_of_no_stmt fun s => by simp

theorem closed_statement (i : Info) (e : Expr) :
    Closed (.stmt (.expr i e) :: e.preorder.map .expr) := by
  intro j e' hmem x hx
  rcases List.mem_cons.mp hmem with heq | hmem
  · cases heq
    exact List.mem_cons_of_mem _ (List.mem_map_of_mem hx)
  · exact List.mem_cons_of_mem _ (closed_exprs _ j e' hmem x hx)

end Part

open TypedPerl.Part (closed_exprs closed_statement closed_of_no_stmt)

mutual

/-- The parts of an expression statement are parts of the tree that it stands in. -/
theorem Stmt.closed_preorder (made : Nat → Bool) : ∀ s : Stmt, Part.Closed (s.preorder made)
  | .expr i e => closed_statement i e
  | .block b => b.closed_preorder made
  | .cond _ _ _ yes elsifs no =>
    ((closed_exprs _).append ((yes.closed_preorder made).append
      ((Stmt.closed_branches made elsifs).append (no.closed_preorder made)))).cons (by simp)
  | .loop _ _ _ _ b => ((closed_exprs _).append (b.closed_preorder made)).cons (by simp)
  | .steps _ _ _ _ b => ((closed_exprs _).append (b.closed_preorder made)).cons (by simp)
  | .foreach i var implicit _ b =>
    ((closed_of_no_stmt fun s => Compile.stmt_not_mem_loopVar made i var implicit s).append
      ((closed_exprs _).append (b.closed_preorder made))).cons (by simp)
  | .sub _ _ _ b => (b.closed_preorder made).cons (by simp)
  | .ret _ _ => (closed_exprs _).cons (by simp)
  | .jump _ _ | .package _ _ | .use _ _ | .pragma _ _ _ | .comment _ _ =>
    (closed_exprs []).cons (by simp)

theorem Block.closed_preorder (made : Nat → Bool) : ∀ b : Block, Part.Closed (b.preorder made)
  | .absent => closed_exprs []
  | .mk _ ss => (Stmt.closed_list made ss).cons (by simp)

theorem Stmt.closed_list (made : Nat → Bool) :
    ∀ ss : List Stmt, Part.Closed (Stmt.preorderList made ss)
  | [] => closed_exprs []
  | s :: rest => (s.closed_preorder made).append (Stmt.closed_list made rest)

theorem Stmt.closed_branches (made : Nat → Bool) :
    ∀ bs : List ElseIf, Part.Closed (Stmt.preorderBranches made bs)
  | [] => closed_exprs []
  | .mk _ _ b :: rest =>
    (((closed_exprs _).append (b.closed_preorder made)).cons (by simp)).append
      (Stmt.closed_branches made rest)

end

/-- The expression of a statement of a filled unit is filled. -/
theorem SourceUnit.Filled.expr {u : SourceUnit} (h : u.Filled) {i : Info} {e : Expr}
    (hs : Part.stmt (.expr i e) ∈ u.preorder fun _ => true) : e.Filled :=
  fun x hx => h _ (Stmt.closed_list _ u.stmts i e hs x hx)

namespace Compile

/-! ## Expression statements of a run -/

variable {env : Env}

/-- The text of a statement holds its code. -/
theorem stmtText_kept (decls : List Declaration) (code : String) :
    Text.Within code (stmtText decls code).code := by
  by_cases hempty : code = ""
  · rw [hempty]
    exact within_empty _
  · refine .join _ ⟨code, List.mem_append_right _ ?_, .refl _⟩
    simpa [Java.nonEmpty] using hempty

/-- What a call of an expression statement that succeeds has done: its expression is walked, the
statement is put together from what comes of that, and all outputs are kept. -/
theorem Call.Ready.expr_text {c : Call} {i : Info} {e : Expr} (h : c.Ready)
    (hs : c.stmt = .expr i e) (hok : c.succeeds env = true) :
    ∃ st code, walkExpr e .void env c.before.begin = (.ok (), st) ∧
      exprStatement env st e = .ok code ∧ st.Keeps (c.after env) ∧
      Text.Within code ((c.after env).output i.id).code := by
  obtain ⟨st, code, hst, hcode, htext⟩ := h.text hok
  have hready := h.plan
  have hkept := h.outputs_after env
  rw [Call.generatedIn?, hs, Stmt.plan, Plan.generatedIn?] at hst
  rw [hs, Stmt.plan] at hready hkept
  have hbehind := hready.behindStep env
  rw [Plan.exec, run_bind] at hkept
  rcases hrun : (OwnStep.expr e .void).run env c.before.begin with ⟨f | _, st₁⟩
  · -- the statement would not have been put together
    rw [hrun] at hst
    cases hst
  · rw [hrun] at hst hkept hbehind
    cases hst
    rw [hs] at hcode htext
    refine ⟨st, code, hrun, hcode, fun n out hn => ?_, ?_⟩
    · rw [hkept]
      exact ((Plan.finish (.expr i e)).exec_outcome env hbehind).within.kept n out hn
    · have hout : (c.after env).output i.id = stmtText (c.queued env) code := by
        unfold State.output
        rw [show (c.after env).outputs.get? i.id = _ from htext]
        rfl
      rw [hout]
      exact stmtText_kept _ code

/-- Outputs that are there when an expression is walked are the same later. -/
theorem sameAt_of_keeps {e : Expr} {u : Usage} {st st' later : State}
    (hrun : walkExpr e u env st = (.ok (), st')) (hkeeps : st'.Keeps later) :
    ∀ n ∈ e.nodes, st'.SameAt n (st'.setOutputs later.outputs) := by
  intro n hn
  have hgenerated := (walkExpr_generates e u).complete env st st' hrun n hn
  obtain ⟨out, hout⟩ := Option.isSome_iff_exists.mp hgenerated
  exact ⟨(hkeeps n out hout).trans hout.symm, rfl⟩

section Tree

variable (settings : Settings) (catalog : Option Catalog) (registry : Registry) (u : SourceUnit)

/-- In a numbered tree whose strings have places for their expressions, the text of every expression
statement that is generated tells of each call, assignment and step in it, whatever stands around
that. It shows the code of the node, except that an odd row of values of which a map is made may be
replaced by the code that raises the error. Nothing is said of the arguments that a builtin function
leaves out, and of lists that an operator has on its right where its value is not used. The code of
an assignment or a step holds the base and the keys of each access that it changes. -/
theorem tree_keeps_effects (hu : u.Numbered) (hfilled : u.Filled) {i : Info} {e : Expr}
    (hs : .stmt (.expr i e) ∈ u.preorder fun _ => true)
    (hgenerated : (tree settings catalog registry 1 u).state.isGenerated i.id = true) :
    ∀ n ∈ e.preorder, n.changes = true →
      ((∃ d ∈ e.unsaid, n ∈ d.preorder) ∨
        Told (tree settings catalog registry 1 u).state e n
          ((tree settings catalog registry 1 u).state.output i.id).code) ∧
      ∀ t ∈ n.targets, ∀ p, accessOf? (tree settings catalog registry 1 u).state t = some p →
        p.KeptIn ((tree settings catalog registry 1 u).state.output n.id).code := by
  obtain ⟨c, hc, hstmt, hok⟩ :=
    tree_call_of_generated settings catalog registry u hu hs hgenerated
  have hready := ready_of_mem_treeCalls settings catalog registry u hu c hc
  obtain ⟨st, code, hwalk, hcode, hkeeps, hwithin⟩ := hready.expr_text hstmt hok
  have hlater := (tree_grows settings catalog registry u hu c hc).outputs
  have hsettled := (tree_account settings catalog registry u hu).settled c hc
  generalize (tree settings catalog registry 1 u).state = F at *
  -- the expression is settled in the state behind its walk with the outputs of the whole tree
  have hdistinct : e.nodes.Nodup := by
    have hnodes := hready.plan.distinct
    rw [hstmt, Stmt.plan] at hnodes
    exact (List.nodup_append.mp hnodes).1
  have hsame := sameAt_of_keeps hwalk fun n out hn => hlater n out (hkeeps n out hn)
  have hmade := walkExpr_settled e .void hwalk hdistinct hsame
  have hsound := sound_of_made hmade (hfilled.expr hs)
  have houtputs : ∀ x ∈ e.preorder, st.output x.id = (st.setOutputs F.outputs).output x.id := by
    intro x hx
    unfold State.output
    rw [(hsame _ (id_mem_nodes_of_mem hx)).output]
  have htells := exprStatement_tells e hsound houtputs
  -- what the call has made of the statement is the text of the statement in the end
  have htext : Text.Within code (F.output i.id).code := by
    rw [hstmt] at hsettled
    have hout : F.output i.id = (c.after (envOf settings catalog)).output i.id := by
      unfold State.output
      rw [show F.outputs.get? i.id = _ from hsettled]
      rfl
    rw [hout]
    exact hwithin
  intro n hn hchanges
  refine ⟨?_, fun t ht p hp => targets_kept (S := st.setOutputs F.outputs) hmade hn ht hp⟩
  exact (htells code hcode n hn hchanges).imp_right fun htold => htold.mono (fun m hm => hm) htext

end Tree

/-- The step `$k++`. -/
def keyStep : Expr :=
  .incDec ⟨13, default⟩ "++" false (.var { info := ⟨14, default⟩, name := "k", sigil := .scalar })

/-- A store behind a guard, `$k && ($h{$k++} = 2)`. -/
def guardedStore : Expr :=
  .binary ⟨8, default⟩ "&&" (.var { info := ⟨9, default⟩, name := "k", sigil := .scalar })
    (.assign ⟨10, default⟩ "="
      (.index ⟨11, default⟩ false (.var { info := ⟨12, default⟩, name := "h", sigil := .hash })
        keyStep true .scalar)
      (.number ⟨15, default⟩ "2"))

/-- The store as a statement, behind `my $k = 1; my %h;`. -/
def guardedStores : SourceUnit where
  file := "store.pl"
  className := ""
  stmts :=
    [.expr ⟨1, default⟩ (.assign ⟨2, default⟩ "="
        (.var { info := ⟨3, default⟩, name := "k", sigil := .scalar, decl := .my,
                type := some .integer })
        (.number ⟨4, default⟩ "1")),
      .expr ⟨5, default⟩
        (.var { info := ⟨6, default⟩, name := "h", sigil := .hash, decl := .my,
                type := some (.mapOf .integer) }),
      .expr ⟨7, default⟩ guardedStore]

/-- The step in the key of the store stands in the text of the statement. -/
theorem guardedStores_keeps_step :
    guardedStores.Numbered ∧ guardedStores.Filled ∧
      (tree {} none {} 1 guardedStores).state.isGenerated 7 = true ∧
      keyStep ∈ guardedStore.preorder ∧
      Text.Shown ((tree {} none {} 1 guardedStores).state.output keyStep.id).code
        ((tree {} none {} 1 guardedStores).state.output 7).code := by
  have hu : guardedStores.Numbered := by decide
  have hfilled : guardedStores.Filled := by decide
  have hs : Part.stmt (.expr ⟨7, default⟩ guardedStore) ∈ guardedStores.preorder fun _ => true := by
    simp [SourceUnit.preorder, guardedStores, Stmt.preorderList, Stmt.preorder]
  have hgenerated : (tree {} none {} 1 guardedStores).state.isGenerated 7 = true := by
    decide +kernel
  have hstep : keyStep ∈ guardedStore.preorder := by simp [guardedStore, Expr.preorder, keyStep]
  -- no map is made here, and no builtin function called
  have hrows : ∀ m ∈ guardedStore.preorder,
      ((tree {} none {} 1 guardedStores).state.oddRowOf m).isEmpty ∧ m.leftOut.isEmpty := by
    decide +kernel
  obtain ⟨htold, -⟩ :=
    tree_keeps_effects {} none {} guardedStores hu hfilled hs hgenerated keyStep hstep rfl
  refine ⟨hu, hfilled, hgenerated, hstep, ?_⟩
  rcases htold with ⟨d, hd, -⟩ | hshown | ⟨⟨m, hm, d, hd, -⟩, -⟩ | ⟨m, hm, d, hd, -⟩
  · exact absurd hd List.not_mem_nil
  · exact hshown
  · rw [List.isEmpty_iff.mp (hrows m hm).1] at hd
    exact absurd hd List.not_mem_nil
  · rw [List.isEmpty_iff.mp (hrows m hm).2] at hd
    exact absurd hd List.not_mem_nil

/-- The assignment `my $x = 1`. -/
def loneValue : Expr :=
  .assign ⟨5, default⟩ "="
    (.var { info := ⟨6, default⟩, name := "x", sigil := .scalar, decl := .my,
            type := some .integer })
    (.number ⟨7, default⟩ "1")

/-- A map of one value, `my %h = (my $x = 1)`. -/
def loneMap : Expr :=
  .assign ⟨2, default⟩ "="
    (.var { info := ⟨3, default⟩, name := "h", sigil := .hash, decl := .my,
            type := some (.mapOf .integer) })
    (.list ⟨4, default⟩ [loneValue])

/-- The map of one value as a statement. -/
def loneMaps : SourceUnit where
  file := "lone.pl"
  className := ""
  stmts := [.expr ⟨1, default⟩ loneMap]

/-- One value makes no map: the statement raises the error of an odd row, and the assignment that
gives the value is not in its text. -/
theorem loneMaps_loses_value :
    loneMaps.Numbered ∧ loneMaps.Filled ∧ (tree {} none {} 1 loneMaps).errors.isEmpty ∧
      loneValue ∈ loneMap.preorder ∧ loneValue.changes = true ∧
      ¬Text.Shown ((tree {} none {} 1 loneMaps).state.output loneValue.id).code
        ((tree {} none {} 1 loneMaps).state.output 1).code := by
  refine ⟨by decide, by decide, by decide +kernel, ?_, rfl, fun hshown => ?_⟩
  · simp [loneMap, Expr.preorder, Expr.preorderList, loneValue]
  · have hline : '\n' ∉ ((tree {} none {} 1 loneMaps).state.output loneValue.id).code.toList := by
      decide +kernel
    have hnot : ¬Text.Within ((tree {} none {} 1 loneMaps).state.output loneValue.id).code
        ((tree {} none {} 1 loneMaps).state.output 1).code := by
      decide +kernel
    exact hnot (hshown.within_of_one_line hline)

end Compile

end TypedPerl
