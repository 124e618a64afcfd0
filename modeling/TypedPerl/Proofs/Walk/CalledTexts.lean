import TypedPerl.Proofs.Walk.StatementTexts

/-!
# Texts of called statements

The text of a statement that is generated is a sentence: the declarations that its call has queued,
and the code of the statement behind them (`Call.Ready.written`). It declares the variables that the
statement hoists and those that it places, in this order, and auxiliary variables that are drawn for
the statement.
-/

namespace TypedPerl

open Compile (State hoisted)

namespace Stmt

/-- The operator is one of a step in an expression of the statement. -/
def Steps (s : Stmt) (op : String) : Prop :=
  ∃ i before target void, (Expr.incDec i op before target, void) ∈ s.outline.finished

/-- The variables that are declared before the code of the statement: variables of a method that are
declared where their value is used. -/
def hoistedVars (S : State) (s : Stmt) : List Variable :=
  (s.vars.filter fun p => S.isLocalDecl p.1 && !p.2).map (·.1)

/-- The variables that the text of the statement declares, before its code and in place. -/
def declares (S : State) (s : Stmt) : List Variable :=
  s.hoistedVars S ++ s.placed.filter S.isLocalDecl

theorem hoistedAt_vars (S : State) (s : Stmt) :
    s.vars.flatMap S.hoistedAt =
      (s.hoistedVars S).flatMap fun v => (S.binding? v).toList.map hoisted := by
  unfold hoistedVars
  induction s.vars with
  | nil => rfl
  | cons p rest ih =>
    rw [List.flatMap_cons, ih, List.filter_cons]
    unfold State.hoistedAt
    split
    · rfl
    · rfl

end Stmt

namespace Compile

open Java (Phrase)
open Name (AliasPool)
open TypedPerl.Expr (Everywhere)

/-! ## Operators of steps -/

/-- The steps in the expressions that a statement walks are steps of the statement. -/
theorem Own.steps_roots {s : Stmt} {o : Own} (ho : o ∈ s.outline.owns) (st : State)
    {r : Expr × Usage} (hr : r ∈ o.roots st) {i : Info} {op : String} {before : Bool}
    {target : Expr} (h : .incDec i op before target ∈ r.1.preorder) : s.Steps op := by
  obtain ⟨q, hq, hstep⟩ := List.mem_map.mp ((r.1.order_perm r.2).mem_iff.mpr h)
  have hvisit : q ∈ o.visits st := by
    rw [o.visits_roots]
    exact List.mem_flatMap.mpr ⟨r, hr, hq⟩
  refine ⟨i, before, target, q.2.isVoid, ?_⟩
  rw [Outline.finished_owns]
  refine List.mem_flatMap.mpr ⟨o, ho, ?_⟩
  rw [← o.finished_eq st, ← hstep]
  exact List.mem_map_of_mem hvisit

/-- The texts that stand in expressions of the statement as they are. -/
def State.Says (F : State) (s : Stmt) : String → Prop :=
  Spoken F s.Steps (· ∈ s.lost)

/-- The text of the statement declares the variables that the statement hoists and those that it
places, each once and in order, and no others. Each body of the statement stands in it once; with
what the bodies declare, the declarations in the text are `l`. -/
def State.Declaring (F : State) (s : Stmt) (bs : Bodies) (l : Locals) : Prop :=
  (∃ as, Sentence (F.Says s) F (s.declares F) as bs l (F.output s.id).code) ∧
    bs.map (·.2) = s.bodies.map Block.stmts

/-! ## Queued declarations -/

namespace Lines

variable {A : String → Prop} {F : State}

/-- Declarations of variables and of auxiliary variables, as they are queued. -/
theorem queued : ∀ (ds : List Declaration) {vs : List Variable},
    ds.filter Declaration.isNamed = vs.flatMap (fun v => (F.binding? v).toList.map hoisted) →
    (∀ v ∈ vs, F.isLocalDecl v = true) →
    (∀ a ∈ auxiliaries ds, ∃ n, a = AliasPool.numbered n "") →
    Lines A F vs (auxiliaries ds) [] (.declare (ds.map (·.javaName)) .done)
      (ds.map Declaration.render) := by
  intro ds
  -- a variable of a method is bound, so that each has a declaration of its own
  have hbound {v : Variable} (hv : F.isLocalDecl v = true) : ∃ b, F.binding? v = some b := by
    rw [State.isLocalDecl, Bool.and_eq_true] at hv
    obtain ⟨b, hb, -⟩ := Option.any_eq_true _ _ |>.mp hv.2
    exact ⟨b, hb⟩
  have hend : Sentence A F [] [] [] .done ";" := .separator (by decide)
  induction ds with
  | nil =>
    intro vs hnamed hlocal _
    cases vs with
    | nil => exact .nil
    | cons v rest =>
      obtain ⟨b, hb⟩ := hbound (hlocal v List.mem_cons_self)
      rw [List.flatMap_cons, hb] at hnamed
      cases hnamed
  | cons d rest ih =>
    intro vs hnamed hlocal haux
    by_cases hd : d.isNamed = true
    · rw [List.filter_cons_of_pos hd] at hnamed
      cases vs with
      | nil => cases hnamed
      | cons v more =>
        have hv := hlocal v List.mem_cons_self
        obtain ⟨b, hb⟩ := hbound hv
        rw [List.flatMap_cons, hb] at hnamed
        obtain ⟨rfl, hrest⟩ := List.cons.inj hnamed
        have hnone : auxiliaries (hoisted b :: rest) = auxiliaries rest := by
          simp [auxiliaries, hd]
        rw [hnone] at haux ⊢
        have hrender : (hoisted b).render = declaration b (Java.emptyOf b.type) ++ ";" := by
          rw [Declaration.render, hoisted, if_neg (Java.emptyOf_ne b.type)]
          rfl
        rw [List.map_cons, List.map_cons, hrender]
        exact .cons ((Sentence.declaration hv hb (.emptyOf b.type)).before hend)
          (ih hrest (fun w hw => hlocal w (List.mem_cons_of_mem _ hw)) haux)
    · rw [List.filter_cons_of_neg hd] at hnamed
      have hfirst : auxiliaries (d :: rest) = d.javaName :: auxiliaries rest := by
        simp [auxiliaries, hd]
      rw [hfirst] at haux ⊢
      obtain ⟨n, hn⟩ := haux _ List.mem_cons_self
      have hinit : d.init = "" := by
        simpa [Declaration.isNamed] using hd
      have hrender : d.render =
          Java.declType? d.type ++ " " ++ AliasPool.numbered n "" ++ " = null;" := by
        rw [Declaration.render, if_pos hinit, hn, String.append_assoc, String.append_assoc]
        rfl
      have hvalue : Sentence A F [] [] [] .done " = null;" :=
        (Sentence.phrase (@Phrase.piece _ " = null".toList rfl)).before hend
      rw [List.map_cons, List.map_cons, hrender, hn]
      exact .cons ((Sentence.auxiliary d.type n).before hvalue)
        (ih hnamed hlocal fun a ha => haux a (List.mem_cons_of_mem _ ha))

end Lines

/-! ## The variables of a statement are known -/

/-- The code of a variable in an expression is its name. -/
theorem Generated.named {env : Env} {S : State} {v : Variable} {void : Bool}
    (h : Generated env S (.var v) void) :
    ∃ (st : State) (b : Binding), st.Grows S ∧ S.binding? v = some b ∧
      (S.output v.info.id).code = st.nameOf b := by
  obtain ⟨-, u, st, st', -, hgrows, -, hrun⟩ := h
  have hout : variableOutput v u env st = (.ok (S.output v.info.id), st') := hrun
  rcases hb : st.binding? v with _ | b
  · rw [run_variableOutput_unbound hb u] at hout
    cases hout
  · obtain ⟨fields, hnamed⟩ := run_variableOutput hb u env
    rw [hnamed, Prod.mk.injEq, Except.ok.injEq] at hout
    exact ⟨st, b, hgrows, hgrows.known.binding hb, by rw [← hout.1]⟩

theorem Own.run_bound {o : Own} {env : Env} {st st' : State}
    (h : o.step.run env st = (.ok (), st')) :
    ∀ p ∈ o.vars, ∃ b, st'.binding? p.1 = some b := by
  have hgenerated := Own.run_generated h
  -- a variable whose code was generated was bound before
  have hvisited {ps : List (Expr × Usage)}
      (hps : ∀ q ∈ Expr.marked ps, Generated env st' q.1 q.2) :
      ∀ p ∈ Expr.varsIn ps, ∃ b, st'.binding? p.1 = some b := by
    intro p hp
    obtain ⟨q, hq, heq⟩ := List.mem_filterMap.mp hp
    have hgen := hps q hq
    obtain ⟨e, void⟩ := q
    cases e with
    | var v =>
      cases heq
      obtain ⟨st, b, -, hb, -⟩ := hgen.named
      exact ⟨b, hb⟩
    | _ => cases heq
  intro p hp
  cases o with
  | expr e u => exact hvisited hgenerated p hp
  | exprs es usage => exact hvisited hgenerated p hp
  | value v => exact hvisited hgenerated p hp
  | loopVar i var implicit list =>
    obtain rfl := List.mem_singleton.mp hp
    obtain ⟨st₁, st₂, -, hstep, hgenerate⟩ := loopVar_inv h
    obtain ⟨b, hb⟩ := hstep.bound
    have hbindings := (keptVariable_queues hb hgenerate).1
    exact ⟨b, (State.Known.of_eq hbindings).binding hb⟩
  | branch | package | use | pragma => exact absurd hp List.not_mem_nil

/-- When a statement is put together its variables are known. -/
theorem Outline.vars_bound (p : Outline) (env : Env) {mark : Nat} {outer : List Nat}
    {st gst : State} (h : p.toPlan.Ready mark outer st)
    (hgst : p.toPlan.generatedIn? env st = some gst) :
    ∀ q ∈ p.vars, ∃ b, gst.binding? q.1 = some b := by
  intro q hq
  rw [vars_owns] at hq
  obtain ⟨o, ho, hq⟩ := List.mem_flatMap.mp hq
  obtain ⟨_, _, hrun, hgrows⟩ := p.owns_ran env h hgst o ho
  obtain ⟨b, hb⟩ := Own.run_bound hrun q hq
  exact ⟨b, hgrows.known.binding hb⟩

/-! ## Calls of a statement -/

/-- What a call leaves is there when the statement that makes the call is put together. -/
theorem Outline.calls_grow_text (p : Outline) (env : Env) :
    ∀ {mark : Nat} {outer : List Nat} {st gst : State}, p.toPlan.Ready mark outer st →
      p.toPlan.Nested → p.toPlan.generatedIn? env st = some gst →
      ∀ c ∈ p.toPlan.calls env st, (c.after env).Grows gst := by
  induction p with
  | finish s =>
    intro mark outer st gst _ _ _ c hc
    exact absurd hc List.not_mem_nil
  | own o rest ih =>
    intro mark outer st gst h hn hgst c hc
    obtain ⟨st₁, hrun, hc⟩ := Plan.mem_calls_step hc
    rw [toPlan, Plan.generatedIn?, hrun] at hgst
    exact ih (h.behind_run hrun) hn hgst c hc
  | call inner rest ihInner ihRest =>
    intro mark outer st gst h hn hgst c hc
    obtain ⟨hpresent, hplan, hinner, hrest⟩ := hn
    have hready := h.behind (h.calls env)
    have hcall : Call.Ready ⟨inner.toPlan.stmt, st⟩ := ⟨hpresent, hplan ▸ h.called⟩
    have hgrows := (rest.generatedIn_grows env hready hgst).1
    rw [Plan.recovering_called hpresent hplan] at hgrows
    rcases List.mem_append.mp hc with hc | hc
    · have hnested := hcall.calls_grow env
      rw [← hplan] at hnested
      exact (hnested c hc).trans hgrows
    · rcases List.mem_cons.mp hc with rfl | hc
      · exact hgrows
      · exact ihRest hready hrest hgst c hc
  | inBlock rest ih => exact fun h hn hgst c hc => ih h.inBlock hn hgst c hc
  | inSub i name returns rest ih =>
    intro mark outer st gst h hn hgst c hc
    obtain ⟨st₁, henter, ho, -⟩ := Plan.enterSub_opened i name returns env st
    rw [toPlan, Plan.calls, henter] at hc
    rw [toPlan, Plan.generatedIn?, henter] at hgst
    exact ih (h.opened ho rfl) hn hgst c hc

/-- What is drawn when a statement is put together is declared in its code. -/
theorem Outline.rows_drawn (p : Outline) (env : Env) :
    ∀ {mark : Nat} {outer : List Nat} {st gst : State}, p.toPlan.Ready mark outer st →
      p.toPlan.generatedIn? env st = some gst →
      ∀ a ∈ gst.table.drawn (finishStmt p.toPlan.stmt env gst).2.table,
        (p.toPlan.stmt.id, a) ∈ p.rows env st := by
  induction p with
  | finish s =>
    intro mark outer st gst _ hgst a ha
    cases hgst
    exact List.mem_map_of_mem ha
  | own o rest ih =>
    intro mark outer st gst h hgst a ha
    obtain ⟨st₁, hrun, hrest⟩ := Plan.generatedIn?_step hgst
    rw [rows, hrun]
    exact List.mem_append_right _ (ih (h.behind_run hrun) hrest a ha)
  | call inner rest _ ih => exact fun h hgst a ha => ih (h.behind (h.calls env)) hgst a ha
  | inBlock rest ih => exact fun h hgst a ha => ih h.inBlock hgst a ha
  | inSub i name returns rest ih =>
    intro mark outer st gst h hgst a ha
    obtain ⟨st₁, henter, ho, -⟩ := Plan.enterSub_opened i name returns env st
    rw [toPlan, Plan.generatedIn?, henter] at hgst
    rw [rows, henter]
    exact ih (h.opened ho rfl) hgst a ha

end Compile

/-! ## Bodies -/

open Compile (mem_stmts_planBody mem_stmts_planList mem_stmts_planBranches mem_stmts_plan)

theorem Stmt.mem_preorderList {made : Nat → Bool} {t : Stmt} (ht : t.isPresent = true) :
    ∀ {ss : List Stmt}, t ∈ ss → Part.stmt t ∈ Stmt.preorderList made ss
  | s :: rest, h => by
    rw [Stmt.preorderList]
    rcases List.mem_cons.mp h with rfl | h
    · exact List.mem_append_left _ ((mem_stmts_plan made t t ht).mpr (.inr rfl))
    · exact List.mem_append_right _ (mem_preorderList ht h)

theorem Stmt.mem_preorderBranches {made : Nat → Bool} {part : Part} :
    ∀ {bs : List ElseIf} {branch : ElseIf}, branch ∈ bs → part ∈ branch.body.preorder made →
      part ∈ Stmt.preorderBranches made bs
  | .mk i test b :: rest, branch, h, hpart => by
    rw [Stmt.preorderBranches, ElseIf.preorder]
    rcases List.mem_cons.mp h with rfl | h
    · exact List.mem_append_left _ (List.mem_cons_of_mem _ (List.mem_append_right _ hpart))
    · exact List.mem_append_right _ (mem_preorderBranches h hpart)

/-- The statements of the bodies are called. -/
theorem Stmt.stmts_bodies {s : Stmt} (hs : s.isPresent = true) {b : Block} (hb : b ∈ s.bodies)
    {t : Stmt} (ht : t ∈ b.stmts) (hpresent : t.isPresent = true) : t ∈ s.plan.stmts := by
  have hmem : Part.stmt t ∈ b.preorder fun _ => true := by
    cases b with
    | absent => exact absurd ht List.not_mem_nil
    | mk i ss =>
      rw [Block.preorder]
      exact List.mem_cons_of_mem _ (mem_preorderList hpresent ht)
  cases s with
  | block c =>
    obtain rfl := List.mem_singleton.mp hb
    cases b with
    | absent => cases hs
    | mk i ss =>
      rw [Stmt.plan]
      exact (mem_stmts_planList (fun _ => true) t ss _).mpr (.inl (mem_preorderList hpresent ht))
  | cond i negated test yes elsifs no =>
    rw [Stmt.plan]
    simp only [Compile.Plan.stmts, mem_stmts_planBody fun _ => true,
      mem_stmts_planBranches fun _ => true]
    rcases List.mem_cons.mp hb with rfl | hb
    · exact .inl hmem
    · rcases List.mem_append.mp hb with hb | hb
      · obtain ⟨branch, hbranch, rfl⟩ := List.mem_map.mp hb
        exact .inr (.inl (mem_preorderBranches hbranch hmem))
      · split at hb
        · obtain rfl := List.mem_singleton.mp hb
          exact .inr (.inr (.inl hmem))
        · cases hb
  | loop i negated bodyFirst test c =>
    obtain rfl := List.mem_singleton.mp hb
    cases bodyFirst with
    | true =>
      rw [Stmt.plan]
      exact (mem_stmts_planBody (fun _ => true) t b _).mpr (.inl hmem)
    | false =>
      rw [Stmt.plan]
      exact (mem_stmts_planBody (fun _ => true) t b _).mpr (.inl hmem)
  | steps i init test post c =>
    obtain rfl := List.mem_singleton.mp hb
    rw [Stmt.plan]
    exact (mem_stmts_planBody (fun _ => true) t b _).mpr (.inl hmem)
  | foreach i var implicit list c =>
    obtain rfl := List.mem_singleton.mp hb
    rw [Stmt.plan]
    exact (mem_stmts_planBody (fun _ => true) t b _).mpr (.inl hmem)
  | _ => exact absurd hb List.not_mem_nil

namespace Compile

open Name (AliasPool)

namespace Call.Ready

variable {c : Call} {env : Env} {F : State}

/-- No variable of a statement is named twice in it. -/
theorem vars_nodup (h : c.Ready) : (c.stmt.vars.map (·.1)).Nodup := by
  have hnodes : c.stmt.outline.toPlan.nodes.Nodup := h.outline.distinct
  have hdeep := (c.stmt.outline.deepVars_perm (nested_outline c.stmt)).map (·.1.info.id)
  obtain ⟨ids, hperm, hsub⟩ := c.stmt.outline.deepVars_subperm
  have hids := (hperm.trans hdeep).nodup_iff.mp (hsub.nodup hnodes)
  rw [List.map_append] at hids
  have hown := List.Nodup.of_append_right hids
  have hmap : c.stmt.outline.vars.map (·.1.info.id) = (c.stmt.vars.map (·.1)).map (·.info.id) := by
    rw [List.map_map]
    rfl
  rw [hmap] at hown
  exact List.Nodup.of_map _ hown

/-- When a statement is put together its bodies have their lines. -/
theorem body_lines (h : c.Ready) (hok : c.succeeds env = true)
    (hcalls : ∀ d ∈ c.stmt.plan.calls env c.before.begin, d.succeeds env = true) {gst : State}
    (hgst : c.generatedIn? env = some gst) (hF : gst.Grows F) {b : Block} (hb : b ∈ c.stmt.bodies) :
    F.LinesOf b.stmts (bodyLines gst b) := by
  have hlines : bodyLines gst b = (b.stmts.map fun s => gst.lineOf? s.id).filterMap id := by
    rw [List.filterMap_map]
    rfl
  refine ⟨_, List.forall₂_map_right_iff.mpr (List.forall₂_same.mpr fun s hs hpresent => ?_),
    hlines⟩
  -- the statement is called, and its text is there from then on
  have haccount := c.stmt.plan.account env h.plan (nested_plan c.stmt)
  have hmem := Stmt.stmts_bodies h.present hb hs hpresent
  have hcomplete := haccount.complete ((h.succeeds_iff env).mp hok) hcalls
  obtain ⟨d, hd, rfl⟩ := haccount.called s hmem (hcomplete _ (haccount.members s hmem))
  have hready := c.stmt.plan.ready_of_mem_calls h.plan (nested_plan c.stmt) d hd
  have hgrows := c.stmt.outline.calls_grow_text env h.outline c.nested_stmt
    (by rw [Stmt.toPlan_outline]; exact hgst) d (by rw [Stmt.toPlan_outline]; exact hd)
  have hgenerated : (d.after env).isGenerated d.stmt.id = true := by
    rw [← hready.succeeds_eq env]
    exact hcalls d hd
  rw [State.lineOf?, State.lineOf?, hF.get (hgrows.isGenerated hgenerated)]

/-- The text of a statement that is generated declares the variables that the statement hoists and
those that it places, and auxiliary variables: those that are queued, and in its code one for each
of some nodes. Only the code of an expression as a statement declares variables in the block in
which the statement stands. -/
theorem written (h : c.Ready) (hok : c.succeeds env = true)
    (hcalls : ∀ d ∈ c.stmt.plan.calls env c.before.begin, d.succeeds env = true)
    (hparams : c.before.Params) (hF : (c.after env).Grows F) (inner : Block → Locals) :
    ∃ (rs : List (Nat × String)) (l : Locals),
      (∀ r ∈ rs, r ∈ c.stmt.outline.rows env c.before.begin) ∧
      (rs.map (·.1)).Sublist c.stmt.nodes ∧
      Sentence (F.Says c.stmt) F (c.stmt.declares F)
        (auxiliaries (c.queued env) ++ rs.map (·.2)) (c.stmt.bodiesWith inner)
        (.declare ((c.queued env).map (·.javaName)) l) (F.output c.stmt.id).code ∧
      (l.names = [] ∨ ∃ i e, c.stmt = .expr i e) := by
  obtain ⟨gst, code, hgst, hcode, htext⟩ := h.text hok
  have hgst' : c.stmt.outline.toPlan.generatedIn? env c.before.begin = some gst := by
    rw [Stmt.toPlan_outline]
    exact hgst
  have hplan := (h.exec_grows env).trans hF
  have hgrows := (c.stmt.outline.generatedIn_grows env h.outline hgst').2.trans hplan
  have hdrawn := c.stmt.outline.rows_drawn env h.outline hgst'
  rw [Stmt.toPlan_outline, Stmt.stmt_plan] at hdrawn
  have hassembly : Assembly env F gst c.stmt.Steps (c.stmt.outline.rows env c.before.begin)
      (· ∈ c.stmt.lost) c.stmt := {
    grows := hgrows
    spelled := (c.stmt.outline.owns_spelled env hgrows h.outline hgst' (hparams.of_frames rfl)
      (fun _ hr => hr) fun o ho st₀ r hr _ _ _ _ hstep => Own.steps_roots ho st₀ hr hstep).2
    bound := c.stmt.outline.vars_bound env h.outline hgst'
    distinct := h.vars_nodup
    lost := fun _ hv _ => hv
    bodies := fun b hb => h.body_lines hok hcalls hgst hgrows hb
    drawn := hdrawn }
  obtain ⟨l, ⟨rs, hrs, hnodes, hsentence⟩, hplace⟩ :=
    hassembly.stmtCode inner code _ (Prod.ext hcode rfl)
  -- in front of the code stands what is queued
  have hqueued := c.stmt.outline.queued_named env h.outline (h.exec_ok hok) hplan.known
  have hspent := c.stmt.outline.drawn_spent env h.outline (h.exec_ok hok)
  rw [Stmt.toPlan_outline] at hqueued hspent
  have hfront : Lines (F.Says c.stmt) F (c.stmt.hoistedVars F) (auxiliaries (c.queued env)) []
      (.declare ((c.queued env).map (·.javaName)) .done)
      ((c.queued env).map Declaration.render) := by
    refine .queued _ (hqueued.trans (c.stmt.hoistedAt_vars F)) (fun v hv => ?_) fun a ha => ?_
    · obtain ⟨p, hp, rfl⟩ := List.mem_map.mp hv
      have hmarks := (List.mem_filter.mp hp).2
      rw [Bool.and_eq_true] at hmarks
      exact hmarks.1
    · exact c.stmt.outline.drawn_numbered (hspent.subset (List.mem_append_left _ ha))
  have hbreak : Sentence (F.Says c.stmt) F [] [] [] .done "\n" := .separator (by decide)
  have hall := (hfront.append (Lines.single hsentence).nonEmpty).join hbreak
  rw [Locals.declare_append] at hall
  refine ⟨rs, l, hrs, hnodes, ?_, hplace⟩
  rw [State.output, hF.outputs _ _ htext]
  exact hall

end Call.Ready

end Compile

end TypedPerl
