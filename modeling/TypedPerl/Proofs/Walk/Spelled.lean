import TypedPerl.Proofs.Walk.Generated
import TypedPerl.Proofs.Walk.Stores

/-!
# Texts of expressions

When an expression has been walked, what was generated for each of its nodes is `Spelled`: the code
of an assignment that is a statement declares its targets, and any other code is a phrase. A phrase
is made of the words of the unit. Where its value is not used, it may also be made around a store
that declares variables and stands where no declaration can (`Buried`).
-/

namespace TypedPerl.Compile

open Java (Phrase)
open TypedPerl.Expr (Everywhere)

/-! ## Auxiliary variables of assignments -/

/-- The auxiliary variables that assignments draw while expressions are finished. -/
def rows (env : Env) : List (Expr × Usage) → State → List (Nat × String)
  | [], _ => []
  | p :: rest, st => rowAt st p.1 p.2 ++ rows env rest (finishExpr p.1 p.2 env st).2

theorem rows_append {env : Env} {ps qs : List (Expr × Usage)} : ∀ {st st₁ : State},
    finishAll ps env st = (.ok (), st₁) →
      rows env (ps ++ qs) st = rows env ps st ++ rows env qs st₁ := by
  induction ps with
  | nil =>
    rintro st _ ⟨⟩
    rfl
  | cons p rest ih =>
    intro st st₁ h
    obtain ⟨_, st₂, hfirst, hrest⟩ := run_bind_inv h
    rw [List.cons_append, rows, rows, hfirst, ih hrest, List.append_assoc]

/-- Resolving the names in an assignment draws nothing. -/
theorem rowAt_resolve {e : Expr} {env : Env} {st st₁ : State}
    (h : resolveExpr e env st = (.ok (), st₁)) (u : Usage) : rowAt st₁ e u = rowAt st e u := by
  cases e with
  | assign i op left right =>
    cases h
    rfl
  | _ => rfl

theorem rowAt_sublist (st : State) (e : Expr) (u : Usage) :
    ((rowAt st e u).map (·.1)).Sublist [e.id] := by
  unfold rowAt
  split
  · split
    · exact .refl _
    · exact List.nil_sublist _
  · exact List.nil_sublist _

theorem finishAll_frames (ps : List (Expr × Usage)) (env : Env) (st : State) :
    (finishAll ps env st).2.frames = st.frames := by
  induction ps generalizing st with
  | nil => rfl
  | cons p rest ih =>
    have hfirst := ((finishExpr_generates p.1 p.2).keeps env st).frames
    rw [finishAll, run_bind]
    generalize finishExpr p.1 p.2 env st = r at hfirst ⊢
    rcases r with ⟨f | _, st₁⟩
    · exact hfirst
    · exact (ih st₁).trans hfirst

theorem State.Params.of_frames {st st' : State} (h : st.Params) (heq : st'.frames = st.frames) :
    st'.Params := by
  unfold State.Params
  rw [heq]
  exact h

section

variable {F S : State} {R : List (Nat × String)} {env : Env}

/-- The run draws auxiliary variables of `R`, with subroutines open that have their arguments under
names of pools, and what it leaves grows into `F`. -/
structure Leads (F : State) (R : List (Nat × String)) (env : Env) (ps : List (Expr × Usage))
    (st st' : State) : Prop where
  rows : ∀ r ∈ rows env ps st, r ∈ R
  params : st.Params
  grows : st'.Grows F

theorem leads_divides : Divides env (Leads F R env) := by
  intro ps qs st st₁ st₂ hfirst hrest h
  have hrows := h.rows
  rw [rows_append hfirst] at hrows
  have hframes := finishAll_frames ps env st
  have hgrows := finishAll_grows qs env st₁
  rw [hfirst] at hframes
  rw [hrest] at hgrows
  exact ⟨⟨fun r hr => hrows r (List.mem_append_left _ hr), h.params, hgrows.trans h.grows⟩,
    fun r hr => hrows r (List.mem_append_right _ hr), h.params.of_frames hframes, h.grows⟩

/-- What was generated for the expression was made from what its parts have in `S`, in a state that
has grown into `F`. -/
structure Drafted (env : Env) (S F : State) (R : List (Nat × String)) (e : Expr) (u : Usage) :
    Prop where
  made : ∃ st st', (∀ n ∈ partNodes (e.parts u), S.SameAt n st) ∧ st.Grows F ∧ st.Params ∧
    (∀ r ∈ rowAt st e u, r ∈ R) ∧ exprOutput e u env st = (.ok (S.output e.id), st')
  path : path? S e = accessOf? S e

theorem drafted_of_finish {e : Expr} {u : Usage} {st st' : State}
    (h : finishExpr e u env st = (.ok (), st')) (hleads : Leads F R env [(e, u)] st st')
    (hnew : e.id ∉ partNodes (e.parts u)) (hS : ∀ n ∈ e.nodes, st'.SameAt n S) :
    Drafted env S F R e u := by
  obtain ⟨st₁, st₂, hresolve, hparts, hout, hpath⟩ := finishExpr_output h hnew hS
  have hsteady : Steady [] (resolveExpr e) := resolveExpr_steady e
  have hframes := (hsteady.keeps env st).frames
  rw [hresolve] at hframes
  refine ⟨⟨st₁, st₂, hparts, (finishExpr_grown h hresolve).trans hleads.grows,
    hleads.params.of_frames hframes, fun r hr => ?_, hout⟩, hpath⟩
  rw [rowAt_resolve hresolve] at hr
  exact hleads.rows r (List.mem_append_left _ hr)

theorem walkExpr_drafted (e : Expr) (u : Usage) {st st' : State}
    (h : walkExpr e u env st = (.ok (), st')) (hleads : Leads F R env (e.order u) st st')
    (hdistinct : e.nodes.Nodup) (hS : ∀ n ∈ e.nodes, st'.SameAt n S) :
    e.Everywhere (Drafted env S F R) u :=
  walkExpr_everywhere leads_divides (fun _ _ _ _ hfinish hone hnew hsame =>
    drafted_of_finish hfinish hone hnew hsame) e u h hleads hdistinct hS

end

/-! ## Spelled expressions -/

/-- The variable is one of a method that is declared in the expression, where its value is not
used. -/
def State.Unused (F : State) (e : Expr) (u : Usage) (v : Variable) : Prop :=
  v ∈ Expr.unused (e.order u) ∧ F.isLocalDecl v = true

/-- The text is that of stores, which declare variables of `lost` only. -/
def Buried (F : State) (steps : String → Prop) (lost : Variable → Prop) (s : String) : Prop :=
  ∃ vs as l, (∀ v ∈ vs, lost v) ∧ Sentence (Word F steps) F vs as [] l s

/-- The code of an expression is a phrase. It is made around stores only if the value of the
expression is not used. An assignment that is a statement declares its targets, and the auxiliary
variable that it draws. -/
structure Spelled (F : State) (steps : String → Prop) (R : List (Nat × String)) (S : State)
    (e : Expr) (u : Usage) : Prop where
  code : ∀ A : String → Prop, (∀ s, Word F steps s → A s) →
    (u.isVoid = true → ∀ s, Buried F steps (F.Unused e u) s → A s) → Phrase A (S.output e.id).code
  stores : u.isVoid = true → ∀ i left right, e = .assign i "=" left right →
    ∃ l, Written (Word F steps) F R [e.id] (left.targetVars.filter F.isLocalDecl) [] l
      (S.output e.id).code
  single : ∀ i x, e = .list i [x] → S.output e.id = S.output x.id

/-- What is made around stores in a part of an expression is made so in the expression. -/
theorem Buried.of_part {F : State} {steps : String → Prop} {e : Expr} {u : Usage}
    {p : Expr × Usage} (hp : p ∈ e.parts u) {s : String} (h : Buried F steps (F.Unused p.1 p.2) s) :
    Buried F steps (F.Unused e u) s := by
  obtain ⟨vs, as, l, hvs, hs⟩ := h
  refine ⟨vs, as, l, fun v hv => ?_, hs⟩
  obtain ⟨hunused, hlocal⟩ := hvs v hv
  obtain ⟨w, hmem, hvoid⟩ := Expr.mem_unused.mp hunused
  exact ⟨Expr.mem_unused.mpr ⟨w, Expr.order_of_part hp hmem, hvoid⟩, hlocal⟩

section

variable {F S : State} {steps : String → Prop} {R : List (Nat × String)}

/-- A part whose value is not used is one of an expression whose value is not used. -/
theorem part_void {e : Expr} {u : Usage} {p : Expr × Usage} (hp : p ∈ e.parts u)
    (hv : p.2.isVoid = true) : u.isVoid = true := by
  by_contra hu
  rw [Expr.parts_used (Bool.eq_false_iff.mpr hu) p hp] at hv
  cases hv

variable {e : Expr} {u : Usage}

/-- The code of an expression and of the elements of a row. -/
theorem Spelled.said (h : e.Everywhere (Spelled F steps R S) u) {A : String → Prop}
    (hword : ∀ s, Word F steps s → A s)
    (hburied : u.isVoid = true → ∀ s, Buried F steps (F.Unused e u) s → A s) :
    Said A S e ∧ RowSaid A S e := by
  refine ⟨h.self.code A hword hburied, fun es hseveral x hx => ?_⟩
  obtain ⟨⟨i, rfl⟩, -⟩ := severalElements_eq hseveral
  have hmem : (x, elementUsage es.length u) ∈ (Expr.list i es).parts u := List.mem_map_of_mem hx
  exact (h.part hmem).self.code A hword fun hv s hs =>
    hburied (part_void hmem hv) s (hs.of_part hmem)

/-- An expression whose value is used is made of words alone. -/
theorem Spelled.said_used (h : e.Everywhere (Spelled F steps R S) u) (hu : u.isVoid = false)
    {A : String → Prop} (hword : ∀ s, Word F steps s → A s) : Said A S e ∧ RowSaid A S e := by
  refine Spelled.said h hword fun hv => ?_
  rw [hu] at hv
  cases hv

/-- The expression is spelled, and the path of an access consists of words. -/
structure Voiced (F : State) (steps : String → Prop) (R : List (Nat × String)) (S : State)
    (e : Expr) (u : Usage) : Prop extends Spelled F steps R S e u where
  path : PathSaid (Word F steps) S e

/-- The parts of an access are used. -/
theorem access_used {p : Path} (h : accessOf? S e = some p) :
    ∀ q ∈ e.parts u, q.2.isVoid = false := by
  intro q hq
  cases e with
  | index i throughRef target key brace context =>
    simp only [Expr.parts, List.mem_cons, List.not_mem_nil, or_false] at hq
    rcases hq with rfl | rfl
    · cases throughRef <;> rfl
    · exact isVoid_keyUsage key context
  | deref i target sigil =>
    cases List.mem_singleton.mp hq
    rfl
  | _ => cases h

/-- An expression is spelled if its parts are. -/
theorem voiced_of_drafted {env : Env} (h : Drafted env S F R e u)
    (hparts : ∀ p ∈ e.parts u, p.1.Everywhere (Voiced F steps R S) p.2)
    (hstep : ∀ i op before target, e = .incDec i op before target → steps op) :
    Voiced F steps R S e u := by
  obtain ⟨⟨st, st', hsame, hst, hparams, hrows, hout⟩, haccess⟩ := h
  have hvocabulary : Vocabulary (Word F steps) st := hparams.vocabulary hst
  have hspelled {p : Expr × Usage} (hp : p ∈ e.parts u) :
      p.1.Everywhere (Spelled F steps R S) p.2 :=
    (hparts p hp).extend fun _ _ hv _ => hv.toSpelled
  -- the parts are in `S` as they were when the code was made
  have hnode {p : Expr × Usage} (hp : p ∈ e.parts u) {x : Expr} (hx : x ∈ p.1.preorder) :
      S.SameAt x.id st := hsame _ (id_mem_partNodes (v := p.2) hp hx)
  have houtput {p : Expr × Usage} (hp : p ∈ e.parts u) {x : Expr} (hx : x ∈ p.1.preorder) :
      st.output x.id = S.output x.id := by
    rw [State.output, (hnode hp hx).output]
    rfl
  have hpaths : ∀ p ∈ e.parts u, ∀ x ∈ p.1.preorder, PathSaid (Word F steps) st x := by
    intro p hp x hx
    obtain ⟨v, hv⟩ := (hparts p hp).of_mem hx
    rw [PathSaid, path_congr (hnode hp hx).path]
    exact hv.self.path
  have hsaid {A : String → Prop} {p : Expr × Usage} (hp : p ∈ e.parts u)
      (h : Said A S p.1 ∧ RowSaid A S p.1) : Said A st p.1 ∧ RowSaid A st p.1 := by
    refine ⟨?_, fun es hseveral x hx => ?_⟩
    · rw [Said, houtput hp p.1.self_mem_preorder]
      exact h.1
    · rw [Said, houtput hp (mem_severalElements hseveral hx)]
      exact h.2 es hseveral x hx
  have hstores : u.isVoid = true → ∀ i left right, e = .assign i "=" left right →
      ∃ l, Written (Word F steps) F R [e.id] (left.targetVars.filter F.isLocalDecl) [] l
        (S.output e.id).code := by
    rintro hu i left right rfl
    have hright : (right, sourceUsage left) ∈ (Expr.assign i "=" left right).parts u :=
      List.mem_cons_self
    have hleft : (left, targetUsage "=" u) ∈ (Expr.assign i "=" left right).parts u :=
      List.mem_cons_of_mem _ List.mem_cons_self
    have hused := hsaid hright
      (Spelled.said_used (hspelled hright) (isVoid_sourceUsage left) fun _ hs => hs)
    obtain ⟨l, hs⟩ := sentence_assign hst hvocabulary i hu (hpaths _ hleft) hused.1 hused.2 env
      _ _ hout
    exact ⟨l, rowAt st (.assign i "=" left right) u, hrows, rowAt_sublist st _ u, hs⟩
  refine ⟨⟨fun A hword hburied => ?_, hstores, ?_⟩, ?_⟩
  · by_cases hstore : u.isVoid = true ∧ ∃ i left right, e = .assign i "=" left right
    · obtain ⟨hu, i, left, right, rfl⟩ := hstore
      obtain ⟨l, rs, -, -, hs⟩ := hstores hu i left right rfl
      refine .atom (hburied hu _ ⟨_, _, l, fun v hv => ?_, hs⟩)
      obtain ⟨hv, hlocal⟩ := List.mem_filter.mp hv
      exact ⟨(Expr.assign_sublist i left right hu).subset (by rwa [if_pos rfl]), hlocal⟩
    · have hall (p : Expr × Usage) (hp : p ∈ e.parts u) : Said A st p.1 ∧ RowSaid A st p.1 :=
        hsaid hp (Spelled.said (hspelled hp) hword fun hv s hs =>
          hburied (part_void hp hv) s (hs.of_part hp))
      refine phrase_exprOutput (hvocabulary.mono hword) (fun p hp => (hall p hp).1)
        (fun p hp => (hall p hp).2) (fun p hp x hx => (hpaths p hp x hx).mono hword)
        (fun i op before target heq => ?_)
        (fun hu i left right heq => hstore ⟨hu, i, left, right, heq⟩) env _ _ hout
      have hop := hstep i op before target heq
      exact ⟨hword _ (.beside hop), hword _ (.between hop)⟩
  · rintro i x rfl
    have hlist : exprOutput (.list i [x]) u env st = (.ok (st.output x.id), st) := rfl
    rw [← houtput (List.mem_singleton_self _) x.self_mem_preorder]
    exact Except.ok.inj (congrArg Prod.fst (hout.symm.trans hlist))
  · intro p hp
    rw [haccess] at hp
    have hall (q : Expr × Usage) (hq : q ∈ e.parts u) :=
      Spelled.said_used (hspelled hq) (access_used hp q hq) fun _ hs => hs
    exact phrased_access (fun q hq => (hall q hq).1) (fun q hq => (hall q hq).2) hp

end

/-! ## Steps of a statement -/

/-- The expressions that the step walks, with their usages. -/
def Own.roots (st : State) : Own → List (Expr × Usage)
  | expr e u => [(e, u)]
  | exprs es usage => es.mapIdx fun i x => (x, usage i)
  | value v => v.toList.map (·, returnUsage st)
  | loopVar _ _ _ _ | branch _ | package _ _ | use _ _ | pragma _ _ => []

theorem Own.visits_roots (o : Own) (st : State) :
    o.visits st = (o.roots st).flatMap fun p => p.1.order p.2 := by
  cases o with
  | expr e u => exact (List.flatMap_singleton _ _).symm
  | exprs es usage => exact Expr.orderList_eq es usage
  | value v => exact Expr.orderList_const v.toList (returnUsage st)
  | _ => rfl

/-- The nodes of the expressions that the step walks are nodes of the step. -/
theorem Own.roots_nodes (o : Own) (st : State) : (partNodes (o.roots st)).Sublist o.step.nodes := by
  cases o with
  | expr e u =>
    have heq : partNodes ((Own.expr e u).roots st) = e.nodes := List.flatMap_singleton _ _
    exact heq ▸ .refl _
  | exprs es usage =>
    have heq : partNodes ((Own.exprs es usage).roots st) = Expr.nodesList es := by
      show _ = (Expr.preorderList es).map Expr.id
      rw [Expr.preorderList_mapIdx usage, List.map_flatMap]
      rfl
    exact heq ▸ .refl _
  | value v =>
    cases v with
    | none => exact List.nil_sublist _
    | some e =>
      have heq : partNodes ((Own.value (some e)).roots st) = Expr.nodesList [e] := by
        rw [Expr.nodesList_cons]
        rfl
      exact heq ▸ .refl _
  | _ => exact List.nil_sublist _

/-- When a step of a statement has run, the expressions that it has walked are spelled, and stay so
as long as their outputs do. -/
theorem Own.run_spelled {o : Own} {env : Env} {F later : State} {R : List (Nat × String)}
    {steps : String → Prop} {st st' : State} (h : o.step.run env st = (.ok (), st'))
    (hleads : Leads F R env (o.visits st) st st') (hdistinct : o.step.nodes.Nodup)
    (hlater : st'.Keeps later)
    (hsteps : ∀ r ∈ o.roots st, ∀ i op before target,
      .incDec i op before target ∈ r.1.preorder → steps op) :
    ∀ r ∈ o.roots st, r.1.Everywhere (Spelled F steps R later) r.2 := by
  have hcomplete := o.step.generates.complete env st st' h
  have hsublist := o.roots_nodes st
  -- the outputs in the later state are those behind the step
  have hsame : ∀ n ∈ partNodes (o.roots st), st'.SameAt n (st'.setOutputs later.outputs) := by
    intro n hn
    obtain ⟨out, hout⟩ := Option.isSome_iff_exists.mp (hcomplete n (hsublist.subset hn))
    exact ⟨(hlater n out hout).trans hout.symm, rfl⟩
  intro r hr
  have hwalk : walkParts (o.roots st) env st = (.ok (), st') := by
    have hvisits : o.onlyVisits = true := by
      cases o with
      | expr | exprs | value => rfl
      | _ => exact absurd hr List.not_mem_nil
    rw [Own.run_visits hvisits, o.visits_roots st] at h
    rw [walkParts_order fun p _ => walkExpr_order p.1 p.2]
    exact h
  rw [o.visits_roots st] at hleads
  have hdrafted := walkParts_everywhere leads_divides
    (fun p _ _ _ => walkExpr_drafted p.1 p.2) hwalk hleads (hsublist.nodup hdistinct) hsame r hr
  have hnodes := hdrafted.and_nodes (R := fun x => ∀ i op before target,
    x = .incDec i op before target → steps op)
    fun x hx i op before target heq => hsteps r hr i op before target (heq ▸ hx)
  have hvoiced := hnodes.extend (Q := Voiced F steps R (st'.setOutputs later.outputs))
    fun e u hd hparts => voiced_of_drafted hd.1 hparts hd.2
  exact hvoiced.extend fun _ _ hv _ => ⟨hv.code, hv.stores, hv.single⟩

end TypedPerl.Compile
