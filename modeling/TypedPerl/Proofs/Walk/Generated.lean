import TypedPerl.Proofs.Walk.Growing
import TypedPerl.Proofs.Walk.Settled

/-!
# Where the nodes of a statement come from

When a statement is put together, each of its own expressions is `Generated`: its output was made in
a state that has grown into the present one, and in which its parts had their outputs already.
-/

namespace TypedPerl.Compile

/-! ## Own expressions of a statement -/

/-- What was generated for the expression was made in a state that has grown into this one, and in
which its parts were generated. The mark says that its value is not used. -/
structure Generated (env : Env) (S : State) (e : Expr) (void : Bool) : Prop where
  done : S.isGenerated e.id = true
  made : ∃ u st st', u.isVoid = void ∧ st.Grows S ∧
    (∀ p ∈ e.parts u, st.isGenerated p.1.id = true) ∧
    exprOutput e u env st = (.ok (S.output e.id), st')

theorem Generated.grows {env : Env} {S S' : State} {e : Expr} {void : Bool}
    (h : Generated env S e void) (hgrows : S.Grows S') : Generated env S' e void := by
  obtain ⟨hdone, u, st, st', hu, hst, hparts, hout⟩ := h
  refine ⟨hgrows.isGenerated hdone, u, st, st', hu, hst.trans hgrows, hparts, ?_⟩
  rw [hgrows.output hdone]
  exact hout

/-- What is known when the names in an expression are resolved is known when it is finished. -/
theorem finishExpr_grown {e : Expr} {u : Usage} {env : Env} {st st₁ st' : State}
    (h : finishExpr e u env st = (.ok (), st')) (hresolve : resolveExpr e env st = (.ok (), st₁)) :
    st₁.Grows st' := by
  obtain ⟨_, st₂, hresolve', hout, hstored⟩ := finishExpr_inv h
  cases hresolve.symm.trans hresolve'
  have hrecords := exprOutput_along_all blind_records (fun _ _ => .of_same rfl rfl) e u env st₁
  rw [hout] at hrecords
  -- resolving the expression generates nothing
  have hsame (n : Nat) := (resolveExpr_local e env st n List.not_mem_nil).output
  have hbindings := (finishExpr_named e u env st).2
  have hkept := (finishExpr_grows e u env st).outputs
  rw [hresolve] at hsame hbindings
  rw [h] at hbindings hkept
  refine ⟨fun n out hn => hkept n out ((hsame n).symm.trans hn), .of_eq hbindings, fun n s hn => ?_⟩
  rw [hstored]
  exact hrecords.subs n s hn

theorem finishExpr_generated {e : Expr} {u : Usage} {env : Env} {st st' : State}
    (h : finishExpr e u env st = (.ok (), st'))
    (hparts : ∀ p ∈ e.parts u, st.isGenerated p.1.id = true) : Generated env st' e u.isVoid := by
  have hdone := (finishExpr_generates e u).complete env st st' h _ (List.mem_singleton_self _)
  obtain ⟨st₁, st₂, hresolve, hout, -⟩ := finishExpr_inv h
  have hsame (n : Nat) := (resolveExpr_local e env st n List.not_mem_nil).output
  rw [hresolve] at hsame
  refine ⟨hdone, u, st₁, st₂, rfl, finishExpr_grown h hresolve, fun p hp => ?_, hout⟩
  rw [State.isGenerated, hsame]
  exact hparts p hp

theorem walkParts_generated {env : Env} {ps : List (Expr × Usage)}
    (ih : ∀ p ∈ ps, ∀ st st', walkExpr p.1 p.2 env st = (.ok (), st') →
      ∀ q ∈ p.1.order p.2, Generated env st' q.1 q.2.isVoid) :
    ∀ {st st' : State}, walkParts ps env st = (.ok (), st') →
      ∀ q ∈ ps.flatMap fun p => p.1.order p.2, Generated env st' q.1 q.2.isVoid := by
  induction ps with
  | nil =>
    intro st st' _ q hq
    exact absurd hq List.not_mem_nil
  | cons p rest ihRest =>
    intro st st' h q hq
    obtain ⟨_, st₁, hfirst, hrest⟩ := run_bind_inv h
    have horder : walkParts rest = finishAll (rest.flatMap fun p => p.1.order p.2) :=
      walkParts_order fun p _ => walkExpr_order p.1 p.2
    have hgrows := finishAll_grows (rest.flatMap fun p => p.1.order p.2) env st₁
    rw [← horder, hrest] at hgrows
    -- what the first part generated is kept by the others
    rcases List.mem_append.mp hq with hq | hq
    · exact (ih p List.mem_cons_self st st₁ hfirst q hq).grows hgrows
    · exact ihRest (fun p hp => ih p (List.mem_cons_of_mem _ hp)) hrest q hq

/-- When an expression is walked, it and its parts are generated. -/
theorem walkExpr_generated {env : Env} (e : Expr) (u : Usage) : ∀ {st st' : State},
    walkExpr e u env st = (.ok (), st') → ∀ q ∈ e.order u, Generated env st' q.1 q.2.isVoid := by
  -- the parts are generated before the node, and their code is what the node is made from
  refine e.parts_induction (P := fun e u => ∀ {st st' : State},
    walkExpr e u env st = (.ok (), st') → ∀ q ∈ e.order u, Generated env st' q.1 q.2.isVoid)
    (fun e u ih => ?_) u
  intro st st' h q hq
  rw [walkExpr_eq] at h
  obtain ⟨_, st₁, hparts, hfinish⟩ := run_bind_inv h
  have hdone := walkParts_generated (fun p hp st st' => ih p hp) hparts
  rw [Expr.order_eq] at hq
  rcases List.mem_append.mp hq with hq | hq
  · have hgrows := finishExpr_grows e u env st₁
    rw [hfinish] at hgrows
    exact (hdone q hq).grows hgrows
  · rw [List.mem_singleton.mp hq]
    refine finishExpr_generated hfinish fun p hp => ?_
    have hself : p ∈ p.1.order p.2 := by
      rw [Expr.order_eq]
      exact List.mem_append_right _ (List.mem_singleton_self _)
    exact (hdone p (List.mem_flatMap.mpr ⟨p, hp, hself⟩)).done

/-- When parts are walked, each of them is generated, and not only what is below it. -/
theorem walkParts_each {env : Env} {ps : List (Expr × Usage)} {st st' : State}
    (h : walkParts ps env st = (.ok (), st')) : ∀ p ∈ ps, Generated env st' p.1 p.2.isVoid := by
  intro p hp
  refine walkParts_generated (fun q _ _ _ => walkExpr_generated q.1 q.2) h p ?_
  refine List.mem_flatMap.mpr ⟨p, hp, ?_⟩
  rw [Expr.order_eq]
  exact List.mem_append_right _ (List.mem_singleton_self _)

/-- The undefined value is generated as null. -/
theorem Generated.output_of_undef {env : Env} {S : State} {e : Expr} {void : Bool}
    (h : Generated env S e void) (he : e.isUndef = true) :
    S.output e.id = { code := "null", type := some .box } := by
  cases e with
  | undef i =>
    obtain ⟨-, u, st, st', -, -, -, hout⟩ := h
    exact (Except.ok.inj (congrArg Prod.fst hout)).symm
  | _ => cases he

theorem walkExprs_generated {env : Env} {es : List Expr} {usage : Nat → Usage} {st st' : State}
    (h : walkExprs es usage env st = (.ok (), st')) :
    ∀ q ∈ Expr.orderList es usage, Generated env st' q.1 q.2.isVoid := by
  rw [walkExprs_eq] at h
  rw [Expr.orderList_eq]
  exact walkParts_generated (fun p _ st st' => walkExpr_generated p.1 p.2) h

/-- The expressions that the step finishes. -/
def Own.finished : Own → List (Expr × Bool)
  | expr e u => Expr.marked (e.order u)
  | exprs es usage => Expr.marked (Expr.orderList es usage)
  | value v => Expr.marked (Expr.orderList v.toList fun _ => .scalar)
  | loopVar _ _ _ _ | branch _ | package _ _ | use _ _ | pragma _ _ => []

/-- The expressions that the statement itself finishes. -/
def Outline.finished : Outline → List (Expr × Bool)
  | finish _ => []
  | own o rest => o.finished ++ rest.finished
  | call _ rest | inBlock rest | inSub _ _ _ rest => rest.finished

theorem Own.finished_eq (o : Own) (st : State) : Expr.marked (o.visits st) = o.finished := by
  cases o with
  | value v => exact marked_value v st
  | _ => rfl

theorem Own.run_generated {o : Own} {env : Env} {st st' : State}
    (h : o.step.run env st = (.ok (), st')) : ∀ q ∈ o.finished, Generated env st' q.1 q.2 := by
  intro q hq
  -- the steps that visit expressions walk them one after another
  have hvisited : ∀ p ∈ o.visits st, Generated env st' p.1 p.2.isVoid := by
    cases o with
    | expr e u => exact walkExpr_generated e u h
    | exprs es usage => exact walkExprs_generated h
    | value v =>
      have hrun : walkExprs v.toList (fun _ => returnUsage st) env st = (.ok (), st') := h
      exact walkExprs_generated hrun
    | _ =>
      intro p hp
      exact absurd hp List.not_mem_nil
  rw [← o.finished_eq st] at hq
  obtain ⟨p, hp, rfl⟩ := List.mem_map.mp hq
  exact hvisited p hp

theorem Outline.finished_owns (p : Outline) : p.finished = p.owns.flatMap Own.finished := by
  induction p with
  | finish s => rfl
  | own o rest ih => rw [finished, owns, List.flatMap_cons, ih]
  | call inner rest _ ih | inBlock rest ih | inSub i name returns rest ih => exact ih

end TypedPerl.Compile
