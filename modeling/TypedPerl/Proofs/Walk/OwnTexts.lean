import TypedPerl.Proofs.Walk.Auxiliaries

/-!
# Texts of the expressions of a statement

When a statement is put together, the expressions that it has walked itself are spelled
(`Outline.owns_spelled`): at every call of the walk, the subroutines that are open have their
arguments under names that pools hand out (`tree_params`), and what a step leaves stays.
-/

namespace TypedPerl.Compile

open TypedPerl.Expr (Everywhere)

/-! ## Arguments of open subroutines -/

theorem enterSub_params {i : Info} {name : String} {returns : Option Ty} {env : Env}
    {st st₁ : State} (h : enterSub i name returns env st = (.ok (), st₁)) (hst : st.Params) :
    st₁.Params := by
  obtain ⟨s, t, subs, hdeclare, -⟩ := Plan.declareSub_ok i name returns env st
  cases (Plan.enterSub_run hdeclare).symm.trans h
  intro f hf
  rcases List.mem_cons.mp hf with rfl | hf
  · obtain ⟨-, -, -, -, -, halias, -⟩ :=
      (t.enter .function).declare_spec "_" .array argsType false
    exact ⟨_, _, congrArg Prod.fst halias⟩
  · exact hst f hf

theorem Own.run_frames (o : Own) (env : Env) (st : State) :
    (o.step.run env st).2.frames = st.frames :=
  (o.step.generates.keeps env st).frames

/-- When a statement is put together, the expressions that it has walked itself are spelled. -/
theorem Outline.owns_spelled (p : Outline) (env : Env) {F gst : State} {R : List (Nat × String)}
    {steps : String → Prop} (hF : gst.Grows F) :
    ∀ {mark : Nat} {outer : List Nat} {st : State}, p.toPlan.Ready mark outer st →
      p.toPlan.generatedIn? env st = some gst → st.Params → (∀ r ∈ p.rows env st, r ∈ R) →
      (∀ o ∈ p.owns, ∀ st₀, ∀ r ∈ o.roots st₀, ∀ i op before target,
        .incDec i op before target ∈ r.1.preorder → steps op) →
      gst.Params ∧
        ∀ o ∈ p.owns, ∃ st₀, ∀ r ∈ o.roots st₀, r.1.Everywhere (Spelled F steps R gst) r.2 := by
  induction p with
  | finish s =>
    intro mark outer st _ hgst hst _ _
    cases hgst
    exact ⟨hst, fun o ho => absurd ho List.not_mem_nil⟩
  -- each step leads to the state in which the statement is put together
  | own first rest ih =>
    intro mark outer st h hgst hst hrows hsteps
    obtain ⟨st₁, hrun, hrest⟩ := Plan.generatedIn?_step hgst
    have hready := h.behind_run hrun
    have hgrows := (rest.generatedIn_grows env hready hrest).1
    have hframes := first.run_frames env st
    rw [hrun] at hframes
    rw [rows, hrun] at hrows
    obtain ⟨hparams, hmore⟩ := ih hready hrest (hst.of_frames hframes)
      (fun r hr => hrows r (List.mem_append_right _ hr))
      fun o ho => hsteps o (List.mem_cons_of_mem _ ho)
    refine ⟨hparams, List.forall_mem_cons.mpr ⟨⟨st, ?_⟩, hmore⟩⟩
    have hleads : Leads F R env (first.visits st) st st₁ :=
      ⟨fun r hr => hrows r (List.mem_append_left _ hr), hst, hgrows.trans hF⟩
    exact Own.run_spelled hrun hleads (List.nodup_append.mp h.distinct).1 hgrows.outputs
      (hsteps first List.mem_cons_self st)
  | call inner rest _ ih =>
    intro mark outer st h hgst hst hrows hsteps
    have hcalled := h.calls env
    exact ih (h.behind hcalled) hgst (hst.of_frames hcalled.balanced.frames) hrows hsteps
  | inBlock rest ih =>
    intro mark outer st h hgst hst hrows hsteps
    exact ih h.inBlock hgst hst hrows hsteps
  | inSub i name returns rest ih =>
    intro mark outer st h hgst hst hrows hsteps
    obtain ⟨st₁, henter, hopened, -⟩ := Plan.enterSub_opened i name returns env st
    rw [toPlan, Plan.generatedIn?, henter] at hgst
    rw [rows, henter] at hrows
    exact ih (h.opened hopened rfl) hgst (enterSub_params henter hst) hrows hsteps

end TypedPerl.Compile
