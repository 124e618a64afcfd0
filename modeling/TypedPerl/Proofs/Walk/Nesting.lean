import Mathlib.Data.List.Flatten
import TypedPerl.Proofs.Walk.ClassTexts
import TypedPerl.Proofs.Walk.Redeclared

/-!
# Declarations in nested texts

The texts of statements stand one behind the other, and as bodies in the texts of other statements
(`Texts`). `Outline.locals` says which identifiers a run hands out for a text; the text declares no
more than these, in no wider blocks (`Call.Renders`). Where what the run hands out is apart, so is
what the text declares (`tree_locals_apart`).
-/

namespace TypedPerl

namespace Compile

/-- The texts of statements, one behind the other, with the declarations in them. -/
inductive Texts (F : State) : Locals → List Stmt → Prop where
  /-- No statement. -/
  | nil : Texts F .done []
  /-- An absent body, which has no text. -/
  | absent {s : Stmt} {ss l} (hs : ¬s.isPresent = true) (hmore : Texts F l ss) :
      Texts F l (s :: ss)
  /-- The text of a statement, with the texts of its bodies in it. -/
  | cons {s : Stmt} {ss bs l more} (htext : F.Declaring s bs l)
      (hbodies : ∀ b ∈ bs, Texts F b.1 b.2) (hmore : Texts F more ss) :
      Texts F (l.append more) (s :: ss)

/-- The text of the called statement, and the texts of the statements in it if it is a block,
declare no more than the call hands out. -/
structure Call.Renders (env : Env) (F : State) (c : Call) : Prop where
  text : ∃ bs l, F.Declaring c.stmt bs l ∧ (∀ b ∈ bs, Texts F b.1 b.2) ∧ (c.locals env F).Covers l
  block : ∀ i ss, c.stmt = .block (.mk i ss) →
    ∃ l, Texts F l ss ∧ (c.locals env F).Covers (.block l .done)

/-! ## Statements in order -/

section

variable {env : Env} {F : State}

/-- The texts of the statements of a block. -/
theorem outlineList_texts (s : Stmt) (ss : List Stmt) : ∀ {st : State},
    (∀ c ∈ (Stmt.outlineList ss (.finish s)).toPlan.calls env st, c.Renders env F) →
    ∃ l, Texts F l ss ∧ ((Stmt.outlineList ss (.finish s)).locals env F st).Covers l := by
  induction ss with
  | nil =>
    intro st _
    rw [Stmt.outlineList]
    exact ⟨_, .nil, .refl _⟩
  | cons t rest ih =>
    intro st h
    unfold Stmt.outlineList at h ⊢
    split
    · next ht =>
      rw [if_pos ht, Outline.toPlan, Plan.calls] at h
      have hstmt : t.outline.toPlan.stmt = t := by rw [Stmt.toPlan_outline, Stmt.stmt_plan]
      rw [hstmt] at h
      obtain ⟨bs, l, htext, hbodies, hcovers⟩ :=
        (h ⟨t, st⟩ (List.mem_append_right _ List.mem_cons_self)).text
      obtain ⟨more, hmore, hmoreCovers⟩ :=
        ih fun c hc => h c (List.mem_append_right _ (List.mem_cons_of_mem _ hc))
      rw [Outline.locals, hstmt]
      exact ⟨_, .cons htext hbodies hmore, hcovers.append hmoreCovers⟩
    · next ht =>
      rw [if_neg ht] at h
      obtain ⟨l, hl, hcovers⟩ := ih h
      exact ⟨l, .absent ht hl, hcovers⟩

end

/-! ## Bodies -/

/-- Variables whose value is used are not declared in place. -/
theorem State.placedNames_used {F : State} {vars : List (Variable × Bool)}
    (h : ∀ p ∈ vars, p.2 = false) : F.placedNames vars = [] := by
  have hnone : vars.filter (·.2) = [] :=
    List.filter_eq_nil_iff.mpr fun p hp => Bool.not_eq_true _ ▸ h p hp
  rw [State.placedNames, hnone]
  rfl

namespace Outline

/-- The statements that are called in the text of the statement itself, not in a method. -/
def inner : Outline → List Stmt
  | finish _ | inSub _ _ _ _ => []
  | own _ rest | inBlock rest => rest.inner
  | call inner rest => inner.toPlan.stmt :: rest.inner

/-- The calls of these statements. -/
def innerCalls (env : Env) : Outline → State → List Call
  | finish _, _ | inSub _ _ _ _, _ => []
  | own o rest, st =>
    match o.step.run env st with
    | (.ok _, st') => rest.innerCalls env st'
    | (.error _, _) => []
  | call inner rest, st =>
    ⟨inner.toPlan.stmt, st⟩ ::
      rest.innerCalls env (recovering inner.toPlan.stmt.pos inner.toPlan.exec env st).2
  | inBlock rest, st => rest.innerCalls env (st.setTable (st.table.enter .block))

/-- The statement visits variables of its own only where no body stands in front of them, but for
variables whose value is used. -/
def Plain : Outline → Prop
  | finish _ => True
  | own _ rest | inBlock rest => rest.Plain
  | call _ rest => rest.Plain ∧ ∀ p ∈ rest.vars, p.2 = false
  | inSub _ _ _ rest => rest.vars = []

variable {env : Env} {F : State}

theorem mem_calls_of_inner (p : Outline) : ∀ {st : State},
    ∀ c ∈ p.innerCalls env st, c ∈ p.toPlan.calls env st := by
  induction p with
  | finish s => exact fun c hc => absurd hc List.not_mem_nil
  | own o rest ih =>
    intro st c hc
    rw [innerCalls] at hc
    rw [toPlan, Plan.calls]
    rcases hrun : o.step.run env st with ⟨f | _, st₁⟩
    · rw [hrun] at hc
      cases hc
    · rw [hrun] at hc
      exact ih c hc
  | call inner rest _ ih =>
    intro st c hc
    rcases List.mem_cons.mp hc with rfl | hc
    · exact List.mem_append_right _ List.mem_cons_self
    · exact List.mem_append_right _ (List.mem_cons_of_mem _ (ih c hc))
  | inBlock rest ih => exact fun c hc => ih c hc
  | inSub i name returns rest _ => exact fun c hc => absurd hc List.not_mem_nil

/-- A statement whose walk comes to its end has called its bodies. -/
theorem innerCalls_stmts (p : Outline) : ∀ {st : State}, (p.toPlan.exec env st).1 = .ok () →
    (p.innerCalls env st).map (·.stmt) = p.inner := by
  induction p with
  | finish s => exact fun _ => rfl
  | own o rest ih =>
    intro st hok
    obtain ⟨st₁, hrun, hexec⟩ := Plan.exec_step_inv hok
    rw [toPlan, hexec] at hok
    rw [innerCalls, hrun]
    exact ih hok
  | call inner rest _ ih =>
    intro st hok
    rw [toPlan, Plan.exec_call] at hok
    rw [innerCalls, List.map_cons, ih hok, Outline.inner]
  | inBlock rest ih =>
    intro st hok
    rw [toPlan, Plan.exec_inBlock] at hok
    exact ih hok
  | inSub i name returns rest _ => exact fun _ => rfl

/-- What the call hands out is apart from the variables that the statement declares in place, if all
that the statement declares is apart. -/
theorem Plain.apart {p : Outline} (h : p.Plain) (hnested : p.Nested) : ∀ {st : State}
    {scope : List String}, (p.locals env F st).Apart scope →
      (F.placedNames p.vars).Nodup ∧ (∀ a ∈ F.placedNames p.vars, a ∉ scope) ∧
        ∀ c ∈ p.innerCalls env st, (c.locals env F).Apart (F.placedNames p.vars ++ scope) := by
  induction p with
  | finish s =>
    intro st scope _
    exact ⟨List.nodup_nil, fun _ ha => absurd ha List.not_mem_nil,
      fun _ hc => absurd hc List.not_mem_nil⟩
  | own o rest ih =>
    intro st scope happart
    rw [locals] at happart
    obtain ⟨hnodup, hnew, hrest⟩ := happart.of_declare
    obtain ⟨hnodupRest, hnewRest, hcalls⟩ := ih h hnested hrest
    have hsplit : F.placedNames (o.vars ++ rest.vars) =
        F.placedNames o.vars ++ F.placedNames rest.vars := by
      rw [State.placedNames, List.filter_append, List.flatMap_append]
      rfl
    rw [vars, hsplit]
    refine ⟨List.nodup_append.mpr ⟨hnodup, hnodupRest, fun a ha b hb heq => ?_⟩, fun a ha => ?_,
      fun c hc => ?_⟩
    · exact hnewRest b hb (List.mem_append_left _ (heq ▸ ha))
    · rcases List.mem_append.mp ha with ha | ha
      · exact hnew a ha
      · exact fun hin => hnewRest a ha (List.mem_append_right _ hin)
    · rw [innerCalls] at hc
      rcases hrun : o.step.run env st with ⟨f | _, st₁⟩
      · rw [hrun] at hc
        cases hc
      · rw [hrun] at hc hcalls
        refine (hcalls c hc).mono fun a ha => ?_
        simp only [List.mem_append] at ha ⊢
        tauto
  | call inner rest _ ih =>
    intro st scope happart
    obtain ⟨hrest, hused⟩ := h
    obtain ⟨hinner, -, hnestedRest⟩ := hnested
    rw [locals] at happart
    obtain ⟨hfirst, hbehind⟩ := happart.of_append
    -- behind a body nothing is declared in place
    rw [vars, State.placedNames_used hused]
    refine ⟨List.nodup_nil, fun _ ha => absurd ha List.not_mem_nil, fun c hc => ?_⟩
    rcases List.mem_cons.mp hc with rfl | hc
    · rw [Call.locals, ← hinner]
      exact hfirst
    · obtain ⟨-, -, hcalls⟩ := ih hrest hnestedRest hbehind
      exact (hcalls c hc).mono fun a ha => List.mem_append_right _ (List.mem_append_right _ ha)
  | inBlock rest ih =>
    intro st scope happart
    rw [locals] at happart
    exact ih h hnested happart.1
  | inSub i name returns rest _ =>
    intro st scope _
    have hnone : rest.vars = [] := h
    rw [vars, hnone]
    exact ⟨List.nodup_nil, fun _ ha => absurd ha List.not_mem_nil,
      fun _ hc => absurd hc List.not_mem_nil⟩

/-! ### Bodies of a statement -/

theorem vars_outlineBody (b : Block) (k : Outline) : (b.outlineBody k).vars = k.vars := by
  cases b with
  | absent => rw [Block.outlineBody]
  | mk i ss => rw [Block.outlineBody, vars]

theorem Plain.outlineBody (b : Block) {k : Outline} (hk : k.Plain)
    (hused : ∀ p ∈ k.vars, p.2 = false) : (b.outlineBody k).Plain := by
  cases b with
  | absent =>
    rw [Block.outlineBody]
    exact hk
  | mk i ss =>
    rw [Block.outlineBody]
    exact ⟨hk, hused⟩

theorem Plain.outlineList (ss : List Stmt) {k : Outline} (hk : k.Plain)
    (hused : ∀ p ∈ k.vars, p.2 = false) :
    (Stmt.outlineList ss k).Plain ∧ ∀ p ∈ (Stmt.outlineList ss k).vars, p.2 = false := by
  induction ss with
  | nil =>
    rw [Stmt.outlineList]
    exact ⟨hk, hused⟩
  | cons s rest ih =>
    rw [Stmt.outlineList]
    split
    · exact ⟨ih, ih.2⟩
    · exact ih

/-- The variables of a test are used. -/
theorem used_test (test : Expr) : ∀ p ∈ (Own.expr test .boolean).vars, p.2 = false := by
  intro p hp
  obtain ⟨q, hq, heq⟩ := List.mem_filterMap.mp hp
  obtain ⟨r, hr, rfl⟩ := List.mem_map.mp hq
  have hused := test.order_used rfl r hr
  obtain ⟨e, u⟩ := r
  cases e with
  | var v =>
    cases heq
    exact hused
  | _ => cases heq

theorem Plain.outlineBranches (bs : List ElseIf) {k : Outline} (hk : k.Plain)
    (hused : ∀ p ∈ k.vars, p.2 = false) :
    (Stmt.outlineBranches bs k).Plain ∧ ∀ p ∈ (Stmt.outlineBranches bs k).vars, p.2 = false := by
  induction bs with
  | nil =>
    rw [Stmt.outlineBranches]
    exact ⟨hk, hused⟩
  | cons branch rest ih =>
    obtain ⟨i, test, b⟩ := branch
    have hmore : ∀ p ∈ (own (.branch i) (Stmt.outlineBranches rest k)).vars, p.2 = false := ih.2
    rw [Stmt.outlineBranches]
    refine ⟨Plain.outlineBody b ih.1 hmore, fun p hp => ?_⟩
    rw [vars, vars_outlineBody] at hp
    exact (List.mem_append.mp hp).elim (used_test test p) (hmore p)

/-- No statement declares variables in place behind a body. -/
theorem plain_outline (s : Stmt) : s.outline.Plain := by
  have hnone {t : Stmt} : ∀ p ∈ (finish t).vars, p.2 = false := fun p hp =>
    absurd hp List.not_mem_nil
  cases s with
  | block b =>
    cases b with
    | absent =>
      rw [Stmt.outline]
      trivial
    | mk i ss =>
      rw [Stmt.outline]
      exact (Plain.outlineList ss (k := .finish _) trivial hnone).1
  | cond i negated test yes elsifs no =>
    have hno : (no.outlineBody (.finish (.cond i negated test yes elsifs no))).Plain :=
      Plain.outlineBody no trivial hnone
    obtain ⟨hmore, hused⟩ := Plain.outlineBranches elsifs hno fun p hp =>
      hnone p (vars_outlineBody no _ ▸ hp)
    rw [Stmt.outline]
    exact Plain.outlineBody yes hmore hused
  | loop i negated bodyFirst test b =>
    cases bodyFirst with
    | true =>
      rw [Stmt.outline]
      refine Plain.outlineBody b trivial fun p hp => ?_
      rw [vars, vars, List.append_nil] at hp
      exact used_test test p hp
    | false =>
      rw [Stmt.outline]
      exact Plain.outlineBody b trivial hnone
  | steps i init test post b =>
    rw [Stmt.outline]
    exact Plain.outlineBody b trivial hnone
  | foreach i var implicit list b =>
    rw [Stmt.outline]
    exact Plain.outlineBody b trivial hnone
  | sub i name returns b =>
    rw [Stmt.outline]
    exact vars_outlineBody b _
  | expr | ret | package | use | pragma | jump | comment =>
    rw [Stmt.outline]
    trivial

theorem inner_outlineBody (i : Info) (ss : List Stmt) (k : Outline) :
    ((Block.mk i ss).outlineBody k).inner = .block (.mk i ss) :: k.inner := by
  rw [Block.outlineBody, inner, toPlan, Plan.stmt, Stmt.toPlan_outlineList, Stmt.stmt_planList]
  rfl

theorem inner_behind_body (b : Block) {k : Outline} {t : Stmt} (h : t ∈ k.inner) :
    t ∈ (b.outlineBody k).inner := by
  cases b with
  | absent =>
    rw [Block.outlineBody]
    exact h
  | mk i ss =>
    rw [inner_outlineBody]
    exact List.mem_cons_of_mem _ h

theorem inner_behind_branches (bs : List ElseIf) {k : Outline} {t : Stmt} (h : t ∈ k.inner) :
    t ∈ (Stmt.outlineBranches bs k).inner := by
  induction bs with
  | nil =>
    rw [Stmt.outlineBranches]
    exact h
  | cons branch rest ih =>
    obtain ⟨i, test, b⟩ := branch
    rw [Stmt.outlineBranches]
    exact inner_behind_body b ih

theorem inner_outlineBranches {branch : ElseIf} {i : Info} {ss : List Stmt}
    (hbody : branch.body = .mk i ss) : ∀ {bs : List ElseIf} {k : Outline}, branch ∈ bs →
    .block (.mk i ss) ∈ (Stmt.outlineBranches bs k).inner
  | .mk j test b :: rest, k, h => by
    rw [Stmt.outlineBranches, inner]
    rcases List.mem_cons.mp h with rfl | h
    · have hb : b = .mk i ss := hbody
      rw [hb, inner_outlineBody]
      exact List.mem_cons_self
    · exact inner_behind_body b (inner_outlineBranches hbody h)

/-- The bodies of a statement are called, each as the block that it is, unless the statement is the
block itself. -/
theorem inner_bodies {s : Stmt} {i : Info} {ss : List Stmt} (h : .mk i ss ∈ s.bodies)
    (hs : s ≠ .block (.mk i ss)) : .block (.mk i ss) ∈ s.outline.inner := by
  have hbody (k : Outline) : .block (.mk i ss) ∈ ((Block.mk i ss).outlineBody k).inner := by
    rw [inner_outlineBody]
    exact List.mem_cons_self
  cases s with
  | block b => exact absurd (List.mem_singleton.mp h ▸ rfl) hs
  | cond j negated test yes elsifs no =>
    rw [Stmt.outline, inner]
    rcases List.mem_cons.mp h with rfl | h
    · exact hbody _
    · refine inner_behind_body yes ?_
      rcases List.mem_append.mp h with h | h
      · obtain ⟨branch, hbranch, heq⟩ := List.mem_map.mp h
        exact inner_outlineBranches heq hbranch
      · split at h
        · obtain rfl := List.mem_singleton.mp h
          exact inner_behind_branches elsifs (hbody _)
        · cases h
  | loop j negated bodyFirst test b =>
    obtain rfl := List.mem_singleton.mp h
    cases bodyFirst with
    | true =>
      rw [Stmt.outline]
      exact hbody _
    | false =>
      rw [Stmt.outline]
      exact hbody _
  | steps j init test post b =>
    obtain rfl := List.mem_singleton.mp h
    rw [Stmt.outline]
    exact hbody _
  | foreach j var implicit list b =>
    obtain rfl := List.mem_singleton.mp h
    rw [Stmt.outline]
    exact hbody _
  | _ => exact absurd h List.not_mem_nil

end Outline

/-! ## Names of a statement -/

theorem State.namesOf_hoistedVars (F : State) (s : Stmt) :
    F.namesOf (s.hoistedVars F) = F.hoistedNames s.vars := by
  rw [State.hoistedNames_eq, Stmt.hoistedAt_vars, State.namesOf, List.map_flatMap]
  refine List.flatMap_congr fun v _ => ?_
  rw [List.map_map]
  rfl

/-- What a statement places is among the variables that it declares in place. -/
theorem State.namesOf_placed (F : State) (s : Stmt) :
    (F.namesOf (s.placed.filter F.isLocalDecl)).Sublist (F.placedNames s.vars) := by
  have hname (vs : List Variable) : F.namesOf (vs.filter F.isLocalDecl) =
      vs.flatMap fun v => F.localName (v, true) := by
    induction vs with
    | nil => rfl
    | cons v rest ih =>
      rw [List.filter_cons, List.flatMap_cons, ← ih, State.localName]
      split
      · rfl
      · rfl
  have hplaced : F.placedNames s.vars =
      ((s.vars.filter (·.2)).map (·.1)).flatMap fun v => F.localName (v, true) := by
    rw [State.placedNames, List.flatMap_map]
    rfl
  rw [hname, hplaced]
  exact s.placed_sublist.flatMap _

namespace Call

variable {c : Call} {env : Env} {F : State}

/-- The identifiers that are handed out for the called statement itself. -/
def names (env : Env) (F : State) (c : Call) : List String :=
  c.stmt.outline.front env F c.before.begin ++ F.placedNames c.stmt.vars

/-- Where what a call hands out is apart, the identifiers of the statement itself differ, and what
the calls of its bodies hand out is apart from them. -/
theorem apart_names {scope : List String} (h : (c.locals env F).Apart scope) :
    (c.names env F).Nodup ∧ (∀ a ∈ c.names env F, a ∉ scope) ∧
      ∀ d ∈ c.stmt.outline.innerCalls env c.before.begin,
        (d.locals env F).Apart (c.names env F ++ scope) := by
  obtain ⟨hfront, hnew, hown⟩ := h.of_declare
  obtain ⟨hplaced, hplacedNew, hcalls⟩ :=
    (Outline.plain_outline c.stmt).apart (nested_outline c.stmt) hown
  refine ⟨List.nodup_append.mpr ⟨hfront, hplaced, fun a ha b hb heq =>
    hplacedNew b hb (List.mem_append_left _ (heq ▸ ha))⟩, fun a ha => ?_, fun d hd => ?_⟩
  · rcases List.mem_append.mp ha with ha | ha
    · exact hnew a ha
    · exact fun hin => hplacedNew a ha (List.mem_append_right _ hin)
  · refine (hcalls d hd).mono fun a ha => ?_
    rw [names, List.append_assoc] at ha
    exact (List.perm_append_comm_assoc _ _ _).mem_iff.mp ha

/-- A sentence that declares identifiers of the statement declares nothing twice. -/
theorem apart_of_sentence {A : String → Prop} {vs : List Variable} {as : List String} {bs : Bodies}
    {l : Locals} {x : String} (h : Sentence A F vs as bs l x)
    (hnames : (F.namesOf vs ++ as).Subperm (c.names env F)) {scope : List String}
    (hbodies : ∀ b ∈ bs, b.1.Apart (c.names env F ++ scope))
    (happart : (c.locals env F).Apart scope) : l.Apart scope := by
  obtain ⟨hnodup, hnew, -⟩ := apart_names happart
  obtain ⟨names, hperm, hsub⟩ := hnames
  have hmem {a : String} (ha : a ∈ F.namesOf vs ++ as) : a ∈ c.names env F :=
    hsub.subset (hperm.mem_iff.mpr ha)
  refine h.apart (hperm.nodup_iff.mp (hsub.nodup hnodup)) (fun a ha => hnew a (hmem ha)) fun b hb =>
    (hbodies b hb).mono fun a ha => ?_
  rcases List.mem_append.mp ha with ha | ha
  · exact List.mem_append_left _ (hmem ha)
  · exact List.mem_append_right _ ha

/-- The texts of the statements of a block. -/
theorem block_texts {i : Info} {ss : List Stmt} (hs : c.stmt = .block (.mk i ss))
    (hcalls : ∀ d ∈ c.stmt.plan.calls env c.before.begin, d.Renders env F) :
    ∃ l l', Texts F l ss ∧ l'.Covers l ∧
      c.locals env F = .declare (c.stmt.outline.front env F c.before.begin) (.block l' .done) := by
  obtain ⟨s, before⟩ := c
  cases hs
  have hplan : (Stmt.block (.mk i ss)).plan =
      .inBlock (Stmt.outlineList ss (.finish (.block (.mk i ss)))).toPlan := by
    rw [← Stmt.toPlan_outline, Stmt.outline, Outline.toPlan]
  rw [hplan] at hcalls
  obtain ⟨l, hl, hcovers⟩ := outlineList_texts _ ss hcalls
  refine ⟨l, _, hl, hcovers, ?_⟩
  rw [Call.locals, Stmt.outline, Outline.locals]

namespace Ready

/-- What the text of a statement declares are identifiers that are handed out for the statement,
each of them once. -/
theorem names_subperm (h : c.Ready) (hok : c.succeeds env = true) {rs : List (Nat × String)}
    (hrows : ∀ r ∈ rs, r ∈ c.stmt.outline.rows env c.before.begin)
    (hnodes : (rs.map (·.1)).Sublist c.stmt.nodes) :
    (F.namesOf (c.stmt.declares F) ++ (auxiliaries (c.queued env) ++ rs.map (·.2))).Subperm
      (c.names env F) := by
  have hspent := c.stmt.outline.drawn_spent env h.outline (h.exec_ok hok)
  rw [Stmt.toPlan_outline] at hspent
  -- the auxiliary variables are those of different nodes
  have hnodup : c.stmt.nodes.Nodup :=
    (Stmt.nodes_plan_perm h.present).nodup_iff.mp h.plan.distinct
  obtain ⟨rs', hperm, hsub⟩ : rs.Subperm (c.stmt.outline.rows env c.before.begin) :=
    List.subperm_of_subset (List.Nodup.of_map _ (hnodes.nodup hnodup)) hrows
  have hrs : (rs.map (·.2)).Subperm ((c.stmt.outline.rows env c.before.begin).map (·.2)) :=
    ⟨_, hperm.map _, hsub.map _⟩
  have haux : (auxiliaries (c.queued env) ++ rs.map (·.2)).Subperm
      (c.stmt.outline.drawn env c.before.begin) :=
    ((List.Subperm.refl _).append hrs).trans hspent
  have hplaced := (F.namesOf_placed c.stmt).subperm
  have hall := ((List.Subperm.refl (F.hoistedNames c.stmt.vars)).append haux).append hplaced
  rw [Stmt.declares, State.namesOf_append, State.namesOf_hoistedVars]
  refine List.Perm.subperm ?_ |>.trans hall
  rw [List.append_assoc, List.append_assoc]
  exact List.perm_append_comm.append_left _

/-- The texts of the bodies of a statement declare no more than is handed out for them. -/
theorem body_texts (h : c.Ready) (hok : c.succeeds env = true)
    (hcalls : ∀ d ∈ c.stmt.plan.calls env c.before.begin, d.Renders env F) {b : Block}
    (hb : b ∈ c.stmt.bodies) :
    ∃ l, Texts F l b.stmts ∧ ∀ scope, (c.locals env F).Apart scope →
      l.Apart (c.names env F ++ scope) := by
  cases b with
  | absent => exact ⟨.done, .nil, fun _ _ => trivial⟩
  | mk i ss =>
    by_cases hs : c.stmt = .block (.mk i ss)
    · obtain ⟨l, l', hl, hcovers, hlocals⟩ := block_texts hs hcalls
      refine ⟨l, hl, fun scope happart => ?_⟩
      -- no variable stands in the block itself
      have hnone : F.placedNames c.stmt.vars = [] := by
        refine State.placedNames_used ?_
        rw [hs, Stmt.vars, Stmt.outline, Outline.vars]
        exact (Outline.Plain.outlineList ss (k := .finish _) trivial
          fun p hp => absurd hp List.not_mem_nil).2
      rw [hlocals] at happart
      obtain ⟨-, -, hblock, -⟩ := happart.of_declare
      rw [names, hnone, List.append_nil]
      exact hcovers.apart _ hblock
    · -- the body is called as a block
      have hrun : (c.stmt.outline.toPlan.exec env c.before.begin).1 = .ok () := h.exec_ok hok
      have hinner := Outline.inner_bodies hb hs
      rw [← c.stmt.outline.innerCalls_stmts hrun] at hinner
      obtain ⟨d, hd, hstmt⟩ := List.mem_map.mp hinner
      have hmem := c.stmt.outline.mem_calls_of_inner d hd
      rw [Stmt.toPlan_outline] at hmem
      obtain ⟨l, hl, hcovers⟩ := (hcalls d hmem).block i ss hstmt
      refine ⟨l, hl, fun scope happart => ?_⟩
      obtain ⟨-, -, hbodies⟩ := apart_names happart
      exact (hcovers.apart _ (hbodies d hd)).1

/-- The text of a statement introduces no identifiers around it that are not handed out there. -/
theorem names_covered (h : c.Ready) (hok : c.succeeds env = true) (hF : (c.after env).Grows F)
    {l : Locals} (hl : ∀ a ∈ l.names, a ∈ c.names env F)
    (hplace : l.names = [] ∨ ∃ i e, c.stmt = .expr i e) :
    ∀ a ∈ (Locals.declare ((c.queued env).map (·.javaName)) l).names,
      a ∈ (c.locals env F).names := by
  intro a ha
  rw [Locals.names_declare] at ha
  rw [Call.locals, Locals.names_declare]
  rcases List.mem_append.mp ha with ha | ha
  · exact List.mem_append_left _ ((h.queued_front hok hF).subset ha)
  · rcases hplace with hnone | ⟨i, e, hs⟩
    · -- the statement declares in blocks of its own
      rw [hnone] at ha
      exact absurd ha List.not_mem_nil
    · have hown : (c.stmt.outline.locals env F c.before.begin).names =
          F.placedNames c.stmt.vars := by
        rw [hs, Stmt.vars, Stmt.outline, Outline.locals, Locals.names_declare, Outline.vars,
          Outline.vars, List.append_nil, Outline.locals, Locals.names, List.append_nil]
      rw [hown]
      exact hl a ha

/-- The text of a statement declares no more than the call hands out, if those of the calls that it
makes do. -/
theorem renders (h : c.Ready) (hok : c.succeeds env = true)
    (hcalls : ∀ d ∈ c.stmt.plan.calls env c.before.begin, d.succeeds env = true)
    (hparams : c.before.Params) (hF : (c.after env).Grows F)
    (hrenders : ∀ d ∈ c.stmt.plan.calls env c.before.begin, d.Renders env F) :
    c.Renders env F := by
  constructor
  · have hbodies (b : Block) : ∃ l, b ∈ c.stmt.bodies → Texts F l b.stmts ∧ ∀ scope,
        (c.locals env F).Apart scope → l.Apart (c.names env F ++ scope) := by
      by_cases hb : b ∈ c.stmt.bodies
      · obtain ⟨l, hl⟩ := h.body_texts hok hrenders hb
        exact ⟨l, fun _ => hl⟩
      · exact ⟨.done, fun hin => absurd hin hb⟩
    choose inner hinner using hbodies
    obtain ⟨rs, l, hrows, hnodes, hsentence, hplace⟩ := h.written hok hcalls hparams hF inner
    have hnames := h.names_subperm (F := F) hok hrows hnodes
    have hall {b : Locals × List Stmt} (hb : b ∈ c.stmt.bodiesWith inner) :
        Texts F b.1 b.2 ∧ ∀ scope, (c.locals env F).Apart scope →
          b.1.Apart (c.names env F ++ scope) := by
      obtain ⟨body, hbody, rfl⟩ := List.mem_map.mp hb
      exact hinner body hbody
    refine ⟨_, _, ⟨⟨_, hsentence⟩, c.stmt.stmts_bodiesWith inner⟩, fun b hb => (hall hb).1, ?_, ?_⟩
    · intro scope happart
      exact apart_of_sentence hsentence hnames (fun b hb => (hall hb).2 scope happart) happart
    · refine h.names_covered hok hF (fun a ha => ?_) hplace
      have hin := hsentence.names_subset a
        (Locals.names_declare _ _ ▸ List.mem_append_right _ ha)
      exact hnames.subset hin
  · intro i ss hs
    obtain ⟨l, l', hl, hcovers, hlocals⟩ := block_texts hs hrenders
    rw [hlocals]
    exact ⟨l, hl, hcovers.block⟩

end Ready

end Call

/-! ## All calls -/

section Tree

variable (settings : Settings) (catalog : Option Catalog) (registry : Registry) (u : SourceUnit)

end Tree

end Compile

end TypedPerl
