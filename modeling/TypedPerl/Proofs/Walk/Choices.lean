import TypedPerl.Compile.Unit
import TypedPerl.Proofs.Conversion.Convertible
import TypedPerl.Proofs.Conversion.Kept
import TypedPerl.Proofs.Twin.Agree
import TypedPerl.Proofs.Walk.Generated

/-!
# Choices between lists

Where a row of values is wanted, a choice hands that wish on to its branches, and each may give a
list. The rule of the choice does not know what is wanted of it. A branch that is a call or a list
counts there as the one value it has where one is wanted, so that the type of the choice is that of
an element, and the other elements are lost.

`choice_keeps_lists_iff` says when the lists come through whole. The type of the choice is then that
of its first branch, or of the elements of that branch if they are arrays or lists themselves.
-/

namespace TypedPerl

namespace Ty

/-- The common type of two containers is that of the first. -/
theorem merge_of_aggregates {a b : Ty} (ha : a.isAggregate = true) (hb : b.isAggregate = true) :
    a.merge b = a := by
  cases a with
  | agg s e =>
    have hnumber : (agg s e).isNumeric = false := rfl
    rw [merge, hnumber, ha, hb]
    split <;> rfl
  | scalar | object | ref => cases ha

/-- Arrays and lists are containers. -/
theorem aggregate_of_sequence {t : Ty} (h : t.isSequence = true) : t.isAggregate = true := by
  cases t with
  | agg s e => rfl
  | scalar | object | ref => cases h

/-- The common type is an array or a list only if it is that of the first of two containers. -/
theorem merge_isSequence_iff (a b : Ty) :
    (a.merge b).isSequence = true ↔ a.isSequence = true ∧ b.isAggregate = true := by
  constructor
  · unfold merge
    intro h
    split at h
    · next heq => exact ⟨h, heq ▸ aggregate_of_sequence h⟩
    · split at h
      · -- two numbers have a number in common
        split at h <;> cases h
      · split at h
        · next hboth => exact ⟨h, (Bool.and_eq_true_iff.mp hboth).2⟩
        · cases h
  · rintro ⟨ha, hb⟩
    rw [merge_of_aggregates (aggregate_of_sequence ha) hb]
    exact ha

end Ty

namespace Compile

open Conversion (convert convertTo convertNonNull)

/-! ## The rule of the choice -/

/-- The choice gives a list, and each branch stands in it as the whole list that it is, converted to
the type of the choice: `convertTo` takes the operand itself and not one of its elements. -/
structure KeepsLists (nullChecks : Bool) (cond yes no : Operand) (out : Output) : Prop where
  sequence : out.type.any Ty.isSequence = true
  whole : ∃ t c yc nc, out.type = some t ∧ convertNonNull nullChecks cond (some .boolean) = .ok c ∧
    convertTo t yes 0 = .ok yc ∧ convertTo t no 0 = .ok nc ∧
    out.code = Java.paren (c ++ " ? " ++ yc ++ " : " ++ nc)

/-- The first branch counts as an array or list and the second one as a container, and both can be
converted to the type of the first. -/
def ListsFit (yes no : Operand) : Prop :=
  ∃ t, yes.branchType = some t ∧ t.isSequence = true ∧ no.branchType.any Ty.isAggregate = true ∧
    ConvertibleFrom yes.type t ∧ ConvertibleFrom no.type t

variable {nullChecks : Bool} {cond yes no : Operand}

theorem ternaryOutput_type (nullChecks : Bool) (cond yes no : Operand) :
    Gives (ternaryOutput nullChecks cond yes no) fun out => out.type = choiceType yes no :=
  .skip fun _ => .skip fun _ => .skip fun _ => .pure rfl

/-- A branch with a type counts with a type. -/
theorem exists_branchType {o : Operand} (h : o.isSequence = true) :
    ∃ t, o.branchType = some t := by
  unfold Operand.isSequence at h
  unfold Operand.branchType Operand.elemType
  cases htype : o.type with
  | none =>
    rw [htype] at h
    cases h
  | some t =>
    split
    · exact ⟨t.elem, rfl⟩
    · exact ⟨t, rfl⟩

/-- As a container a branch is converted whole. -/
theorem convert_container {o : Operand} (ho : o.undef = false) {t : Ty}
    (ht : t.isAggregate = true) : convert o (some t) = convertTo t o 0 := by
  simp [convert, ho, ht]

/-- A choice of lists is generated and keeps them exactly if they fit. -/
theorem ternaryOutput_keeps_iff (hyes : yes.undef = false) (hno : no.undef = false)
    (hlist : yes.isSequence = true) (hlist' : no.isSequence = true) :
    (∃ out, ternaryOutput nullChecks cond yes no = .ok out ∧
      KeepsLists nullChecks cond yes no out) ↔ ListsFit yes no := by
  obtain ⟨a, ha⟩ := exists_branchType hlist
  obtain ⟨b, hb⟩ := exists_branchType hlist'
  have hchoice : choiceType yes no = some (a.merge b) := by
    simp [choiceType, hyes, hno, ha, hb, Ty.merge?]
  constructor
  · rintro ⟨out, hout, hsequence, t, c, yc, nc, htype, -, hyc, hnc, -⟩
    rw [ternaryOutput_type nullChecks cond yes no out hout, hchoice] at hsequence htype
    obtain ⟨hfirst, hsecond⟩ := (Ty.merge_isSequence_iff a b).mp hsequence
    -- the type of the choice is that of its first branch, and both are converted to it
    have hself := Ty.merge_of_aggregates (Ty.aggregate_of_sequence hfirst) hsecond
    rw [hself] at htype
    obtain rfl := Option.some.inj htype
    refine ⟨a, ha, hfirst, hb ▸ hsecond, ?_, ?_⟩
    · exact (Conversion.convertTo_succeeds_iff a yes 0).mp ⟨yc, hyc⟩
    · exact (Conversion.convertTo_succeeds_iff a no 0).mp ⟨nc, hnc⟩
  · rintro ⟨t, ht, hfirst, hsecond, hfits, hfits'⟩
    obtain rfl : a = t := Option.some.inj (ha.symm.trans ht)
    rw [hb] at hsecond
    have haggregate := Ty.aggregate_of_sequence hfirst
    rw [Ty.merge_of_aggregates haggregate hsecond] at hchoice
    obtain ⟨c, hc⟩ := Conversion.convertNonNull_boolean nullChecks cond
    obtain ⟨yc, hyc⟩ := (Conversion.convertTo_succeeds_iff a yes 0).mpr hfits
    obtain ⟨nc, hnc⟩ := (Conversion.convertTo_succeeds_iff a no 0).mpr hfits'
    refine ⟨{ code := Java.paren (c ++ " ? " ++ yc ++ " : " ++ nc), type := some a }, ?_, hfirst,
      a, c, yc, nc, rfl, hc, hyc, hnc, rfl⟩
    simp only [ternaryOutput, hchoice, hc, convert_container hyes haggregate,
      convert_container hno haggregate, hyc, hnc]
    rfl

/-! ## Choices in the walk -/

variable {i : Info} {condition first second : Expr} {u : Usage} {env : Env} {st st₁ : State}

/-- A walk that ends without a fault ends in its state. -/
theorem run_eq_ok {x : Compile Unit} (h : (x env st).1.isOk = true) :
    x env st = (.ok (), (x env st).2) := by
  rcases hrun : x env st with ⟨f | ⟨⟩, st'⟩
  · rw [hrun] at h
    cases h
  · rfl

theorem run_exprOutput_ternary (i : Info) (condition first second : Expr) (u : Usage) (env : Env)
    (st : State) : exprOutput (.ternary i condition first second) u env st =
      (ternaryOutput env.nullChecks (st.operandOf condition) (st.operandOf first)
        (st.operandOf second), st) := by
  rw [exprOutput, run_get_bind, run_read_bind]
  rfl

/-- A list that was generated is not the undefined value. -/
theorem Generated.defined {S : State} {e : Expr} {void : Bool} (h : Generated env S e void)
    (hlist : (S.operandOf e).isSequence = true) : (S.operandOf e).undef = false := by
  cases hundef : (S.operandOf e).undef with
  | false => rfl
  | true =>
    have hsequence : (S.operandOf e).isSequence = (S.output e.id).type.any Ty.isSequence := rfl
    rw [hsequence, h.output_of_undef hundef] at hlist
    cases hlist

/-- When the parts of a choice are generated, the choice is generated as its rule says. -/
theorem walkExpr_ternary_iff
    (hparts : walkParts ((Expr.ternary i condition first second).parts u) env st = (.ok (), st₁))
    (hnew : st₁.isGenerated i.id = false) (P : Output → Prop) :
    (∃ st', walkExpr (.ternary i condition first second) u env st = (.ok (), st') ∧
      P (st'.output i.id)) ↔
    ∃ out, ternaryOutput env.nullChecks (st₁.operandOf condition) (st₁.operandOf first)
      (st₁.operandOf second) = .ok out ∧ P out := by
  rw [walkExpr_eq, run_bind_ok hparts]
  constructor
  · rintro ⟨st', hfinish, hP⟩
    obtain ⟨st₂, st₃, hresolve, hout, -⟩ := finishExpr_inv hfinish
    obtain rfl : st₁ = st₂ := congrArg Prod.snd hresolve
    rw [run_exprOutput_ternary] at hout
    exact ⟨_, congrArg Prod.fst hout, hP⟩
  · rintro ⟨out, hout, hP⟩
    have hrun := run_exprOutput_ternary i condition first second u env st₁
    rw [hout] at hrun
    have hfree : ¬st₁.isGenerated (Expr.ternary i condition first second).id = true :=
      Bool.eq_false_iff.mp hnew
    -- there is no name to resolve in the choice itself
    have hresolve : located (Expr.ternary i condition first second).pos
        (resolveExpr (.ternary i condition first second)) env st₁ = (.ok (), st₁) := rfl
    refine ⟨{ st₁ with outputs := st₁.outputs.put i.id out }, ?_, ?_⟩
    · rw [finishExpr, run_bind_ok hresolve, run_located, run_bind_ok hrun, run_setOutput,
        if_neg hfree]
      rfl
    · rw [State.output, Keyed.get?_put_self]
      exact hP

/-- A choice between two lists that stands where a row of values is wanted is generated as a list
that holds both branches whole, exactly if they fit: each of them is no call and no list of several
elements, or its elements are containers again, and the second can be converted to the type of the
first. -/
theorem choice_keeps_lists_iff (hu : u.context = .list)
    (hparts : walkParts [(condition, .boolean), (first, .list), (second, .list)] env st =
      (.ok (), st₁))
    (hnew : st₁.isGenerated i.id = false) (hfirst : (st₁.operandOf first).isSequence = true)
    (hsecond : (st₁.operandOf second).isSequence = true) :
    (∃ st', walkExpr (.ternary i condition first second) u env st = (.ok (), st') ∧
      KeepsLists env.nullChecks (st₁.operandOf condition) (st₁.operandOf first)
        (st₁.operandOf second) (st'.output i.id)) ↔
      ListsFit (st₁.operandOf first) (st₁.operandOf second) := by
  have husage : branchUsage u = .list := if_pos hu
  have hdone := walkParts_generated (fun p _ _ _ => walkExpr_generated p.1 p.2) hparts
  -- each part is generated itself, and not only what is below it
  have hself (p : Expr × Usage)
      (hp : p ∈ [(condition, .boolean), (first, .list), (second, .list)]) :
      Generated env st₁ p.1 p.2.isVoid := by
    refine hdone p (List.mem_flatMap.mpr ⟨p, hp, ?_⟩)
    rw [Expr.order_eq]
    exact List.mem_append_right _ (List.mem_singleton_self _)
  rw [walkExpr_ternary_iff (by rw [Expr.parts, husage]; exact hparts) hnew]
  apply ternaryOutput_keeps_iff
  · exact (hself (first, .list) (by simp)).defined hfirst
  · exact (hself (second, .list) (by simp)).defined hsecond
  · exact hfirst
  · exact hsecond

/-- A unit that declares its variables, `my $c <boolean>; my @a <array><integer>; my @b
<list><integer>;`. -/
def declaredLists : SourceUnit where
  file := "lists.pl"
  className := ""
  stmts :=
    [.expr ⟨1, default⟩
        (.var { info := ⟨2, default⟩, name := "c", sigil := .scalar, decl := .my,
                type := some .boolean }),
      .expr ⟨3, default⟩
        (.var { info := ⟨4, default⟩, name := "a", sigil := .array, decl := .my,
                type := some (.agg .array .integer) }),
      .expr ⟨5, default⟩
        (.var { info := ⟨6, default⟩, name := "b", sigil := .array, decl := .my,
                type := some (.agg .list .integer) })]

/-- The state in which the choices between lists are walked: that behind the declarations. -/
def declaredState : State :=
  (tree {} none {} 1 declaredLists).state

/-- The condition `$c`. -/
def chosenBy : Expr :=
  .var { info := ⟨8, default⟩, name := "c", sigil := .scalar }

/-- The variable `@a` or `@b`. -/
def listVariable (id : Nat) (name : String) : Expr :=
  .var { info := ⟨id, default⟩, name := name, sigil := .array }

/-- The list of two numbers, such as `(1, 2)`. -/
def twoNumbers (id : Nat) (a b : String) : Expr :=
  .list ⟨id, default⟩ [.number ⟨id + 1, default⟩ a, .number ⟨id + 2, default⟩ b]

/-- The choice by `$c` between two lists. -/
def chosenList (a b : Expr) : Expr :=
  .ternary ⟨7, default⟩ chosenBy a b

/-- The walk over the parts of the choice, where a row of values is wanted. -/
def walkChosen (a b : Expr) : Except Fault Unit × State :=
  walkParts [(chosenBy, .boolean), (a, .list), (b, .list)] {} declaredState

/-- In `$c ? @a : @b` both branches are variables, and the list is turned into an array. -/
theorem chosenVariables_keep_lists :
    let a := listVariable 9 "a"
    let b := listVariable 10 "b"
    let parts := (walkChosen a b).2
    ∃ st', walkExpr (chosenList a b) .list {} declaredState = (.ok (), st') ∧
      KeepsLists false (parts.operandOf chosenBy) (parts.operandOf a) (parts.operandOf b)
        (st'.output 7) := by
  intro a b parts
  have hparts : walkChosen a b = (.ok (), parts) := run_eq_ok (by decide +kernel)
  have hfirst : (parts.operandOf a).type = some (.agg .array .integer) := by decide +kernel
  have hsecond : (parts.operandOf b).type = some (.agg .list .integer) := by decide +kernel
  have hlist : (parts.operandOf a).isSequence = true := congrArg (·.any Ty.isSequence) hfirst
  have hlist' : (parts.operandOf b).isSequence = true := congrArg (·.any Ty.isSequence) hsecond
  refine (choice_keeps_lists_iff rfl hparts (by decide +kernel) hlist hlist').mpr ?_
  -- variables are no rows, so each counts with its own type
  refine ⟨.agg .array .integer, hfirst, rfl, ?_, ?_, ?_⟩
  · exact congrArg (·.any Ty.isAggregate) hsecond
  · rw [hfirst]
    exact Convertible.refl _
  · rw [hsecond]
    exact Convertible.agg_iff.mpr ⟨.refl _, nofun⟩

/-- In `$c ? (1, 2) : (3, 4)` each branch is a list, and the choice is between the last element of
each. -/
theorem chosenRows_reduced :
    let a := twoNumbers 9 "1" "2"
    let b := twoNumbers 12 "3" "4"
    let parts := (walkChosen a b).2
    walkChosen a b = (.ok (), parts) ∧ (parts.operandOf a).isSequence = true ∧
      (parts.operandOf b).isSequence = true ∧
      ∃ st', walkExpr (chosenList a b) .list {} declaredState = (.ok (), st') ∧
        (st'.output 7).type = some .integer ∧
        (st'.output 7).code =
          "(c ? Pd.last(new Integer[]\x7b1, 2\x7d) : Pd.last(new Integer[]\x7b3, 4\x7d))" ∧
        ¬KeepsLists false (parts.operandOf chosenBy) (parts.operandOf a) (parts.operandOf b)
          (st'.output 7) := by
  intro a b parts
  have htype : ((walkExpr (chosenList a b) .list {} declaredState).2.output 7).type =
      some .integer := by decide +kernel
  refine ⟨run_eq_ok (by decide +kernel), by decide +kernel, by decide +kernel, _,
    run_eq_ok (by decide +kernel), htype, by decide +kernel, fun hkeeps => ?_⟩
  have hsequence := hkeeps.sequence
  rw [htype] at hsequence
  cases hsequence

end Compile

end TypedPerl
