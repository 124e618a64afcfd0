import TypedPerl.Compile.Unit
import TypedPerl.Proofs.Walk.Settled
import TypedPerl.Proofs.Walk.Texts

/-!
# Values that may be null

Whether a value may be null is decided twice: by the rule that makes the value, which marks its
operand, and by the form of the expression (`Expr.isNotNull`), which is all that is left when the
operand is read back from the output that was kept for it. By its form no operator and no call may
give null.

The two answers are compared for all operators and all builtin functions. They differ exactly where
`mayBeNull` holds: at logical operators whose value is used, at the functions that take an element
out of a container, and at `scalar` of a row of values or of a value that may be null itself.
-/

namespace TypedPerl.Compile

/-! ## The operand behind an output -/

/-- The rules compute the operand `o` for an operator, or for a call of a builtin function. -/
inductive Produces (env : Env) (st : State) (u : Usage) : Expr → Operand → Prop where
  /-- The operand of an operator between two expressions. -/
  | operator {i : Info} {op : String} {left right : Expr} {o : Operand} {st' : State}
      (h : binaryValue op (st.operandOf left) (st.operandOf right) left.isRepeatable u env st =
        (.ok o, st')) :
      Produces env st u (.binary i op left right) o
  /-- The operand of a call of a builtin function. -/
  | call {i : Info} {package name : String} {args : List Expr} {o : Operand} {effect : Bool}
      (hbuiltin : isBuiltin package name = true) (hsub : st.subs.get? i.id = none)
      (h : builtin env.nullChecks st name args u = .ok (o, effect)) :
      Produces env st u (.call i package name args) o

/-- An operator, or a call of a builtin function that was not resolved to a subroutine. -/
def isComputed (st : State) : Expr → Bool
  | .binary _ _ _ _ => true
  | .call i package name _ => isBuiltin package name && (st.subs.get? i.id).isNone
  | _ => false

theorem run_exprOutput_binary (i : Info) (op : String) (left right : Expr) (u : Usage) (env : Env)
    (st : State) : exprOutput (.binary i op left right) u env st =
      (binaryValue op (st.operandOf left) (st.operandOf right) left.isRepeatable u >>=
        fun o => pure o.toOutput : Compile Output) env st := by
  rw [exprOutput, run_get_bind, run_read_bind]

theorem run_exprOutput_call (i : Info) (package name : String) (args : List Expr) (u : Usage)
    (env : Env) (st : State) :
    exprOutput (.call i package name args) u env st = callOutput i.id name args u env st := by
  rw [exprOutput, run_get_bind, run_read_bind]

/-- What is generated for an operator or a builtin function comes from the operand that the rules
compute for it. -/
theorem produces_of_exprOutput {env : Env} {st st' : State} {u : Usage} {e : Expr} {out : Output}
    (he : isComputed st e = true) (h : exprOutput e u env st = (.ok out, st')) :
    ∃ o, Produces env st u e o ∧ out = o.toOutput := by
  cases e with
  | binary i op left right =>
    rw [run_exprOutput_binary] at h
    obtain ⟨o, st₁, hvalue, hout⟩ := run_bind_inv h
    cases hout
    exact ⟨o, .operator hvalue, rfl⟩
  | call i package name args =>
    simp only [isComputed, Bool.and_eq_true, Option.isNone_iff_eq_none] at he
    obtain ⟨hbuiltin, hsub⟩ := he
    rw [run_exprOutput_call, callOutput, run_get_bind, hsub] at h
    dsimp only at h
    rw [run_read_bind, run_lift_bind] at h
    rcases hrun : builtin env.nullChecks st name args u with f | ⟨o, effect⟩
    · rw [hrun] at h
      cases h
    · rw [hrun] at h
      refine ⟨o, .call hbuiltin hsub hrun, ?_⟩
      -- whether the call has an effect is noted, but does not change its output
      cases effect with
      | true =>
        cases h
        rfl
      | false =>
        cases h
        rfl
  | _ => cases he

/-! ## Operators -/

/-- Every operator between two operands that gives a value of its own marks it as not null. -/
theorem binaryOp_notNull (nullChecks : Bool) (op : String) (l r : Operand) :
    Gives (binaryOp nullChecks op l r) fun o => o.notNull = true := by
  have hinfix (op : String) (t result : Ty) :
      Gives (infixOp nullChecks op l r t result) fun o => o.notNull = true :=
    .skip fun _ => .pure rfl
  have hcompare (op : String) :
      Gives (compareNumbers nullChecks op l r) fun o => o.notNull = true :=
    .skip fun _ => .pure rfl
  have horder (sign : String) : Gives (compareStrings sign l r) fun o => o.notNull = true :=
    .skip fun _ => .pure rfl
  -- the cases are the operators in the order in which `binaryOp` lists them
  fun_cases binaryOp nullChecks op l r with
  | case1 | case2 | case3 | case4 | case5 | case6 | case7 | case8 | case9 | case10 | case19
  | case20 | case21 | case22 | case23 => exact hinfix _ _ _
  | case12 | case13 | case14 | case15 | case16 | case17 => exact hcompare _
  | case29 | case30 | case31 | case32 => exact horder _
  | case11 | case18 | case24 | case26 | case27 | case28 | case33 => exact .skip fun _ => .pure rfl
  | case25 => exact .skip fun _ => .skip fun _ => .pure rfl
  | case34 => exact .error _

theorem choice_notNull (op : String) (l : Operand) (t : Option Ty) (repeatable : Bool)
    (rc again first : String) (env : Env) (st : State) :
    GivesAt (choice op l t repeatable rc again first) env st fun o => o.notNull = false := by
  refine .bind fun test st' _ => ?_
  split
  · exact .pure rfl
  · exact .pure rfl

/-- A logical operator whose value is used gives one of its sides, which may be null. -/
theorem logicalValue_notNull (op : String) (l r : Operand) (repeatable : Bool) (env : Env)
    (st : State) :
    GivesAt (logicalValue op l r repeatable) env st fun o => o.notNull = false := by
  rw [logicalValue_eq]
  refine .bind fun lc st₁ _ => .bind fun rc st₂ _ => ?_
  dsimp only
  split
  · exact .bind fun _ st₃ _ => choice_notNull _ _ _ _ _ _ _ _ _
  · exact .bind fun _ st₃ _ => choice_notNull _ _ _ _ _ _ _ _ _

/-- The operator gives one of its sides as its value. -/
def givesSide (op : String) (u : Usage) : Bool :=
  op = "//" || (isLogical op && (u.context = .scalar || u.context = .list))

theorem binaryValue_notNull (op : String) (l r : Operand) (repeatable : Bool) (u : Usage)
    (env : Env) (st : State) :
    GivesAt (binaryValue op l r repeatable u) env st fun o => o.notNull = !givesSide op u := by
  unfold binaryValue
  dsimp only
  split
  · next hside =>
    have hgives : givesSide op u = true := by simpa [givesSide] using hside
    rw [hgives]
    exact logicalValue_notNull op l r repeatable env st
  · next hside =>
    have hgives : givesSide op u = false := by simpa [givesSide] using hside
    rw [hgives]
    exact .read_bind (.lift (binaryOp_notNull _ _ _ _))

/-! ## Builtin functions -/

/-- An element of a container may be null. -/
theorem ofElement_notNull (code : String) (elem : Option Ty) :
    (Operand.ofElement code elem).notNull = false := by
  unfold Operand.ofElement
  split <;> rfl

/-- The one value of an operand may be null if it is one of a row, or if the operand may be. -/
def scalarMayBeNull (o : Operand) : Bool :=
  o.multi || (!o.isAggregate && !o.notNull)

theorem scalarOperand_notNull (o : Operand) :
    Gives (scalarOperand o) fun r => r.notNull = !scalarMayBeNull o := by
  unfold scalarOperand scalarMayBeNull
  cases hmulti : o.multi with
  | true => exact .ok (ofElement_notNull _ _)
  | false =>
    cases haggregate : o.isAggregate with
    | true => exact .skip fun _ => .pure rfl
    | false => exact .ok (by simp)

/-- Only accesses have a path, and by their form these may be null. -/
theorem operandOf_notNull_of_path {st : State} {e : Expr} {p : Path} (h : path? st e = some p) :
    (st.operandOf e).notNull = false := by
  cases e with
  | index i throughRef target key brace context => rfl
  | deref i target sigil => rfl
  | _ => cases h

/-- The builtin function may give null. -/
def builtinMayBeNull (st : State) (name : String) (args : List Expr) : Bool :=
  name = "pop" || name = "shift" || name = "delete" ||
    (name = "scalar" && args.head?.any fun first => scalarMayBeNull (st.operandOf first))

theorem grow_notNull (st : State) (name : String) (target : Expr) (added : List Operand)
    (u : Usage) : Gives (grow st name target added u) fun o => o.notNull = true := by
  unfold grow
  refine .ite (fun _ => .error _) fun _ => .skip fun values => ?_
  refine .ite (fun _ => .pure rfl) fun _ => ?_
  split
  · split
    · exact .ite (fun _ => .pure rfl) fun _ => .pure rfl
    · exact .throw _
  · exact .throw _

theorem mapPart_notNull (name : String) (o : Operand) (u : Usage) :
    Gives (mapPart name o u) fun r => r.notNull = true := by
  unfold mapPart
  split
  · refine .ite (fun _ => .skip fun _ => .pure rfl) fun _ => ?_
    exact .ite (fun _ => .ok rfl) fun _ => .ok rfl
  · exact .error _

theorem isPresent_notNull (nullChecks : Bool) (p : Path) :
    Gives (p.isPresent nullChecks) fun o => o.notNull = true := by
  unfold Path.isPresent
  refine .ite (fun _ => .error _) fun _ => .skip fun cont => .skip fun k => ?_
  exact .ite (fun _ => .pure rfl) fun _ => .pure rfl

theorem builtinOn_notNull (nullChecks : Bool) (st : State) (name : String) (first : Expr)
    (rest : List Expr) (u : Usage) :
    Gives (builtinOn nullChecks st name first rest u) fun r =>
      r.1.notNull = !builtinMayBeNull st name (first :: rest) := by
  unfold builtinOn
  dsimp only
  split
  · exact .skip fun _ => .skip fun _ => .pure rfl
  · exact .skip fun _ => .pure rfl
  · exact .pure rfl
  · -- `scalar` passes on what is known of its argument
    exact .bind (scalarOperand_notNull _) fun o ho => .pure (by simpa [builtinMayBeNull] using ho)
  · split
    · next p hp => exact .pure (operandOf_notNull_of_path hp)
    · exact .throw _
  · split
    · exact .bind (isPresent_notNull _ _) fun o ho => .pure ho
    · exact .throw _
  · exact .bind (mapPart_notNull _ _ _) fun o ho => .pure ho
  · exact .bind (mapPart_notNull _ _ _) fun o ho => .pure ho
  · exact .bind (grow_notNull _ _ _ _ _) fun o ho => .pure ho
  · exact .bind (grow_notNull _ _ _ _ _) fun o ho => .pure ho
  · exact .throw _

theorem shrink_notNull (st : State) (name : String) (args : List Operand) :
    Gives (shrink st name args) fun o => o.notNull = false := by
  refine .skip fun target => ?_
  exact .ite (fun _ => .pure (ofElement_notNull _ _)) fun _ => .throw _

theorem builtin_notNull (nullChecks : Bool) (st : State) (name : String) (args : List Expr)
    (u : Usage) : Gives (builtin nullChecks st name args u) fun r =>
      r.1.notNull = !builtinMayBeNull st name args := by
  unfold builtin
  split
  · exact .skip fun _ => .pure rfl
  · exact .skip fun _ => .pure rfl
  · exact .skip fun _ => .pure rfl
  · exact .skip fun _ => .pure rfl
  -- what is taken off a list may be missing
  · exact .bind (shrink_notNull _ _ _) fun o ho => .pure (by simpa [builtinMayBeNull] using ho)
  · exact .bind (shrink_notNull _ _ _) fun o ho => .pure (by simpa [builtinMayBeNull] using ho)
  · cases args with
    | nil =>
      dsimp only
      exact .ite (fun _ => .throw _) fun _ => .throw _
    | cons first rest =>
      dsimp only
      exact .ite (fun _ => .throw _) fun _ => builtinOn_notNull nullChecks st name first rest u

/-! ## Both answers -/

/-- The rules allow for null in the value of the expression. -/
def mayBeNull (st : State) (u : Usage) : Expr → Bool
  | .binary _ op _ _ => givesSide op u
  | .call _ _ name args => builtinMayBeNull st name args
  | _ => false

theorem Produces.notNull_eq {env : Env} {st : State} {u : Usage} {e : Expr} {o : Operand}
    (h : Produces env st u e o) : o.notNull = !mayBeNull st u e := by
  cases h with
  | operator h => exact binaryValue_notNull _ _ _ _ _ _ _ _ _ h
  | call _ _ h => exact builtin_notNull _ _ _ _ _ _ h

theorem isNotNull_of_isComputed {st : State} {e : Expr} (he : isComputed st e = true) :
    e.isNotNull = true := by
  cases e with
  | binary i op left right => rfl
  | call i package name args => rfl
  | _ => cases he

/-- An operator or a builtin function counts as not null wherever its output is read back. The
rules agree, and mark the operand that they compute for it, exactly if they do not allow for null
in its value. -/
theorem notNull_agrees_iff {env : Env} {st st' : State} {u : Usage} {e : Expr} {out : Output}
    (he : isComputed st e = true) (h : exprOutput e u env st = (.ok out, st')) :
    ∃ o, Produces env st u e o ∧ out = o.toOutput ∧
      (∀ S : State, (S.operandOf e).notNull = true) ∧
      (o.notNull = true ↔ mayBeNull st u e = false) := by
  obtain ⟨o, hproduces, hout⟩ := produces_of_exprOutput he h
  refine ⟨o, hproduces, hout, fun S => isNotNull_of_isComputed he, ?_⟩
  rw [hproduces.notNull_eq]
  simp

/-- The choice `$a || $b`. -/
def chosenSide : Expr :=
  .binary ⟨6, default⟩ "||" (.var { info := ⟨7, default⟩, name := "a", sigil := .scalar })
    (.var { info := ⟨8, default⟩, name := "b", sigil := .scalar })

/-- The length of the choice, `my $a; my $b; length($a || $b);`. -/
def chosenLength : SourceUnit where
  file := "sides.pl"
  className := ""
  stmts :=
    [.expr ⟨1, default⟩
        (.var { info := ⟨2, default⟩, name := "a", sigil := .scalar, decl := .my,
                type := some .box }),
      .expr ⟨3, default⟩
        (.var { info := ⟨4, default⟩, name := "b", sigil := .scalar, decl := .my,
                type := some .box }),
      .expr ⟨5, default⟩ (.call ⟨9, default⟩ "" "length" [chosenSide])]

/-- The state in which the choice is generated: that of the unit, which has the outputs of both
sides. -/
def chosenState : State :=
  (tree {} none {} 1 chosenLength).state

/-- As a condition the choice is a truth value of its own, and both answers agree. -/
theorem chosenSide_agrees_as_condition :
    isComputed chosenState chosenSide = true ∧ mayBeNull chosenState .boolean chosenSide = false ∧
      ∃ out st' o, exprOutput chosenSide .boolean {} chosenState = (.ok out, st') ∧
        Produces {} chosenState .boolean chosenSide o ∧ o.notNull = true := by
  have he : isComputed chosenState chosenSide = true := rfl
  have hmay : mayBeNull chosenState .boolean chosenSide = false := by decide +kernel
  have hok : (exprOutput chosenSide .boolean {} chosenState).1.isOk = true := by decide +kernel
  rcases hrun : exprOutput chosenSide .boolean {} chosenState with ⟨f | out, st'⟩
  · rw [hrun] at hok
    cases hok
  · obtain ⟨o, hproduces, -, -, hiff⟩ := notNull_agrees_iff he hrun
    exact ⟨he, hmay, out, st', o, rfl, hproduces, hiff.mpr hmay⟩

/-- Where the value of the choice is used, it is one of two variables, and its rule allows for null.
By its form it is not null all the same, and `length` asks it for its text. -/
theorem chosenSide_read_as_not_null :
    isComputed chosenState chosenSide = true ∧ chosenSide.isNotNull = true ∧
      (∃ out st' o, exprOutput chosenSide .scalar {} chosenState = (.ok out, st') ∧
        Produces {} chosenState .scalar chosenSide o ∧ o.notNull = false) ∧
      (tree {} none {} 1 chosenLength).errors.isEmpty ∧
      (chosenState.output 9).code =
        "Pd.length((Casting.toBoolean(a) ? a : b).stringValue())" := by
  have he : isComputed chosenState chosenSide = true := rfl
  have hmay : mayBeNull chosenState .scalar chosenSide = true := by decide +kernel
  have hok : (exprOutput chosenSide .scalar {} chosenState).1.isOk = true := by decide +kernel
  refine ⟨he, rfl, ?_, by decide +kernel, by decide +kernel⟩
  rcases hrun : exprOutput chosenSide .scalar {} chosenState with ⟨f | out, st'⟩
  · rw [hrun] at hok
    cases hok
  -- the operand made is the one the general theorem speaks of, though its text is not computed
  · obtain ⟨o, hproduces, -⟩ := produces_of_exprOutput he hrun
    refine ⟨out, st', o, rfl, hproduces, ?_⟩
    rw [hproduces.notNull_eq, hmay]
    rfl

end TypedPerl.Compile
