import TypedPerl.Compile.Statement
import TypedPerl.Proofs.Twin.Expr

/-!
# Statements in two runs

The code of a statement is alike in both runs. The choice to keep statements without effect decides
how a guarded statement is written, but not whether it can be: a truth value can be had of every
operand, so the two ways to write it never fail (`exprStatement_spelled`).
-/

namespace TypedPerl.Compile

open Conversion (convert convertNonNull convertNonNull_boolean)

variable {c : Comparison} {s t : State}

/-! ## Bodies -/

theorem bodyCode_code (h : Twins c s t) (leading : List String) (b : Block) :
    c.Code (bodyCode s leading b) (bodyCode t leading b) := by
  intro hs
  have hlines : bodyLines s b = bodyLines t b :=
    List.filterMap_congr fun x _ => h.lineOf? hs x.id
  rw [bodyCode, bodyCode, hlines]

/-! ## Expressions as statements -/

theorem evaluated_code (h : Twins c s t) (e : Expr) :
    c.Code (evaluated c.left.strictStatements s e) (evaluated c.right.strictStatements t e) := by
  intro hs
  have heffect : hasEffect s e = hasEffect t e := by
    unfold hasEffect
    rw [h.effects]
  have hstrict : c.left.strictStatements = c.right.strictStatements :=
    congrArg (·.strictStatements) (c.options hs)
  unfold evaluated
  rw [(h.output e.id).2 hs, heffect, hstrict]

/-- Both succeed, with the same code if the code is compared. -/
def Comparison.Spelled (c : Comparison) {α : Type} (x y : Except Fault α) : Prop :=
  ∃ a b, x = .ok a ∧ y = .ok b ∧ (c.same → a = b)

theorem condition_spelled (h : Twins c s t) (e : Expr) :
    c.Spelled (convertNonNull c.left.nullChecks (s.operandOf e) (some .boolean))
      (convertNonNull c.right.nullChecks (t.operandOf e) (some .boolean)) := by
  obtain ⟨a, ha⟩ := convertNonNull_boolean c.left.nullChecks (s.operandOf e)
  obtain ⟨b, hb⟩ := convertNonNull_boolean c.right.nullChecks (t.operandOf e)
  have hcode := convertNonNull_code (h.operandOf e) (some .boolean)
  rw [ha, hb] at hcode
  cases hcode with
  | ok hab => exact ⟨a, b, ha, hb, hab⟩

/-- A guarded statement, or the value of the whole when there is nothing to guard. -/
theorem guarded_spelled (h : Twins c s t) (sign : String) {plain plain' : String}
    (hplain : c.Code plain plain') (left : Expr) {x y : Except Fault String}
    (hbody : c.Spelled x y) :
    c.Spelled
      (do
        let body ← x
        if body = "" then return plain
        let cond ← convertNonNull c.left.nullChecks (s.operandOf left) (some .boolean)
        return "if (" ++ Java.unparen (sign ++ cond) ++ ") " ++ Java.braces [body])
      (do
        let body ← y
        if body = "" then return plain'
        let cond ← convertNonNull c.right.nullChecks (t.operandOf left) (some .boolean)
        return "if (" ++ Java.unparen (sign ++ cond) ++ ") " ++ Java.braces [body]) := by
  obtain ⟨a, b, rfl, rfl, hab⟩ := hbody
  -- the condition is spelled before the body decides whether it is needed
  obtain ⟨cond, cond', hcond, hcond', heq⟩ := condition_spelled h left
  rw [hcond, hcond']
  refine ⟨if a = "" then plain else "if (" ++ Java.unparen (sign ++ cond) ++ ") " ++
    Java.braces [a], if b = "" then plain' else "if (" ++ Java.unparen (sign ++ cond') ++ ") " ++
    Java.braces [b], ?_, ?_, fun hs => ?_⟩
  · change (if a = "" then _ else _ : Except Fault String) = _
    split <;> rfl
  · change (if b = "" then _ else _ : Except Fault String) = _
    split <;> rfl
  · rw [hab hs, heq hs, hplain hs]

mutual

/-- An expression can be written as a statement in both runs. -/
theorem exprStatement_spelled (h : Twins c s t) :
    ∀ e : Expr, c.Spelled (exprStatement c.left s e) (exprStatement c.right t e)
  -- a variable alone declares itself, stands for nothing or is evaluated
  | .var v => by
    have hplain := evaluated_code h (.var v)
    unfold exprStatement
    rw [h.isLocalDecl v]
    rcases rel_cases (h.binding? v) with ⟨b, b', hb, hb', hbb'⟩ | ⟨hb, hb'⟩
    · rw [hb, hb']
      dsimp only
      split
      · refine ⟨_, _, rfl, rfl, fun _ => ?_⟩
        rw [declaration, declaration, hbb'.like.type, hbb'.like.javaName]
      split
      · exact ⟨_, _, rfl, rfl, fun _ => rfl⟩
      · exact ⟨_, _, rfl, rfl, hplain⟩
    · rw [hb, hb']
      dsimp only
      split
      · exact ⟨_, _, rfl, rfl, fun _ => rfl⟩
      · exact ⟨_, _, rfl, rfl, hplain⟩
  | .list _ es => by
    obtain ⟨a, b, ha, hb, hab⟩ := exprStatements_spelled h es
    unfold exprStatement
    rw [ha, hb]
    exact ⟨_, _, rfl, rfl, fun hs => by rw [hab hs]⟩
  | .binary i op left right => by
    have hplain := evaluated_code h (.binary i op left right)
    unfold exprStatement
    dsimp only
    split
    · exact ⟨_, _, rfl, rfl, hplain⟩
    · exact guarded_spelled h _ hplain left (exprStatement_spelled h right)
  | .number i text => ⟨_, _, rfl, rfl, evaluated_code h (.number i text)⟩
  | .string i ps es => ⟨_, _, rfl, rfl, evaluated_code h (.string i ps es)⟩
  | .undef i => ⟨_, _, rfl, rfl, evaluated_code h (.undef i)⟩
  | .index i r x k b m => ⟨_, _, rfl, rfl, evaluated_code h (.index i r x k b m)⟩
  | .deref i x m => ⟨_, _, rfl, rfl, evaluated_code h (.deref i x m)⟩
  | .makeRef i x => ⟨_, _, rfl, rfl, evaluated_code h (.makeRef i x)⟩
  | .anonArray i es ty => ⟨_, _, rfl, rfl, evaluated_code h (.anonArray i es ty)⟩
  | .anonHash i es ty => ⟨_, _, rfl, rfl, evaluated_code h (.anonHash i es ty)⟩
  | .assign i op l r => ⟨_, _, rfl, rfl, evaluated_code h (.assign i op l r)⟩
  | .incDec i op b x => ⟨_, _, rfl, rfl, evaluated_code h (.incDec i op b x)⟩
  | .unary i op x => ⟨_, _, rfl, rfl, evaluated_code h (.unary i op x)⟩
  | .ternary i x y z => ⟨_, _, rfl, rfl, evaluated_code h (.ternary i x y z)⟩
  | .call i p n es => ⟨_, _, rfl, rfl, evaluated_code h (.call i p n es)⟩

theorem exprStatements_spelled (h : Twins c s t) :
    ∀ es : List Expr, c.Spelled (exprStatements c.left s es) (exprStatements c.right t es)
  | [] => ⟨[], [], rfl, rfl, fun _ => rfl⟩
  | e :: rest => by
    obtain ⟨a, b, ha, hb, hab⟩ := exprStatement_spelled h e
    obtain ⟨as, bs, has, hbs, habs⟩ := exprStatements_spelled h rest
    unfold exprStatements
    rw [ha, hb, has, hbs]
    exact ⟨_, _, rfl, rfl, fun hs => by rw [hab hs, habs hs]⟩

end

theorem Comparison.Spelled.agree {x y : Except Fault String} (h : c.Spelled x y) :
    Agree c.Code x y := by
  obtain ⟨a, b, rfl, rfl, hab⟩ := h
  exact .ok hab

/-! ## Conditions and loops -/

theorem mapM_code {α : Type} {k l : α → Except Fault String}
    (h : ∀ a, Agree c.Code (k a) (l a)) {as : List α} :
    Agree (fun xs ys => c.same → xs = ys) (as.mapM k) (as.mapM l) := by
  have hself : List.Forall₂ Eq as as := List.forall₂_same.2 fun _ _ => rfl
  have hcodes : Agree (List.Forall₂ c.Code) (as.mapM k) (as.mapM l) := by
    refine Agree.mapM (R := Eq) ?_ hself
    rintro a _ rfl
    exact h a
  refine hcodes.mono fun xs ys hxy hs => ?_
  exact List.forall₂_eq_eq_eq ▸ hxy.imp fun _ _ hcode => hcode hs

theorem conditionCode_code (h : Twins c s t) (e : Expr) (negated : Bool) :
    Agree c.Code (conditionCode c.left.nullChecks s e negated)
      (conditionCode c.right.nullChecks t e negated) :=
  (condition_spelled h e).agree.bind fun _ _ hab => .pure fun hs => by rw [hab hs]

theorem condCode_code (h : Twins c s t) (negated : Bool) (test : Expr) (yes : Block)
    (elsifs : List ElseIf) (no : Block) :
    Agree c.Code (condCode c.left.nullChecks s negated test yes elsifs no)
      (condCode c.right.nullChecks t negated test yes elsifs no) := by
  have hbody := bodyCode_code h []
  have hbranch (b : ElseIf) : Agree c.Code (branchCode c.left.nullChecks s b)
      (branchCode c.right.nullChecks t b) := by
    cases b with
    | mk i test body =>
      exact (conditionCode_code h test false).bind fun _ _ hab =>
        .pure fun hs => by rw [hab hs, hbody body hs]
  refine (conditionCode_code h test negated).bind fun a b hab => ?_
  refine (mapM_code hbranch).bind fun as bs habs => .pure fun hs => ?_
  rw [hab hs, habs hs, hbody yes hs, hbody no hs]

theorem loopCode_code (h : Twins c s t) (negated bodyFirst : Bool) (test : Expr) (body : Block) :
    Agree c.Code (loopCode c.left.nullChecks s negated bodyFirst test body)
      (loopCode c.right.nullChecks t negated bodyFirst test body) := by
  have hbody := bodyCode_code h [] body
  refine (conditionCode_code h test negated).bind fun a b hab => ?_
  split
  · exact .pure fun hs => by rw [hab hs, hbody hs]
  · exact .pure fun hs => by rw [hab hs, hbody hs]

theorem headerCode_code (h : Twins c s t) (es : List Expr) :
    c.Code (headerCode s es) (headerCode t es) := by
  intro hs
  have hcodes : es.map (fun e => (s.output e.id).code) = es.map fun e => (t.output e.id).code :=
    List.map_congr_left fun e _ => by rw [(h.output e.id).2 hs]
  rw [headerCode, headerCode, hcodes]

theorem stepsCode_code (h : Twins c s t) (init test post : List Expr) (body : Block) :
    Agree c.Code (stepsCode c.left.nullChecks s init test post body)
      (stepsCode c.right.nullChecks t init test post body) := by
  have hconds : Agree (fun as bs => c.same → as = bs)
      (test.mapM fun e => convertNonNull c.left.nullChecks (s.operandOf e) (some .boolean))
      (test.mapM fun e => convertNonNull c.right.nullChecks (t.operandOf e) (some .boolean)) :=
    mapM_code fun e => (condition_spelled h e).agree
  refine hconds.bind fun as bs hab => .pure fun hs => ?_
  rw [hab hs, headerCode_code h init hs, headerCode_code h post hs, bodyCode_code h [] body hs]

/-- A loop over a list takes its elements in the same variable. -/
theorem foreachCode_twin (v : Variable) (list : Expr) (body : Block) :
    Twin c c.Code (foreachCode v list body) (foreachCode v list body) := by
  intro s t h
  refine .get_bind (.lift_bind (sequenceOf_coded (h.operandOf list)) h fun a b hab => ?_)
  obtain ⟨code, type⟩ := a
  obtain ⟨code', type'⟩ := b
  obtain ⟨rfl, hfine, hcode⟩ := hab
  have hcode : c.same → code = code' := hcode
  dsimp only
  rcases rel_cases (h.binding? v) with ⟨b, b', hb, hb', hbb'⟩ | ⟨hb, hb'⟩
  · rw [hb, hb']
    dsimp only
    rw [h.isLocalDecl v, hbb'.like.type, hbb'.like.javaName]
    -- a variable of the loop itself is its loop variable; any other is assigned from one
    split
    · refine .pure h fun hs => ?_
      rw [hcode hs, bodyCode_code h [] body hs]
    · refine (auxiliary_twin "" s t h).bind fun aux aux' s' t' h' haux => ?_
      cases haux
      have helem : Ty.Fine (type.map Ty.elem) := hfine.map Ty.WellFormed.elem
      have hitem : c.Also Operand.Like (.ofElement aux (type.map Ty.elem))
          (.ofElement aux (type.map Ty.elem)) :=
        .refl c (Operand.like_ofElement _ _ helem)
      refine .lift_bind (convert_code hitem (some b'.type)) h' fun value value' hvalue => ?_
      refine .pure h' fun hs => ?_
      rw [hcode hs, hvalue hs, hbb'.name, bodyCode_code h _ body hs]
      simp only [declaration, hbb'.like.type, hbb'.like.javaName]
  · rw [hb, hb']
    exact .throw h _

/-! ## Subroutines -/

theorem returnCode_code (h : Twins c s t) (value : Option Expr) :
    Agree c.Code (returnCode s value) (returnCode t value) := by
  unfold returnCode
  rw [h.frames]
  split
  · exact .error _
  · exact .ok fun _ => rfl
  · exact .ok fun _ => rfl
  · exact (valueFor_code h _ (h.operandOf _) _).bind fun a b hab =>
      .pure fun hs => by rw [hab hs]

theorem defineMethod_twin (id : Nat) (name : String) (body : Block) :
    TwinStep c (defineMethod id name body) := by
  intro s t h
  refine .get_bind ?_
  have hsub := congrArg (fun m : Keyed Nat Sub => m.get? id) h.subs
  -- both runs take the same frame and the same subroutine, or none
  split
  · rename_i f rest x hframes hget
    split
    · rename_i f' rest' x' hframes' hget'
      cases hframes.symm.trans (h.frames.trans hframes')
      cases hget.symm.trans (hsub.trans hget')
      refine .set (h.addMethod ⟨by simp only [Method.signature], fun hs => ?_⟩)
      rw [methodBody, methodBody, bodyCode_code h [] body hs]
    · rename_i hnone
      exact (hnone f rest x (h.frames ▸ hframes) (hsub ▸ hget)).elim
  · rename_i hnone
    split
    · rename_i f rest x hframes hget
      exact (hnone f rest x (h.frames.trans hframes) (hsub.trans hget)).elim
    · exact .throw h _

/-! ## All statements -/

/-- The code of a statement is alike in both runs. -/
theorem stmtCode_twin (x : Stmt) : Twin c c.Code (stmtCode x) (stmtCode x) := by
  intro s t h
  refine .read_bind (.get_bind ?_)
  -- each statement is spelled from the outputs of its parts, which are alike
  cases x with
  | expr i e => exact .lift (exprStatement_spelled h e).agree h
  | block b => exact .pure h (bodyCode_code h [] b)
  | cond i negated test yes elsifs no => exact .lift (condCode_code h negated test yes elsifs no) h
  | loop i negated bodyFirst test body =>
    exact .lift (loopCode_code h negated bodyFirst test body) h
  | steps i init test post body => exact .lift (stepsCode_code h init test post body) h
  | foreach i var implicit list body => exact foreachCode_twin _ list body s t h
  | ret i value => exact .lift (returnCode_code h value) h
  | jump i keyword => exact .lift (Agree.refl _ fun _ _ _ => rfl) h
  | sub i name returns body =>
    exact (defineMethod_twin i.id name body s t h).bind fun _ _ _ _ h _ => .pure h fun _ => rfl
  | comment i text =>
    refine .pure h fun hs => ?_
    rw [show c.left.comments = c.right.comments from congrArg (·.comments) (c.options hs)]
  | package i name => exact .pure h fun _ => rfl
  | use i name => exact .pure h fun _ => rfl
  | pragma i targets type => exact .pure h fun _ => rfl

theorem stmtOutput_twin (x : Stmt) :
    Twin c (c.Also Output.Like) (stmtOutput x) (stmtOutput x) := by
  intro s t h
  refine (stmtCode_twin x s t h).bind fun code code' s t h hcode => .get_bind ?_
  obtain ⟨hdecls, hdrained⟩ := h.drain
  refine (TwinAt.set hdrained).bind fun _ _ s' t' h' _ => ?_
  refine .pure h' ⟨⟨rfl, rfl, Ty.fine_none⟩, fun hs => ?_⟩
  exact congrArg₂ (fun (decls : List Declaration) code =>
    ({ code := Text.join "\n" (decls.map Declaration.render ++ Java.nonEmpty [code]) } : Output))
    hdecls (hcode hs)

end TypedPerl.Compile
