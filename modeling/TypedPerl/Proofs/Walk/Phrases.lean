import TypedPerl.Proofs.Access.Phrases
import TypedPerl.Proofs.Walk.Texts

/-!
# Texts of values

For each generator of expressions: if the code of the parts of an expression is a phrase, then so is
the code that is generated for the expression. The names of variables and subroutines, and the
auxiliary names, are atoms (`Vocabulary`), and so are the operators of steps. The exception is a
store that is a statement, which may be a declaration.
-/

namespace TypedPerl.Compile

open Java (Phrase jointChars)
open Name (AliasPool)
open Conversion (convert convertNonNull phrase_convert phrase_convertNonNull phrase_helper)

/-- The names that code may mention in the state are atoms. -/
structure Vocabulary (A : String → Prop) (st : State) : Prop where
  auxiliary : ∀ n, A (AliasPool.numbered n "")
  binding : ∀ v b, st.binding? v = some b → A (st.nameOf b)
  sub : ∀ n s, st.subs.get? n = some s → A (st.subName s)
  param : ∀ f ∈ st.frames, A f.param

/-- The code that was generated for the expression is a phrase. -/
def Said (A : String → Prop) (st : State) (e : Expr) : Prop :=
  Phrase A (st.output e.id).code

/-- The path that is kept for the expression, if there is one, consists of phrases. -/
def PathSaid (A : String → Prop) (st : State) (e : Expr) : Prop :=
  ∀ p, path? st e = some p → p.Phrased A

theorem Vocabulary.mono {A B : String → Prop} {st : State} (h : Vocabulary A st)
    (hle : ∀ s, A s → B s) : Vocabulary B st where
  auxiliary n := hle _ (h.auxiliary n)
  binding v b hb := hle _ (h.binding v b hb)
  sub n s hs := hle _ (h.sub n s hs)
  param f hf := hle _ (h.param f hf)

theorem PathSaid.mono {A B : String → Prop} {st : State} {e : Expr} (h : PathSaid A st e)
    (hle : ∀ s, A s → B s) : PathSaid B st e :=
  fun p hp => ⟨(h p hp).base.mono hle, fun k hk => ((h p hp).keys k hk).mono hle⟩

variable {A : String → Prop} {st : State}

theorem forall_operands {es : List Expr} (h : ∀ x ∈ es, Said A st x) :
    ∀ o ∈ st.operands es, Phrase A o.code := by
  intro o ho
  obtain ⟨x, hx, rfl⟩ := List.mem_map.mp ho
  exact h x hx

/-! ## Literals, containers, choices and signs -/

section

variable {o : Operand}

theorem phrase_wrap (u : Usage) {code : String} (h : Phrase A code) : Phrase A (wrap u code) := by
  unfold wrap
  split
  · exact h
  · exact h.paren

theorem phrase_numberOutput (text : String) :
    Gives (numberOutput text) fun out => Phrase A out.code := by
  unfold numberOutput
  split
  · next code t hnumber => exact .ok (.number hnumber)
  · exact .error _

theorem phrase_stringOperand (ho : Phrase A o.code) : Gives (stringOperand o) (Phrase A) := by
  refine .ite (fun _ => .ok (.string "")) fun _ => .ite (fun _ => .ok ?_) fun _ =>
    phrase_convert ho _
  exact phrase_helper rfl ho

theorem phrase_stringPiece (ho : Phrase A o.code) : Gives (stringPiece o) (Phrase A) :=
  .ite (fun _ => .ok (.call_two rfl rfl (.string " ") ho)) fun _ => phrase_stringOperand ho

theorem phrase_stringPieces : ∀ (pieces : List (Option String)) (ops : List Operand),
    (∀ o ∈ ops, Phrase A o.code) →
    Gives (stringPieces pieces ops) fun cs => ∀ c ∈ cs, Phrase A c
  | [], _, _ => .ok fun c hc => absurd hc List.not_mem_nil
  | some t :: ps, ops, hops => by
    rw [stringPieces]
    refine .bind (phrase_stringPieces ps ops hops) fun cs hcs => .pure ?_
    split
    · exact hcs
    · exact List.forall_mem_cons.mpr ⟨.string t, hcs⟩
  | none :: ps, [], hops => by
    rw [stringPieces]
    exact phrase_stringPieces ps [] hops
  | none :: ps, o :: ops, hops => by
    obtain ⟨ho, hrest⟩ := List.forall_mem_cons.mp hops
    rw [stringPieces]
    refine .bind (phrase_stringPiece ho) fun c hc => ?_
    exact .bind (phrase_stringPieces ps ops hrest) fun cs hcs =>
      .pure (List.forall_mem_cons.mpr ⟨hc, hcs⟩)

theorem phrase_stringOutput (pieces : List (Option String)) {ops : List Operand}
    (hops : ∀ o ∈ ops, Phrase A o.code) :
    Gives (stringOutput pieces ops) fun out => Phrase A out.code := by
  refine .ite (fun _ => .pure (.string _)) fun _ => ?_
  refine .bind (phrase_stringPieces pieces ops hops) fun cs hcs => ?_
  split
  · exact .pure (hcs _ List.mem_cons_self)
  · exact .pure (.paren (.join rfl hcs))

end

section

variable {ops : List Operand} (hops : ∀ o ∈ ops, Phrase A o.code)

include hops

theorem phrase_newContainer (t : Ty) : Gives (newContainer ops t) fun out => Phrase A out.code :=
  .bind (Collection.phrase_build hops _) fun _ hcode => .pure hcode

theorem phrase_anonArrayOutput (type : Option Ty) :
    Gives (anonArrayOutput ops type) fun out => Phrase A out.code := by
  unfold anonArrayOutput
  split
  · exact phrase_newContainer hops _
  · exact phrase_newContainer hops _

theorem phrase_anonHashOutput (type : Option Ty) :
    Gives (anonHashOutput ops type) fun out => Phrase A out.code := by
  unfold anonHashOutput
  split
  · exact phrase_newContainer hops _
  · exact phrase_newContainer hops _

theorem phrase_stringList : Gives (stringList ops) (Phrase A) :=
  Collection.phrase_build hops _

end

/-- A list whose elements are statements or targets has no code of its own. -/
theorem phrase_listOutput {ops : List Operand} {u : Usage}
    (hops : (u.assigned || u.isVoid) = false → ∀ o ∈ ops, Phrase A o.code) :
    Gives (listOutput ops u) fun out => Phrase A out.code := by
  refine .ite (fun _ => .ok .empty) fun hu => ?_
  exact .bind (Collection.phrase_build (hops (by simpa using hu)) _) fun code hcode => .pure hcode

section

variable {cond a b l r : Operand}

theorem phrase_ternaryOutput (nullChecks : Bool) (hcond : Phrase A cond.code)
    (ha : Phrase A a.code) (hb : Phrase A b.code) :
    Gives (ternaryOutput nullChecks cond a b) fun out => Phrase A out.code := by
  refine .bind (phrase_convertNonNull _ hcond _) fun c hc => ?_
  refine .bind (phrase_convert ha _) fun ac hac => .bind (phrase_convert hb _) fun bc hbc => ?_
  exact .pure (.paren (.between (.between hc rfl hac) rfl hbc))

theorem phrase_unaryOutput (nullChecks : Bool) (op : String) {out : Output}
    (ho : Phrase A out.code) (hl : Phrase A l.code) :
    Gives (unaryOutput nullChecks op l out) fun r => Phrase A r.code := by
  have hsigned {sign : List Char} (hsign : jointChars sign = true) (t : Ty) :
      Gives (signed nullChecks (String.ofList sign) l t) fun r => Phrase A r.code :=
    .bind (phrase_convertNonNull _ hl _) fun c hc => .pure (.paren (.before hsign hc))
  unfold unaryOutput
  split
  · exact hsigned rfl _
  · exact hsigned rfl _
  · exact hsigned rfl _
  · exact .ok ho
  · exact hsigned rfl _
  · exact .error _

/-! ## Operators -/

variable (hl : Phrase A l.code) (hr : Phrase A r.code)

include hl hr

theorem phrase_both (nullChecks : Bool) (t : Ty) :
    Gives (both nullChecks l r t) fun p => Phrase A p.1 ∧ Phrase A p.2 :=
  .bind (phrase_convertNonNull _ hl _) fun _ hlc =>
    .bind (phrase_convertNonNull _ hr _) fun _ hrc => .pure ⟨hlc, hrc⟩

theorem phrase_bothStrings : Gives (bothStrings l r) fun p => Phrase A p.1 ∧ Phrase A p.2 :=
  .bind (phrase_stringOperand hl) fun _ hlc => .bind (phrase_stringOperand hr) fun _ hrc =>
    .pure ⟨hlc, hrc⟩

theorem phrase_infixOp (nullChecks : Bool) {op : String} (hop : op ∈ Java.operators)
    (t result : Ty) : Gives (infixOp nullChecks op l r t result) fun o => Phrase A o.code :=
  .bind (phrase_both hl hr _ _) fun _ hp => .pure (.paren (.operation hop hp.1 hp.2))

omit hl hr in
theorem phrase_unbox {code : String} (h : Phrase A code) (k : Kind) :
    Phrase A (unbox code k) := by
  have hword : (Conversion.TypeCode.word (Conversion.primitive k)).Named fun _ => True := by
    cases k <;> simp [Conversion.TypeCode.Named, Conversion.primitive]
  exact h.of_expression
    (Conversion.scoped_cast (u := .word (Conversion.primitive k)) hword (Phrase.operand code))

theorem phrase_compareNumbers (nullChecks : Bool) {op : String} (hop : op ∈ Java.operators) :
    Gives (compareNumbers nullChecks op l r) fun o => Phrase A o.code := by
  refine .bind (phrase_both hl hr _ _) fun p hp => ?_
  obtain ⟨lc, rc⟩ := p
  dsimp only
  split
  · exact .pure (.paren (.operation hop (phrase_unbox hp.1 _) (phrase_unbox hp.2 _)))
  · exact .pure (.paren (.operation hop hp.1 hp.2))

theorem phrase_compareStrings {sign : String} (hsign : sign ∈ Java.operators) :
    Gives (compareStrings sign l r) fun o => Phrase A o.code := by
  refine .bind (phrase_bothStrings hl hr) fun p hp => .pure (.paren ?_)
  obtain ⟨lc, rc⟩ := p
  have hcall : Phrase A (lc ++ ".compareTo(" ++ rc ++ ")") :=
    .behind (.between hp.1 rfl hp.2) rfl
  have hzero : Phrase A "0" := .piece rfl
  have hend : (") " : String) = ")" ++ " " := rfl
  have hlast : (" 0" : String) = " " ++ "0" := rfl
  rw [hend, hlast]
  simpa only [String.append_assoc] using Phrase.operation hsign hcall hzero

theorem phrase_binaryOp (nullChecks : Bool) (op : String) :
    Gives (binaryOp nullChecks op l r) fun o => Phrase A o.code := by
  have hequals {lc rc : String} (hlc : Phrase A lc) (hrc : Phrase A rc) :
      Phrase A (lc ++ ".equals(" ++ rc ++ ")") :=
    .behind (.between hlc rfl hrc) rfl
  unfold binaryOp
  split
  -- arithmetic, bits and truth values
  case h_1 | h_2 | h_3 | h_4 | h_5 | h_6 | h_7 | h_8 | h_9 | h_10 | h_19 | h_20 | h_21 | h_22 |
    h_23 => exact phrase_infixOp hl hr _ (by decide) _ _
  -- functions of the runtime
  case h_11 | h_18 | h_33 =>
    exact .bind (phrase_both hl hr _ _) fun p hp => .pure (.call_two rfl rfl hp.1 hp.2)
  case h_25 =>
    refine .bind (phrase_stringOperand hl) fun lc hlc => ?_
    exact .bind (phrase_convertNonNull _ hr _) fun rc hrc => .pure (.call_two rfl rfl hlc hrc)
  -- comparisons
  case h_12 | h_13 | h_14 | h_15 | h_16 | h_17 => exact phrase_compareNumbers hl hr _ (by decide)
  case h_29 | h_30 | h_31 | h_32 => exact phrase_compareStrings hl hr (by decide)
  -- strings
  case h_24 =>
    exact .bind (phrase_bothStrings hl hr) fun p hp => .pure (.paren (.between hp.1 rfl hp.2))
  case h_26 =>
    exact .bind (phrase_bothStrings hl hr) fun p hp => .pure (hequals hp.1 hp.2)
  case h_27 =>
    refine .bind (phrase_bothStrings hl hr) fun p hp => .pure (.paren ?_)
    exact .behind (.between (.before rfl hp.1) rfl hp.2) rfl
  case h_28 =>
    refine .bind (phrase_bothStrings hl hr) fun p hp => .pure ?_
    exact .behind (.between (.before rfl hp.1) rfl hp.2) rfl
  case h_34 => exact .error _

/-! ## Logical operators -/

omit hl hr in
theorem phrase_logicalTest (op : String) (t : Option Ty) (repeatable : Bool) {first : String}
    (hfirst : Phrase A first) : Gives (logicalTest op l t repeatable first) (Phrase A) :=
  .ite (fun _ => .ok (.behind hfirst rfl)) fun _ => phrase_convert hfirst _

omit hl hr in
theorem phrase_choice (op : String) (t : Option Ty) (repeatable : Bool) {rc again first : String}
    (hrc : Phrase A rc) (hagain : Phrase A again) (hfirst : Phrase A first) (env : Env)
    (st : State) :
    GivesAt (choice op l t repeatable rc again first) env st fun o => Phrase A o.code := by
  refine .lift_bind (phrase_logicalTest op t repeatable hfirst) fun test htest => ?_
  split
  · exact .pure (.paren (.between (.between htest rfl hrc) rfl hagain))
  · exact .pure (.paren (.between (.between htest rfl hagain) rfl hrc))

theorem phrase_logicalValue (haux : ∀ n, A (AliasPool.numbered n "")) (op : String)
    (repeatable : Bool) (env : Env) (st : State) :
    GivesAt (logicalValue op l r repeatable) env st fun o => Phrase A o.code := by
  rw [logicalValue_eq]
  refine .lift_bind (phrase_convert hl _) fun lc hlc => ?_
  refine .lift_bind (phrase_convert hr _) fun rc hrc => ?_
  dsimp only
  split
  · refine .bind fun p st' hrun => ?_
    cases hrun
    exact phrase_choice op _ _ hrc hlc hlc _ _
  · refine .bind fun p st' hrun => ?_
    have hcapture := Path.phrase_capture haux (logicalType l r) hlc st.toAccessState
    cases hrun
    exact phrase_choice op _ _ hrc hcapture.1 hcapture.2 _ _

theorem phrase_binaryValue (haux : ∀ n, A (AliasPool.numbered n "")) (op : String)
    (repeatable : Bool) (u : Usage) (env : Env) (st : State) :
    GivesAt (binaryValue op l r repeatable u) env st fun o => Phrase A o.code := by
  unfold binaryValue
  dsimp only
  split
  · exact phrase_logicalValue hl hr haux _ _ _ _
  · exact .read_bind (.lift (phrase_binaryOp hl hr _ _))

end

/-! ## Stored values -/

/-- The elements of a list that is a row of values are phrases. -/
def RowSaid (A : String → Prop) (st : State) (e : Expr) : Prop :=
  ∀ es, severalElements? (some e) = some es → ∀ x ∈ es, Said A st x

theorem phrase_valueFor {right : Option Expr} (hright : ∀ e ∈ right, RowSaid A st e) {o : Operand}
    (ho : Phrase A o.code) (t : Option Ty) : Gives (valueFor st right o t) (Phrase A) := by
  have hone : ∀ x ∈ [o], Phrase A x.code := List.forall_mem_singleton.mpr ho
  refine .ite (fun _ => phrase_convert ho _) fun _ => ?_
  split
  · next es hseveral =>
    cases right with
    | none => cases hseveral
    | some e => exact Collection.phrase_build (forall_operands (hright e rfl es hseveral)) _
  · exact .ite (fun _ => phrase_convert ho _) fun _ => Collection.phrase_build hone _

theorem bindingOf_gives (st : State) (v : Variable) :
    Gives (bindingOf st v) fun b => st.binding? v = some b := by
  intro b hb
  unfold bindingOf at hb
  split at hb
  · next h =>
    cases hb
    exact h
  · cases hb

theorem phrase_storePath (nullChecks : Bool) {target : Expr} (htarget : PathSaid A st target)
    {right : Option Expr} (hright : ∀ e ∈ right, RowSaid A st e) {o : Operand}
    (ho : Phrase A o.code) :
    Gives (storePath nullChecks st target right o) fun r => Phrase A r.1 := by
  refine .bind (pathOf_gives st target) fun p hp => .skip fun t => ?_
  refine .bind (phrase_valueFor hright ho t) fun value hvalue => ?_
  exact .bind (Path.phrase_write (htarget p hp) nullChecks hvalue) fun code hcode => .pure hcode

theorem phrase_sequenceOf {o : Operand} (ho : Phrase A o.code) :
    Gives (sequenceOf o) fun r => Phrase A r.1 := by
  unfold sequenceOf
  split
  · exact .bind (phrase_convert ho _) fun code hcode => .pure hcode
  · exact .ok ho
  · exact .bind (Collection.phrase_build (List.forall_mem_singleton.mpr ho) _) fun code hcode =>
      .pure hcode

theorem phrase_listItem {aux : String} (haux : A aux) (t : Option Ty) (i : Nat) (target : Expr)
    (consumed : Bool) : Phrase A (listItem aux t i target consumed).code := by
  have hnumber : Phrase A (toString i) := by
    have hchars : jointChars (Nat.toDigits 10 i) = true := by
      have hdigit : ∀ c ∈ Nat.toDigits 10 i, c.isDigit = true := fun c hc =>
        Nat.isDigit_of_mem_toDigits (by decide) (by decide) hc
      rw [jointChars, Bool.and_eq_true, Bool.not_eq_true', List.any_eq_false]
      refine ⟨Conversion.Plain.spaced_of_not_mem (fun h => absurd (hdigit _ h) (by decide)) none,
        fun c hc hmem => ?_⟩
      have hsign : c = '<' ∨ c = '>' ∨ c = ';' ∨ c = '\n' := by simpa using hmem
      have hd := hdigit c hc
      rcases hsign with rfl | rfl | rfl | rfl <;> cases hd
    have htext : toString i = String.ofList (Nat.toDigits 10 i) := rfl
    rw [htext]
    exact .piece hchars
  unfold listItem
  split
  · split
    · exact .emptyOf? t
    · exact .piece rfl
  · split
    · exact .call_two rfl rfl (.atom haux) hnumber
    · rw [Path.code_ofElement]
      exact .call_two rfl rfl (.atom haux) hnumber

/-! ## Assignments with an operator, and steps -/

section

variable (h : Vocabulary A st)

include h

theorem phrase_updatedPlace {target : Expr} (htarget : PathSaid A st target) (env : Env) :
    GivesAt (updatedPlace target) env st fun r => r.1.Phrased A := by
  have hpath : GivesAt (updatedPath target st) env st fun r => r.1.Phrased A := by
    refine .lift_bind (pathOf_gives st target) fun p hp => .bind fun t st' _ => .read_bind ?_
    exact .lift_bind (Path.phrase_readWrite h.auxiliary (htarget p hp) _ _) fun r hr =>
      .bind fun _ _ _ => .pure hr
  rw [updatedPlace_eq]
  refine .get_bind ?_
  cases target with
  | var v =>
    refine .lift_bind (bindingOf_gives st v) fun b hb => ?_
    have hname : Phrase A (st.nameOf b) := .atom (h.binding v b hb)
    exact .pure ⟨hname, fun value hvalue => .between hname rfl hvalue⟩
  | index i throughRef target key brace context => exact hpath
  | deref i target sigil => exact hpath
  | _ => exact .throw _

theorem phrase_compoundAssign (op : String) {left right : Expr} (hleft : PathSaid A st left)
    (hright : Said A st right) (u : Usage) (env : Env) :
    GivesAt (compoundAssign op left right u) env st fun out => Phrase A out.code := by
  rw [compoundAssign_eq]
  refine .bind fun r st₁ hplace => .get_bind ?_
  have hplaced := phrase_updatedPlace h hleft env r st₁ hplace
  have hvalue : Phrase A (st₁.operandOf right).code := by
    rw [updatedPlace_operandOf hplace right]
    exact hright
  obtain ⟨place, t⟩ := r
  have hupdate {result : Operand} (hresult : Phrase A result.code) (st' : State) :
      GivesAt (updateOutput place t u result) env st' fun out => Phrase A out.code :=
    .lift_bind (phrase_convert hresult t) fun value hvalue =>
      .pure (phrase_wrap u (hplaced.write value hvalue))
  dsimp only
  split
  · exact .bind fun result st' hrun => hupdate
      (phrase_logicalValue hplaced.read hvalue h.auxiliary _ _ env st₁ result st' hrun) st'
  · exact .read_bind (.lift_bind (phrase_binaryOp hplaced.read hvalue _ _) fun result hresult =>
      hupdate hresult st₁)

omit h in
theorem phrase_beforeStep (nullChecks : Bool) (op : String) {stored : String}
    (hstored : Phrase A stored) (t : Option Ty) (k : Kind) :
    Gives (beforeStep nullChecks op stored t k) fun out => Phrase A out.code := by
  have hinverse {code : String} (hcode : Phrase A code) :
      Phrase A (Java.paren (code ++ " " ++ (if op = "--" then "+" else "-") ++ " 1")) := by
    have hop : (if op = "--" then "+" else "-") ∈ Java.operators := by
      split <;> decide
    have hlast : (" 1" : String) = " " ++ "1" := rfl
    rw [hlast]
    simpa only [String.append_assoc] using (Phrase.operation hop hcode (.piece rfl)).paren
  unfold beforeStep
  dsimp only
  split
  · exact .pure (hinverse hstored.paren)
  · exact .bind (phrase_convertNonNull _ hstored.paren _) fun c hc => .pure (hinverse hc)

/-- The operator of a step, as it is written beside a variable and between a value and one. -/
structure StepSaid (A : String → Prop) (op : String) : Prop where
  beside : A op
  between : A (" " ++ stepSign op ++ " 1")

theorem phrase_stepOutput {op : String} (hop : StepSaid A op) (before : Bool) {target : Expr}
    (htarget : PathSaid A st target) (u : Usage) (env : Env) :
    GivesAt (stepOutput op before target u) env st fun out => Phrase A out.code := by
  refine .get_bind ?_
  dsimp only
  split
  · next b hb =>
    -- a variable of a primitive kind steps by itself
    have hname : Phrase A (st.nameOf b) := by
      unfold primitiveVariable? at hb
      split at hb
      · next v => exact .atom (h.binding v b (Option.eq_some_of_filter_eq_some hb))
      · cases hb
    refine .pure (phrase_wrap u ?_)
    split
    · exact .append (.atom hop.beside) hname
    · exact .append hname (.atom hop.beside)
  · refine .read_bind (.bind fun r st₁ hplace => ?_)
    have hplaced := phrase_updatedPlace h htarget env r st₁ hplace
    obtain ⟨place, t⟩ := r
    refine .lift_bind (phrase_convertNonNull _ hplaced.read _) fun rc hrc => ?_
    have hstep : Phrase A (Java.paren (rc ++ " " ++ stepSign op ++ " 1")) := by
      simpa only [String.append_assoc] using (hrc.append (.atom hop.between)).paren
    refine .lift_bind (phrase_convert hstep t) fun value hvalue => ?_
    have hwrite := hplaced.write value hvalue
    dsimp only
    split
    · exact .pure (phrase_wrap u hwrite)
    · exact .lift (phrase_beforeStep _ op hwrite t _)

/-! ## Calls -/

omit h

variable {o : Operand} (ho : Phrase A o.code)

include ho

theorem phrase_sizeOperand : Gives (sizeOperand o) fun r => Phrase A r.code :=
  .bind (phrase_convert ho _) fun _ hc => .pure hc

theorem phrase_scalarOperand : Gives (scalarOperand o) fun r => Phrase A r.code :=
  .ite (fun _ => .ok (Operand.phrase_reduce ho)) fun _ =>
    .ite (fun _ => phrase_sizeOperand ho) fun _ => .ok ho

theorem phrase_definedOperand : Phrase A (definedOperand o).code := by
  unfold definedOperand
  dsimp only [Operand.nonNull]
  split
  · exact .piece rfl
  · split
    · exact .call_one rfl rfl ho
    · exact .paren (.behind ho rfl)

theorem phrase_mapPart {name : List Char} (hname : jointChars name = true) (u : Usage) :
    Gives (mapPart (String.ofList name) o u) fun r => Phrase A r.code := by
  unfold mapPart
  split
  · refine .ite (fun _ => phrase_sizeOperand ho) fun _ => ?_
    exact .ite (fun _ => .ok (.call_one rfl hname ho)) fun _ => .ok (.call_one rfl hname ho)
  · exact .error _

omit ho

include h

theorem phrase_grow {name : List Char} (hname : jointChars name = true) {target : Expr}
    (htarget : Said A st target) {added : List Operand} (hadded : ∀ o ∈ added, Phrase A o.code)
    (u : Usage) :
    Gives (grow st (String.ofList name) target added u) fun r => Phrase A r.code := by
  refine .ite (fun _ => .error _) fun _ => ?_
  refine .bind (Collection.phrase_build hadded _) fun values hvalues => ?_
  refine .ite (fun _ => .pure (.call_two rfl hname htarget hvalues)) fun _ => ?_
  cases target with
  | var v =>
    dsimp only
    split
    · next b hb =>
      have href : Phrase A (st.nameOf b) := .atom (h.binding v b hb)
      have hcode : Phrase A
          (st.nameOf b ++ " = " ++ runtimeCall (String.ofList name) [st.nameOf b, values]) :=
        .between href rfl (.call_two rfl hname href hvalues)
      exact .ite (fun _ => .pure hcode) fun _ => .pure (.behind hcode.paren rfl)
    · exact .throw _
  | _ => exact .throw _

theorem phrase_shrink {name : List Char} (hname : jointChars name = true) {args : List Operand}
    (hargs : ∀ o ∈ args, Phrase A o.code) :
    Gives (shrink st (String.ofList name) args) fun r => Phrase A r.code := by
  have htarget : Gives (shrinkTarget st (String.ofList name) args) fun o => Phrase A o.code := by
    unfold shrinkTarget
    split
    · exact .ok (hargs _ List.mem_cons_self)
    · next f rest hframes => exact .ok (.atom (h.param f (hframes ▸ List.mem_cons_self)))
    · exact .error _
  refine .bind htarget fun o ho => .ite (fun _ => .pure ?_) fun _ => .throw _
  rw [Path.code_ofElement]
  exact .call_one rfl hname ho

theorem phrase_builtinOn (nullChecks : Bool) (name : String) {first : Expr} {rest : List Expr}
    (hfirst : Said A st first) (hpath : PathSaid A st first) (hrest : ∀ x ∈ rest, Said A st x)
    (u : Usage) :
    Gives (builtinOn nullChecks st name first rest u) fun r => Phrase A r.1.code := by
  have hmore := forall_operands hrest
  unfold builtinOn
  dsimp only
  split
  · refine .bind (phrase_stringOperand hfirst) fun sep hsep => ?_
    exact .bind (phrase_stringList hmore) fun list hlist => .pure (.call_two rfl rfl hsep hlist)
  · exact .bind (phrase_stringOperand hfirst) fun s hs => .pure (.call_one rfl rfl hs)
  · exact .pure (phrase_definedOperand hfirst)
  · exact .bind (phrase_scalarOperand hfirst) fun r hr => .pure hr
  · split
    · exact .pure hfirst
    · exact .throw _
  · split
    · next p hp => exact .bind (Path.phrase_isPresent (hpath p hp) _) fun o ho => .pure ho
    · exact .throw _
  · exact .bind (phrase_mapPart (o := st.operandOf first) hfirst rfl u) fun r hr => .pure hr
  · exact .bind (phrase_mapPart (o := st.operandOf first) hfirst rfl u) fun r hr => .pure hr
  · exact .bind (phrase_grow h rfl hfirst hmore u) fun r hr => .pure hr
  · exact .bind (phrase_grow h rfl hfirst hmore u) fun r hr => .pure hr
  · exact .throw _

theorem phrase_builtin (nullChecks : Bool) (name : String) {args : List Expr}
    (hargs : ∀ x ∈ args, Said A st x) (hpaths : ∀ x ∈ args, PathSaid A st x) (u : Usage) :
    Gives (builtin nullChecks st name args u) fun r => Phrase A r.1.code := by
  have hops := forall_operands hargs
  have hprint {fn : List Char} (hfn : jointChars fn = true) : Gives (do
      let list ← stringList (st.operands args)
      return (Operand.nonNull (runtimeCall (String.ofList fn) [list]) (some .integer), true))
      fun r => Phrase A r.1.code :=
    .bind (phrase_stringList hops) fun list hlist => .pure (.call_one rfl hfn hlist)
  unfold builtin
  split
  · exact hprint rfl
  · exact hprint rfl
  · exact hprint rfl
  · exact hprint rfl
  · exact .bind (phrase_shrink h rfl hops) fun r hr => .pure hr
  · exact .bind (phrase_shrink h rfl hops) fun r hr => .pure hr
  · dsimp only
    split
    · exact .throw _
    · split
      · next first rest =>
        obtain ⟨hfirst, hrest⟩ := List.forall_mem_cons.mp hargs
        exact phrase_builtinOn h _ _ hfirst (hpaths first List.mem_cons_self) hrest u
      · exact .throw _

theorem phrase_callOutput (id : Nat) (name : String) {args : List Expr}
    (hargs : ∀ x ∈ args, Said A st x) (hpaths : ∀ x ∈ args, PathSaid A st x) (u : Usage)
    (env : Env) : GivesAt (callOutput id name args u) env st fun out => Phrase A out.code := by
  refine .get_bind ?_
  dsimp only
  split
  · next s hs =>
    refine .lift_bind (Collection.phrase_build (forall_operands hargs) _) fun list hlist => ?_
    exact .bind fun _ st' _ => .pure (.round (.atom (h.sub id s hs)) hlist)
  · refine .read_bind (.lift_bind (phrase_builtin h _ name hargs hpaths u) fun r hr => ?_)
    obtain ⟨o, effect⟩ := r
    dsimp only
    split
    · exact .bind fun _ st' _ => .pure hr
    · exact .pure hr

end

/-! ## Accesses -/

theorem phrase_pathOutput (id : Nat) {p : Path} (hp : p.Phrased A) (u : Usage) (env : Env)
    (st : State) : GivesAt (pathOutput id p u) env st fun out => Phrase A out.code := by
  refine .read_bind (.bind fun _ st₁ _ => ?_)
  split
  · exact .lift_bind (Path.phrase_delete hp _) fun o ho => .bind fun _ st₂ _ => .pure ho
  · split
    · exact .bind fun t st₂ _ => .pure .empty
    · exact .lift_bind (Path.phrase_read hp _) fun o ho => .pure ho

end TypedPerl.Compile
