import TypedPerl.Proofs.Conversion.Kept
import TypedPerl.Proofs.Document.Places
import TypedPerl.Proofs.Walk.Expr

/-!
# Generated code holds the code of its parts

For each generator of expressions: the code that it gives holds the code of the operands that it is
given. The exceptions are those of containers, and the builtin functions that look at one argument
only. What is stored through an access holds the base and the keys of the access.
-/

namespace TypedPerl.Compile

open Text (Within)
open Conversion (convert convertNonNull convert_kept convertNonNull_kept)
open Collection (Kept build_kept build_sequence_kept unkept)

variable {α β : Type}

/-! ## Literals, containers, choices and signs -/

theorem stringOperand_kept {o : Operand} (ho : o.Live) :
    Gives (stringOperand o) (Within o.code) := by
  refine .ite (fun hundef => ?_) fun _ => .ite (fun _ => .ok ?_) fun _ => convert_kept ho _
  · exact absurd hundef (by simp [ho.undef])
  · exact .call _ _ ⟨_, List.mem_singleton_self _, .refl _⟩

theorem stringPiece_kept {o : Operand} (ho : o.Live) :
    Gives (stringPiece o) (Within o.code) := by
  refine .ite (fun _ => .ok ?_) fun _ => stringOperand_kept ho
  exact .call _ _ ⟨o.code, by simp, .refl _⟩

/-- With a place for each operand, each operand is in some piece. -/
theorem stringPieces_kept : ∀ (pieces : List (Option String)) (ops : List Operand),
    ops.length = Expr.places pieces →
    Gives (stringPieces pieces ops) fun cs => ∀ o ∈ ops, o.Live → ∃ c ∈ cs, Within o.code c
  | [], ops, hlength => by
    obtain rfl : ops = [] := List.eq_nil_of_length_eq_zero hlength
    exact .ok fun o ho => absurd ho List.not_mem_nil
  -- a constant piece uses no operand and may be left out when it is empty
  | some t :: ps, ops, hlength => by
    have hrest : ops.length = Expr.places ps := by simpa [Expr.places] using hlength
    rw [stringPieces]
    refine .bind (stringPieces_kept ps ops hrest) fun cs hcs => .pure fun o ho hlive => ?_
    obtain ⟨c, hc, hkept⟩ := hcs o ho hlive
    split
    · exact ⟨c, hc, hkept⟩
    · exact ⟨c, List.mem_cons_of_mem _ hc, hkept⟩
  | none :: ps, [], hlength => by simp [Expr.places] at hlength
  -- an embedded one uses the next operand
  | none :: ps, o :: ops, hlength => by
    have hrest : ops.length = Expr.places ps := by simpa [Expr.places] using hlength
    have hfirst : Gives (stringPiece o) fun c => o.Live → Within o.code c :=
      fun c hc hlive => stringPiece_kept hlive c hc
    rw [stringPieces]
    refine .bind hfirst fun c hc => .bind (stringPieces_kept ps ops hrest) fun cs hcs => .pure ?_
    intro o' ho' hlive
    obtain rfl | ho' := List.mem_cons.mp ho'
    · exact ⟨c, List.mem_cons_self, hc hlive⟩
    · obtain ⟨c', hc', hkept⟩ := hcs o' ho' hlive
      exact ⟨c', List.mem_cons_of_mem _ hc', hkept⟩

theorem stringOutput_kept {pieces : List (Option String)} {ops : List Operand}
    (hlength : ops.length = Expr.places pieces) :
    Gives (stringOutput pieces ops) fun out => ∀ o ∈ ops, o.Live → Within o.code out.code := by
  refine .ite (fun hplain => .pure fun o ho => ?_) fun _ => ?_
  · -- a string without empty places has no operands
    rw [Expr.places_eq_zero (by simpa using hplain)] at hlength
    exact absurd ho (List.eq_nil_of_length_eq_zero hlength ▸ List.not_mem_nil)
  · refine .bind (stringPieces_kept pieces ops hlength) fun cs hcs => ?_
    split
    · next c =>
      refine .pure fun o ho hlive => ?_
      obtain ⟨c', hc', hkept⟩ := hcs o ho hlive
      exact List.mem_singleton.mp hc' ▸ hkept
    · exact .pure fun o ho hlive => (Within.join " + " (hcs o ho hlive)).paren

/-- The expressions among several whose code a map of them does not keep. -/
def State.oddRow (st : State) (es : List Expr) : List Expr :=
  unkept (fun x => (st.operandOf x).isSequence) (fun x => (st.operandOf x).isAggregate) es

/-- The text holds the code of the expressions of a row, except for those that a map leaves out. -/
def RowKept (st : State) (es : List Expr) (isMap : Bool) (text : String) : Prop :=
  ∀ x ∈ es, (st.operandOf x).Live →
    Kept (isMap = true ∧ x ∈ st.oddRow es) (st.operandOf x).code text

theorem RowKept.mono {st : State} {es : List Expr} {isMap : Bool} {text text' : String}
    (h : RowKept st es isMap text) (hle : Within text text') : RowKept st es isMap text' :=
  fun x hx hlive => (h x hx hlive).mono hle

theorem buildRow_kept (st : State) (es : List Expr) (t : Option Ty) :
    Gives (Collection.build (st.operands es) t) (RowKept st es (t.any Ty.isMap)) :=
  build_kept st.operandOf es t

theorem newContainer_kept (st : State) (es : List Expr) (t : Ty) :
    Gives (newContainer (st.operands es) t) fun out => RowKept st es t.isMap out.code :=
  .bind (buildRow_kept st es (some t)) fun _ hcode => .pure hcode

theorem anonArrayOutput_kept (st : State) (es : List Expr) (type : Option Ty) :
    Gives (anonArrayOutput (st.operands es) type) fun out =>
      RowKept st es ((writtenContainer type).any Ty.isMap) out.code := by
  unfold anonArrayOutput
  split
  · next s e hwritten =>
    rw [hwritten]
    exact newContainer_kept st es _
  · refine (newContainer_kept st es _).mono fun out hout x hx hlive => ?_
    exact (hout x hx hlive).imp_odd fun hodd => nomatch hodd.1

theorem anonHashOutput_kept (st : State) (es : List Expr) (type : Option Ty) :
    Gives (anonHashOutput (st.operands es) type) fun out => RowKept st es true out.code := by
  unfold anonHashOutput
  split
  · exact newContainer_kept st es _
  · exact newContainer_kept st es _

theorem listOutput_kept (ops : List Operand) {u : Usage} (hu : (u.assigned || u.isVoid) = false) :
    Gives (listOutput ops u) fun out => ∀ o ∈ ops, o.Live → Within o.code out.code := by
  unfold listOutput
  rw [hu, if_neg Bool.false_ne_true]
  exact .bind (build_sequence_kept ops _ rfl) fun _ hcode => .pure hcode

theorem ternaryOutput_kept (nullChecks : Bool) (cond a b : Operand) :
    Gives (ternaryOutput nullChecks cond a b) fun out =>
      (cond.Live → Within cond.code out.code) ∧ (a.Live → Within a.code out.code) ∧
      (b.Live → Within b.code out.code) := by
  refine .bind (fun c hc hlive => convertNonNull_kept nullChecks hlive _ c hc) fun c hc => ?_
  refine .bind (fun ac hac hlive => convert_kept hlive _ ac hac) fun ac hac => ?_
  refine .bind (fun bc hbc hlive => convert_kept hlive _ bc hbc) fun bc hbc => .pure ⟨?_, ?_, ?_⟩
  · exact fun hlive => .paren (((((hc hlive).behind _).behind _).behind _).behind _)
  · exact fun hlive => .paren ((((hac hlive).before _).behind _).behind _)
  · exact fun hlive => .paren ((hbc hlive).before _)

theorem unaryOutput_kept (nullChecks : Bool) (op : String) (o : Operand) (out : Output)
    (hout : o.code = out.code) :
    Gives (unaryOutput nullChecks op o out) fun r => o.Live → Within o.code r.code := by
  -- every operator that writes something sets a sign before the operand
  have hsigned (sign : String) (t : Ty) : Gives (signed nullChecks sign o t) fun r =>
      o.Live → Within o.code r.code := by
    refine .bind (fun c hc hlive => convertNonNull_kept nullChecks hlive _ c hc) fun c hc => ?_
    exact .pure fun hlive => .paren ((hc hlive).before _)
  unfold unaryOutput
  split
  · exact hsigned _ _
  · exact hsigned _ _
  · exact hsigned _ _
  · exact .ok fun _ => hout ▸ .refl _
  · exact hsigned _ _
  · exact .error _

/-! ## Operators -/

/-- The code holds both operands, as far as they are evaluated. -/
def Both (l r : Operand) (text : String) : Prop :=
  (l.Live → Within l.code text) ∧ (r.Live → Within r.code text)

theorem both_kept (nullChecks : Bool) (l r : Operand) (t : Ty) :
    Gives (both nullChecks l r t) fun p =>
      (l.Live → Within l.code p.1) ∧ (r.Live → Within r.code p.2) := by
  refine .bind (fun c hc hlive => convertNonNull_kept nullChecks hlive _ c hc) fun lc hl => ?_
  exact .bind (fun c hc hlive => convertNonNull_kept nullChecks hlive _ c hc) fun rc hr =>
    .pure ⟨hl, hr⟩

theorem bothStrings_kept (l r : Operand) :
    Gives (bothStrings l r) fun p =>
      (l.Live → Within l.code p.1) ∧ (r.Live → Within r.code p.2) := by
  refine .bind (fun c hc hlive => stringOperand_kept hlive c hc) fun lc hl => ?_
  exact .bind (fun c hc hlive => stringOperand_kept hlive c hc) fun rc hr => .pure ⟨hl, hr⟩

/-- A result of an operator, which is evaluated and holds both operands. -/
structure Combines (l r o : Operand) : Prop where
  live : o.Live
  both : Both l r o.code

/-- A text that holds the code of both sides, by what the sides were rendered to. -/
theorem Combines.of_sides {l r : Operand} {lc rc text : String}
    (h : (l.Live → Within l.code lc) ∧ (r.Live → Within r.code rc)) (hleft : Within lc text)
    (hright : Within rc text) (t : Option Ty) : Combines l r (.nonNull text t) where
  live := Operand.live_nonNull _ _
  both := ⟨fun hl => (h.1 hl).trans hleft, fun hr => (h.2 hr).trans hright⟩

theorem infixOp_kept (nullChecks : Bool) (op : String) (l r : Operand) (t result : Ty) :
    Gives (infixOp nullChecks op l r t result) (Combines l r) := by
  refine .bind (both_kept nullChecks l r t) fun p hp => .pure (.of_sides hp ?_ ?_ _)
  · grind [Within.refl]
  · grind [Within.refl]

theorem unbox_kept (code : String) (k : Kind) : Within code (unbox code k) :=
  ((Within.refl code).before _).behind _

theorem compareNumbers_kept (nullChecks : Bool) (op : String) (l r : Operand) :
    Gives (compareNumbers nullChecks op l r) (Combines l r) := by
  refine .bind (both_kept nullChecks l r _) fun p hp => ?_
  obtain ⟨lc, rc⟩ := p
  dsimp only
  -- a side is rendered as it is, or unboxed
  split
  · refine .pure (.of_sides hp ?_ ?_ _)
    · exact .paren ((((unbox_kept lc _).behind _).behind _).behind _ |>.behind _)
    · exact .paren ((unbox_kept rc _).before _)
  · refine .pure (.of_sides hp ?_ ?_ _)
    · exact .paren ((((Within.refl lc).behind _).behind _).behind _ |>.behind _)
    · exact .paren ((Within.refl rc).before _)

/-- An operator on two strings. -/
theorem strings_kept (l r : Operand) (text : String → String → String) (t : Option Ty)
    (hleft : ∀ lc rc, Within lc (text lc rc)) (hright : ∀ lc rc, Within rc (text lc rc)) :
    Gives (do
      let (lc, rc) ← bothStrings l r
      return Operand.nonNull (text lc rc) t) (Combines l r) :=
  .bind (bothStrings_kept l r) fun _ hp => .pure (.of_sides hp (hleft _ _) (hright _ _) _)

theorem compareStrings_kept (sign : String) (l r : Operand) :
    Gives (compareStrings sign l r) (Combines l r) := by
  refine strings_kept l r (fun lc rc => Java.paren (lc ++ ".compareTo(" ++ rc ++ ") " ++ sign ++
    " 0")) _ (fun lc rc => ?_) fun lc rc => ?_
  · exact .paren (((((Within.refl lc).behind _).behind _).behind _).behind _ |>.behind _)
  · exact .paren (((((Within.refl rc).before _).behind _).behind _).behind _)

/-- A call of the runtime on two values. -/
theorem callBoth_kept (nullChecks : Bool) (l r : Operand) (t result : Ty) (cls method : String) :
    Gives (do
      let (lc, rc) ← both nullChecks l r t
      return Operand.nonNull (Java.call cls method [lc, rc]) (some result)) (Combines l r) := by
  refine .bind (both_kept nullChecks l r t) fun p hp => .pure (.of_sides hp ?_ ?_ _)
  · exact .call _ _ ⟨p.1, by simp, .refl _⟩
  · exact .call _ _ ⟨p.2, by simp, .refl _⟩

theorem repeat_kept (nullChecks : Bool) (l r : Operand) (t : Ty) :
    Gives (do
      let lc ← stringOperand l
      let rc ← convertNonNull nullChecks r (some .integer)
      return Operand.nonNull (Java.call "Pd" "repeat" [lc, rc]) (some t)) (Combines l r) := by
  refine .bind (fun c hc hlive => stringOperand_kept hlive c hc) fun lc hl => ?_
  refine .bind (fun c hc hlive => convertNonNull_kept nullChecks hlive _ c hc) fun rc hr => ?_
  refine .pure (.of_sides ⟨hl, hr⟩ ?_ ?_ _)
  · exact .call _ _ ⟨lc, by simp, .refl _⟩
  · exact .call _ _ ⟨rc, by simp, .refl _⟩

theorem binaryOp_kept (nullChecks : Bool) (op : String) (l r : Operand) :
    Gives (binaryOp nullChecks op l r) (Combines l r) := by
  unfold binaryOp
  split
  -- arithmetic, bits and truth values
  case h_1 | h_2 | h_3 | h_4 | h_5 | h_6 | h_7 | h_8 | h_9 | h_10 | h_19 | h_20 | h_21 | h_22 |
    h_23 => exact infixOp_kept _ _ _ _ _ _
  -- functions of the runtime
  case h_11 | h_18 | h_33 => exact callBoth_kept _ _ _ _ _ _ _
  case h_25 => exact repeat_kept _ _ _ _
  -- comparisons
  case h_12 | h_13 | h_14 | h_15 | h_16 | h_17 => exact compareNumbers_kept _ _ _ _
  case h_29 | h_30 | h_31 | h_32 => exact compareStrings_kept _ _ _
  -- strings
  case h_24 =>
    refine strings_kept l r (fun lc rc => Java.paren (lc ++ " + " ++ rc)) _ ?_ ?_
    · exact fun lc rc => .paren (((Within.refl lc).behind _).behind _)
    · exact fun lc rc => .paren ((Within.refl rc).before _)
  case h_26 =>
    refine strings_kept l r (fun lc rc => lc ++ ".equals(" ++ rc ++ ")") _ ?_ ?_
    · exact fun lc rc => (((Within.refl lc).behind _).behind _).behind _
    · exact fun lc rc => ((Within.refl rc).before _).behind _
  case h_27 =>
    refine strings_kept l r (fun lc rc => Java.paren ("!" ++ lc ++ ".equals(" ++ rc ++ ")")) _ ?_ ?_
    · exact fun lc rc => .paren (((((Within.refl lc).before _).behind _).behind _).behind _)
    · exact fun lc rc => .paren (((Within.refl rc).before _).behind _)
  case h_28 =>
    refine strings_kept l r (fun lc rc => "Integer.signum(" ++ lc ++ ".compareTo(" ++ rc ++ "))") _
      ?_ ?_
    · exact fun lc rc => ((((Within.refl lc).before _).behind _).behind _).behind _
    · exact fun lc rc => ((Within.refl rc).before _).behind _
  case h_34 => exact .error _

/-! ## Results of steps -/

/-- The result of the step from one state, if there is one, satisfies `post`. -/
def GivesAt (x : Compile α) (env : Env) (st : State) (post : α → Prop) : Prop :=
  ∀ a st', x env st = (.ok a, st') → post a

namespace GivesAt

variable {env : Env} {st : State} {post : α → Prop}

theorem pure {a : α} (h : post a) : GivesAt (Pure.pure a) env st post := by
  rintro _ _ ⟨⟩
  exact h

theorem throw (f : Fault) : GivesAt (MonadExcept.throw f : Compile α) env st post := by
  rintro _ _ ⟨⟩

theorem lift {x : Except Fault α} (h : Gives x post) : GivesAt (liftM x) env st post := by
  intro a st' hrun
  cases x with
  | error f => cases hrun
  | ok b =>
    cases hrun
    exact h _ rfl

/-- The rest of a step runs in the state that its beginning leaves. -/
theorem bind {x : Compile β} {k : β → Compile α}
    (hk : ∀ b st', x env st = (.ok b, st') → GivesAt (k b) env st' post) :
    GivesAt (x >>= k) env st post := by
  intro a st' hrun
  rw [run_bind] at hrun
  rcases hx : x env st with ⟨f | b, st₁⟩
  · rw [hx] at hrun
    cases hrun
  · rw [hx] at hrun
    exact hk b st₁ hx a st' hrun

theorem lift_bind {x : Except Fault β} {mid : β → Prop} {k : β → Compile α} (hx : Gives x mid)
    (hk : ∀ b, mid b → GivesAt (k b) env st post) :
    GivesAt (liftM x >>= k : Compile α) env st post := by
  intro a st' hrun
  rw [run_lift_bind] at hrun
  cases hx' : x with
  | error f =>
    rw [hx'] at hrun
    cases hrun
  | ok b =>
    rw [hx'] at hrun
    exact hk b (hx b hx') a st' hrun

theorem get_bind {k : State → Compile α} (h : GivesAt (k st) env st post) :
    GivesAt (get >>= k) env st post := h

theorem read_bind {k : Env → Compile α} (h : GivesAt (k env) env st post) :
    GivesAt (read >>= k) env st post := h

end GivesAt

/-! ## Logical operators -/

theorem logicalTest_kept (op : String) {l : Operand} (hl : l.Live) (t : Option Ty)
    (repeatable : Bool) (first : String) :
    Gives (logicalTest op l t repeatable first) (Within first) := by
  refine .ite (fun _ => .ok ((Within.refl first).behind _)) fun _ => ?_
  refine convert_kept ?_ _
  exact ⟨by simp [hl.constant], rfl⟩

/-- The test of a choice holds the left side, and one of its branches the right side. -/
theorem choice_kept (op : String) {l r : Operand} (t : Option Ty) (repeatable : Bool)
    {rc first : String} (again : String) (hl : l.Live → Within l.code first)
    (hr : r.Live → Within r.code rc) (env : Env) (st : State) :
    GivesAt (choice op l t repeatable rc again first) env st (Combines l r) := by
  have htest : Gives (logicalTest op l t repeatable first) fun test =>
      l.Live → Within l.code test := fun test htest hlive =>
    (hl hlive).trans (logicalTest_kept op hlive _ _ _ test htest)
  refine .lift_bind htest fun test htest => ?_
  -- the left side is in the test, the right side is the branch taken or not taken
  split
  · refine .pure ⟨Operand.live_plain _ _, fun hlive => ?_, fun hlive => ?_⟩
    · exact .paren (((((htest hlive).behind _).behind _).behind _).behind _)
    · exact .paren ((((hr hlive).before _).behind _).behind _)
  · refine .pure ⟨Operand.live_plain _ _, fun hlive => ?_, fun hlive => ?_⟩
    · exact .paren (((((htest hlive).behind _).behind _).behind _).behind _)
    · exact .paren ((hr hlive).before _)

theorem logicalValue_kept (op : String) (l r : Operand) (repeatable : Bool) (env : Env)
    (st : State) : GivesAt (logicalValue op l r repeatable) env st (Combines l r) := by
  rw [logicalValue_eq]
  refine .lift_bind (fun c hc hlive => convert_kept hlive _ c hc) fun lc hl => ?_
  refine .lift_bind (fun c hc hlive => convert_kept hlive _ c hc) fun rc hr => ?_
  -- what is tested is the left side, or the assignment of it to the variable that captures it
  dsimp only
  split
  · exact .bind fun p st' hrun => by
      cases hrun
      exact choice_kept op _ _ _ hl hr _ _
  · exact .bind fun p st' hrun => by
      cases hrun
      exact choice_kept op _ _ _ (fun hlive => ((hl hlive).before _).paren) hr _ _

theorem binaryValue_kept (op : String) (l r : Operand) (repeatable : Bool) (u : Usage) (env : Env)
    (st : State) : GivesAt (binaryValue op l r repeatable u) env st (Combines l r) := by
  unfold binaryValue
  dsimp only
  split
  · exact logicalValue_kept _ _ _ _ _ _
  · exact .read_bind (.lift (binaryOp_kept _ _ _ _))

/-! ## Stored values -/

/-- The expressions that a container is assigned from: the elements of a list in parentheses, or
the right side as a list of one. -/
def rowOf (right : Expr) : List Expr :=
  (severalElements? (some right)).getD [right]

/-- The text holds the code of the right side, or that of each expression of its row. -/
def SourceKept (st : State) (right : Expr) (t : Option Ty) (text : String) : Prop :=
  ((st.operandOf right).Live → Within (st.operandOf right).code text) ∨
    RowKept st (rowOf right) (t.any Ty.isMap) text

theorem SourceKept.mono {st : State} {right : Expr} {t : Option Ty} {text text' : String}
    (h : SourceKept st right t text) (hle : Within text text') : SourceKept st right t text' := by
  rcases h with h | h
  · exact .inl fun hlive => (h hlive).trans hle
  · exact .inr (h.mono hle)

/-- The value of the right side may be taken for another number of values. -/
theorem valueFor_kept (st : State) (right : Expr) {o : Operand} (t : Option Ty)
    (hcode : o.code = (st.operandOf right).code) (htype : o.type = (st.operandOf right).type)
    (hlive : (st.operandOf right).Live → o.Live) :
    Gives (valueFor st (some right) o t) (SourceKept st right t) := by
  have hconvert : Gives (convert o t) (SourceKept st right t) := fun text htext =>
    .inl fun h => hcode ▸ convert_kept (hlive h) t text htext
  refine .ite (fun _ => hconvert) fun _ => ?_
  split
  · next es hseveral =>
    have hrow : rowOf right = es := by rw [rowOf, hseveral]; rfl
    refine (buildRow_kept st es t).mono fun text htext => .inr ?_
    rw [hrow]
    exact htext
  · next hsingle =>
    have hrow : rowOf right = [right] := by rw [rowOf, hsingle]; rfl
    refine .ite (fun _ => hconvert) fun hvalue => ?_
    refine (build_kept (fun _ => o) [right] t).mono fun text htext => .inr ?_
    rw [hrow]
    intro x hx h
    cases List.mem_singleton.mp hx
    rw [← hcode]
    refine (htext right hx (hlive h)).imp_odd fun hodd => ⟨hodd.1, ?_⟩
    -- a row of one value is odd
    have hone : (st.operandOf right).isAggregate = false := by
      unfold Operand.isAggregate at hvalue ⊢
      rw [← htype]
      exact (Bool.not_eq_true _).mp hvalue
    simp [State.oddRow, unkept, Collection.unpaired, hone]

/-- The expression can be stored to: a variable, an access or a dereference. -/
def isPlace : Expr → Bool
  | .var _ | .index _ _ _ _ _ _ | .deref _ _ _ => true
  | _ => false

/-- The text holds what there is to keep of a target: nothing of a place that is left undefined or
of a variable, and the base and the keys of an access. -/
def PlaceKept (st : State) (target : Expr) (text : String) : Prop :=
  target.isUndef = true ∨
    isPlace target = true ∧ ∀ p, path? st target = some p → p.KeptIn text

theorem PlaceKept.mono {st : State} {target : Expr} {text text' : String}
    (h : PlaceKept st target text) (hle : Within text text') : PlaceKept st target text' :=
  h.imp_right fun hplace => ⟨hplace.1, fun p hp => (hplace.2 p hp).mono hle⟩

theorem PlaceKept.of_path {st : State} {target : Expr} {text : String} {p : Path}
    (hplace : isPlace target = true) (hp : path? st target = some p) (h : p.KeptIn text) :
    PlaceKept st target text := by
  refine .inr ⟨hplace, fun p' hp' => ?_⟩
  rw [hp] at hp'
  cases hp'
  exact h

theorem PlaceKept.of_var (st : State) (v : Variable) (text : String) :
    PlaceKept st (.var v) text :=
  .inr ⟨rfl, fun _ hp => nomatch hp⟩

theorem pathOf_gives (st : State) (e : Expr) :
    Gives (pathOf st e) fun p => path? st e = some p := by
  unfold pathOf
  split
  · next p hp => exact .ok hp
  · exact .error _

theorem storePath_kept (nullChecks : Bool) (st : State) {target : Expr} (right : Option Expr)
    (o : Operand) (hplace : isPlace target = true) :
    Gives (storePath nullChecks st target right o) fun r =>
      PlaceKept st target r.1 ∧
        ∃ value, valueFor st right o r.2 = .ok value ∧ Within value r.1 := by
  refine .bind (pathOf_gives st target) fun p hp => ?_
  refine .skip fun t => .bind (fun value hvalue => hvalue) fun value hvalue => ?_
  refine .bind (p.write_kept nullChecks value) fun code hcode => .pure ?_
  exact ⟨.of_path hplace hp hcode.1, value, hvalue, hcode.2⟩

/-- A store holds the value and the place; its type is the one that the value is made for. -/
theorem store_kept (nullChecks : Bool) (st : State) (target : Expr) (right : Option Expr)
    (o : Operand) (statement : Bool) :
    Gives (store nullChecks st target right o statement) fun r =>
      PlaceKept st target r.1 ∧
        ∃ value, valueFor st right o r.2 = .ok value ∧ Within value r.1 := by
  -- only a variable and the two kinds of places can be stored to
  cases target with
  | var v =>
    refine .skip fun b => .bind (fun value hvalue => hvalue) fun value hvalue => ?_
    refine .ite (fun _ => .pure ⟨.of_var st v _, value, hvalue, ?_⟩) fun _ =>
      .pure ⟨.of_var st v _, value, hvalue, ?_⟩
    · exact (Within.refl value).before _
    · exact (Within.refl value).before _
  | index i throughRef target key brace context => exact storePath_kept _ _ _ _ rfl
  | deref i target sigil => exact storePath_kept _ _ _ _ rfl
  | _ => exact .error _

theorem sequenceOf_kept (src : Operand) :
    Gives (sequenceOf src) fun r =>
      (src.Live → Within src.code r.1) ∧ r.2.any Ty.isMap = false := by
  unfold sequenceOf
  split
  · exact .bind (fun c hc hlive => convert_kept hlive _ c hc) fun code hcode => .pure ⟨hcode, rfl⟩
  -- a row is kept as it is, and the map has been dealt with above
  · next s e hmap _ =>
    refine .ok ⟨fun _ => .refl _, ?_⟩
    cases s with
    | map => exact absurd rfl hmap
    | array => rfl
    | list => rfl
  · have hsequence : (src.type.map Ty.arrayOf).any Ty.isMap = false := by
      cases src.type <;> rfl
    refine .bind (build_sequence_kept [src] _ hsequence) fun code hcode => .pure ⟨?_, hsequence⟩
    exact hcode src (List.mem_singleton_self _)

/-- Each target of a list has a line of its own. -/
theorem storeItems_kept (nullChecks : Bool) (st : State) (aux : String) (t : Option Ty)
    (targets : List Expr) : ∀ (i : Nat) (consumed : Bool),
    Gives (storeItems nullChecks st aux t i consumed targets) fun lines =>
      ∀ target ∈ targets, target.isUndef = true ∨
        ∃ line ∈ lines, PlaceKept st target line := by
  induction targets with
  | nil => exact fun i consumed => .ok fun target h => absurd h List.not_mem_nil
  | cons target rest ih =>
    intro i consumed
    rw [storeItems]
    -- an undefined target has no line, and nothing to keep
    refine .ite (fun hundef => ?_) fun _ => ?_
    · refine (ih (i + 1) consumed).mono fun lines hlines target' htarget => ?_
      obtain rfl | htarget := List.mem_cons.mp htarget
      · exact .inl hundef
      · exact hlines target' htarget
    · refine .bind (store_kept _ _ _ _ _ _) fun r hr => ?_
      refine .bind (ih (i + 1) _) fun lines hlines => .pure fun target' htarget => ?_
      obtain rfl | htarget := List.mem_cons.mp htarget
      · exact .inr ⟨r.1, List.mem_cons_self, hr.1⟩
      · refine (hlines target' htarget).imp_right fun h => ?_
        obtain ⟨line, hline, hkept⟩ := h
        exact ⟨line, List.mem_cons_of_mem _ hline, hkept⟩

/-! ## Assignments -/

theorem wrap_kept (u : Usage) (code : String) : Within code (wrap u code) := by
  unfold wrap
  split
  · exact .refl _
  · exact (Within.refl code).paren

/-- What an assignment keeps: the right side, and the place of each target. -/
structure Assigned (st : State) (targets : List Expr) (right : Expr) (out : Output) : Prop where
  source : SourceKept st right out.type out.code
  places : ∀ target ∈ targets, PlaceKept st target out.code

theorem assignOne_kept (st : State) (nullChecks : Bool) (target right : Expr) {o : Operand}
    (u : Usage) (hcode : o.code = (st.operandOf right).code)
    (htype : o.type = (st.operandOf right).type) (hlive : (st.operandOf right).Live → o.Live) :
    Gives (store nullChecks st target (some right) o u.isVoid) fun r =>
      Assigned st [target] right { code := wrap u r.1, type := r.2 } := by
  refine (store_kept _ _ _ _ _ _).mono fun r hr => ?_
  obtain ⟨hplace, value, hvalue, hwithin⟩ := hr
  have hsource := valueFor_kept st right r.2 hcode htype hlive value hvalue
  refine ⟨hsource.mono (hwithin.trans (wrap_kept u _)), fun t ht => ?_⟩
  cases List.mem_singleton.mp ht
  exact hplace.mono (wrap_kept u _)

theorem assignItems_kept (nullChecks : Bool) (targets : List Expr) (right : Expr) (env : Env)
    (st : State) :
    GivesAt (assignItems nullChecks st (st.operandOf right) targets) env st
      (Assigned st targets right) := by
  refine .lift_bind (sequenceOf_kept _) fun r hr => .bind fun aux st' _ => ?_
  refine .lift_bind (storeItems_kept _ _ _ _ _ _ _) fun lines hlines => .pure ⟨.inl ?_, ?_⟩
  · intro hlive
    exact .join "; " ⟨_, List.mem_cons_self, (hr.1 hlive).before _⟩
  · intro target htarget
    rcases hlines target htarget with h | ⟨line, hline, hkept⟩
    · exact .inl h
    · exact hkept.mono (.join "; " ⟨line, List.mem_cons_of_mem _ hline, .refl _⟩)

theorem assignList_kept (targets : List Expr) (right : Expr) (u : Usage) (env : Env) (st : State) :
    GivesAt (assignList targets right u) env st (Assigned st targets right) := by
  rw [assignList_eq]
  refine .read_bind (.get_bind ?_)
  split
  · next target hsingle =>
    rw [singleTarget?_eq_some hsingle]
    exact .lift_bind (assignOne_kept st env.nullChecks target right u rfl rfl fun h => ⟨h.1, h.2⟩)
      fun r hr => .pure hr
  · unfold assignSeveral
    split
    · exact assignItems_kept _ _ _ _ _
    · exact .throw _

/-! ## Assignments with an operator, and steps -/

/-- What the store to a place that is also read keeps. -/
structure Updated (st : State) (target : Expr) (write : String → String) : Prop where
  place : ∀ value, PlaceKept st target (write value)
  value : ∀ value, Within value (write value)

theorem updatedPath_kept {target : Expr} (hplace : isPlace target = true) (env : Env) (st : State) :
    GivesAt (updatedPath target st) env st fun r => Updated st target r.1.write := by
  refine .lift_bind (pathOf_gives st target) fun p hp => ?_
  refine .bind fun t st' _ => .read_bind ?_
  refine .lift_bind (p.readWrite_kept env.nullChecks _) fun r hr => .bind fun _ _ _ => ?_
  exact .pure ⟨fun value => .of_path hplace hp (hr value).1, fun value => (hr value).2⟩

theorem updatedPlace_kept (target : Expr) (env : Env) (st : State) :
    GivesAt (updatedPlace target) env st fun r => Updated st target r.1.write := by
  rw [updatedPlace_eq]
  refine .get_bind ?_
  cases target with
  | var v =>
    refine .bind fun b st' _ => .pure ⟨fun _ => .of_var st v _, fun value => ?_⟩
    exact (Within.refl value).before _
  | index i throughRef target key brace context => exact updatedPath_kept rfl env st
  | deref i target sigil => exact updatedPath_kept rfl env st
  | _ => exact .throw _

/-- Preparing a place generates nothing. -/
theorem updatedPlace_operandOf {target : Expr} {env : Env} {st st' : State}
    {r : Path.ReadWrite × Option Ty} (h : updatedPlace target env st = (.ok r, st')) (e : Expr) :
    st'.operandOf e = st.operandOf e := by
  have hsteady : Steady [] (updatedPlace target) := updatedPlace_steady target
  have hkeeps := hsteady.keeps env st
  rw [h] at hkeeps
  unfold State.operandOf State.output
  rw [hkeeps.only e.id List.not_mem_nil]

/-- The stored value holds the result of the operator, which holds the right side. -/
theorem updateOutput_kept {st : State} {target : Expr} {place : Path.ReadWrite} {r : Operand}
    (hupdated : Updated st target place.write) (t : Option Ty) (u : Usage) {result : Operand}
    (h : Combines place.read r result) (env : Env) (st' : State) :
    GivesAt (updateOutput place t u result) env st' fun out =>
      PlaceKept st target out.code ∧ (r.Live → Within r.code out.code) := by
  refine .lift_bind (convert_kept h.live t) fun value hvalue => .pure ?_
  have hwrap : Within (place.write value) (wrap u (place.write value)) := wrap_kept u _
  refine ⟨(hupdated.place value).mono hwrap, fun hlive => ?_⟩
  exact (((h.both.2 hlive).trans hvalue).trans (hupdated.value value)).trans hwrap

theorem compoundAssign_kept (op : String) (left right : Expr) (u : Usage) (env : Env)
    (st : State) :
    GivesAt (compoundAssign op left right u) env st fun out => PlaceKept st left out.code ∧
      ((st.operandOf right).Live → Within (st.operandOf right).code out.code) := by
  rw [compoundAssign_eq]
  refine .bind fun r st₁ hplace => .get_bind ?_
  have hupdated := updatedPlace_kept left env st r st₁ hplace
  rw [updatedPlace_operandOf hplace right]
  obtain ⟨place, t⟩ := r
  dsimp only
  -- a logical operator evaluates its right side on demand, the others at once
  split
  · exact .bind fun result st' hrun =>
      updateOutput_kept hupdated t u (logicalValue_kept _ _ _ _ env st₁ result st' hrun) env st'
  · exact .read_bind (.lift_bind (binaryOp_kept _ _ _ _) fun result hresult =>
      updateOutput_kept hupdated t u hresult env st₁)

theorem beforeStep_kept (nullChecks : Bool) (op stored : String) (t : Option Ty) (k : Kind) :
    Gives (beforeStep nullChecks op stored t k) fun out => Within stored out.code := by
  have hstored : Within stored (Java.paren stored) := (Within.refl stored).paren
  unfold beforeStep
  dsimp only
  split
  · exact .pure (.paren (((hstored.behind _).behind _).behind _))
  · refine .bind (convertNonNull_kept _ (Operand.live_nonNull _ t) _) fun c hc => .pure ?_
    exact .paren ((((hstored.trans hc).behind _).behind _).behind _)

theorem stepOutput_kept (op : String) (before : Bool) (target : Expr) (u : Usage) (env : Env)
    (st : State) :
    GivesAt (stepOutput op before target u) env st fun out =>
      PlaceKept st target out.code := by
  refine .get_bind ?_
  dsimp only
  split
  · next b hb =>
    -- a variable of a primitive kind is no access
    unfold primitiveVariable? at hb
    split at hb
    · exact .pure (.of_var st _ _)
    · cases hb
  · refine .read_bind (.bind fun r st₁ hplace => ?_)
    have hupdated := updatedPlace_kept target env st r st₁ hplace
    obtain ⟨place, t⟩ := r
    refine .bind fun rc st₂ _ => .bind fun value st₃ _ => ?_
    dsimp only
    split
    · exact .pure ((hupdated.place value).mono (wrap_kept u _))
    · refine .lift ((beforeStep_kept _ _ _ _ _).mono fun out hout => ?_)
      exact (hupdated.place value).mono hout

/-- The targets of an assignment. -/
def targetsOf : Expr → List Expr
  | .list _ targets => targets
  | left => [left]

/-- A plain assignment keeps its right side and the places of its targets, and so does one with an
operator. -/
theorem assignOutput_kept (op : String) (left right : Expr) (u : Usage) (env : Env) (st : State) :
    GivesAt (assignOutput op left right u) env st fun out =>
      (op = "=" ∧ Assigned st (targetsOf left) right out) ∨
      (PlaceKept st left out.code ∧
        ((st.operandOf right).Live → Within (st.operandOf right).code out.code)) := by
  unfold assignOutput
  split
  · exact fun out st' hrun => .inr (compoundAssign_kept op left right u env st out st' hrun)
  · next hop =>
    have hplain : op = "=" := not_not.mp hop
    split
    · next targets =>
      exact fun out st' hrun => .inl ⟨hplain, assignList_kept targets right u env st out st' hrun⟩
    -- anything but a list is its own single target
    · next hlist =>
      have htargets : targetsOf left = [left] := by
        unfold targetsOf
        split
        · next i targets => exact absurd rfl (hlist i targets)
        · rfl
      rw [htargets]
      refine .get_bind (.read_bind ?_)
      exact .lift_bind (assignOne_kept st env.nullChecks left right u rfl rfl id) fun r hr =>
        .pure (.inl ⟨hplain, hr⟩)

/-! ## Calls -/

theorem makeRef_kept (o : Operand) : Within o.code o.makeRef.code := by
  unfold Operand.makeRef
  split
  · exact .refl _
  · exact ((Within.refl o.code).before _).behind _

theorem runtimeCall_kept (fn : String) {x : String} {args : List String} (h : x ∈ args) :
    Within x (runtimeCall fn args) :=
  .call _ _ ⟨x, h, .refl x⟩

theorem stringList_kept (ops : List Operand) :
    Gives (stringList ops) fun text => ∀ o ∈ ops, o.Live → Within o.code text :=
  build_sequence_kept ops _ rfl

theorem sizeOperand_kept {o : Operand} (ho : o.Live) :
    Gives (sizeOperand o) fun r => Within o.code r.code :=
  .bind (convert_kept ho _) fun _ hc => .pure hc

theorem scalarOperand_kept {o : Operand} (ho : o.Live) :
    Gives (scalarOperand o) fun r => Within o.code r.code := by
  refine .ite (fun _ => .ok ?_) fun _ => .ite (fun _ => sizeOperand_kept ho) fun _ => .ok (.refl _)
  rw [Operand.reduce, Path.code_ofElement]
  exact .call _ _ ⟨_, List.mem_singleton_self _, .refl _⟩

theorem mapPart_kept (name : String) {o : Operand} (ho : o.Live) (u : Usage) :
    Gives (mapPart name o u) fun r => Within o.code r.code := by
  unfold mapPart
  split
  · refine .ite (fun _ => sizeOperand_kept ho) fun _ => .ite (fun _ => .ok ?_) fun _ => .ok ?_
    · exact runtimeCall_kept _ (List.mem_singleton_self _)
    · exact runtimeCall_kept _ (List.mem_singleton_self _)
  · exact .error _

/-- A list that grows is kept; an array that is replaced is a variable. -/
theorem grow_kept (st : State) (name : String) (target : Expr) (added : List Operand) (u : Usage) :
    Gives (grow st name target added u) fun r =>
      ((∃ v, target = .var v) ∨ Within (st.operandOf target).code r.code) ∧
      ∀ o ∈ added, o.Live → Within o.code r.code := by
  refine .ite (fun _ => .error _) fun _ => ?_
  have hsequence : ((st.operandOf target).elemType.map Ty.arrayOf).any Ty.isMap = false := by
    cases (st.operandOf target).elemType <;> rfl
  refine .bind (build_sequence_kept added _ hsequence) fun values hvalues => ?_
  refine .ite (fun _ => .pure ⟨.inr ?_, fun o ho hlive => ?_⟩) fun _ => ?_
  · exact runtimeCall_kept _ (by simp)
  · exact (hvalues o ho hlive).trans (runtimeCall_kept _ (by simp))
  -- a row that has to be replaced can only be a variable
  · split
    · split
      · next b hb =>
        have hcode :
            Within values (st.nameOf b ++ " = " ++ runtimeCall name [st.nameOf b, values]) :=
          (runtimeCall_kept _ (by simp)).before _
        refine .ite (fun _ => .pure ⟨.inl ⟨_, rfl⟩, fun o ho hlive => ?_⟩) fun _ =>
          .pure ⟨.inl ⟨_, rfl⟩, fun o ho hlive => ?_⟩
        · exact (hvalues o ho hlive).trans hcode
        · exact (hvalues o ho hlive).trans (hcode.paren.behind _)
      · exact .throw _
    · exact .throw _

theorem shrink_kept (st : State) (name : String) (o : Operand) (rest : List Operand) :
    Gives (shrink st name (o :: rest)) fun r => Within o.code r.code := by
  refine .bind (.ok rfl) fun o' (ho : o = o') => .ite (fun _ => .pure ?_) fun _ => .throw _
  rw [Path.code_ofElement, ho]
  exact runtimeCall_kept _ (List.mem_singleton_self _)

/-- The arguments that a builtin function leaves out. Most functions look at one argument, and
whether a value is defined is not asked of a value that always is. -/
def unusedArgs (name : String) (args : List Expr) : List Expr :=
  match name with
  | "join" | "push" | "unshift" | "print" | "say" | "die" | "warn" => []
  | "defined" => if args.head?.any Expr.isNotNull then args else args.tail
  | _ => args.tail

/-- The text holds what there is to keep of an argument: nothing of a variable, the base and the
keys of an access, or the code of the argument. -/
def ArgKept (st : State) (x : Expr) (text : String) : Prop :=
  (∃ v, x = .var v) ∨ (∃ p, path? st x = some p ∧ p.KeptIn text) ∨
    ((st.operandOf x).Live → Within (st.operandOf x).code text)

/-- A builtin function that looks at its first argument keeps that. -/
theorem unused_or_first {st : State} {first x : Expr} {rest : List Expr} {text : String}
    (hx : x ∈ first :: rest) (h : ArgKept st first text) : x ∈ rest ∨ ArgKept st x text := by
  obtain rfl | hx := List.mem_cons.mp hx
  · exact .inr h
  · exact .inl hx

theorem definedOperand_kept (st : State) (first : Expr) (rest : List Expr) :
    ∀ x ∈ first :: rest, x ∈ unusedArgs "defined" (first :: rest) ∨
      ArgKept st x (definedOperand (st.operandOf first)).code := by
  intro x hx
  -- what is never null is answered without being looked at
  by_cases hnull : first.isNotNull = true
  · refine .inl ?_
    simpa [unusedArgs, hnull] using hx
  · have hkept : Within (st.operandOf first).code (definedOperand (st.operandOf first)).code := by
      have hasked : ¬(st.operandOf first).notNull = true := hnull
      simp only [definedOperand, hasked, if_false, Bool.false_eq_true]
      split
      · exact runtimeCall_kept _ (List.mem_singleton_self _)
      · exact ((Within.refl _).behind _).paren
    have hunused : unusedArgs "defined" (first :: rest) = rest := by
      simp [unusedArgs, hnull]
    rw [hunused]
    exact unused_or_first hx (.inr (.inr fun _ => hkept))

theorem builtinOn_kept (nullChecks : Bool) (st : State) (name : String) (first : Expr)
    (rest : List Expr) (u : Usage) :
    Gives (builtinOn nullChecks st name first rest u) fun r =>
      ∀ x ∈ first :: rest, x ∈ unusedArgs name (first :: rest) ∨ ArgKept st x r.1.code := by
  have hfirst {y : Except Fault Operand} {effect : Bool}
      (hy : (st.operandOf first).Live → Gives y fun r => Within (st.operandOf first).code r.code) :
      Gives (do return (← y, effect)) fun r =>
        ∀ x ∈ first :: rest, x ∈ rest ∨ ArgKept st x r.1.code :=
    .bind (fun r hr hlive => hy hlive r hr) fun r hr => .pure fun x hx =>
      unused_or_first hx (.inr (.inr hr))
  have hgrow : Gives (do return (← grow st name first (st.operands rest) u, true)) fun r =>
      ∀ x ∈ first :: rest, x ∈ [] ∨ ArgKept st x r.1.code := by
    refine .bind (grow_kept _ _ _ _ _) fun r hr => .pure fun x hx => .inr ?_
    obtain rfl | hx := List.mem_cons.mp hx
    · exact hr.1.imp_right fun h => .inr fun _ => h
    · exact .inr (.inr (hr.2 _ (List.mem_map_of_mem hx)))
  unfold builtinOn
  dsimp only
  split
  · -- join
    refine .bind (fun c hc hlive => stringOperand_kept hlive c hc) fun sep hsep => ?_
    refine .bind (stringList_kept _) fun list hlist => .pure fun x hx => .inr (.inr (.inr ?_))
    obtain rfl | hx := List.mem_cons.mp hx
    · exact fun hlive => (hsep hlive).trans (runtimeCall_kept _ (by simp))
    · exact fun hlive => (hlist _ (List.mem_map_of_mem hx) hlive).trans
        (runtimeCall_kept _ (by simp))
  · -- length
    refine .bind (fun c hc hlive => stringOperand_kept hlive c hc) fun s hs => .pure fun x hx => ?_
    refine unused_or_first hx (.inr (.inr fun hlive => ?_))
    exact (hs hlive).trans (runtimeCall_kept _ (List.mem_singleton_self _))
  · exact .pure (definedOperand_kept st first rest)
  · exact hfirst fun hlive => scalarOperand_kept hlive
  · -- delete
    split
    · exact .pure fun x hx => unused_or_first hx (.inr (.inr fun _ => .refl _))
    · exact .throw _
  · -- exists
    split
    · next p hp =>
      refine .bind (p.isPresent_kept nullChecks) fun o ho => .pure fun x hx => ?_
      exact unused_or_first hx (.inr (.inl ⟨p, hp, ho⟩))
    · exact .throw _
  · exact hfirst fun hlive => mapPart_kept _ hlive u
  · exact hfirst fun hlive => mapPart_kept _ hlive u
  · exact hgrow
  · exact hgrow
  · exact .throw _

theorem printOutput_kept (st : State) (name : String) (args : List Expr) :
    Gives (printOutput st name args) fun r => ∀ x ∈ args, ArgKept st x r.1.code := by
  refine .bind (stringList_kept _) fun list hlist => .pure fun x hx => .inr (.inr ?_)
  exact fun hlive => (hlist _ (List.mem_map_of_mem hx) hlive).trans
    (runtimeCall_kept _ (List.mem_singleton_self _))

theorem builtin_kept (nullChecks : Bool) (st : State) (name : String) (args : List Expr)
    (u : Usage) :
    Gives (builtin nullChecks st name args u) fun r =>
      ∀ x ∈ args, x ∈ unusedArgs name args ∨ ArgKept st x r.1.code := by
  have hprint : Gives (printOutput st name args) fun r =>
      ∀ x ∈ args, x ∈ [] ∨ ArgKept st x r.1.code :=
    (printOutput_kept st name args).mono fun _ h x hx => .inr (h x hx)
  -- of the two that shrink a list only the first argument is read
  have hshrink : Gives (do return (← shrink st name (st.operands args), true)) fun r =>
      ∀ x ∈ args, x ∈ args.tail ∨ ArgKept st x r.1.code := by
    cases args with
    | nil => exact .skip fun r => .pure fun x hx => absurd hx List.not_mem_nil
    | cons first rest =>
      refine .bind (shrink_kept st name _ _) fun r hr => .pure fun x hx => ?_
      exact unused_or_first hx (.inr (.inr fun _ => hr))
  unfold builtin
  split
  · exact hprint
  · exact hprint
  · exact hprint
  · exact hprint
  · exact hshrink
  · exact hshrink
  · dsimp only
    split
    · exact .throw _
    · split
      · exact builtinOn_kept _ _ _ _ _ _
      · exact .throw _

/-- A call keeps its arguments, except for those that a builtin function leaves out. -/
theorem callOutput_kept (id : Nat) (name : String) (args : List Expr) (u : Usage) (env : Env)
    (st : State) :
    GivesAt (callOutput id name args u) env st fun out => ∀ x ∈ args,
      (st.subs.get? id = none ∧ x ∈ unusedArgs name args) ∨ ArgKept st x out.code := by
  refine .get_bind ?_
  dsimp only
  -- a resolved subroutine takes all its arguments as one list, a built-in as it likes
  split
  · refine .lift_bind (build_sequence_kept _ _ rfl) fun list hlist => .bind fun _ st' _ => ?_
    refine .pure fun x hx => .inr (.inr (.inr fun hlive => ?_))
    exact ((hlist _ (List.mem_map_of_mem hx) hlive).before _).behind _
  · next hsub =>
    refine .read_bind (.lift_bind (builtin_kept _ _ _ _ _) fun r hr => ?_)
    obtain ⟨o, effect⟩ := r
    have hkept : ∀ x ∈ args, (st.subs.get? id = none ∧ x ∈ unusedArgs name args) ∨
        ArgKept st x o.toOutput.code := fun x hx => (hr x hx).imp_left fun h => ⟨hsub, h⟩
    dsimp only
    split
    · exact .bind fun _ st' _ => .pure hkept
    · exact .pure hkept

/-! ## Accesses -/

/-- An access that is read or deleted where it stands keeps its base and its keys. -/
theorem pathOutput_kept (id : Nat) (p : Path) {u : Usage} (hu : (u.assigned || u.updated) = false)
    (env : Env) (st : State) :
    GivesAt (pathOutput id p u) env st fun out => p.KeptIn out.code := by
  refine .read_bind (.bind fun _ st₁ _ => ?_)
  split
  · exact .lift_bind (p.delete_kept _) fun o ho => .bind fun _ st₂ _ => .pure ho
  · rw [hu, if_neg Bool.false_ne_true]
    exact .lift_bind (p.read_kept _) fun o ho => .pure ho

end TypedPerl.Compile
