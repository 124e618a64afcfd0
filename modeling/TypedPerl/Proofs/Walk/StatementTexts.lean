import TypedPerl.Proofs.Walk.OwnTexts

/-!
# Texts of statements

The code of a statement is a sentence (`stmtCode_written`). It declares those of the variables that
the statement places that are variables of a method declared there, each once, and the auxiliary
variables that are drawn for assignments to several targets and for loops. The bodies of the
statement stand in it as blocks.
-/

namespace TypedPerl

/-- The body of a further branch. -/
def ElseIf.body : ElseIf → Block
  | .mk _ _ b => b

/-- The bodies that stand in the text of the statement as blocks, in order. -/
def Stmt.bodies : Stmt → List Block
  | .block b | .loop _ _ _ _ b | .steps _ _ _ _ b | .foreach _ _ _ _ b => [b]
  | .cond _ _ _ yes elsifs no =>
    yes :: (elsifs.map ElseIf.body ++ if no.isPresent then [no] else [])
  | _ => []

/-- The bodies of the statement, each with what its text declares. -/
def Stmt.bodiesWith (inner : Block → Locals) (s : Stmt) : Compile.Bodies :=
  s.bodies.map fun b => (inner b, b.stmts)

theorem Stmt.stmts_bodiesWith (s : Stmt) (inner : Block → Locals) :
    (s.bodiesWith inner).map (·.2) = s.bodies.map Block.stmts := by
  rw [bodiesWith, List.map_map]
  rfl

/-- The variables whose value is not used in several expressions. -/
def Expr.unusedIn (ps : List (Expr × Usage)) : List Variable :=
  unused (ps.flatMap fun p => p.1.order p.2)

theorem Expr.unusedIn_append (ps qs : List (Expr × Usage)) :
    unusedIn (ps ++ qs) = unusedIn ps ++ unusedIn qs := by
  rw [unusedIn, List.flatMap_append, unused_append]
  rfl

theorem Expr.unusedIn_parts (e : Expr) (u : Usage) :
    (unusedIn (e.parts u)).Sublist (unusedIn [(e, u)]) := by
  rw [unusedIn, unusedIn, List.flatMap_singleton, order_eq, unused_append]
  exact List.sublist_append_left _ _

namespace Compile

open Java (Phrase)
open Name (AliasPool)
open Conversion (convert convertNonNull phrase_convert phrase_convertNonNull)
open TypedPerl.Expr (Everywhere unusedIn)

/-- The texts that stand in expressions of a statement as they are: words, and stores that declare
lost variables. -/
def Spoken (F : State) (steps : String → Prop) (lost : Variable → Prop) (s : String) : Prop :=
  Word F steps s ∨ Buried F steps lost s

variable {env : Env} {F S : State} {steps : String → Prop} {R : List (Nat × String)}
  {lost : Variable → Prop}

/-! ## Expressions of statements -/

/-- Expressions that are spelled, with the variables that the text made of them is to declare: those
of a method that are not among them, and whose value is not used, are lost. -/
structure Stated (F S : State) (steps : String → Prop) (R : List (Nat × String))
    (lost : Variable → Prop) (ps : List (Expr × Usage)) (placed : List Variable) : Prop where
  spelled : ∀ p ∈ ps, p.1.Everywhere (Spelled F steps R S) p.2
  bound : ∀ v ∈ unusedIn ps, ∃ b, S.binding? v = some b
  distinct : (unusedIn ps).Nodup
  lost : ∀ v ∈ unusedIn ps, F.isLocalDecl v = true → v ∉ placed → lost v

namespace Stated

variable {ps qs : List (Expr × Usage)} {vs ws : List Variable} {e : Expr} {u : Usage}

theorem of_sublist (h : Stated F S steps R lost ps vs)
    (hspelled : ∀ q ∈ qs, q.1.Everywhere (Spelled F steps R S) q.2)
    (hsub : (unusedIn qs).Sublist (unusedIn ps)) : Stated F S steps R lost qs vs where
  spelled := hspelled
  bound v hv := h.bound v (hsub.subset hv)
  distinct := hsub.nodup h.distinct
  lost v hv := h.lost v (hsub.subset hv)

theorem parts (h : Stated F S steps R lost [(e, u)] vs) : Stated F S steps R lost (e.parts u) vs :=
  h.of_sublist (fun _ hq => (h.spelled (e, u) List.mem_cons_self).part hq) (e.unusedIn_parts u)

/-- Each variable is one of one expression. -/
theorem split (h : Stated F S steps R lost (ps ++ qs) (vs ++ ws)) (hvs : vs ⊆ unusedIn ps)
    (hws : ws ⊆ unusedIn qs) :
    Stated F S steps R lost ps vs ∧ Stated F S steps R lost qs ws := by
  obtain ⟨hspelled, hbound, hdistinct, hlost⟩ := h
  rw [Expr.unusedIn_append] at hbound hdistinct hlost
  obtain ⟨hfirst, hrest, hapart⟩ := List.nodup_append.mp hdistinct
  constructor
  · refine ⟨fun p hp => hspelled p (List.mem_append_left _ hp),
      fun v hv => hbound v (List.mem_append_left _ hv), hfirst, fun v hv hlocal hnot => ?_⟩
    refine hlost v (List.mem_append_left _ hv) hlocal fun hmem => ?_
    exact (List.mem_append.mp hmem).elim hnot fun hw => hapart v hv v (hws hw) rfl
  · refine ⟨fun p hp => hspelled p (List.mem_append_right _ hp),
      fun v hv => hbound v (List.mem_append_right _ hv), hrest, fun v hv hlocal hnot => ?_⟩
    refine hlost v (List.mem_append_right _ hv) hlocal fun hmem => ?_
    exact (List.mem_append.mp hmem).elim (fun hw => hapart v (hvs hw) v hv rfl) hnot

/-- An expression that places nothing is a phrase. -/
theorem phrase (h : Stated F S steps R lost [(e, u)] vs)
    (hnone : ∀ v ∈ vs, F.isLocalDecl v = false) :
    Phrase (Spoken F steps lost) (S.output e.id).code := by
  have hself := (h.spelled (e, u) List.mem_cons_self).self
  refine hself.code _ (fun s hs => .inl hs) fun _ s hs => .inr ?_
  obtain ⟨ws, as, l, hws, hs⟩ := hs
  refine ⟨ws, as, l, fun v hv => ?_, hs⟩
  obtain ⟨hunused, hlocal⟩ := hws v hv
  refine h.lost v ?_ hlocal fun hmem => ?_
  · rw [unusedIn, List.flatMap_singleton]
    exact hunused
  · rw [hnone v hmem] at hlocal
    cases hlocal

/-- A plain assignment as a statement declares its targets. -/
theorem store {i : Info} {left right : Expr}
    (h : Stated F S steps R lost [(.assign i "=" left right, u)] vs) (hu : u.isVoid = true) :
    ∃ l, Written (Spoken F steps lost) F R (Expr.assign i "=" left right).nodes
      (left.targetVars.filter F.isLocalDecl) [] l (S.output i.id).code := by
  have hself := (h.spelled _ List.mem_cons_self).self
  obtain ⟨l, hl⟩ := hself.stores hu i left right rfl
  refine ⟨l, hl.mono ?_ fun s hs => .inl hs⟩
  exact List.singleton_sublist.mpr (id_mem_nodes_of_mem (Expr.self_mem_preorder _))

end Stated

/-- The value of an expression that is used is a phrase, and so are the elements of a row. -/
theorem spoken_used {e : Expr} {u : Usage} (h : e.Everywhere (Spelled F steps R S) u)
    (hu : u.isVoid = false) :
    Said (Spoken F steps lost) S e ∧ RowSaid (Spoken F steps lost) S e :=
  Spelled.said_used h hu fun _ hs => .inl hs

/-! ## Expressions as statements -/

section

variable {A : String → Prop}

theorem sentence_evaluated (strict : Bool) {e : Expr} (h : Phrase A (S.output e.id).code) :
    Sentence A F [] [] [] .done (evaluated strict S e) := by
  have hend : Sentence A F [] [] [] .done ";" := .separator (by decide)
  unfold evaluated
  dsimp only
  split
  · exact .empty
  · split
    · exact (Sentence.phrase h).before hend
    · split
      · exact .empty
      · exact (Sentence.phrase (.call_one rfl rfl h.bare)).before hend

/-- An assignment is evaluated as it is. -/
theorem written_assign {strict : Bool} {i : Info} {op : String} {left right : Expr}
    {ids : List Nat} {vs : List Variable} {bs : Bodies}
    {l : Locals}
    (h : Written A F R ids vs bs l (S.output i.id).code) :
    Written A F R ids vs bs l (evaluated strict S (.assign i op left right)) := by
  unfold evaluated
  dsimp only
  split
  · next hempty =>
    have hcode : (S.output i.id).code = "" := hempty
    exact hcode ▸ h
  · exact h.before (.separator (by decide))

/-- The expressions of a list are statements one by one. -/
theorem exprStatements_written {u : Usage} (hu : u.isVoid = true) (es : List Expr)
    (ih : ∀ x ∈ es, Stated F S steps R lost [(x, u)] x.placed →
      Gives (exprStatement env S x) fun code => ∃ l,
        Written A F R x.nodes (x.placed.filter F.isLocalDecl) [] l code)
    (h : Stated F S steps R lost (es.map (·, u)) (es.flatMap Expr.placed)) :
    Gives (exprStatements env S es) fun lines => ∃ l, WrittenLines A F R (Expr.nodesList es)
      ((es.flatMap Expr.placed).filter F.isLocalDecl) [] l lines := by
  induction es with
  | nil => exact .ok ⟨_, .nil⟩
  | cons x rest ihRest =>
    have hplaced : x.placed ⊆ unusedIn [(x, u)] := by
      rw [unusedIn, List.flatMap_singleton]
      exact (x.placed_sublist hu).subset
    have hothers : rest.flatMap Expr.placed ⊆ unusedIn (rest.map (·, u)) := by
      rw [unusedIn, ← Expr.orderList_const]
      exact (Expr.sublist_unused_orderList rest fun e _ => e.placed_sublist hu).subset
    have hall : Stated F S steps R lost ([(x, u)] ++ rest.map (·, u))
        (x.placed ++ rest.flatMap Expr.placed) := h
    obtain ⟨hx, hrest⟩ := hall.split hplaced hothers
    rw [exprStatements, List.flatMap_cons, List.filter_append, Expr.nodesList_cons]
    refine .bind (ih x List.mem_cons_self hx) ?_
    rintro code ⟨l, hcode⟩
    refine .bind (ihRest (fun y hy => ih y (List.mem_cons_of_mem _ hy)) hrest) ?_
    rintro lines ⟨l', hlines⟩
    exact .pure ⟨_, .cons hcode hlines⟩

end

/-- A guard is a condition with the right side as its body. -/
theorem written_guard {A : String → Prop} {sign : String} (hsign : sign = "!" ∨ sign = "")
    {cond body : String} (hcond : Phrase A cond) {ids : List Nat} {vs : List Variable} {bs : Bodies}
    {l : Locals}
    (hbody : Written A F R ids vs bs l body) :
    Written A F R ids vs bs (.block l .done)
      ("if (" ++ Java.unparen (sign ++ cond) ++ ") " ++ Java.braces [body]) := by
  have hphrase : Phrase A (sign ++ cond) := by
    rcases hsign with rfl | rfl
    · exact .append (@Phrase.piece _ "!".toList rfl) hcond
    · exact .append .empty hcond
  have hstart : Sentence A F [] [] [] .done "if (" := .separator (by decide)
  have hstop : Sentence A F [] [] [] .done ") " := .separator (by decide)
  exact hbody.block.behind ((hstart.before (.phrase hphrase.bare)).before hstop)

theorem guardSign_cases {op sign : String} (h : guardSign? op = some sign) :
    sign = "!" ∨ sign = "" := by
  unfold guardSign? at h
  split at h
  · exact .inl (Option.some.inj h).symm
  · exact .inl (Option.some.inj h).symm
  · exact .inr (Option.some.inj h).symm
  · exact .inr (Option.some.inj h).symm
  · cases h

/-- An expression that places nothing is evaluated. -/
theorem Stated.evaluated {vs : List Variable} {e : Expr} {u : Usage}
    (h : Stated F S steps R lost [(e, u)] vs) (hnone : ∀ v ∈ vs, F.isLocalDecl v = false)
    (strict : Bool) (ids : List Nat) :
    Written (Spoken F steps lost) F R ids (vs.filter F.isLocalDecl) [] .done
      (Compile.evaluated strict S e) := by
  rw [List.filter_eq_nil_iff.mpr fun v hv => by simp [hnone v hv]]
  exact .of_sentence (sentence_evaluated _ (h.phrase hnone))

/-- The statement that the expression is declares the variables that the expression places. -/
def Places (env : Env) (F S : State) (steps : String → Prop) (R : List (Nat × String))
    (lost : Variable → Prop) (e : Expr) (u : Usage) : Prop :=
  u.isVoid = true → Stated F S steps R lost [(e, u)] e.placed →
    Gives (exprStatement env S e) fun code => ∃ l,
      Written (Spoken F steps lost) F R e.nodes (e.placed.filter F.isLocalDecl) [] l code

theorem places_of_evaluated {e : Expr} {u : Usage} (hnone : e.placed = [])
    (hcode : exprStatement env S e = .ok (Compile.evaluated env.strictStatements S e)) :
    Places env F S steps R lost e u := by
  intro _ h
  rw [hcode]
  exact .ok ⟨_, h.evaluated (fun v hv => by rw [hnone] at hv; cases hv) _ _⟩

theorem places_var (hS : S.Known F) (v : Variable) (u : Usage) :
    Places env F S steps R lost (.var v) u := by
  intro hu h
  have hunused : v ∈ unusedIn [(.var v, u)] := by
    rw [unusedIn, List.flatMap_singleton, Expr.order, Expr.unused_var hu]
    exact List.mem_singleton_self v
  obtain ⟨b, hb⟩ := h.bound v hunused
  rw [exprStatement, hb, Expr.placed, ← hS.isLocalDecl hb]
  refine .ite (fun hlocal => .ok ⟨.decl b.javaName .done, ?_⟩) fun hnot => ?_
  · rw [List.filter_cons_of_pos hlocal]
    exact .of_sentence ((Sentence.declaration hlocal (hS.binding hb) (.emptyOf b.type)).before
      (.separator (by decide)))
  · have hnone : ∀ w ∈ (Expr.var v).placed, F.isLocalDecl w = false := by
      intro w hw
      rw [List.mem_singleton.mp hw]
      exact Bool.eq_false_iff.mpr hnot
    rw [List.filter_cons_of_neg hnot]
    refine .ite (fun _ => .ok ⟨.done, .of_sentence .empty⟩) fun _ => .ok ⟨.done, ?_⟩
    have hall := h.evaluated hnone env.strictStatements (Expr.var v).nodes
    rwa [Expr.placed, List.filter_cons_of_neg hnot] at hall

theorem places_list {i : Info} {es : List Expr} {u : Usage}
    (ih : ∀ p ∈ (Expr.list i es).parts u, Places env F S steps R lost p.1 p.2) :
    Places env F S steps R lost (.list i es) u := by
  intro hu h
  have hvoid : (elementUsage es.length u).isVoid = true := by rw [isVoid_elementUsage, hu]
  rw [exprStatement, Expr.placed, Expr.placedList_eq]
  rw [Expr.placed, Expr.placedList_eq] at h
  have heach (x : Expr) (hx : x ∈ es) :=
    ih (x, elementUsage es.length u) (List.mem_map_of_mem hx) hvoid
  refine .bind (exprStatements_written hvoid es heach h.parts) ?_
  rintro lines ⟨l, hlines⟩
  refine .pure ⟨l, (hlines.join (.separator (by decide))).of_nodes ?_⟩
  rw [Expr.nodes_list]
  exact List.sublist_cons_self _ _

/-- A guard declares what its right side places. -/
theorem places_guard {i : Info} {op sign : String} {left right : Expr} {u : Usage}
    (hsign : guardSign? op = some sign)
    (ih : ∀ p ∈ (Expr.binary i op left right).parts u, Places env F S steps R lost p.1 p.2) :
    Places env F S steps R lost (.binary i op left right) u := by
  intro hu h
  have hplacedRight : (Expr.binary i op left right).placed = right.placed := by
    rw [Expr.placed, hsign]
    rfl
  rw [hplacedRight] at h
  rw [exprStatement, hplacedRight, hsign]
  have hvoid : (rightUsage op u).isVoid = true := by
    rw [isVoid_rightUsage, hu, Expr.isLogical_of_guard (by rw [hsign]; rfl)]
    rfl
  have hplaced : right.placed ⊆ unusedIn [(right, rightUsage op u)] := by
    rw [unusedIn, List.flatMap_singleton]
    exact (right.placed_sublist hvoid).subset
  have hparts : Stated F S steps R lost
      ([(left, leftUsage op u)] ++ [(right, rightUsage op u)]) ([] ++ right.placed) := h.parts
  obtain ⟨hleft, hright⟩ := hparts.split (List.nil_subset _) hplaced
  have hnodes : right.nodes.Sublist (Expr.binary i op left right).nodes := by
    rw [Expr.nodes_binary]
    exact (List.sublist_append_right _ _).trans (List.sublist_cons_self _ _)
  refine .bind (ih (right, rightUsage op u) (List.mem_cons_of_mem _ List.mem_cons_self) hvoid
    hright) ?_
  rintro body ⟨l, hbody⟩
  refine .ite (fun hempty => .pure ?_) fun _ => ?_
  · -- with an empty body there is nothing that is placed
    obtain ⟨rs, -, -, hs⟩ := hbody
    obtain ⟨hnone, -, -⟩ := hs.of_empty hempty
    refine ⟨_, h.evaluated (fun v hv => ?_) _ _⟩
    exact Bool.eq_false_iff.mpr fun hlocal => List.filter_eq_nil_iff.mp hnone v hv hlocal
  · have hcond := phrase_convertNonNull env.nullChecks (o := S.operandOf left)
      (hleft.phrase fun v hv => absurd hv List.not_mem_nil) (some .boolean)
    refine .bind hcond fun cond hcond => .pure ⟨.block l .done, ?_⟩
    exact (written_guard (guardSign_cases hsign) hcond hbody).of_nodes hnodes

/-- The statement that an expression is declares the variables that the expression places. -/
theorem exprStatement_written (hS : S.Known F) (e : Expr) (u : Usage) :
    Places env F S steps R lost e u := by
  -- as in the order of the walk: each part that stands alone is a statement
  refine e.parts_induction (P := Places env F S steps R lost) (fun e u ih => ?_) u
  cases e with
  | var v => exact places_var hS v u
  | list i es => exact places_list ih
  | binary i op left right =>
    cases hsign : guardSign? op with
    | none =>
      refine places_of_evaluated ?_ ?_
      · rw [Expr.placed, hsign]
        rfl
      · rw [exprStatement, hsign]
        rfl
    | some sign => exact places_guard hsign ih
  | assign i op left right =>
    by_cases hop : op = "="
    · subst hop
      intro hu h
      have hplaced : (Expr.assign i "=" left right).placed = left.targetVars := if_pos rfl
      obtain ⟨l, hl⟩ := h.store hu
      simp only [exprStatement]
      rw [hplaced]
      exact .ok ⟨l, written_assign hl⟩
    · exact places_of_evaluated (if_neg hop) (by simp only [exprStatement])
  | _ => exact places_of_evaluated rfl (by simp only [exprStatement])

/-! ## Headers of loops -/

/-- In the header of a loop an expression declares the variables that it places there. -/
theorem headed_written (e : Expr) {u : Usage} (hu : u.isVoid = true)
    (h : Stated F S steps R lost [(e, u)] e.headed) : ∃ l,
      Written (Spoken F steps lost) F R e.nodes (e.headed.filter F.isLocalDecl) [] l
        (S.output e.id).code := by
  refine e.parts_induction (P := fun e u => u.isVoid = true →
    Stated F S steps R lost [(e, u)] e.headed → ∃ l,
      Written (Spoken F steps lost) F R e.nodes (e.headed.filter F.isLocalDecl) [] l
        (S.output e.id).code) (fun e u ih hu h => ?_) u hu h
  have hwhole (hnone : e.headed = []) : ∃ l,
      Written (Spoken F steps lost) F R e.nodes (e.headed.filter F.isLocalDecl) [] l
        (S.output e.id).code := by
    rw [hnone] at h ⊢
    exact ⟨_, .of_sentence (.phrase (h.phrase fun v hv => absurd hv List.not_mem_nil))⟩
  cases e with
  | assign i op left right =>
    rw [Expr.headed] at h hwhole ⊢
    by_cases hop : op = "="
    · subst hop
      rw [if_pos rfl] at h ⊢
      exact h.store hu
    · rw [if_neg hop] at hwhole ⊢
      exact hwhole rfl
  | list i es =>
    rcases es with _ | ⟨x, _ | ⟨y, rest⟩⟩
    · exact hwhole rfl
    · -- a list of one element is that element
      have hvoid : (elementUsage 1 u).isVoid = true := by rw [isVoid_elementUsage, hu]
      have hsingle := (h.spelled _ List.mem_cons_self).self.single i x rfl
      obtain ⟨l, hl⟩ := ih (x, elementUsage 1 u) (List.mem_singleton_self _) hvoid h.parts
      refine ⟨l, ?_⟩
      rw [hsingle]
      refine hl.of_nodes ?_
      rw [Expr.nodes_list, Expr.nodesList_cons, Expr.nodesList_nil, List.append_nil]
      exact List.sublist_cons_self _ _
    · exact hwhole rfl
  | _ => exact hwhole rfl

theorem headerCode_written (es : List Expr)
    (h : Stated F S steps R lost (es.map (·, .void)) (es.flatMap Expr.headed)) : ∃ l,
      Written (Spoken F steps lost) F R (Expr.nodesList es)
        ((es.flatMap Expr.headed).filter F.isLocalDecl) [] l (headerCode S es) := by
  have hlines : ∃ l, WrittenLines (Spoken F steps lost) F R (Expr.nodesList es)
      ((es.flatMap Expr.headed).filter F.isLocalDecl) [] l
        (es.map fun e => (S.output e.id).code) := by
    induction es with
    | nil => exact ⟨_, .nil⟩
    | cons x rest ih =>
      have hheaded : x.headed ⊆ unusedIn [(x, .void)] := by
        rw [unusedIn, List.flatMap_singleton]
        exact (x.headed_sublist rfl).subset
      have hothers : rest.flatMap Expr.headed ⊆ unusedIn (rest.map (·, .void)) := by
        rw [unusedIn, ← Expr.orderList_const]
        exact (Expr.sublist_unused_orderList rest fun e _ => e.headed_sublist rfl).subset
      have hall : Stated F S steps R lost ([(x, .void)] ++ rest.map (·, .void))
          (x.headed ++ rest.flatMap Expr.headed) := h
      obtain ⟨hx, hrest⟩ := hall.split hheaded hothers
      obtain ⟨l, hcode⟩ := headed_written x rfl hx
      obtain ⟨l', hmore⟩ := ih hrest
      rw [List.flatMap_cons, List.filter_append, Expr.nodesList_cons, List.map_cons]
      exact ⟨_, .cons hcode hmore⟩
  obtain ⟨l, hlines⟩ := hlines
  exact ⟨l, hlines.join (.phrase (@Phrase.piece _ ", ".toList rfl))⟩

/-! ## Conditions, loops and returns -/

section

variable {A : String → Prop}

/-- Further branches of a condition, each with its body. -/
theorem sentence_branches {f : ElseIf → Except Fault String} {g : ElseIf → Locals × List Stmt}
    (branches : List ElseIf)
    (h : ∀ b ∈ branches, Gives (f b) fun x => ∃ l, Sentence A F [] [] [g b] l x) :
    Gives (branches.mapM f) fun xs => ∃ l,
      Sentence A F [] [] (branches.map g) l (String.join xs) := by
  induction branches with
  | nil => exact .ok ⟨_, .empty⟩
  | cons b rest ih =>
    obtain ⟨hb, hrest⟩ := List.forall_mem_cons.mp h
    rw [List.mapM_cons, List.map_cons]
    refine .bind hb ?_
    rintro x ⟨l, hx⟩
    refine .bind (ih hrest) ?_
    rintro xs ⟨l', hxs⟩
    have hall := hx.append hxs
    rw [← String.join_cons] at hall
    exact .pure ⟨_, hall⟩

theorem phrase_conditionCode (nullChecks : Bool) {e : Expr} (h : Said A S e) (negated : Bool) :
    Gives (conditionCode nullChecks S e negated) (Phrase A) := by
  refine .bind (phrase_convertNonNull nullChecks (o := S.operandOf e) h _) fun c hc => .pure ?_
  cases negated with
  | true => exact .bare (.append (@Phrase.piece _ "!".toList rfl) hc)
  | false => exact .bare (.append .empty hc)

end

/-- The header of a loop over a list declares one variable. -/
theorem written_foreach {A : String → Prop} {ids : List Nat} {vs vs' : List Variable} {bs : Bodies}
    {l l' : Locals} {type name row body : String}
    (hname : Written A F R ids vs [] l (type ++ " " ++ name)) (hrow : Phrase A row)
    (hbody : Written A F R [] vs' bs l' body) :
    Written A F R ids (vs ++ vs') bs (.block (l.append l') .done)
      ("for (" ++ type ++ " " ++ name ++ " : " ++ row ++ ") " ++ body) := by
  have hcolon : Sentence A F [] [] [] .done " : " := .phrase (@Phrase.piece _ " : ".toList rfl)
  have hstop : Sentence A F [] [] [] .done ") " := .separator (by decide)
  have hall := ((((hname.before hcolon).before (.phrase hrow)).before hstop).append hbody).loop
  rw [List.append_nil] at hall
  have htext : "for (" ++ type ++ " " ++ name ++ " : " ++ row ++ ") " ++ body =
      "for (" ++ (type ++ " " ++ name ++ " : " ++ row ++ ") " ++ body) := by
    simp only [String.append_assoc]
  rw [htext]
  exact hall

/-- The header of a loop with steps declares what its start and its steps declare. -/
theorem written_steps {A : String → Prop} {ids ids' : List Nat} {vs vs' : List Variable}
    {bs : Bodies} {l l' last : Locals} {init cond post body : String}
    (hinit : Written A F R ids vs [] l init) (hcond : Phrase A cond)
    (hpost : Written A F R ids' vs' [] l' post) (hbody : Sentence A F [] [] bs last body) :
    ∃ inside, Written A F R (ids ++ ids') (vs ++ vs') bs (.block inside .done)
      ("for (" ++ init ++ "; " ++ cond ++ "; " ++ post ++ ") " ++ body) := by
  have hsep : Sentence A F [] [] [] .done "; " := .separator (by decide)
  have hstop : Sentence A F [] [] [] .done ") " := .separator (by decide)
  have hhead := (((hinit.before hsep).before (.phrase hcond)).before hsep).append hpost
  have hinside : Written A F R [] [] bs last body := .of_sentence hbody
  have hall := ((hhead.before hstop).append hinside).loop
  rw [List.append_nil, List.append_nil] at hall
  have htext : "for (" ++ init ++ "; " ++ cond ++ "; " ++ post ++ ") " ++ body =
      "for (" ++ (init ++ "; " ++ cond ++ "; " ++ post ++ ") " ++ body) := by
    simp only [String.append_assoc]
  rw [htext]
  exact ⟨_, hall⟩

/-- A loop over a list declares its variable in its header, or assigns it in the first line of its
body from an auxiliary variable, which the header declares. -/
theorem foreachCode_written {n : Nat} {v : Variable} {list : Expr} {b : Block}
    {inner : Block → Locals} (hS : S.Grows F)
    (hlist : Said (Spoken F steps lost) S list) (hlines : F.LinesOf b.stmts (bodyLines S b))
    (hdrawn : ∀ a ∈ S.table.drawn (foreachCode v list b env S).2.table, (n, a) ∈ R) :
    GivesAt (foreachCode v list b) env S fun code => ∃ l,
      Written (Spoken F steps lost) F R [n] ([v].filter F.isLocalDecl) [(inner b, b.stmts)]
        (.block l .done) code := by
  intro code st' hrun
  rw [hrun] at hdrawn
  rw [foreachCode, run_get_bind] at hrun
  obtain ⟨⟨row, t⟩, st₁, hsequence, hrun⟩ := run_bind_inv hrun
  obtain ⟨hsequence, rfl⟩ := run_lift_inv hsequence
  have hrow : Phrase (Spoken F steps lost) row :=
    phrase_sequenceOf (o := st₁.operandOf list) hlist _ hsequence
  dsimp only at hrun
  rcases hb : st₁.binding? v with _ | var
  · rw [hb] at hrun
    cases hrun
  · have hlocal := hS.known.isLocalDecl hb
    have hknown := hS.known.binding hb
    rw [hb] at hrun
    dsimp only at hrun
    rw [← hlocal] at hrun
    split at hrun
    · next hheader =>
      cases hrun
      rw [Bool.and_eq_true, decide_eq_true_eq] at hheader
      obtain ⟨hdecl, htype⟩ := hheader
      rw [List.filter_cons_of_pos hdecl, ← htype]
      exact ⟨_, written_foreach (.of_sentence (.declared hdecl hknown)) hrow
        (.of_sentence (.body (inner b) hlines))⟩
    · obtain ⟨aux, st₂, haux, hrun⟩ := run_bind_inv hrun
      cases haux
      obtain ⟨value, st₃, hconvert, hrun⟩ := run_bind_inv hrun
      obtain ⟨hvalue, rfl⟩ := run_lift_inv hconvert
      cases hrun
      have hitem : Phrase (Spoken F steps lost) (Operand.ofElement
          (AliasPool.numbered (st₁.table.pool.count "" + 1) "") (t.map Ty.elem)).code := by
        rw [Path.code_ofElement]
        exact .atom (.inl (.auxiliary _))
      have hvalue := phrase_convert hitem _ value hvalue
      -- the identifier that is drawn is that of the header
      have hname : Written (Spoken F steps lost) F R [n] [] [] _ _ :=
        ⟨[(n, (st₁.table.auxiliary "").1)],
          List.forall_mem_singleton.mpr (hdrawn _ (Table.drawn_auxiliary _ ▸ List.mem_cons_self)),
          .refl _, .auxiliary (t.map Ty.elem) (st₁.table.pool.count "" + 1)⟩
      have hend : Sentence (Spoken F steps lost) F [] [] [] .done ";" := .separator (by decide)
      by_cases hdecl : F.isLocalDecl v = true
      · rw [if_pos hdecl, List.filter_cons_of_pos hdecl]
        have hfirst := (Sentence.declaration hdecl hknown hvalue).before hend
        exact ⟨_, written_foreach hname hrow (.of_sentence (.led hfirst (inner b) hlines))⟩
      · rw [if_neg hdecl, List.filter_cons_of_neg hdecl]
        have hstored : Phrase (Spoken F steps lost) (st₁.nameOf var ++ " = " ++ value) :=
          .between (.atom (.inl (.bound hS hknown))) rfl hvalue
        have hfirst := (Sentence.phrase hstored).before hend
        exact ⟨_, written_foreach hname hrow (.of_sentence (.led hfirst (inner b) hlines))⟩

/-! ## All statements -/

namespace Outline

theorem owns_outlineBody (b : Block) (k : Outline) : (b.outlineBody k).owns = k.owns := by
  cases b with
  | absent => rw [Block.outlineBody]
  | mk i ss => rw [Block.outlineBody, owns]

theorem owns_outlineBranches (bs : List ElseIf) (k : Outline) :
    (∀ i test b, .mk i test b ∈ bs →
      .expr test .boolean ∈ (Stmt.outlineBranches bs k).owns) := by
  induction bs with
  | nil => exact fun i test b h => absurd h List.not_mem_nil
  | cons first rest ih =>
    obtain ⟨j, t, c⟩ := first
    intro i test b h
    rw [Stmt.outlineBranches, owns, owns_outlineBody, owns]
    rcases List.mem_cons.mp h with heq | h
    · cases heq
      exact List.mem_cons_self
    · exact List.mem_cons_of_mem _ (List.mem_cons_of_mem _ (ih i test b h))

end Outline

/-- All that the code of the statement is put together from in the state `S`. -/
structure Assembly (env : Env) (F S : State) (steps : String → Prop) (R : List (Nat × String))
    (lost : Variable → Prop) (s : Stmt) : Prop where
  /-- What is known now is known at the end. -/
  grows : S.Grows F
  /-- The expressions that the statement has walked are spelled. -/
  spelled : ∀ o ∈ s.outline.owns, ∃ st₀, ∀ r ∈ o.roots st₀,
    r.1.Everywhere (Spelled F steps R S) r.2
  /-- The variables of the statement are known, and each is one of one expression. -/
  bound : ∀ p ∈ s.vars, ∃ b, S.binding? p.1 = some b
  distinct : (s.vars.map (·.1)).Nodup
  /-- Variables of a method that the statement loses are lost. -/
  lost : ∀ v ∈ s.lost, F.isLocalDecl v = true → lost v
  /-- The bodies of the statement have their lines. -/
  bodies : ∀ b ∈ s.bodies, F.LinesOf b.stmts (bodyLines S b)
  /-- What is drawn for the statement itself is one of its auxiliary variables. -/
  drawn : ∀ a ∈ S.table.drawn (finishStmt s env S).2.table, (s.id, a) ∈ R

namespace Assembly

variable {s : Stmt} {i : Info} (inner : Block → Locals)

theorem stated (h : Assembly env F S steps R lost s) {ps : List (Expr × Usage)}
    (hspelled : ∀ p ∈ ps, p.1.Everywhere (Spelled F steps R S) p.2)
    (hvars : (unusedIn ps).Sublist ((s.vars.filter (·.2)).map (·.1))) :
    Stated F S steps R lost ps s.placed := by
  have hmark {v : Variable} (hv : v ∈ unusedIn ps) : (v, true) ∈ s.vars := by
    simpa using hvars.subset hv
  refine ⟨hspelled, fun v hv => h.bound _ (hmark hv), ?_, fun v hv hlocal hnot => ?_⟩
  · exact hvars.nodup ((List.filter_sublist.map _).nodup h.distinct)
  · refine h.lost v ?_ hlocal
    rw [Stmt.lost, List.mem_map]
    exact ⟨(v, true), List.mem_filter.mpr ⟨hmark hv, by simpa using hnot⟩, rfl⟩

/-- The value of an expression that the statement walks. -/
theorem said (h : Assembly env F S steps R lost s) {e : Expr} {u : Usage}
    (ho : .expr e u ∈ s.outline.owns) (hu : u.isVoid = false) : Said (Spoken F steps lost) S e := by
  obtain ⟨st₀, hspelled⟩ := h.spelled _ ho
  exact (spoken_used (hspelled (e, u) (List.mem_singleton_self _)) hu).1

theorem body (h : Assembly env F S steps R lost s) {b : Block} (hb : b ∈ s.bodies) :
    Sentence (Spoken F steps lost) F [] [] [(inner b, b.stmts)]
      (.block (inner b) .done) (bodyCode S [] b) :=
  .body (inner b) (h.bodies b hb)

theorem owns_cond {negated : Bool} {test : Expr} {yes : Block} {elsifs : List ElseIf} {no : Block} :
    (Stmt.cond i negated test yes elsifs no).outline.owns =
      .expr test .boolean :: (Stmt.outlineBranches elsifs (no.outlineBody
        (.finish (.cond i negated test yes elsifs no)))).owns := by
  rw [Stmt.outline, Outline.owns, Outline.owns_outlineBody]

/-- A further branch of a condition. -/
theorem branchCode (h : Assembly env F S steps R lost s) {negated : Bool} {test : Expr}
    {yes : Block} {elsifs : List ElseIf} {no : Block} (hs : s = .cond i negated test yes elsifs no)
    {branch : ElseIf} (hbranch : branch ∈ elsifs) :
    Gives (branchCode env.nullChecks S branch) fun x => ∃ l,
      Sentence (Spoken F steps lost) F [] [] [(inner branch.body, branch.body.stmts)] l x := by
  subst hs
  obtain ⟨j, t, body⟩ := branch
  have ht := h.said (e := t) (u := .boolean) (owns_cond ▸ List.mem_cons_of_mem _
    (Outline.owns_outlineBranches elsifs _ j t body hbranch)) rfl
  have hmem : body ∈ (Stmt.cond i negated test yes elsifs no).bodies :=
    List.mem_cons_of_mem _ (List.mem_append_left _ (List.mem_map_of_mem hbranch))
  refine .bind (phrase_conditionCode env.nullChecks ht false) fun c hc => ?_
  have hstart : Sentence (Spoken F steps lost) F [] [] [] .done " else if (" :=
    .separator (by decide)
  have hstop : Sentence (Spoken F steps lost) F [] [] [] .done ") " := .separator (by decide)
  exact .pure ⟨_, (h.body inner hmem).behind ((hstart.before (.phrase hc)).before hstop)⟩

/-- A condition with its branches. -/
theorem condCode (h : Assembly env F S steps R lost s) {negated : Bool} {test : Expr} {yes : Block}
    {elsifs : List ElseIf} {no : Block} (hs : s = .cond i negated test yes elsifs no) :
    Gives (condCode env.nullChecks S negated test yes elsifs no) fun code =>
      ∃ l, Sentence (Spoken F steps lost) F [] []
        ((Stmt.cond i negated test yes elsifs no).bodiesWith inner) l code := by
  have hbranches := fun (branch : ElseIf) (hbranch : branch ∈ elsifs) =>
    h.branchCode inner hs hbranch
  subst hs
  have htest := h.said (e := test) (u := .boolean) (owns_cond ▸ List.mem_cons_self) rfl
  refine .bind (phrase_conditionCode env.nullChecks htest negated) fun c hc => ?_
  refine .bind (sentence_branches elsifs hbranches) ?_
  rintro codes ⟨l, hcodes⟩
  -- the last branch may be missing
  obtain ⟨last, hlast⟩ : ∃ l, Sentence (Spoken F steps lost) F [] []
      ((if no.isPresent then [no] else []).map fun b => (inner b, b.stmts)) l
      (if no.isPresent then " else " ++ bodyCode S [] no else "") := by
    split
    · next hno =>
      have hmem : no ∈ (Stmt.cond i negated test yes elsifs no).bodies := by
        refine List.mem_cons_of_mem _ (List.mem_append_right _ ?_)
        rw [if_pos hno]
        exact List.mem_cons_self
      exact ⟨_, (h.body inner hmem).behind (.separator (by decide))⟩
    · exact ⟨_, .empty⟩
  have hstart : Sentence (Spoken F steps lost) F [] [] [] .done "if (" := .separator (by decide)
  have hstop : Sentence (Spoken F steps lost) F [] [] [] .done ") " := .separator (by decide)
  have hfirst := (h.body inner (b := yes) List.mem_cons_self).behind
    ((hstart.before (.phrase hc)).before hstop)
  have hbodies : (Stmt.cond i negated test yes elsifs no).bodiesWith inner =
      [(inner yes, yes.stmts)] ++ (elsifs.map fun b => (inner b.body, b.body.stmts)) ++
        (if no.isPresent then [no] else []).map fun b => (inner b, b.stmts) := by
    rw [Stmt.bodiesWith, Stmt.bodies, List.map_cons, List.map_append, List.map_map,
      List.append_assoc]
    rfl
  rw [hbodies]
  exact .pure ⟨_, (hfirst.append hcodes).append hlast⟩

/-- A loop with a condition. -/
theorem loopCode (h : Assembly env F S steps R lost s) {negated bodyFirst : Bool} {test : Expr}
    {b : Block} (hs : s = .loop i negated bodyFirst test b) :
    Gives (loopCode env.nullChecks S negated bodyFirst test b) fun code =>
      ∃ l, Sentence (Spoken F steps lost) F [] []
        ((Stmt.loop i negated bodyFirst test b).bodiesWith inner) l code := by
  subst hs
  have hown : .expr test .boolean ∈ (Stmt.loop i negated bodyFirst test b).outline.owns := by
    cases bodyFirst with
    | true =>
      rw [Stmt.outline, Outline.owns_outlineBody, Outline.owns]
      exact List.mem_cons_self
    | false =>
      rw [Stmt.outline, Outline.owns]
      exact List.mem_cons_self
  have hbody := h.body inner (b := b) List.mem_cons_self
  have htest := h.said hown rfl
  refine .bind (phrase_conditionCode env.nullChecks htest negated) fun c hc => ?_
  -- the test stands behind the body or in front of it
  cases bodyFirst with
  | true =>
    have hfirst := (hbody.behind (.separator (s := "do ") (by decide))).before
      (.separator (s := " while (") (by decide))
    exact .pure ⟨_, (hfirst.before (.phrase hc)).before (.separator (s := ");") (by decide))⟩
  | false =>
    have hstart : Sentence (Spoken F steps lost) F [] [] [] .done "while (" :=
      .separator (by decide)
    have hhead := (hstart.before (.phrase hc)).before (.separator (s := ") ") (by decide))
    exact .pure ⟨_, hbody.behind hhead⟩

theorem owns_steps {init test post : List Expr} {b : Block} :
    (Stmt.steps i init test post b).outline.owns =
      [.exprs init fun _ => .void, .exprs test fun _ => .boolean, .exprs post fun _ => .void] := by
  rw [Stmt.outline]
  simp only [Outline.owns, Outline.owns_outlineBody]

/-- Several expressions that the statement walks in the same way are spelled. -/
theorem each_spelled (h : Assembly env F S steps R lost s) {es : List Expr} {u : Usage}
    (ho : .exprs es (fun _ => u) ∈ s.outline.owns) :
    ∀ p ∈ es.map (·, u), p.1.Everywhere (Spelled F steps R S) p.2 := by
  obtain ⟨st₀, hspelled⟩ := h.spelled _ ho
  intro p hp
  obtain ⟨x, hx, rfl⟩ := List.mem_map.mp hp
  obtain ⟨n, hn, rfl⟩ := List.mem_iff_getElem.mp hx
  exact hspelled _ (List.mem_mapIdx.mpr ⟨n, hn, rfl⟩)

/-- Both ends of the header of a loop may declare. -/
theorem steps_stated (h : Assembly env F S steps R lost s) {init test post : List Expr} {b : Block}
    (hs : s = .steps i init test post b) :
    Stated F S steps R lost (init.map (·, .void)) (init.flatMap Expr.headed) ∧
      Stated F S steps R lost (post.map (·, .void)) (post.flatMap Expr.headed) := by
  subst hs
  have hvars : (unusedIn (init.map (·, .void) ++ post.map (·, .void))).Sublist
      (((Stmt.steps i init test post b).vars.filter (·.2)).map (·.1)) := by
    have happend (ps qs : List (Variable × Bool)) : ((ps ++ qs).filter (·.2)).map (·.1) =
        (ps.filter (·.2)).map (·.1) ++ (qs.filter (·.2)).map (·.1) := by
      rw [List.filter_append, List.map_append]
    rw [Stmt.vars, Outline.vars_owns, owns_steps, List.flatMap_cons, List.flatMap_cons,
      List.flatMap_singleton, happend, happend, Expr.unusedIn_append, unusedIn, unusedIn,
      ← Expr.orderList_const, ← Expr.orderList_const]
    exact (List.Sublist.refl _).append (List.sublist_append_right _ _)
  have hstated := h.stated (fun p hp => (List.mem_append.mp hp).elim
    (h.each_spelled (owns_steps ▸ by simp) p) (h.each_spelled (owns_steps ▸ by simp) p)) hvars
  have hheaded (es : List Expr) : es.flatMap Expr.headed ⊆ unusedIn (es.map (·, .void)) := by
    rw [unusedIn, ← Expr.orderList_const]
    exact (Expr.sublist_unused_orderList es fun e _ => e.headed_sublist rfl).subset
  rw [Stmt.placed, List.flatMap_append] at hstated
  exact hstated.split (hheaded init) (hheaded post)

/-- A loop with a start, conditions and steps. -/
theorem stepsCode (h : Assembly env F S steps R lost s) {init test post : List Expr} {b : Block}
    (hs : s = .steps i init test post b) :
    Gives (stepsCode env.nullChecks S init test post b) fun code => ∃ l,
      Written (Spoken F steps lost) F R s.nodes (s.placed.filter F.isLocalDecl) (s.bodiesWith inner)
        (.block l .done) code := by
  obtain ⟨hinit, hpost⟩ := h.steps_stated hs
  subst hs
  obtain ⟨linit, hinit⟩ := headerCode_written init hinit
  obtain ⟨lpost, hpost⟩ := headerCode_written post hpost
  have hconds : Gives (test.mapM fun e =>
      convertNonNull env.nullChecks (S.operandOf e) (some .boolean)) fun cs =>
      ∀ c ∈ cs, Phrase (Spoken F steps lost) c := by
    refine .mapM_all fun e he => ?_
    have htest := h.each_spelled (u := .boolean) (owns_steps ▸ by simp) (e, .boolean)
      (List.mem_map_of_mem he)
    have hsaid : Said (Spoken F steps lost) S e := (spoken_used htest rfl).1
    exact phrase_convertNonNull _ (o := S.operandOf e) hsaid _
  refine .bind hconds fun conds hconds => .pure ?_
  have hand : Phrase (Spoken F steps lost) " && " := .operator (by decide : "&&" ∈ _)
  obtain ⟨l, hall⟩ := written_steps hinit (.bare (.joined hand hconds)) hpost
    (h.body inner (b := b) List.mem_cons_self)
  rw [Stmt.placed, List.flatMap_append, List.filter_append]
  refine ⟨l, hall.of_nodes ?_⟩
  rw [Stmt.nodes_steps, Expr.nodesList_append, Expr.nodesList_append]
  exact (((List.Sublist.refl _).append (List.sublist_append_right _ _)).trans
    (List.sublist_append_left _ _)).cons _

/-- A loop over a list. -/
theorem foreachCode (h : Assembly env F S steps R lost s) {var : Option Variable} {implicit : Nat}
    {list : Expr} {b : Block} (hs : s = .foreach i var implicit list b) :
    GivesAt (foreachCode (var.getD (Stmt.implicitVar i implicit)) list b) env S fun code => ∃ l,
      Written (Spoken F steps lost) F R [i.id] (s.placed.filter F.isLocalDecl)
        (s.bodiesWith inner) (.block l .done) code := by
  subst hs
  have howns : (Stmt.foreach i var implicit list b).outline.owns =
      [.expr list .list, .loopVar i var implicit list] := by
    rw [Stmt.outline]
    simp only [Outline.owns, Outline.owns_outlineBody]
  have hlines := h.bodies b List.mem_cons_self
  refine foreachCode_written h.grows (h.said (howns ▸ List.mem_cons_self) rfl) hlines ?_
  have hdrawn := h.drawn
  rw [finishStmt_table, Compile.stmtCode, run_read_bind, run_get_bind] at hdrawn
  exact hdrawn

/-- The end of a subroutine. -/
theorem returnCode (h : Assembly env F S steps R lost s) {value : Option Expr}
    (hs : s = .ret i value) :
    Gives (returnCode S value) fun code =>
      Sentence (Spoken F steps lost) F [] [] [] .done code := by
  subst hs
  have hend : Sentence (Spoken F steps lost) F [] [] [] .done ";" := .separator (by decide)
  have hvalue {code : String} (hcode : Phrase (Spoken F steps lost) code) :
      Sentence (Spoken F steps lost) F [] [] [] .done ("return " ++ code ++ ";") :=
    ((Sentence.phrase hcode).behind (.separator (s := "return ") (by decide))).before hend
  unfold Compile.returnCode
  split
  · exact .error _
  · exact .ok (.separator (by decide))
  · exact .ok (hvalue (.emptyOf _))
  · next f _ e _ =>
    have howns : (Stmt.ret i (some e)).outline.owns = [.value (some e)] := by
      rw [Stmt.outline]
      rfl
    obtain ⟨st₀, hspelled⟩ := h.spelled _ (howns ▸ List.mem_cons_self)
    obtain ⟨hsaid, hrow⟩ : Said (Spoken F steps lost) S e ∧ RowSaid (Spoken F steps lost) S e :=
      spoken_used (hspelled (e, returnUsage st₀) List.mem_cons_self) (isVoid_returnUsage st₀)
    have hright : ∀ x ∈ some e, RowSaid (Spoken F steps lost) S x := fun x hx =>
      Option.mem_some.mp hx ▸ hrow
    exact .bind (phrase_valueFor hright (o := S.operandOf e) hsaid _) fun v hv => .pure (hvalue hv)

/-- The code of a statement declares the variables that the statement places. Only an expression as
a statement declares variables in the block in which the statement stands. -/
theorem stmtCode (h : Assembly env F S steps R lost s) :
    GivesAt (stmtCode s) env S fun code => ∃ l,
      Written (Spoken F steps lost) F R s.nodes (s.placed.filter F.isLocalDecl)
        (s.bodiesWith inner) l code ∧ (l.names = [] ∨ ∃ i e, s = .expr i e) := by
  -- where a statement places nothing its code is a sentence that declares nothing
  have hplain {code : String} {l : Locals} (hs : s.placed = [])
      (hcode : Sentence (Spoken F steps lost) F [] [] (s.bodiesWith inner) l code) : ∃ l,
      Written (Spoken F steps lost) F R s.nodes (s.placed.filter F.isLocalDecl)
        (s.bodiesWith inner) l code ∧ (l.names = [] ∨ ∃ i e, s = .expr i e) := by
    rw [hs]
    refine ⟨l, .of_sentence hcode, .inl (List.eq_nil_iff_forall_not_mem.mpr fun a ha => ?_)⟩
    exact absurd (hcode.names_subset a ha) List.not_mem_nil
  refine .read_bind (.get_bind ?_)
  cases s with
  | expr i e =>
    have howns : (Stmt.expr i e).outline.owns = [.expr e .void] := by
      rw [Stmt.outline]
      rfl
    have hvars : (Stmt.expr i e).vars = Expr.varsIn (e.order .void) := by
      rw [Stmt.vars, Outline.vars_owns, howns, List.flatMap_singleton]
      rfl
    obtain ⟨st₀, hspelled⟩ := h.spelled (.expr e .void) (howns ▸ List.mem_cons_self)
    have hstated : Stated F S steps R lost [(e, .void)] (Stmt.expr i e).placed := by
      refine h.stated hspelled ?_
      rw [hvars, unusedIn, List.flatMap_singleton]
      exact .refl _
    refine .lift ((exprStatement_written h.grows.known e .void rfl hstated).mono ?_)
    rintro code ⟨l, hcode⟩
    refine ⟨l, hcode.of_nodes ?_, .inr ⟨i, e, rfl⟩⟩
    rw [Stmt.nodes_expr]
    exact List.sublist_cons_self _ _
  | steps i init test post b =>
    refine .lift ((h.stepsCode inner rfl).mono ?_)
    rintro code ⟨l, hcode⟩
    exact ⟨_, hcode, .inl rfl⟩
  | foreach i var implicit list b =>
    intro code st' hrun
    obtain ⟨l, hcode⟩ := h.foreachCode inner rfl code st' hrun
    refine ⟨_, hcode.of_nodes ?_, .inl rfl⟩
    rw [Stmt.nodes_foreach]
    exact List.singleton_sublist.mpr List.mem_cons_self
  | block b =>
    exact .pure (hplain rfl (h.body inner (b := b) List.mem_cons_self))
  | cond i negated test yes elsifs no =>
    exact .lift ((h.condCode inner rfl).mono fun code hcode => hcode.elim fun l hl => hplain rfl hl)
  | loop i negated bodyFirst test b =>
    exact .lift ((h.loopCode inner rfl).mono fun code hcode => hcode.elim fun l hl => hplain rfl hl)
  | ret i value => exact .lift ((h.returnCode rfl).mono fun code hcode => hplain rfl hcode)
  | jump i keyword =>
    refine .lift ?_
    unfold jumpCode
    split
    · exact .ok (hplain rfl (.separator (by decide)))
    · exact .ok (hplain rfl (.separator (by decide)))
    · exact .error _
  | comment i text =>
    refine .pure (hplain (l := .done) rfl ?_)
    split
    · exact .comment text
    · exact .empty
  | sub i name returns b => exact .bind fun _ _ _ => .pure (hplain rfl .empty)
  | package | use | pragma => exact .pure (hplain rfl .empty)

end Assembly

end Compile

end TypedPerl
