import TypedPerl.Proofs.Walk.Methods
import TypedPerl.Proofs.Walk.TreeEffects

/-!
# Default returns

The method of a subroutine ends with a default return, unless the last statement of the body is a
return of the source (`methodBody_eq`). Statements such as comments, directives and nested
definitions leave nothing that is executed, so that the last statement of a body may not be the last
one that is: a default return then stands behind a return of the source, where it is never reached.
The default is written exactly where control comes to the end of the body, unless a return is
`Overlooked` behind which nothing is executed (`tree_default_return_iff`).
-/

namespace TypedPerl

namespace Java

/-- Lines are moved in one by one. -/
theorem indent_line (x y : String) : indent (x ++ "\n" ++ y) = indent x ++ "\n" ++ indent y := by
  have hchars : (x ++ "\n" ++ y).toList = x.toList ++ '\n' :: y.toList := by simp
  -- behind the break a line starts, wherever the first text ended
  have hbreak (start : Bool) : indentFrom start ('\n' :: y.toList) =
      '\n' :: indentFrom true y.toList := by
    rw [indentFrom, if_pos rfl]
  apply String.toList_injective
  rw [indent, indent, indent, hchars, indentFrom_append, hbreak]
  simp

/-- One more line in braces. -/
theorem braces_concat {lines : List String} (h : lines ≠ []) (l : String) :
    braces (lines ++ [l]) =
      "\x7b\n" ++ indent (Text.join "\n" lines) ++ "\n" ++ indent l ++ "\n\x7d" := by
  -- the last line is joined to what the others make, however many they are
  have hjoin : Text.join "\n" (lines ++ [l]) = Text.join "\n" lines ++ "\n" ++ l := by
    induction lines with
    | nil => exact absurd rfl h
    | cons first rest ih =>
      cases rest with
      | nil => simp [Text.join]
      | cons second rest =>
        have hrest := ih (List.cons_ne_nil _ _)
        simp only [Text.join, List.cons_append, String.intercalate_cons_cons] at hrest ⊢
        rw [hrest]
        simp only [String.append_assoc]
  rw [braces, if_neg (by simp), hjoin, indent_line]
  simp only [String.append_assoc]

end Java

theorem Text.dropTrailing?_append (x suf : String) : dropTrailing? suf (x ++ suf) = some x := by
  have hsuffix : suf.toList.isSuffixOf (x ++ suf).toList = true := by
    simp
  have hkept : (x ++ suf).length - suf.length = x.toList.length := by
    rw [String.length_append, Nat.add_sub_cancel, String.length_toList]
  rw [dropTrailing?, if_pos hsuffix, hkept, String.toList_append, List.take_left,
    String.ofList_toList]

namespace Compile

/-! ## The body of a method -/

/-- The statement that a method ends with by default. -/
def defaultReturn (t : Ty) : String :=
  "return " ++ Java.emptyOf t ++ ";"

/-- The body of a method holds the lines of its statements, and behind them the default return,
unless the last statement of the source is a return. -/
theorem methodBody_eq (st : State) (t : Ty) (b : Block) :
    methodBody st t b =
      Java.braces (bodyLines st b ++ if endsWithReturn b then [] else [defaultReturn t]) := by
  unfold methodBody bodyCode
  rw [List.nil_append]
  cases endsWithReturn b with
  | true => simp
  | false =>
    simp only [Bool.false_eq_true, if_false]
    by_cases hlines : bodyLines st b = []
    · -- a method of the default return alone
      have hbraces : Java.braces [] = "\x7b\n" ++ "\x7d" := rfl
      rw [hlines, hbraces, Text.dropTrailing?_append, Option.getD_some, List.nil_append,
        Java.braces, if_neg (by simp)]
      rfl
    · -- the closing brace is taken off, and written again behind the default
      have hempty : (bodyLines st b).isEmpty = false := by simpa using hlines
      have hbraces : Java.braces (bodyLines st b) =
          "\x7b\n" ++ Java.indent (Text.join "\n" (bodyLines st b)) ++ "\n" ++ "\x7d" := by
        have hclose : "\n\x7d" = "\n" ++ "\x7d" := rfl
        rw [Java.braces, hempty, if_neg Bool.false_ne_true, hclose]
        simp only [String.append_assoc]
      rw [hbraces, Text.dropTrailing?_append, Option.getD_some, Java.braces_concat hlines]
      rfl

/-! ## Statements that are executed -/

end Compile

/-- The statement is a return. -/
def Stmt.isReturn : Stmt → Bool
  | .ret _ _ => true
  | _ => false

/-- The statement is a comment. -/
def Stmt.isComment : Stmt → Bool
  | .comment _ _ => true
  | _ => false

namespace Compile

theorem endsWithReturn_eq (b : Block) : endsWithReturn b = b.stmts.getLast?.any Stmt.isReturn := by
  unfold endsWithReturn
  cases b.stmts.getLast? with
  | none => rfl
  | some s => cases s <;> rfl

/-- What was generated for the statement is executed: it is a text, and not one of comments. -/
def State.executes (S : State) (s : Stmt) : Bool :=
  s.isPresent && !s.isComment && (S.lineOf? s.id).isSome

/-- The last statement of the body that is executed is a return. -/
def State.lastReturns (S : State) (b : Block) : Bool :=
  (b.stmts.filter S.executes).getLast?.any Stmt.isReturn

/-- The body ends with a return, but for statements behind it that leave nothing to execute. -/
def State.Overlooks (S : State) (b : Block) : Prop :=
  ∃ before r behind, b.stmts = before ++ r :: behind ∧ r.isReturn = true ∧ behind ≠ [] ∧
    ∀ s ∈ behind, S.executes s = false

/-- The last statement that is executed is a return if it is one with nothing to execute behind. -/
theorem State.lastReturns_iff {S : State} {b : Block} :
    S.lastReturns b = true ↔ ∃ before r behind, b.stmts = before ++ r :: behind ∧
      S.executes r = true ∧ r.isReturn = true ∧ ∀ s ∈ behind, S.executes s = false := by
  -- the last one that is executed is the first one from behind
  have hlast : (b.stmts.filter S.executes).getLast? = b.stmts.reverse.find? S.executes := by
    rw [List.getLast?_eq_head?_reverse, ← List.filter_reverse, List.head?_filter]
  unfold State.lastReturns
  rw [hlast]
  constructor
  · intro h
    obtain ⟨r, hr, hreturn⟩ := (Option.any_eq_true _ _).mp h
    obtain ⟨hexecutes, behind, before, heq, hbehind⟩ := List.find?_eq_some_iff_append.mp hr
    refine ⟨before.reverse, r, behind.reverse, ?_, hexecutes, hreturn, ?_⟩
    · rw [← List.reverse_reverse b.stmts, heq]
      simp
    · intro s hs
      simpa using hbehind s (List.mem_reverse.mp hs)
  · rintro ⟨before, r, behind, heq, hexecutes, hreturn, hbehind⟩
    have hfound : b.stmts.reverse.find? S.executes = some r := by
      refine List.find?_eq_some_iff_append.mpr ⟨hexecutes, behind.reverse, before.reverse, ?_, ?_⟩
      · rw [heq]
        simp
      · intro s hs
        simpa using hbehind s (List.mem_reverse.mp hs)
    rw [hfound]
    exact hreturn

/-- If returns are executed, a return is overlooked exactly where it is the last statement that is
executed, but not the last one. -/
theorem State.overlooks_iff {S : State} {b : Block}
    (h : ∀ s ∈ b.stmts, s.isReturn = true → S.executes s = true) :
    S.Overlooks b ↔ S.lastReturns b = true ∧ endsWithReturn b = false := by
  rw [S.lastReturns_iff, endsWithReturn_eq]
  constructor
  · rintro ⟨before, r, behind, heq, hreturn, hne, hbehind⟩
    have hr : S.executes r = true := h r (by simp [heq]) hreturn
    refine ⟨⟨before, r, behind, heq, hr, hreturn, hbehind⟩, ?_⟩
    obtain ⟨more, s, rfl⟩ := (List.eq_nil_or_concat behind).resolve_left hne
    have hs : S.executes s = false := hbehind s (by simp)
    have hinit : b.stmts = (before ++ r :: more) ++ [s] := by
      simp [heq]
    have hlast : b.stmts.getLast? = some s := by
      rw [hinit, List.getLast?_concat]
    -- the last statement is not executed, as a return would be
    rw [hlast]
    cases hsr : s.isReturn with
    | false => exact hsr
    | true =>
      rw [h s (by simp [heq]) hsr] at hs
      cases hs
  · rintro ⟨⟨before, r, behind, heq, -, hreturn, hbehind⟩, hends⟩
    refine ⟨before, r, behind, heq, hreturn, ?_, hbehind⟩
    rintro rfl
    have hlast : b.stmts.getLast? = some r := by
      simp [heq]
    rw [hlast] at hends
    exact absurd hreturn (by simpa using hends)

/-- A default return is written exactly behind bodies of which the last statement that is executed
is no return, unless a return is overlooked. -/
theorem State.default_iff {S : State} {b : Block}
    (h : ∀ s ∈ b.stmts, s.isReturn = true → S.executes s = true) :
    (endsWithReturn b = false ↔ S.lastReturns b = false) ↔ ¬S.Overlooks b := by
  -- a return at the very end is executed, so it is the last of those executed
  have hends : endsWithReturn b = true → S.lastReturns b = true := by
    rw [endsWithReturn_eq, S.lastReturns_iff]
    intro hlast
    obtain ⟨r, hr, hreturn⟩ := (Option.any_eq_true _ _).mp hlast
    obtain ⟨before, heq⟩ := List.getLast?_eq_some_iff.mp hr
    exact ⟨before, r, [], heq, h r (by simp [heq]) hreturn, hreturn, by simp⟩
  rw [S.overlooks_iff h]
  cases hl : S.lastReturns b with
  | true =>
    cases endsWithReturn b with
    | true => simp
    | false => simp
  | false =>
    cases he : endsWithReturn b with
    | true => exact absurd (hends he) (by simp [hl])
    | false => simp

/-! ## Calls of definitions and returns -/

/-- Declaring a subroutine gives the one that its node means from then on. -/
theorem declareSub_known (i : Info) (name : String) (returns : Option Ty) (env : Env)
    (st : State) : ∃ s st₁, declareSub i name returns env st = (.ok s, st₁) ∧
      st₁.frames = st.frames ∧ st₁.subs.get? i.id = some s := by
  cases hsub : st.subs.get? i.id with
  | some s =>
    refine ⟨s, st, ?_, rfl, hsub⟩
    rw [declareSub, run_get_bind, hsub]
    rfl
  | none =>
    rcases hdecl : st.table.declareSub name (returns.getD defaultReturns) with ⟨s, t⟩
    refine ⟨s, { st.setTable t with subs := st.subs.put i.id s }, ?_, rfl,
      Keyed.get?_put_self _ _ _⟩
    rw [declareSub, run_get_bind, hsub]
    dsimp only
    rw [run_bind_ok (run_onTable _ env st), hdecl]
    rfl

/-- In the body of a subroutine its frame is the innermost one, and its parameter holds the
arguments. -/
theorem enterSub_frame (i : Info) (name : String) (returns : Option Ty) (env : Env) (st : State) :
    ∃ st₁ s param, enterSub i name returns env st = (.ok (), st₁) ∧
      st₁.frames = ⟨s, param.javaName⟩ :: st.frames ∧ st₁.subs.get? i.id = some s ∧
      st₁.table.lookup? "_" .array = some param := by
  obtain ⟨s, st₁, hdeclare, hframes, hknown⟩ := declareSub_known i name returns env st
  let args := (st₁.table.enter .function).declare "_" .array argsType false
  refine ⟨(st₁.setTable args.2).openSub s args.1.javaName, s, args.1,
    Plan.enterSub_run hdeclare, ?_, hknown, ?_⟩
  · rw [← hframes]
    rfl
  · exact (st₁.table.enter .function).lookup_declare "_" .array argsType false

namespace Call

variable {c : Call} {i : Info} {name : String} {returns : Option Ty} {b : Block}

/-- The definition of a subroutine is put together in the state in which its body has been walked:
the frame is that of the subroutine that the definition means. -/
theorem Ready.definition (h : c.Ready) (hs : c.stmt = .sub i name returns b) (env : Env) :
    ∃ gst s param, c.generatedIn? env = some gst ∧
      gst.frames = ⟨s, param.javaName⟩ :: c.before.frames ∧ gst.subs.get? i.id = some s ∧
      (enterSub i name returns env c.before.begin).2.table.lookup? "_" .array = some param ∧
      ∀ j ss, b = .mk j ss → ∃ d ∈ c.stmt.plan.calls env c.before.begin,
        d.stmt = .block (.mk j ss) ∧ d.after env = gst := by
  obtain ⟨st₁, s, param, henter, hframes, hknown, hparam⟩ :=
    enterSub_frame i name returns env c.before.begin
  obtain ⟨st₂, henter', ho, -⟩ := Plan.enterSub_opened i name returns env c.before.begin
  cases henter.symm.trans henter'
  have hready := h.plan
  rw [generatedIn?, hs, Stmt.plan, Plan.generatedIn?, Plan.calls, henter]
  rw [hs, Stmt.plan] at hready
  dsimp only
  cases b with
  | absent =>
    refine ⟨st₁, s, param, rfl, hframes, hknown, hparam, ?_⟩
    intro j ss hb
    cases hb
  | mk j ss =>
    have hbody : ((Block.mk j ss).planBody (.finish (.sub i name returns (.mk j ss)))).Ready
        c.before.pending.size c.before.marks st₁ := hready.opened ho rfl
    have hplan : Plan.inBlock (Stmt.planList ss (.finish (.block (.mk j ss)))) =
        (Stmt.block (.mk j ss)).plan := by
      rw [Stmt.plan]
    rw [Block.planBody, hplan] at hbody ⊢
    -- the body is called as the block that it is, and its call is balanced
    let d : Call := ⟨.block (.mk j ss), st₁⟩
    have hd : d.Ready := ⟨rfl, hbody.called⟩
    have hafter : (recovering (Stmt.block (.mk j ss)).plan.stmt.pos
        (Stmt.block (.mk j ss)).plan.exec env st₁).2 = d.after env := by
      rw [Stmt.stmt_plan, after, run_eq hd.present]
    refine ⟨d.after env, s, param, ?_, ?_, (hd.records env).subs _ _ hknown, hparam, ?_⟩
    · rw [Plan.generatedIn?, hafter]
      rfl
    · exact (hd.called env).balanced.frames.trans hframes
    · rintro _ _ ⟨rfl, rfl⟩
      refine ⟨d, ?_, rfl, rfl⟩
      rw [Plan.calls, Stmt.stmt_plan]
      exact List.mem_append_right _ List.mem_cons_self

/-- A call of a definition defines a method, with the arguments and the body that was walked. -/
theorem Ready.method (h : c.Ready) (hs : c.stmt = .sub i name returns b) (env : Env) :
    ∃ gst t m, c.method? env = some m ∧ m.returns = some t ∧ m.body = methodBody gst t b ∧
      ((enterSub i name returns env c.before.begin).2.table.lookup? "_" .array).map (·.javaName) =
        some m.param ∧
      ∀ j ss, b = .mk j ss → ∃ d ∈ c.stmt.plan.calls env c.before.begin,
        d.stmt = .block (.mk j ss) ∧ d.after env = gst := by
  obtain ⟨gst, s, param, hgst, hframes, hknown, hparam, hbody⟩ := h.definition hs env
  refine ⟨gst, s.returns, ⟨s.javaName, some s.returns, param.javaName, methodBody gst s.returns b⟩,
    ?_, rfl, rfl, by rw [hparam]; rfl, hbody⟩
  rw [method?, hgst, hs, Option.bind_some, State.methodOf?, hframes, hknown]

end Call

theorem returnCode_ne {st : State} {value : Option Expr} {code : String}
    (h : returnCode st value = .ok code) : code ≠ "" := by
  have hne (rest : String) : "return " ++ rest ≠ "" := by
    simp
  unfold returnCode at h
  split at h
  · cases h
  · cases h
    exact by decide
  · cases h
    rw [String.append_assoc]
    exact hne _
  · obtain ⟨v, -, h⟩ := exists_of_bind_ok h
    cases h
    rw [String.append_assoc]
    exact hne _

/-- A return that is generated has a line. -/
theorem Call.Ready.return_line {c : Call} {i : Info} {value : Option Expr} {env : Env}
    (h : c.Ready) (hs : c.stmt = .ret i value) (hok : c.succeeds env = true) :
    ((c.after env).lineOf? c.stmt.id).isSome = true := by
  obtain ⟨gst, code, -, hcode, htext⟩ := h.text hok
  have hreturn : returnCode gst value = .ok code := by
    rw [hs] at hcode
    exact hcode
  -- what is queued stands in front of the code and takes nothing from it
  have hline : (stmtText (c.queued env) code).code ≠ "" := by
    intro hempty
    have hwithin := stmtText_kept (c.queued env) code
    rw [hempty, Text.Within] at hwithin
    exact returnCode_ne hreturn (by simpa using hwithin)
  rw [State.lineOf?, htext, Option.bind_some, if_neg hline]
  rfl

/-! ## Trees -/

/-- The method is the one of the body: it holds the lines of the statements in order, and behind
them the default return of its type unless the source ends with a return. An absent body among the
statements is no statement of its own. -/
def State.IsMethodOf (S : State) (b : Block) (m : Method) : Prop :=
  ∃ t line, m.returns = some t ∧
    (∀ s ∈ b.stmts, s.isPresent = true → line s = S.lineOf? s.id) ∧
    m.body = Java.braces
      (b.stmts.filterMap line ++ if endsWithReturn b then [] else [defaultReturn t])

section Tree

variable (settings : Settings) (catalog : Option Catalog) (registry : Registry) (u : SourceUnit)

/-- In a walk without faults each statement of a body that is called is called itself, and its line
does not change any more when the body is done. -/
theorem tree_body_lines (hu : u.Numbered)
    (hok : (tree settings catalog registry 1 u).errors = []) {d : Call}
    (hd : d ∈ treeCalls settings catalog registry u) {j : Info} {ss : List Stmt}
    (hstmt : d.stmt = .block (.mk j ss)) {s : Stmt} (hs : s ∈ ss) (hpresent : s.isPresent = true) :
    (∃ c ∈ treeCalls settings catalog registry u, c.stmt = s) ∧
      (d.after (envOf settings catalog)).lineOf? s.id =
        (tree settings catalog registry 1 u).state.lineOf? s.id := by
  have hready := ready_of_mem_treeCalls settings catalog registry u hu d hd
  obtain ⟨c, hc, hcs⟩ : ∃ c ∈ d.stmt.plan.calls (envOf settings catalog) d.before.begin,
      c.stmt = s := by
    rw [hstmt, Stmt.plan]
    exact calls_planList ss _ _ s hs hpresent
  refine ⟨⟨c, stmtCalls_closed u.stmts _ d hd c hc, hcs⟩, ?_⟩
  -- the statement is one of the nodes of the body, which are all generated
  have haccount := d.stmt.plan.account (envOf settings catalog) hready.plan (nested_plan d.stmt)
  have hnode : s.id ∈ d.stmt.nodes := by
    rw [← hcs]
    exact (Stmt.nodes_plan_perm hready.present).mem_iff.mp (haccount.reached c hc)
  have hgenerated := tree_call_complete settings catalog registry u hu hok d hd _ hnode
  have hgrows := tree_grows settings catalog registry u hu d hd
  rw [State.lineOf?, State.lineOf?, hgrows.get hgenerated]

/-- The method of a definition in a tree without faults, and its returns. -/
theorem tree_definition (hu : u.Numbered)
    (hok : (tree settings catalog registry 1 u).errors = []) {c : Call}
    (hc : c ∈ treeCalls settings catalog registry u) {i : Info} {name : String}
    {returns : Option Ty} {b : Block} (hs : c.stmt = .sub i name returns b) :
    (∃ m, c.method? (envOf settings catalog) = some m ∧
      (tree settings catalog registry 1 u).state.IsMethodOf b m) ∧
    ∀ s ∈ b.stmts, s.isReturn = true →
      (tree settings catalog registry 1 u).state.executes s = true := by
  have hready := ready_of_mem_treeCalls settings catalog registry u hu c hc
  obtain ⟨gst, t, m, hm, ht, hbody, -, hwalked⟩ := hready.method hs (envOf settings catalog)
  have hmethod : m.body = Java.braces ((b.stmts.filterMap fun s => gst.lineOf? s.id) ++
      if endsWithReturn b then [] else [defaultReturn t]) := by
    rw [hbody, methodBody_eq]
    rfl
  cases b with
  | absent =>
    exact ⟨⟨m, hm, t, _, ht, fun s hs => absurd hs List.not_mem_nil, hmethod⟩,
      fun s hs => absurd hs List.not_mem_nil⟩
  | mk j ss =>
    obtain ⟨d, hd, hstmt, rfl⟩ := hwalked j ss rfl
    have hmem := stmtCalls_closed u.stmts (envOf settings catalog) c hc d hd
    have hlines {s : Stmt} (hs : s ∈ ss) (hpresent : s.isPresent = true) :=
      tree_body_lines settings catalog registry u hu hok hmem hstmt hs hpresent
    refine ⟨⟨m, hm, t, _, ht, fun s hs hpresent => (hlines hs hpresent).2, hmethod⟩, ?_⟩
    intro s hs hreturn
    obtain ⟨k, value, rfl⟩ : ∃ k value, s = .ret k value := by
      cases s with
      | ret k value => exact ⟨k, value, rfl⟩
      | _ => cases hreturn
    obtain ⟨⟨r, hr, hrs⟩, -⟩ := hlines hs rfl
    have hrready := ready_of_mem_treeCalls settings catalog registry u hu r hr
    have hsucceeds := tree_calls_succeed settings catalog registry u hu hok r hr
    have hline := hrready.return_line hrs hsucceeds
    -- the line of the return stays
    have hgenerated := hrready.succeeds_eq (envOf settings catalog)
    rw [hsucceeds] at hgenerated
    have hgrows := tree_grows settings catalog registry u hu r hr
    rw [State.lineOf?, ← hgrows.get hgenerated.symm, hrs] at hline
    exact hline

/-- In a tree without faults the methods of the class are those of the definitions of subroutines in
it, at any depth. Each holds the lines of its statements and ends with the default return if the last
statement of the source is no return. So the default is written exactly where the last statement that
is executed is no return, unless a return is overlooked: one that only statements without anything
to execute stand behind, and at least one of these. -/
theorem tree_default_return_iff (hu : u.Numbered)
    (hok : (tree settings catalog registry 1 u).errors = []) (made : Nat → Bool) :
    (∀ i name returns b, Part.stmt (.sub i name returns b) ∈ u.preorder made →
      (∃ m ∈ (tree settings catalog registry 1 u).state.methods,
        (tree settings catalog registry 1 u).state.IsMethodOf b m) ∧
      ((endsWithReturn b = false ↔
          (tree settings catalog registry 1 u).state.lastReturns b = false) ↔
        ¬(tree settings catalog registry 1 u).state.Overlooks b)) ∧
    ∀ m ∈ (tree settings catalog registry 1 u).state.methods,
      ∃ i name returns b, Part.stmt (.sub i name returns b) ∈ u.preorder made ∧
        (tree settings catalog registry 1 u).state.IsMethodOf b m := by
  have hmethods := tree_methods settings catalog registry u hu
  constructor
  · intro i name returns b hs
    have hmem : Stmt.sub i name returns b ∈ allStmts u.stmts := (mem_allStmts made _ _).mpr hs
    obtain ⟨c, hc, hcs⟩ := tree_called settings catalog registry u hu hok hmem
    obtain ⟨⟨m, hm, hbody⟩, hreturns⟩ :=
      tree_definition settings catalog registry u hu hok hc hcs
    refine ⟨⟨m, ?_, hbody⟩, State.default_iff hreturns⟩
    rw [hmethods]
    exact List.mem_filterMap.mpr ⟨c, hc, hm⟩
  · intro m hm
    rw [hmethods] at hm
    obtain ⟨c, hc, hcm⟩ := List.mem_filterMap.mp hm
    have hmem := stmt_mem_allStmts u.stmts (envOf settings catalog) c hc
    -- only a definition has a method
    obtain ⟨i, name, returns, b, hs⟩ : ∃ i name returns b, c.stmt = .sub i name returns b := by
      obtain ⟨gst, -, hgst⟩ := Option.bind_eq_some_iff.mp hcm
      cases hs : c.stmt with
      | sub i name returns b => exact ⟨i, name, returns, b, rfl⟩
      | _ =>
        rw [hs] at hgst
        cases hgst
    obtain ⟨⟨m', hm', hbody⟩, -⟩ := tree_definition settings catalog registry u hu hok hc hs
    cases hcm.symm.trans hm'
    rw [hs] at hmem
    exact ⟨i, name, returns, b, (mem_allStmts made _ _).mp hmem, hbody⟩

end Tree

/-- A file with a subroutine of integers. -/
def subroutine (body : List Stmt) : SourceUnit where
  file := "f.pl"
  className := ""
  stmts := [.sub ⟨1, default⟩ "f" (some .integer) (.mk ⟨2, default⟩ body)]

/-- A return with a comment in front. -/
def announcedReturn : List Stmt :=
  [.comment ⟨3, default⟩ "# one", .ret ⟨4, default⟩ (some (.number ⟨5, default⟩ "1"))]

/-- A return with a comment behind. -/
def commentedReturn : List Stmt :=
  [.ret ⟨3, default⟩ (some (.number ⟨4, default⟩ "1")), .comment ⟨5, default⟩ "# one"]

/-- No default is written behind a return that ends the source. -/
theorem announcedReturn_method :
    (subroutine announcedReturn).Numbered ∧
    (tree {} none {} 1 (subroutine announcedReturn)).errors = [] ∧
    (tree {} none {} 1 (subroutine announcedReturn)).state.methods.map (·.body) =
      ["\x7b\n    return 1;\n\x7d"] ∧
    ¬(tree {} none {} 1 (subroutine announcedReturn)).state.Overlooks
      (.mk ⟨2, default⟩ announcedReturn) := by
  have hu : (subroutine announcedReturn).Numbered := by decide
  have hok : (tree {} none {} 1 (subroutine announcedReturn)).errors = [] := by decide +kernel
  -- the general theorem is asked for the one subroutine of the tree
  obtain ⟨hsubs, -⟩ := tree_default_return_iff {} none {} _ hu hok (fun _ => false)
  obtain ⟨-, hdefault⟩ := hsubs ⟨1, default⟩ "f" (some .integer) (.mk ⟨2, default⟩ announcedReturn)
    (.head _)
  have hlast : (tree {} none {} 1 (subroutine announcedReturn)).state.lastReturns
      (.mk ⟨2, default⟩ announcedReturn) = true := by
    decide +kernel
  have hends : endsWithReturn (.mk ⟨2, default⟩ announcedReturn) = true := rfl
  refine ⟨hu, hok, by decide +kernel, hdefault.mp ?_⟩
  rw [hlast, hends]

/-- A return is overlooked if a comment stands behind it: its method returns twice. -/
theorem commentedReturn_returns_twice :
    (subroutine commentedReturn).Numbered ∧
    (tree {} none {} 1 (subroutine commentedReturn)).errors = [] ∧
    (tree {} none {} 1 (subroutine commentedReturn)).state.lastReturns
      (.mk ⟨2, default⟩ commentedReturn) = true ∧
    (tree {} none {} 1 (subroutine commentedReturn)).state.methods.map (·.body) =
      ["\x7b\n    return 1;\n    return null;\n\x7d"] := by
  refine ⟨by decide, ?_, ?_, ?_⟩
  · decide +kernel
  · decide +kernel
  · decide +kernel

end Compile

end TypedPerl
