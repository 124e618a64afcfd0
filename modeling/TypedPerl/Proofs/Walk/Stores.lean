import TypedPerl.Proofs.Walk.Placed
import TypedPerl.Proofs.Walk.Sentences

/-!
# Texts of stores

An assignment whose value is not used is a statement: it declares those of its targets that are
variables of a method and are declared there, and the auxiliary variable of which several targets
are assigned (`sentence_assign`). Every other expression is a phrase (`phrase_exprOutput`).
-/

namespace TypedPerl.Compile

open Java (Phrase)
open Name (AliasPool)

variable {F st : State} {steps : String → Prop}

/-- The open subroutines have their arguments under names that pools hand out for them. -/
def State.Params (st : State) : Prop :=
  ∀ f ∈ st.frames, ∃ (pool : AliasPool) (visible : Bool), f.param = (pool.aliasFor "_" visible).1

/-- The names of a state are words of each state that it grows into. -/
theorem State.Params.vocabulary (h : st.Params) (hst : st.Grows F) :
    Vocabulary (Word F steps) st where
  auxiliary n := .auxiliary n
  binding _ _ hb := .bound hst (hst.known.binding hb)
  sub n s hs := .sub hst (hst.subs n s hs)
  param f hf := by
    obtain ⟨pool, visible, heq⟩ := h f hf
    rw [heq]
    exact .arguments pool visible

/-! ## Stores as statements -/

/-- The auxiliary variable that an assignment draws, with the node of the assignment: one if it
assigns several targets as a statement. -/
def rowAt (st : State) (e : Expr) (u : Usage) : List (Nat × String) :=
  match e with
  | .assign i op (.list _ targets) _ =>
    if op = "=" && u.isVoid && (singleTarget? targets).isNone then
      [(i.id, (st.table.auxiliary "").1)]
    else []
  | _ => []

section

variable {A : String → Prop}

/-- Where a store is no statement it is a phrase. -/
theorem phrase_store (h : Vocabulary A st) (nullChecks : Bool) {target : Expr}
    (htarget : PathSaid A st target) {right : Option Expr} (hright : ∀ e ∈ right, RowSaid A st e)
    {o : Operand} (ho : Phrase A o.code) :
    Gives (store nullChecks st target right o false) fun r => Phrase A r.1 := by
  have hpath := phrase_storePath nullChecks htarget hright ho
  cases target with
  | var v =>
    refine .bind (bindingOf_gives st v) fun b hb => ?_
    refine .bind (phrase_valueFor hright ho _) fun value hvalue => .pure ?_
    exact .between (.atom (h.binding v b hb)) rfl hvalue
  | index i throughRef target key brace context => exact hpath
  | deref i target sigil => exact hpath
  | _ => exact .throw _

end

section

variable (hst : st.Grows F) (h : Vocabulary (Word F steps) st)

include hst h

/-- A store that is a statement declares its target if that is a variable of a method that is
declared here. -/
theorem sentence_store (nullChecks : Bool) {target : Expr}
    (htarget : PathSaid (Word F steps) st target) {right : Option Expr}
    (hright : ∀ e ∈ right, RowSaid (Word F steps) st e) {o : Operand}
    (ho : Phrase (Word F steps) o.code) :
    Gives (store nullChecks st target right o true) fun r =>
      ∃ l, Sentence (Word F steps) F (target.asVar.filter F.isLocalDecl) [] [] l r.1 := by
  have hpath : Gives (storePath nullChecks st target right o) fun r =>
      ∃ l, Sentence (Word F steps) F [] [] [] l r.1 :=
    (phrase_storePath nullChecks htarget hright ho).mono fun r hr => ⟨_, .phrase hr⟩
  cases target with
  | var v =>
    refine .bind (bindingOf_gives st v) fun b hb => ?_
    refine .bind (phrase_valueFor hright ho _) fun value hvalue => ?_
    -- the variable is declared here in the end if it is now
    have hlocal := hst.known.isLocalDecl hb
    rw [Bool.true_and, ← hlocal, Expr.asVar]
    refine .ite (fun hdecl => .pure ⟨.decl b.javaName .done, ?_⟩) fun hdecl =>
      .pure ⟨.done, ?_⟩
    · rw [List.filter_cons_of_pos hdecl]
      exact .declaration hdecl (hst.known.binding hb) hvalue
    · rw [List.filter_cons_of_neg hdecl]
      exact .phrase (.between (.atom (h.binding v b hb)) rfl hvalue)
  | index i throughRef target key brace context => exact hpath
  | deref i target sigil => exact hpath
  | _ => exact .throw _

/-- The targets of a list are stored to one after the other. -/
theorem lines_storeItems (nullChecks : Bool) {aux : String} (haux : Word F steps aux)
    (t : Option Ty) (targets : List Expr) (htargets : ∀ x ∈ targets, PathSaid (Word F steps) st x) :
    ∀ (i : Nat) (consumed : Bool), Gives (storeItems nullChecks st aux t i consumed targets)
      fun lines => ∃ l, Lines (Word F steps) F
        ((targets.flatMap Expr.asVar).filter F.isLocalDecl) [] [] l lines := by
  induction targets with
  | nil => exact fun i consumed => .ok ⟨_, .nil⟩
  | cons target rest ih =>
    intro i consumed
    obtain ⟨htarget, hrest⟩ := List.forall_mem_cons.mp htargets
    rw [storeItems, List.flatMap_cons, List.filter_append]
    refine .ite (fun hundef => ?_) fun _ => ?_
    · -- an undefined value is no variable
      have hnone : target.asVar = [] := by
        cases target with
        | undef i => rfl
        | _ => cases hundef
      rw [hnone]
      exact ih hrest _ _
    · have hitem := phrase_listItem haux t i target consumed
      refine .bind (sentence_store hst h nullChecks htarget
        (fun e he => absurd he (Option.not_mem_none e)) hitem) ?_
      rintro r ⟨l, hr⟩
      refine .bind (ih hrest _ _) ?_
      rintro lines ⟨l', hlines⟩
      exact .pure ⟨_, .cons hr hlines⟩

/-- Several targets are assigned from an auxiliary variable, which is declared before them. -/
theorem sentence_assignItems (nullChecks : Bool) {src : Operand}
    (hsrc : Phrase (Word F steps) src.code) {targets : List Expr}
    (htargets : ∀ x ∈ targets, PathSaid (Word F steps) st x) (env : Env) :
    GivesAt (assignItems nullChecks st src targets) env st fun out =>
      ∃ l, Sentence (Word F steps) F ((targets.flatMap Expr.asVar).filter F.isLocalDecl)
        [(st.table.auxiliary "").1] [] l out.code := by
  refine .lift_bind (phrase_sequenceOf hsrc) fun row hrow => .bind fun aux st₁ haux => ?_
  cases haux
  refine .lift_bind
    (lines_storeItems hst h nullChecks (h.auxiliary _) _ targets htargets 0 false) ?_
  rintro lines ⟨l, hlines⟩
  have hfirst := ((Sentence.auxiliary (A := Word F steps) (F := F) row.2
    (st.table.pool.count "" + 1)).before (.phrase (@Phrase.piece _ " = ".toList rfl))).before
    (.phrase hrow)
  exact .pure ⟨_, (Lines.cons hfirst hlines).join (.separator (by decide))⟩

/-- An assignment that is a statement declares its targets, and the auxiliary variable that it draws
for several of them. -/
theorem sentence_assign (i : Info) {left right : Expr} {u : Usage} (hu : u.isVoid = true)
    (hleft : ∀ x ∈ left.preorder, PathSaid (Word F steps) st x)
    (hright : Said (Word F steps) st right) (hrow : RowSaid (Word F steps) st right) (env : Env) :
    GivesAt (assignOutput "=" left right u) env st fun out =>
      ∃ l, Sentence (Word F steps) F (left.targetVars.filter F.isLocalDecl)
        ((rowAt st (.assign i "=" left right) u).map (·.2)) [] l out.code := by
  have hrows : ∀ e ∈ some right, RowSaid (Word F steps) st e := fun e he =>
    Option.mem_some.mp he ▸ hrow
  have hwrap (code : String) : wrap u code = code := by rw [wrap, if_pos hu]
  have hstore {target : Expr} (htarget : PathSaid (Word F steps) st target) {o : Operand}
      (ho : Phrase (Word F steps) o.code) (nullChecks : Bool) :
      GivesAt (do
        let r ← store nullChecks st target (some right) o u.isVoid
        return { code := wrap u r.1, type := r.2 } : Compile Output) env st fun out =>
        ∃ l, Sentence (Word F steps) F (target.asVar.filter F.isLocalDecl) [] [] l out.code := by
    rw [hu]
    refine .lift_bind (sentence_store hst h nullChecks htarget hrows ho) ?_
    rintro r ⟨l, hr⟩
    refine .pure ⟨l, ?_⟩
    rw [hwrap]
    exact hr
  unfold assignOutput
  rw [if_neg (by simp)]
  cases left with
  | list j targets =>
    have htargets : ∀ x ∈ targets, PathSaid (Word F steps) st x := fun x hx =>
      hleft x (mem_preorder_of_part (u := .scalar) (List.mem_map_of_mem hx) x.self_mem_preorder)
    dsimp only
    rw [assignList_eq]
    refine .read_bind (.get_bind ?_)
    split
    · -- a single target takes the first value
      next target hsingle =>
      rw [rowAt, hsingle, Option.isNone_some, Bool.and_false, if_neg Bool.false_ne_true]
      obtain rfl := singleTarget?_eq_some hsingle
      have hone := hstore (o := { st.operandOf right with
        multi := (st.operandOf right).multi || (st.operandOf right).isSequence,
        firstOfMany := true }) (htargets target List.mem_cons_self) hright env.nullChecks
      rw [Expr.targetVars, List.flatMap_singleton]
      exact hone
    · next hsingle =>
      rw [rowAt, hsingle, hu]
      unfold assignSeveral
      rw [if_pos hu]
      have hsrc : Phrase (Word F steps) (st.operandOf right).code := hright
      exact sentence_assignItems hst h env.nullChecks hsrc htargets env
  | _ =>
    exact hstore (hleft _ (Expr.self_mem_preorder _)) (o := st.operandOf right) hright
      env.nullChecks

end

/-! ## Every other expression is a phrase -/

section

variable {A : String → Prop} (h : Vocabulary A st)

include h

omit h in
/-- The path of an access consists of phrases if its parts are phrases. -/
theorem phrased_access {e : Expr} {u : Usage} (hsaid : ∀ p ∈ e.parts u, Said A st p.1)
    (hrow : ∀ p ∈ e.parts u, RowSaid A st p.1) {p : Path} (hp : accessOf? st e = some p) :
    p.Phrased A := by
  cases e with
  | index i throughRef target key brace context =>
    cases hp
    have hkey : (key, keyUsage key context) ∈
        (Expr.index i throughRef target key brace context).parts u :=
      List.mem_cons_of_mem _ List.mem_cons_self
    refine ⟨hsaid _ List.mem_cons_self, ?_⟩
    -- a key is one value or a row of them
    unfold accessPath
    dsimp only
    split
    · next es hseveral => exact forall_operands (hrow _ hkey es hseveral)
    · exact List.forall_mem_singleton.mpr (hsaid _ hkey)
  | deref i target sigil =>
    cases hp
    exact ⟨hsaid _ (List.mem_singleton_self _), fun k hk => absurd hk List.not_mem_nil⟩
  | _ => cases hp

theorem phrase_variableOutput (v : Variable) (u : Usage) (env : Env) :
    GivesAt (variableOutput v u) env st fun out => Phrase A out.code := by
  intro out st' hrun
  rcases hb : st.binding? v with _ | b
  · rw [run_variableOutput_unbound hb u] at hrun
    cases hrun
  · obtain ⟨fields, hnamed⟩ := run_variableOutput hb u env
    rw [hnamed] at hrun
    cases hrun
    exact .atom (h.binding v b hb)

theorem phrase_assignOutput (op : String) {left right : Expr} {u : Usage}
    (hleft : ∀ x ∈ left.preorder, PathSaid A st x) (hright : Said A st right)
    (hrow : RowSaid A st right) (hstore : u.isVoid = true → op ≠ "=") (env : Env) :
    GivesAt (assignOutput op left right u) env st fun out => Phrase A out.code := by
  have hrows : ∀ e ∈ some right, RowSaid A st e := fun e he => Option.mem_some.mp he ▸ hrow
  unfold assignOutput
  split
  · exact phrase_compoundAssign h op (hleft _ (Expr.self_mem_preorder _)) hright u env
  · next hop =>
    have hu : u.isVoid = false := Bool.eq_false_iff.mpr fun hu => hop (hstore hu)
    split
    · next j targets =>
      rw [assignList_eq]
      refine .read_bind (.get_bind ?_)
      split
      · next target hsingle =>
        obtain rfl := singleTarget?_eq_some hsingle
        have htarget : target ∈ (Expr.list j [target]).preorder :=
          mem_preorder_of_part (u := .scalar) (List.mem_singleton_self _) target.self_mem_preorder
        refine .lift_bind (hu ▸ phrase_store h env.nullChecks (hleft target htarget) hrows
          (o := { st.operandOf right with
            multi := (st.operandOf right).multi || (st.operandOf right).isSequence,
            firstOfMany := true }) hright) fun r hr => .pure (phrase_wrap u hr)
      · unfold assignSeveral
        rw [if_neg (by rw [hu]; exact Bool.false_ne_true)]
        exact .throw _
    · refine .get_bind (.read_bind (.lift_bind (hu ▸ phrase_store h env.nullChecks
        (hleft _ (Expr.self_mem_preorder _)) hrows (o := st.operandOf right) hright)
        fun r hr => .pure (phrase_wrap u hr)))

/-- The code of an expression is a phrase if the code of its parts is, unless it is an assignment as
a statement. -/
theorem phrase_exprOutput {e : Expr} {u : Usage} (hsaid : ∀ p ∈ e.parts u, Said A st p.1)
    (hrow : ∀ p ∈ e.parts u, RowSaid A st p.1)
    (hpath : ∀ p ∈ e.parts u, ∀ x ∈ p.1.preorder, PathSaid A st x)
    (hstep : ∀ i op before target, e = .incDec i op before target → StepSaid A op)
    (hstore : u.isVoid = true → ∀ i left right, e ≠ .assign i "=" left right) (env : Env) :
    GivesAt (exprOutput e u) env st fun out => Phrase A out.code := by
  have hself {p : Expr × Usage} (hp : p ∈ e.parts u) : PathSaid A st p.1 :=
    hpath p hp p.1 p.1.self_mem_preorder
  have heach {es : List Expr} {v : Usage} (hes : ∀ x ∈ es, (x, v) ∈ e.parts u) :
      ∀ x ∈ es, Said A st x := fun x hx => hsaid (x, v) (hes x hx)
  refine .get_bind (.read_bind ?_)
  cases e with
  | number i text => exact .lift (phrase_numberOutput text)
  | string i pieces es =>
    exact .lift (phrase_stringOutput pieces (forall_operands
      (heach fun x hx => List.mem_map_of_mem hx)))
  | undef i => exact .pure (@Phrase.piece _ "null".toList rfl)
  | var v => exact phrase_variableOutput h v u env
  | index i throughRef target key brace context =>
    exact phrase_pathOutput i.id (phrased_access hsaid hrow rfl) u env st
  | deref i target sigil =>
    exact phrase_pathOutput i.id (phrased_access hsaid hrow rfl) u env st
  | makeRef i target =>
    exact .pure (Operand.phrase_makeRef (hsaid _ (List.mem_singleton_self _)))
  | anonArray i es t =>
    exact .lift (phrase_anonArrayOutput (forall_operands
      (heach fun x hx => List.mem_map_of_mem hx)) t)
  | anonHash i es t =>
    exact .lift (phrase_anonHashOutput (forall_operands
      (heach fun x hx => List.mem_map_of_mem hx)) t)
  | list i es =>
    have hall : ∀ x ∈ es, Said A st x := heach fun x hx => List.mem_map_of_mem hx
    rcases es with _ | ⟨x, _ | ⟨y, rest⟩⟩
    · exact .lift (phrase_listOutput fun _ => forall_operands hall)
    · exact .pure (hall x List.mem_cons_self)
    · exact .lift (phrase_listOutput fun _ => forall_operands hall)
  | assign i op left right =>
    have hright : (right, sourceUsage left) ∈ (Expr.assign i op left right).parts u :=
      List.mem_cons_self
    have hleft : (left, targetUsage op u) ∈ (Expr.assign i op left right).parts u :=
      List.mem_cons_of_mem _ List.mem_cons_self
    refine phrase_assignOutput h op (hpath _ hleft) (hsaid _ hright) (hrow _ hright)
      (fun hu hop => ?_) env
    subst hop
    exact hstore hu i left right rfl
  | incDec i op before target =>
    exact phrase_stepOutput h (hstep i op before target rfl) before
      (hself (List.mem_singleton_self _)) u env
  | binary i op left right =>
    have hl := hsaid (left, leftUsage op u) List.mem_cons_self
    have hr := hsaid (right, rightUsage op u) (List.mem_cons_of_mem _ List.mem_cons_self)
    exact .bind fun o st' hrun => .pure (phrase_binaryValue (l := st.operandOf left)
      (r := st.operandOf right) hl hr h.auxiliary op _ u env st o st' hrun)
  | unary i op x =>
    have hx := hsaid _ (List.mem_singleton_self _)
    exact .lift (phrase_unaryOutput _ op hx hx)
  | ternary i cond yes no =>
    exact .lift (phrase_ternaryOutput _ (hsaid (cond, .boolean) List.mem_cons_self)
      (hsaid (yes, branchUsage u) (List.mem_cons_of_mem _ List.mem_cons_self))
      (hsaid (no, branchUsage u)
        (List.mem_cons_of_mem _ (List.mem_cons_of_mem _ List.mem_cons_self))))
  | call i package name args =>
    have hargs {x : Expr} (hx : x ∈ args) :
        ∃ v, (x, v) ∈ (Expr.call i package name args).parts u := by
      obtain ⟨n, hn, rfl⟩ := List.mem_iff_getElem.mp hx
      exact ⟨_, List.mem_mapIdx.mpr ⟨n, hn, rfl⟩⟩
    refine phrase_callOutput h i.id name (fun x hx => ?_) (fun x hx => ?_) u env
    · obtain ⟨v, hv⟩ := hargs hx
      exact hsaid _ hv
    · obtain ⟨v, hv⟩ := hargs hx
      exact hself hv

end

end TypedPerl.Compile
