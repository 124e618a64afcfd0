import TypedPerl.Proofs.Access.ReadWrite
import TypedPerl.Proofs.Tree.Nodes
import TypedPerl.Proofs.Walk.Steady

/-!
# Expressions in the walk

Resolving names and generating the code of an expression are steady steps: they queue declarations
and enter names, and nothing else of what statements rely on changes. From one such fact for each
function follows the main statement: the walk over an expression generates exactly the nodes of the
expression.
-/

namespace TypedPerl

/-! ## Names do not open scopes -/

namespace Table

variable {τ : Type}

theorem depth_putInnermost (t : Table τ) (b : Binding τ) : (t.putInnermost b).depth = t.depth := by
  unfold putInnermost depth
  split
  · rename_i s rest h
    rw [h]
    rfl
  · rename_i h
    rw [h]

theorem depth_declare (t : Table τ) (name : String) (sigil : Sigil) (type : τ) (isPublic : Bool) :
    (t.declare name sigil type isPublic).2.depth = t.depth := by
  unfold declare
  dsimp only
  split
  · exact depth_putInnermost _ _
  · exact depth_putInnermost _ _

theorem depth_declareSub (t : Table τ) (name : String) (returns : τ) :
    (t.declareSub name returns).2.depth = t.depth := by
  unfold declareSub
  dsimp only
  split
  · rfl
  · rfl

theorem depth_openPackage (t : Table τ) (name : String) :
    (t.openPackage name).2.depth = t.depth := by
  unfold openPackage
  split
  · rfl
  · rfl

theorem depth_foldl_announce {κ : Type} (f : κ → String) (type : τ) (xs : List κ) :
    ∀ t : Table τ, (xs.foldl (fun t x => t.announce (f x) type) t).depth = t.depth := by
  induction xs with
  | nil =>
    intro t
    rfl
  | cons x xs ih =>
    intro t
    exact ih (t.announce (f x) type)

end Table

/-! ## Captured pieces -/

namespace Path

theorem depth_capture (t : Option Ty) (code : String) (acc : AccessState) :
    (capture t code acc).2.table.depth = acc.table.depth := rfl

theorem pending_capture (t : Option Ty) (code : String) (acc : AccessState) :
    acc.pending.decls <+: (capture t code acc).2.pending.decls :=
  List.prefix_append _ _

/-- A piece that is held opens no scope and only adds declarations. -/
theorem pieceOnce_extends {repeatable : Bool} {t : Option Ty} {code : String}
    {codes : String × String} {acc acc' : AccessState}
    (h : pieceOnce repeatable t code acc = (codes, acc')) :
    acc'.table.depth = acc.table.depth ∧ acc.pending.decls <+: acc'.pending.decls := by
  unfold pieceOnce at h
  split at h
  · cases h
    exact ⟨rfl, List.prefix_refl _⟩
  · obtain rfl : (capture t code acc).2 = acc' := congrArg Prod.snd h
    exact ⟨depth_capture t code acc, pending_capture t code acc⟩

/-- Reading and writing a path in one expression opens no scope and only adds declarations. -/
theorem readWrite_extends {nullChecks : Bool} {p : Path} {acc acc' : AccessState} {rw : ReadWrite}
    (h : p.readWrite nullChecks acc = .ok (rw, acc')) :
    acc'.table.depth = acc.table.depth ∧ acc.pending.decls <+: acc'.pending.decls := by
  cases hderef : p.deref with
  | true =>
    obtain ⟨cell, t, r, w, -, hbase, -⟩ := readWrite_cell hderef h
    exact pieceOnce_extends hbase
  | false =>
    obtain ⟨-, cont, k, kt, rb, wb, rk, wk, acc₁, -, -, hbase, hkeys, -⟩ :=
      readWrite_element hderef h
    obtain ⟨hdepth, hpending⟩ := pieceOnce_extends hbase
    obtain ⟨hdepth', hpending'⟩ := pieceOnce_extends hkeys
    exact ⟨hdepth'.trans hdepth, hpending.trans hpending'⟩

end Path

namespace Compile

open Fault (Walkable)
open State (Extends)

variable {nodes : List Nat}

/-! ## Resolving names -/

theorem complain_steady {α : Type} {code : Code} (h : code ∈ Code.ofWalk) (pos : Pos)
    (message : String) : Steady nodes (complain code pos message : Compile α) :=
  .throw (Fault.walkable_report h)

theorem resolvePackage_steady (name : String) (pos : Pos) :
    Steady nodes (resolvePackage name pos) := by
  refine .bind .get fun st => ?_
  split
  · exact .pure _
  · refine .bind .read fun env => ?_
    split
    · exact complain_steady (by decide) _ _
    · split
      · -- the catalog's own fault gets the code of an unknown package
        rename_i f hget
        have hcode : Code.unknownPackage ∈ Code.ofWalk := by decide
        obtain ⟨r, cause, heq, hr⟩ :=
          (Catalog.get_raises _ name f hget).walkable.locate hcode pos
        rw [heq]
        exact .throw (Fault.walkable_report hr)
      · exact .onTable fun t => rfl

theorem resolveUse_steady (pos : Pos) (name : String) : Steady nodes (resolveUse pos name) := by
  unfold resolveUse
  split
  · exact .pure _
  · exact .bind (resolvePackage_steady _ _) fun _ => .pure _

theorem resolvePackageDecl_steady (pos : Pos) (name : String) :
    Steady nodes (resolvePackageDecl pos name) := by
  refine .bind .get fun st => ?_
  split
  · exact .pure _
  · refine .bind (.onTable fun t => t.depth_openPackage name) fun ok => ?_
    split
    · exact complain_steady (by decide) _ _
    · exact .pure _

theorem setBinding_steady (id : Nat) (b : Binding) : Steady nodes (setBinding id b) :=
  .change fun _ => .of_same rfl rfl

theorem setSub_steady (id : Nat) (s : Sub) : Steady nodes (setSub id s) :=
  .change fun _ => .of_same rfl rfl

theorem lookupVariable_steady (v : Variable) : Steady nodes (lookupVariable v) := by
  refine .bind .get fun st => ?_
  split
  · split
    · exact .pure _
    · exact complain_steady (by decide) _ _
  · split
    · exact .pure _
    · refine .bind (resolvePackage_steady _ _) fun p => ?_
      split
      · exact .pure _
      · exact complain_steady (by decide) _ _

theorem declaredType_steady (v : Variable) (fallback : Option Ty) :
    Steady nodes (declaredType v fallback) := by
  refine .bind (.onTable fun t => rfl) fun announced => ?_
  dsimp only
  split
  · exact complain_steady (by decide) _ _
  · split
    · exact .pure _
    · exact complain_steady (by decide) _ _

theorem enterVariable_steady (v : Variable) (t : Ty) : Steady nodes (enterVariable v t) :=
  .bind (.onTable fun t' => t'.depth_declare _ _ _ _) fun b => setBinding_steady _ b

theorem declareVariable_steady (v : Variable) (t : Ty) : Steady nodes (declareVariable v t) := by
  rw [declareVariable_eq]
  refine .bind .get fun st => ?_
  split
  · exact complain_steady (by decide) _ _
  · split
    · exact complain_steady (by decide) _ _
    · exact enterVariable_steady v t

theorem resolveVariableWith_steady (v : Variable) (fallback : Option Ty) :
    Steady nodes (resolveVariableWith v fallback) := by
  rw [resolveVariableWith_eq]
  refine .bind .get fun st => ?_
  split
  · exact .pure _
  · split
    · exact .bind (declaredType_steady v fallback) fun t => declareVariable_steady v t
    · exact .bind (lookupVariable_steady v) fun b => setBinding_steady _ b

theorem resolvePragma_steady (targets : List PragmaTarget) (type : Ty) :
    Steady nodes (resolvePragma targets type) :=
  .change fun _ => .setTable (Table.depth_foldl_announce _ _ _ _)

theorem resolveCall_steady (info : Info) (package name : String) :
    Steady nodes (resolveCall info package name) := by
  refine .bind .get fun st => ?_
  split
  · exact .pure _
  · split
    · split
      · exact setSub_steady _ _
      · exact complain_steady (by decide) _ _
    · split
      · exact setSub_steady _ _
      · refine .bind (resolvePackage_steady _ _) fun p => ?_
        split
        · exact setSub_steady _ _
        · exact complain_steady (by decide) _ _

/-! ## Generating code -/

theorem markEffect_steady (id : Nat) : Steady nodes (markEffect id) :=
  .change fun _ => .of_same rfl rfl

theorem nameOutput_steady (b : Binding) : Steady nodes (nameOutput b) :=
  .bind .get fun _ => .pure _

theorem localOutput_steady (v : Variable) (u : Usage) (b : Binding) :
    Steady nodes (localOutput v u b) := by
  refine .bind .get fun st => ?_
  dsimp only
  split
  · exact .bind (.change fun st => .queue _) fun _ => nameOutput_steady b
  · exact nameOutput_steady b

theorem variableOutput_steady (v : Variable) (u : Usage) : Steady nodes (variableOutput v u) := by
  rw [variableOutput_eq]
  refine .bind .get fun st => .bind (.lift (bindingOf_raises _ _)) fun b => ?_
  dsimp only
  split
  · exact .bind (.change fun st => .addField b) fun _ => localOutput_steady v u b
  · exact localOutput_steady v u b

theorem pathOutput_steady (id : Nat) (p : Path) (u : Usage) :
    Steady nodes (pathOutput id p u) := by
  have hpath : Steady nodes (modify fun st => { st with paths := st.paths.put id p } :
      Compile Unit) :=
    .change fun _ => .of_same rfl rfl
  refine .bind .read fun env => .bind hpath fun _ => ?_
  split
  · exact .bind (.lift (p.delete_raises _)) fun o => .bind (markEffect_steady id) fun _ => .pure _
  · split
    · exact .bind (.lift p.target_raises) fun t => .pure _
    · exact .bind (.lift (p.read_raises _)) fun o => .pure _

theorem choice_steady (op : String) (l : Operand) (t : Option Ty) (repeatable : Bool)
    (rc again first : String) : Steady nodes (choice op l t repeatable rc again first) := by
  refine .bind (.lift (logicalTest_raises _ _ _ _ _)) fun test => ?_
  split
  · exact .pure _
  · exact .pure _

theorem logicalValue_steady (op : String) (l r : Operand) (repeatable : Bool) :
    Steady nodes (logicalValue op l r repeatable) := by
  rw [logicalValue_eq]
  refine .bind (.lift (convert_bare _ _)) fun lc => .bind (.lift (convert_bare _ _)) fun rc => ?_
  dsimp only
  split
  · exact .bind (.pure _) fun _ => choice_steady _ _ _ _ _ _ _
  · exact .bind (.onAccess (Path.depth_capture _ _) (Path.pending_capture _ _)) fun _ =>
      choice_steady _ _ _ _ _ _ _

theorem binaryValue_steady (op : String) (l r : Operand) (repeatable : Bool) (u : Usage) :
    Steady nodes (binaryValue op l r repeatable u) := by
  unfold binaryValue
  dsimp only
  split
  · exact logicalValue_steady _ _ _ _
  · exact .bind .read fun env => .lift (binaryOp_raises _ _ _ _)

/-- The table and the queue that are put back are made from those that were read. -/
theorem updatedPath_steady (target : Expr) (env : Env) (st : State) :
    SteadyAt nodes (updatedPath target st) env st := by
  refine .lift_bind (pathOf_raises _ _) fun p _ => .lift_bind p.target_raises fun t _ => ?_
  refine .read_bind (.lift_bind (p.readWrite_raises _ _) fun r h => ?_)
  obtain ⟨hdepth, hpending⟩ := Path.readWrite_extends h
  exact ⟨.access hdepth hpending, .ok _⟩

theorem updatedPlace_steady (target : Expr) : Steady nodes (updatedPlace target) := by
  refine .get_bind fun env st => ?_
  split
  · exact .lift_bind (bindingOf_raises _ _) fun b _ => ⟨.refl _ _, .ok _⟩
  · exact updatedPath_steady _ env st
  · exact updatedPath_steady _ env st
  · exact ⟨.refl _ _, .error (Fault.bare_unsupported _).walkable⟩

theorem updateOutput_steady (place : Path.ReadWrite) (t : Option Ty) (u : Usage)
    (result : Operand) : Steady nodes (updateOutput place t u result) :=
  .bind (.lift (convert_bare _ _)) fun _ => .pure _

theorem compoundAssign_steady (op : String) (left right : Expr) (u : Usage) :
    Steady nodes (compoundAssign op left right u) := by
  rw [compoundAssign_eq]
  refine .bind (updatedPlace_steady left) fun r => ?_
  obtain ⟨place, t⟩ := r
  refine .bind .get fun st => ?_
  dsimp only
  split
  · exact .bind (logicalValue_steady _ _ _ _) fun result => updateOutput_steady _ _ _ _
  · exact .bind .read fun env => .bind (.lift (binaryOp_raises _ _ _ _)) fun result =>
      updateOutput_steady _ _ _ _

theorem assignItems_steady (nullChecks : Bool) (st : State) (src : Operand) (targets : List Expr) :
    Steady nodes (assignItems nullChecks st src targets) := by
  refine .bind (.lift (sequenceOf_raises _)) fun r => ?_
  obtain ⟨code, t⟩ := r
  exact .bind (.onTable fun _ => rfl) fun _ =>
    .bind (.lift (storeItems_raises _ _ _ _ _ _ _)) fun _ => .pure _

theorem assignSeveral_steady (nullChecks : Bool) (st : State) (src : Operand)
    (targets : List Expr) (u : Usage) :
    Steady nodes (assignSeveral nullChecks st src targets u) := by
  unfold assignSeveral
  split
  · exact assignItems_steady _ _ _ _
  · exact .throw (Fault.bare_unsupported _).walkable

theorem assignList_steady (targets : List Expr) (right : Expr) (u : Usage) :
    Steady nodes (assignList targets right u) := by
  rw [assignList_eq]
  refine .bind .read fun env => .bind .get fun st => ?_
  split
  · exact .bind (.lift (store_raises _ _ _ _ _ _)) fun r => .pure _
  · exact assignSeveral_steady _ _ _ _ _

theorem assignOutput_steady (op : String) (left right : Expr) (u : Usage) :
    Steady nodes (assignOutput op left right u) := by
  unfold assignOutput
  split
  · exact compoundAssign_steady _ _ _ _
  · split
    · exact assignList_steady _ _ _
    · exact .bind .get fun st => .bind .read fun env =>
        .bind (.lift (store_raises _ _ _ _ _ _)) fun r => .pure _

theorem stepOutput_steady (op : String) (before : Bool) (target : Expr) (u : Usage) :
    Steady nodes (stepOutput op before target u) := by
  refine .bind .get fun st => ?_
  split
  · exact .pure _
  · refine .bind .read fun env => .bind (updatedPlace_steady target) fun r => ?_
    obtain ⟨place, t⟩ := r
    refine .bind (.lift (convertNonNull_bare _ _ _)) fun rc =>
      .bind (.lift (convert_bare _ _)) fun value => ?_
    split
    · exact .pure _
    · exact .lift (beforeStep_raises _ _ _ _ _)

theorem callOutput_steady (id : Nat) (name : String) (args : List Expr) (u : Usage) :
    Steady nodes (callOutput id name args u) := by
  refine .bind .get fun st => ?_
  split
  · exact .bind (.lift (build_bare _ _)) fun list => .bind (markEffect_steady id) fun _ => .pure _
  · refine .bind .read fun env => .bind (.lift (builtin_raises _ _ _ _ _)) fun r => ?_
    obtain ⟨o, effect⟩ := r
    dsimp only
    split
    · exact .bind (markEffect_steady id) fun _ => .pure _
    · exact .pure _

/-- Generating the code of an expression is steady. -/
theorem exprOutput_steady (e : Expr) (u : Usage) : Steady nodes (exprOutput e u) := by
  refine .bind .get fun st => .bind .read fun env => ?_
  cases e with
  | number i text => exact .lift (numberOutput_raises _)
  | string i pieces es => exact .lift (stringOutput_raises _ _)
  | undef i => exact .pure _
  | var v => exact variableOutput_steady _ _
  | index i throughRef target key brace context => exact pathOutput_steady _ _ _
  | deref i target sigil => exact pathOutput_steady _ _ _
  | makeRef i target => exact .pure _
  | anonArray i es t => exact .lift (anonArrayOutput_raises _ _)
  | anonHash i es t => exact .lift (anonHashOutput_raises _ _)
  | list i es =>
    -- a list of one expression is the expression
    rcases es with _ | ⟨x, _ | ⟨y, rest⟩⟩
    · exact .lift (listOutput_raises _ _)
    · exact .pure _
    · exact .lift (listOutput_raises _ _)
  | assign i op left right => exact assignOutput_steady _ _ _ _
  | incDec i op before target => exact stepOutput_steady _ _ _ _
  | binary i op left right => exact .bind (binaryValue_steady _ _ _ _ _) fun o => .pure _
  | unary i op x => exact .lift (unaryOutput_raises _ _ _ _)
  | ternary i cond yes no => exact .lift (ternaryOutput_raises _ _ _ _)
  | call i package name args => exact callOutput_steady _ _ _ _

/-! ## Walking expressions -/

theorem resolveExpr_steady (e : Expr) : Steady nodes (resolveExpr e) := by
  unfold resolveExpr
  split
  · exact resolveVariableWith_steady _ _
  · exact resolveCall_steady _ _ _
  · exact .pure _

/-- A node is finished after its parts. -/
private theorem afterParts {parts : List Nat} {id : Nat} {x finish : Compile Unit}
    (hx : Generates parts x) (hfinish : Generates [id] finish) :
    Generates (id :: parts) (x >>= fun _ => finish) :=
  (hx.seq hfinish).congr fun n => by simp [or_comm]

/-- A node is finished after its two parts. -/
private theorem afterTwo {first second : List Nat} {id : Nat} {x y finish : Compile Unit}
    (hx : Generates first x) (hy : Generates second y) (hfinish : Generates [id] finish) :
    Generates (id :: (first ++ second)) (x >>= fun _ => y >>= fun _ => finish) :=
  (hx.seq (afterParts hy hfinish)).congr fun n => by simp [or_left_comm]

/-- Finishing an expression generates its own node. -/
theorem finishExpr_generates (e : Expr) (u : Usage) : Generates [e.id] (finishExpr e u) := by
  have hgenerate := Generates.keep (exprOutput_steady e u) e.id
  exact (Generates.of_steady ((resolveExpr_steady e).located e.pos)).seq (hgenerate.located e.pos)

mutual

/-- The walk over an expression generates the nodes of the expression, and no others. -/
theorem walkExpr_generates : ∀ (e : Expr) (u : Usage), Generates e.nodes (walkExpr e u)
  | .number i t, u => finishExpr_generates (.number i t) u
  | .undef i, u => finishExpr_generates (.undef i) u
  | .var v, u => finishExpr_generates (.var v) u
  | .string i pieces es, u =>
    afterParts (walkExprs_generates es _) (finishExpr_generates (.string i pieces es) u)
  | .index i th target key brace context, u =>
    (afterTwo (walkExpr_generates target _) (walkExpr_generates key _)
      (finishExpr_generates (.index i th target key brace context) u)).congr fun n => by
        rw [Expr.nodes_index]; rfl
  | .deref i target sigil, u =>
    afterParts (walkExpr_generates target _) (finishExpr_generates (.deref i target sigil) u)
  | .makeRef i target, u =>
    afterParts (walkExpr_generates target _) (finishExpr_generates (.makeRef i target) u)
  | .anonArray i es t, u =>
    afterParts (walkExprs_generates es _) (finishExpr_generates (.anonArray i es t) u)
  | .anonHash i es t, u =>
    afterParts (walkExprs_generates es _) (finishExpr_generates (.anonHash i es t) u)
  | .list i es, u =>
    afterParts (walkExprs_generates es _) (finishExpr_generates (.list i es) u)
  | .assign i op left right, u =>
    -- the right side is walked first
    (afterTwo (walkExpr_generates right _) (walkExpr_generates left _)
      (finishExpr_generates (.assign i op left right) u)).congr fun n => by
        simp only [Expr.nodes_assign, List.mem_cons, List.mem_append, or_comm (a := n ∈ left.nodes)]
        rfl
  | .incDec i op before target, u =>
    afterParts (walkExpr_generates target _) (finishExpr_generates (.incDec i op before target) u)
  | .binary i op left right, u =>
    (afterTwo (walkExpr_generates left _) (walkExpr_generates right _)
      (finishExpr_generates (.binary i op left right) u)).congr fun n => by
        rw [Expr.nodes_binary]; rfl
  | .unary i op x, u =>
    afterParts (walkExpr_generates x _) (finishExpr_generates (.unary i op x) u)
  | .ternary i cond yes no, u =>
    ((walkExpr_generates cond _).seq (afterTwo (walkExpr_generates yes _) (walkExpr_generates no _)
      (finishExpr_generates (.ternary i cond yes no) u))).congr fun n => by
        simp only [Expr.nodes_ternary, List.mem_cons, List.mem_append]
        exact or_left_comm
  | .call i package name args, u =>
    afterParts (walkExprs_generates args _) (finishExpr_generates (.call i package name args) u)

/-- The walk over several expressions generates the nodes of all of them, and no others. -/
theorem walkExprs_generates : ∀ (es : List Expr) (usage : Nat → Usage),
    Generates (Expr.nodesList es) (walkExprs es usage)
  | [], _ => .of_steady (.pure _)
  | e :: rest, usage =>
    ((walkExpr_generates e _).seq (walkExprs_generates rest _)).congr fun n => by simp

end

end Compile

end TypedPerl
