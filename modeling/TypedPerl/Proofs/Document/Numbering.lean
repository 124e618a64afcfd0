import Mathlib.Data.List.Perm.Subperm
import TypedPerl.Document.SourceUnit
import TypedPerl.Proofs.Tree.Nodes

/-!
# Decoded trees are numbered

A reader of tree documents takes the number of each node from a counter. `Numbers x post` says that
a run of `x` takes some new numbers, all different, and that what it gives stands in the relation
`post` to them; the relation that matters is that the nodes of the result are among the new numbers,
each once. Runs that follow each other take their numbers from stretches of the counter that do not
overlap (`Numbers.bind`). The main result is that every decoded tree is numbered.
-/

namespace TypedPerl.Document

open Yaml (Node)

variable {α β : Type}

/-! ## Readers that number nodes -/

theorem run_bind (x : Decode α) (k : α → Decode β) (src : Source) (n : Nat) :
    (x >>= k) src n = match x src n with
      | .ok (a, n') => k a src n'
      | .error f => .error f := by
  show Except.bind (x src n) _ = _
  rcases x src n with f | ⟨a, n'⟩
  · rfl
  · rfl

/-- Each run of the reader takes new numbers, all different, and `post` relates its result to
them. -/
def Numbers (x : Decode α) (post : α → List Nat → Prop) : Prop :=
  ∀ src n a n', x src n = .ok (a, n') →
    n ≤ n' ∧ ∃ new : List Nat, new.Nodup ∧ (∀ i ∈ new, n ≤ i ∧ i < n') ∧ post a new

/-- The reader takes no numbers. -/
def Plain (x : Decode α) : Prop :=
  Numbers x fun _ new => new = []

namespace Numbers

variable {post : α → List Nat → Prop} {post' : β → List Nat → Prop}

theorem pure {a : α} (h : post a []) : Numbers (Pure.pure a) post := by
  intro src n b n' hrun
  cases hrun
  exact ⟨Nat.le_refl _, [], List.nodup_nil, by simp, h⟩

theorem throw (f : Fault) : Numbers (throw f : Decode α) post := by
  intro src n a n' hrun
  cases hrun

theorem refuse (node : Node) (message : String) : Numbers (Document.refuse node message) post := by
  intro src n a n' hrun
  cases hrun

/-- The numbers of a second run lie behind those of the first. -/
theorem bind {x : Decode α} {k : α → Decode β} (hx : Numbers x post)
    (hk : ∀ a old, post a old → Numbers (k a) fun b new => post' b (old ++ new)) :
    Numbers (x >>= k) post' := by
  intro src n b n' hrun
  rw [run_bind] at hrun
  rcases hx' : x src n with f | ⟨a, n₁⟩
  · rw [hx'] at hrun
    cases hrun
  · rw [hx'] at hrun
    obtain ⟨hle, old, hold, hrange, hpost⟩ := hx src n a n₁ hx'
    obtain ⟨hle', new, hnew, hrange', hpost'⟩ := hk a old hpost src n₁ b n' hrun
    -- the old numbers lie below the counter in between, and the new ones do not
    refine ⟨Nat.le_trans hle hle', old ++ new, ?_, fun i hi => ?_, hpost'⟩
    · refine List.nodup_append.mpr ⟨hold, hnew, fun i hi j hj => ?_⟩
      have hlow := (hrange i hi).2
      have hhigh := (hrange' j hj).1
      omega
    · rcases List.mem_append.mp hi with hi | hi
      · have hlow := hrange i hi
        omega
      · have hhigh := hrange' i hi
        omega

/-- A reader that takes no numbers, before one that may. -/
theorem skip {x : Decode α} {k : α → Decode β} (hx : Plain x) (hk : ∀ a, Numbers (k a) post') :
    Numbers (x >>= k) post' := by
  refine bind hx fun a old hold => ?_
  cases hold
  exact hk a

theorem map {x : Decode α} {f : α → β} (hx : Numbers x post)
    (hf : ∀ a new, post a new → post' (f a) new) : Numbers (f <$> x) post' := by
  rw [map_eq_pure_bind]
  refine bind hx fun a old hold => pure ?_
  rw [List.append_nil]
  exact hf a old hold

theorem mono {x : Decode α} {stronger : α → List Nat → Prop} (hx : Numbers x stronger)
    (h : ∀ a new, stronger a new → post a new) : Numbers x post := by
  intro src n a n' hrun
  obtain ⟨hle, new, hnew, hrange, hpost⟩ := hx src n a n' hrun
  exact ⟨hle, new, hnew, hrange, h a new hpost⟩

/-- Reading several nodes in order, each of which numbers its own. -/
theorem mapM {γ : Type} {f : γ → Decode α} {ids : α → List Nat}
    (hf : ∀ x, Numbers (f x) fun a new => (ids a).Subperm new) (xs : List γ) :
    Numbers (xs.mapM f) fun as new => (as.flatMap ids).Subperm new := by
  induction xs with
  | nil => exact pure (List.Subperm.refl [])
  | cons x xs ih =>
    rw [List.mapM_cons]
    refine bind (hf x) fun a old hold => bind ih fun as new hnew => pure ?_
    rw [List.append_nil, List.flatMap_cons]
    exact hold.append hnew

end Numbers

theorem freshId_numbers : Numbers freshId fun i new => new = [i] := by
  intro src n i n' hrun
  cases hrun
  exact ⟨Nat.le_succ _, [n], by simp, by simp, rfl⟩

/-! ## Fields -/

theorem plain_read : Plain (read : Decode Source) := by
  intro src n a n' hrun
  cases hrun
  exact ⟨Nat.le_refl _, [], List.nodup_nil, by simp, rfl⟩

theorem fields_plain (n : Node) : Plain (fields n) := by
  refine .skip plain_read fun src => ?_
  split
  · exact .pure rfl
  · exact .refuse _ _

namespace Fields

variable (f : Fields) (key : String)

theorem text_plain : Plain (f.text key) := by
  unfold text
  split
  · exact .pure rfl
  · exact .pure rfl
  · exact .refuse _ _

theorem required_plain : Plain (f.required key) := by
  refine .skip (text_plain f key) fun t => ?_
  split
  · exact .refuse _ _
  · exact .pure rfl

theorem flag_plain : Plain (f.flag key) := by
  unfold flag
  split
  · exact .pure rfl
  · refine .skip plain_read fun src => ?_
    split
    · exact .pure rfl
    · exact .refuse _ _

theorem number_plain : Plain (f.number key) := by
  unfold number
  split
  · exact .pure rfl
  · refine .skip plain_read fun src => ?_
    split
    · exact .pure rfl
    · exact .refuse _ _

theorem type_plain : Plain (f.type key) := by
  refine .skip (text_plain f key) fun t => ?_
  split
  · exact .pure rfl
  · split
    · exact .pure rfl
    · exact .skip plain_read fun src => .throw _

theorem sigil_plain : Plain (f.sigil key) := by
  refine .skip (text_plain f key) fun t => ?_
  split
  · exact .pure rfl
  · split
    · exact .pure rfl
    · exact .refuse _ _

/-- A node has a number of its own. -/
theorem info_numbers : Numbers f.info fun i new => new = [i.id] := by
  refine .skip (number_plain f _) fun line => .skip (number_plain f _) fun column => ?_
  refine .bind freshId_numbers fun i old hold => .skip plain_read fun src => .pure ?_
  rw [hold]
  rfl

end Fields

/-! ## Expressions -/

theorem nodesList_eq_flatMap (es : List Expr) : Expr.nodesList es = es.flatMap Expr.nodes := by
  induction es with
  | nil => rfl
  | cons e es ih => rw [Expr.nodesList_cons, ih, List.flatMap_cons]

/-- The nodes of a piece of a string. -/
def pieceNodes : String ⊕ Expr → List Nat
  | .inl _ => []
  | .inr e => e.nodes

theorem nodesList_getRight (pieces : List (String ⊕ Expr)) :
    Expr.nodesList (pieces.filterMap Sum.getRight?) = pieces.flatMap pieceNodes := by
  rw [nodesList_eq_flatMap]
  induction pieces with
  | nil => rfl
  | cons p pieces ih =>
    cases p with
    | inl t => simp [pieceNodes, List.filterMap_cons, ih]
    | inr e => simp [pieceNodes, ih]

/-- The nodes of what is read are among the new numbers, each once. -/
def Own (ids : α → List Nat) (a : α) (new : List Nat) : Prop :=
  (ids a).Subperm new

/-- The same for a node whose own number was taken before. -/
def OwnOf (info : Info) (ids : α → List Nat) (a : α) (new : List Nat) : Prop :=
  (ids a).Subperm (info.id :: new)

/-- A node that consists of its own number and of parts. -/
theorem ownOf_cons {info : Info} {ids : α → List Nat} {a : α} {parts new : List Nat}
    (hids : ids a = info.id :: parts) (h : parts.Subperm new) : OwnOf info ids a new := by
  unfold OwnOf
  rw [hids]
  exact (List.subperm_cons _).mpr h

section Expressions

variable {expr : Node → Decode Expr} (hexpr : ∀ n, Numbers (expr n) (Own Expr.nodes))

include hexpr

theorem requiredExpr_numbers (f : Fields) (key : String) :
    Numbers (requiredExpr expr f key) (Own Expr.nodes) := by
  unfold requiredExpr
  split
  · exact hexpr _
  · exact .refuse _ _

theorem optionalExpr_numbers (f : Fields) (key : String) :
    Numbers (optionalExpr expr f key) (Own fun e => Expr.nodesList e.toList) := by
  unfold optionalExpr
  split
  · refine .map (hexpr _) fun e new h => ?_
    show (Expr.nodesList [e]).Subperm new
    rw [Expr.nodesList_cons, Expr.nodesList_nil, List.append_nil]
    exact h
  · exact .pure (List.Subperm.refl [])

theorem exprList_numbers (f : Fields) (key : String) :
    Numbers (exprList expr f key) (Own Expr.nodesList) := by
  unfold exprList
  split
  · exact .pure (List.Subperm.refl [])
  · refine (Numbers.mapM hexpr _).mono fun es new h => ?_
    rw [Own, nodesList_eq_flatMap]
    exact h
  · exact .refuse _ _

theorem stringPiece_numbers (n : Node) : Numbers (stringPiece expr n) (Own pieceNodes) := by
  unfold stringPiece
  split
  · exact .pure (List.Subperm.refl [])
  · refine .skip (fields_plain _) fun f => ?_
    split
    · exact .map (hexpr _) fun e new h => h
    · refine .map (f.text_plain _) fun t new h => ?_
      rw [h]
      exact List.Subperm.refl []

theorem stringExpr_numbers (f : Fields) (info : Info) :
    Numbers (stringExpr expr f info) (OwnOf info Expr.nodes) := by
  unfold stringExpr
  split
  · exact .skip (f.text_plain _) fun t => .pure (List.Subperm.refl _)
  · refine .bind (Numbers.mapM (stringPiece_numbers hexpr) _) fun pieces new h => .pure ?_
    refine ownOf_cons (Expr.nodes_string _ _ _) ?_
    rw [nodesList_getRight, List.append_nil]
    exact h
  · exact .refuse _ _

omit hexpr in
theorem variableExpr_plain (f : Fields) (info : Info) :
    Numbers (variableExpr f info) fun v new => v.info = info ∧ new = [] := by
  refine .skip (f.required_plain _) fun name => .skip (f.sigil_plain _) fun sigil =>
    .skip (f.text_plain _) fun package => .skip (f.text_plain _) fun word => ?_
  split
  · exact .refuse _ _
  · exact .skip (f.type_plain _) fun t => .pure ⟨rfl, rfl⟩

theorem indexExpr_numbers (f : Fields) (info : Info) (throughRef : Bool) :
    Numbers (indexExpr expr f info throughRef) (OwnOf info Expr.nodes) := by
  refine .bind (requiredExpr_numbers hexpr f _) fun target lt ht =>
    .bind (requiredExpr_numbers hexpr f _) fun key lk hk =>
    .skip (f.flag_plain _) fun brace => .skip (f.sigil_plain _) fun context => .pure ?_
  refine ownOf_cons (Expr.nodes_index _ _ _ _ _ _) ?_
  rw [List.append_nil]
  exact ht.append hk

theorem assignExpr_numbers (f : Fields) (info : Info) :
    Numbers (assignExpr expr f info) (OwnOf info Expr.nodes) := by
  refine .skip (f.text_plain _) fun op => .bind (requiredExpr_numbers hexpr f _) fun left ll hl =>
    .bind (requiredExpr_numbers hexpr f _) fun right lr hr => .pure ?_
  refine ownOf_cons (Expr.nodes_assign _ _ _ _) ?_
  rw [List.append_nil]
  exact hl.append hr

theorem binaryExpr_numbers (f : Fields) (info : Info) :
    Numbers (binaryExpr expr f info) (OwnOf info Expr.nodes) := by
  refine .skip (f.text_plain _) fun op => .bind (requiredExpr_numbers hexpr f _) fun left ll hl =>
    .bind (requiredExpr_numbers hexpr f _) fun right lr hr => ?_
  split
  · exact .refuse _ _
  · refine .pure (ownOf_cons (Expr.nodes_binary _ _ _ _) ?_)
    rw [List.append_nil]
    exact hl.append hr

theorem incDecExpr_numbers (f : Fields) (info : Info) :
    Numbers (incDecExpr expr f info) (OwnOf info Expr.nodes) := by
  refine .skip (f.required_plain _) fun op => .skip (f.flag_plain _) fun before =>
    .bind (requiredExpr_numbers hexpr f _) fun target lt ht => .pure ?_
  refine ownOf_cons (Expr.nodes_incDec _ _ _ _) ?_
  rw [List.append_nil]
  exact ht

theorem callExpr_numbers (f : Fields) (info : Info) :
    Numbers (callExpr expr f info) (OwnOf info Expr.nodes) := by
  refine .skip (f.required_plain _) fun name => .skip (f.text_plain _) fun package =>
    .bind (exprList_numbers hexpr f _) fun args la ha => .pure ?_
  refine ownOf_cons (Expr.nodes_call _ _ _ _) ?_
  rw [List.append_nil]
  exact ha

/-- An expression of any kind has the number that was taken for it and those of its parts. -/
theorem exprOfKind_numbers (n : Node) (f : Fields) (info : Info) (kind : String) :
    Numbers (exprOfKind expr n f info kind) (OwnOf info Expr.nodes) := by
  unfold exprOfKind
  split
  · split
    · exact .pure (List.Subperm.refl _)
    · exact .refuse _ _
  · exact stringExpr_numbers hexpr f info
  · exact .pure (List.Subperm.refl _)
  · refine .map (variableExpr_plain f info) fun v new h => ?_
    -- a variable carries the position and the number that its node was read with
    obtain ⟨rfl, rfl⟩ := h
    exact List.Subperm.refl _
  · exact indexExpr_numbers hexpr f info _
  · exact indexExpr_numbers hexpr f info _
  · refine .bind (requiredExpr_numbers hexpr f _) fun target lt ht =>
      .skip (f.sigil_plain _) fun sigil => .pure (ownOf_cons (Expr.nodes_deref _ _ _) ?_)
    rw [List.append_nil]
    exact ht
  · exact .map (requiredExpr_numbers hexpr f _) fun target lt ht =>
      ownOf_cons (Expr.nodes_makeRef _ _) ht
  · refine .bind (exprList_numbers hexpr f _) fun elems le he =>
      .skip (f.type_plain _) fun t => .pure (ownOf_cons (Expr.nodes_anonArray _ _ _) ?_)
    rw [List.append_nil]
    exact he
  · refine .bind (exprList_numbers hexpr f _) fun elems le he =>
      .skip (f.type_plain _) fun t => .pure (ownOf_cons (Expr.nodes_anonHash _ _ _) ?_)
    rw [List.append_nil]
    exact he
  · exact .map (exprList_numbers hexpr f _) fun elems le he =>
      ownOf_cons (Expr.nodes_list _ _) he
  · exact assignExpr_numbers hexpr f info
  · exact binaryExpr_numbers hexpr f info
  · exact incDecExpr_numbers hexpr f info
  · exact .skip (f.required_plain _) fun op =>
      .map (requiredExpr_numbers hexpr f _) fun x lx hx => ownOf_cons (Expr.nodes_unary _ _ _) hx
  · refine .bind (requiredExpr_numbers hexpr f _) fun cond lc hc =>
      .bind (requiredExpr_numbers hexpr f _) fun yes ly hy =>
      .bind (requiredExpr_numbers hexpr f _) fun no ln hn =>
      .pure (ownOf_cons (Expr.nodes_ternary _ _ _ _) ?_)
    rw [List.append_nil]
    exact hc.append (hy.append hn)
  · exact callExpr_numbers hexpr f info
  · exact .refuse _ _

end Expressions

/-- Expressions are numbered within any number of levels. -/
theorem expr_numbers (levels : Nat) : ∀ n, Numbers (expr levels n) (Own Expr.nodes) := by
  induction levels with
  | zero =>
    intro n
    exact .throw _
  | succ levels ih =>
    intro n
    refine .skip (fields_plain n) fun f => .skip (f.required_plain _) fun kind =>
      .bind f.info_numbers fun info old hold => ?_
    -- the number of a node is taken before those of its parts
    cases hold
    exact exprOfKind_numbers ih n f info kind

/-! ## Statements -/

theorem stmtNodes_eq_flatMap (ss : List Stmt) : Stmt.nodesList ss = ss.flatMap Stmt.nodes := by
  induction ss with
  | nil => rfl
  | cons s ss ih => rw [Stmt.nodesList_cons, ih, List.flatMap_cons]

/-- The nodes of a further branch of a condition. -/
def branchNodes : ElseIf → List Nat
  | .mk i test body => i.id :: (test.nodes ++ body.nodes)

theorem branchNodes_eq_flatMap (bs : List ElseIf) :
    Stmt.nodesBranches bs = bs.flatMap branchNodes := by
  induction bs with
  | nil => rfl
  | cons b bs ih =>
    obtain ⟨i, test, body⟩ := b
    simp [branchNodes, ih]

section Statements

variable {expr : Node → Decode Expr} (hexpr : ∀ n, Numbers (expr n) (Own Expr.nodes))
variable {stmt : Node → Decode Stmt} (hstmt : ∀ n, Numbers (stmt n) (Own Stmt.nodes))

include hstmt

theorem stmtList_numbers (f : Fields) (key : String) :
    Numbers (stmtList stmt f key) (Own Stmt.nodesList) := by
  unfold stmtList
  split
  · exact .pure (List.Subperm.refl [])
  · refine (Numbers.mapM hstmt _).mono fun ss new h => ?_
    rw [Own, stmtNodes_eq_flatMap]
    exact h
  · exact .refuse _ _

theorem blockField_numbers (f : Fields) (key : String) :
    Numbers (blockField stmt f key) (Own Block.nodes) := by
  unfold blockField
  split
  · exact .pure (List.Subperm.refl [])
  · refine .bind (Numbers.mapM hstmt _) fun ss old h =>
      .bind freshId_numbers fun i new hi => .pure ?_
    -- the number of the block itself is taken behind those of its statements
    cases hi
    rw [List.append_nil, Own, Block.nodes_mk, stmtNodes_eq_flatMap]
    have hfirst : (i :: ss.flatMap Stmt.nodes).Subperm (i :: old) := (List.subperm_cons _).mpr h
    have hlast : (i :: old).Perm (old ++ [i]) := (List.perm_append_singleton i old).symm
    exact hfirst.trans hlast.subperm
  · refine .bind (hstmt _) fun s old h => ?_
    split
    · refine .pure ?_
      rw [List.append_nil]
      exact h
    · exact .refuse _ _

theorem subStmt_numbers (f : Fields) (info : Info) :
    Numbers (subStmt stmt f info) (OwnOf info Stmt.nodes) := by
  refine .skip (f.required_plain _) fun name => .skip (f.type_plain _) fun returns =>
    .bind (blockField_numbers hstmt f _) fun body old h => ?_
  split
  · -- a subroutine without a body is given an empty one with a number of its own
    refine .bind freshId_numbers fun i new hi => .pure (ownOf_cons (Stmt.nodes_sub _ _ _ _) ?_)
    cases hi
    exact (List.sublist_append_right old [i]).subperm
  · refine .pure (ownOf_cons (Stmt.nodes_sub _ _ _ _) ?_)
    rw [List.append_nil]
    exact h

include hexpr

theorem elseIf_numbers (n : Node) : Numbers (elseIf expr stmt n) (Own branchNodes) := by
  refine .skip (fields_plain n) fun f => .bind f.info_numbers fun info old hold =>
    .bind (requiredExpr_numbers hexpr f _) fun test lt ht =>
    .bind (blockField_numbers hstmt f _) fun body lb hb => .pure ?_
  cases hold
  rw [List.append_nil]
  exact (List.subperm_cons _).mpr (ht.append hb)

theorem elseIfs_numbers (f : Fields) :
    Numbers (elseIfs expr stmt f) (Own Stmt.nodesBranches) := by
  unfold elseIfs
  split
  · exact .pure (List.Subperm.refl [])
  · refine (Numbers.mapM (elseIf_numbers hexpr hstmt) _).mono fun bs new h => ?_
    rw [Own, branchNodes_eq_flatMap]
    exact h
  · exact .refuse _ _

theorem condStmt_numbers (f : Fields) (info : Info) (negated : Bool) :
    Numbers (condStmt expr stmt f info negated) (OwnOf info Stmt.nodes) := by
  refine .bind (requiredExpr_numbers hexpr f _) fun test lt ht =>
    .bind (blockField_numbers hstmt f _) fun yes ly hy =>
    .bind (blockField_numbers hstmt f _) fun no ln hn =>
    .bind (elseIfs_numbers hexpr hstmt f) fun branches lb hb =>
    .pure (ownOf_cons (Stmt.nodes_cond _ _ _ _ _ _) ?_)
  -- the last branch is read before the further ones
  have hlast : (Stmt.nodesBranches branches ++ no.nodes).Subperm (ln ++ lb) :=
    (hb.append hn).trans List.perm_append_comm.subperm
  rw [List.append_nil]
  exact ht.append (hy.append hlast)

theorem loopStmt_numbers (f : Fields) (info : Info) (negated : Bool) :
    Numbers (loopStmt expr stmt f info negated) (OwnOf info Stmt.nodes) := by
  refine .bind (requiredExpr_numbers hexpr f _) fun test lt ht =>
    .skip (f.flag_plain _) fun bodyFirst =>
    .bind (blockField_numbers hstmt f _) fun body lb hb =>
    .pure (ownOf_cons (Stmt.nodes_loop _ _ _ _ _) ?_)
  rw [List.append_nil]
  exact ht.append hb

theorem stepsStmt_numbers (f : Fields) (info : Info) :
    Numbers (stepsStmt expr stmt f info) (OwnOf info Stmt.nodes) := by
  refine .bind (exprList_numbers hexpr f _) fun init li hi =>
    .bind (exprList_numbers hexpr f _) fun test lt ht =>
    .bind (exprList_numbers hexpr f _) fun post lp hp =>
    .bind (blockField_numbers hstmt f _) fun body lb hb =>
    .pure (ownOf_cons (Stmt.nodes_steps _ _ _ _ _) ?_)
  rw [List.append_nil, Expr.nodesList_append, Expr.nodesList_append, List.append_assoc,
    List.append_assoc]
  exact hi.append (ht.append (hp.append hb))

omit hstmt in
theorem loopVariable_numbers (f : Fields) :
    Numbers (loopVariable expr f) (Own fun v => v.toList.map (·.info.id)) := by
  unfold loopVariable
  split
  · exact .pure (List.Subperm.refl [])
  · refine .bind (hexpr _) fun e old h => ?_
    split
    · refine .pure ?_
      rw [List.append_nil]
      exact h
    · exact .refuse _ _

theorem foreachStmt_numbers (f : Fields) (info : Info) :
    Numbers (foreachStmt expr stmt f info) (OwnOf info Stmt.nodes) := by
  refine .bind (requiredExpr_numbers hexpr f _) fun list ll hl =>
    .bind (loopVariable_numbers hexpr f) fun var lv hv =>
    .bind (blockField_numbers hstmt f _) fun body lb hb =>
    .bind freshId_numbers fun i li hi =>
    .pure (ownOf_cons (Stmt.nodes_foreach _ _ _ _ _) ?_)
  cases hi
  -- the variable is the one that was read, or the one that is made
  have hvar : [(var.getD (Stmt.implicitVar info i)).info.id].Subperm (lv ++ [i]) := by
    cases var with
    | none => exact (List.sublist_append_right lv [i]).subperm
    | some v => exact List.Subperm.trans hv (List.sublist_append_left lv [i]).subperm
  have horder : ((lv ++ [i]) ++ (ll ++ lb)).Perm (ll ++ (lv ++ (lb ++ ([i] ++ [])))) := by
    refine List.perm_iff_count.mpr fun n => ?_
    simp only [List.count_append, List.count_nil]
    omega
  exact (hvar.append (hl.append hb)).trans horder.subperm

end Statements

theorem pragmaTarget_plain (n : Node) : Plain (pragmaTarget n) := by
  unfold pragmaTarget
  split
  · dsimp only
    split
    · exact .refuse _ _
    · split
      · split
        · exact .pure rfl
        · exact .refuse _ _
      · exact .refuse _ _
  · exact .refuse _ _

theorem pragmaStmt_numbers (f : Fields) (info : Info) :
    Numbers (pragmaStmt f info) (OwnOf info Stmt.nodes) := by
  have htargets (items : List Node) :
      Numbers (items.mapM pragmaTarget) fun as new => (as.flatMap fun _ => []).Subperm new :=
    .mapM (fun n => (pragmaTarget_plain n).mono fun _ new h => List.nil_subperm) items
  refine .skip (f.type_plain _) fun t => ?_
  split
  · exact .refuse _ _
  · split
    · refine .bind (htargets _) fun targets new _ => .pure (ownOf_cons (Stmt.nodes_pragma _ _ _) ?_)
      exact List.nil_subperm
    · exact .refuse _ _

section Statements

variable {expr : Node → Decode Expr} (hexpr : ∀ n, Numbers (expr n) (Own Expr.nodes))
variable {stmt : Node → Decode Stmt} (hstmt : ∀ n, Numbers (stmt n) (Own Stmt.nodes))

include hexpr hstmt

/-- A statement of any kind has the number that was taken for it and those of its parts. -/
theorem stmtOfKind_numbers (n : Node) (f : Fields) (info : Info) (kind : String) :
    Numbers (stmtOfKind expr stmt n f info kind) (OwnOf info Stmt.nodes) := by
  -- a statement takes its number first, and its parts the numbers after it
  unfold stmtOfKind
  split
  · exact .map (requiredExpr_numbers hexpr f _) fun e new h => ownOf_cons (Stmt.nodes_expr _ _) h
  · exact .map (stmtList_numbers hstmt f _) fun ss new h => ownOf_cons (Block.nodes_mk _ _) h
  · exact condStmt_numbers hexpr hstmt f info _
  · exact condStmt_numbers hexpr hstmt f info _
  · exact loopStmt_numbers hexpr hstmt f info _
  · exact loopStmt_numbers hexpr hstmt f info _
  · exact stepsStmt_numbers hexpr hstmt f info
  · exact foreachStmt_numbers hexpr hstmt f info
  · exact .map (optionalExpr_numbers hexpr f _) fun e new h => ownOf_cons (Stmt.nodes_ret _ _) h
  · exact .pure (List.Subperm.refl _)
  · exact .pure (List.Subperm.refl _)
  · exact subStmt_numbers hstmt f info
  · exact .map (f.required_plain _) fun name new h =>
      ownOf_cons (Stmt.nodes_package _ _) List.nil_subperm
  · exact .map (f.required_plain _) fun name new h =>
      ownOf_cons (Stmt.nodes_use _ _) List.nil_subperm
  · exact pragmaStmt_numbers f info
  · exact .map (f.text_plain _) fun text new h =>
      ownOf_cons (Stmt.nodes_comment _ _) List.nil_subperm
  · split
    · exact .map (hexpr n) fun e new h => ownOf_cons (Stmt.nodes_expr _ _) h
    · exact .refuse _ _

end Statements

/-- Statements are numbered within any number of levels. -/
theorem stmt_numbers (levels : Nat) : ∀ n, Numbers (stmt levels n) (Own Stmt.nodes) := by
  induction levels with
  | zero =>
    intro n
    exact .throw _
  | succ levels ih =>
    intro n
    refine .skip (fields_plain n) fun f => .skip (f.required_plain _) fun kind =>
      .bind f.info_numbers fun info old hold => ?_
    cases hold
    exact stmtOfKind_numbers (expr_numbers levels) ih n f info kind

/-- Reading with another source takes the same numbers. -/
theorem withReader_numbers {x : Decode α} {post : α → List Nat → Prop} (hx : Numbers x post)
    (g : Source → Source) : Numbers (withReader g x) post := by
  intro src n a n' hrun
  exact hx (g src) n a n' hrun

theorem unit_numbers (name : String) (root : Node) :
    Numbers (unit name root) (Own SourceUnit.nodes) := by
  refine .skip (fields_plain root) fun f => .skip (f.text_plain _) fun given =>
    .skip (f.text_plain _) fun className => .skip plain_read fun src => ?_
  refine .bind (withReader_numbers (stmtList_numbers (stmt_numbers _) f _) _) fun ss new h =>
    .pure ?_
  rw [List.append_nil]
  exact h

end TypedPerl.Document

namespace TypedPerl

/-- Every tree that is decoded from a document is numbered. -/
theorem SourceUnit.numbered_of_decode {text name : String} {u : SourceUnit}
    (h : SourceUnit.decode text name = .ok u) : u.Numbered := by
  unfold SourceUnit.decode at h
  split at h
  · cases h
  · cases h
  · rename_i root anchors _
    rcases hrun : Document.unit name root { name, file := "", anchors } 0 with f | ⟨v, n⟩
    · rw [hrun] at h
      cases h
    · rw [hrun] at h
      cases h
      -- the numbers are handed out once each, and the tree has none but those
      obtain ⟨-, new, hnew, -, hown⟩ := Document.unit_numbers name root _ 0 v n hrun
      obtain ⟨ids, hperm, hsub⟩ := hown
      exact hperm.nodup_iff.mp (hsub.nodup hnew)

end TypedPerl
