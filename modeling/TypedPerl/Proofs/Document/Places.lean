import TypedPerl.Proofs.Document.Numbering
import TypedPerl.Proofs.Tree.Parts
import TypedPerl.Proofs.Ty.WellFormed

/-!
# What decoded trees are like

A string is a list of pieces, some of which are places for expressions, and the expressions that go
there. A unit is `Filled` when each of its strings has as many places as expressions, and `Typed`
when the types that are written in it are well formed. Trees that are decoded from documents are
both: the places and the expressions of a string are read off the same pieces, and every type is
read from a pragma.
-/

namespace TypedPerl

namespace Expr

/-- The number of places for expressions among the pieces of a string. -/
def places (pieces : List (Option String)) : Nat :=
  pieces.countP Option.isNone

theorem places_eq_zero {pieces : List (Option String)} (h : ¬isInterpolated pieces = true) :
    places pieces = 0 := by
  rw [places, List.countP_eq_zero]
  rw [isInterpolated, List.any_eq_true] at h
  exact fun p hp hnone => h ⟨p, hp, hnone⟩

/-- A string has a place for each expression in it. -/
def hasPlaces : Expr → Bool
  | string _ pieces es => es.length = places pieces
  | _ => true

/-- All strings in the expression have places for their expressions. -/
def Filled (e : Expr) : Prop :=
  ∀ x ∈ e.preorder, x.hasPlaces = true

/-- The type that is written beside a variable or a new container. -/
def writtenType : Expr → Option Ty
  | var v => v.type
  | anonArray _ _ t | anonHash _ _ t => t
  | _ => none

/-- The expression itself has its places and a well-formed type. -/
def IsRead (e : Expr) : Prop :=
  e.hasPlaces = true ∧ Ty.Fine e.writtenType

/-- The expression and all its parts have their places and well-formed types. -/
def AllRead (e : Expr) : Prop :=
  ∀ x ∈ e.preorder, x.IsRead

theorem allRead_of_parts {e : Expr} (hself : e.IsRead)
    (h : ∀ p ∈ e.parts .scalar, p.1.AllRead) : e.AllRead := by
  intro x hx
  rcases (mem_preorder_iff .scalar).mp hx with rfl | ⟨p, hp, hx⟩
  · exact hself
  · exact h p hp x hx

/-- An expression without a type of its own. -/
theorem allRead_untyped {e : Expr} (hplaces : e.hasPlaces = true) (htype : e.writtenType = none)
    (h : ∀ p ∈ e.parts .scalar, p.1.AllRead) : e.AllRead :=
  allRead_of_parts ⟨hplaces, htype ▸ Ty.fine_none⟩ h

end Expr

namespace Part

/-- A part that is a string has places for its expressions. -/
def hasPlaces : Part → Bool
  | .expr e => e.hasPlaces
  | _ => true

/-- All strings among the parts have places for their expressions. -/
def AllFilled (ps : List Part) : Prop :=
  ∀ p ∈ ps, p.hasPlaces = true

/-- The type that is written in a part itself. -/
def writtenType : Part → Option Ty
  | .expr e => e.writtenType
  | .stmt (.sub _ _ returns _) => returns
  | .stmt (.pragma _ _ type) => some type
  | _ => none

/-- The types that are written in the parts are well formed. -/
def AllTyped (ps : List Part) : Prop :=
  ∀ p ∈ ps, Ty.Fine p.writtenType

/-- The parts have their places and well-formed types. -/
def AllRead (ps : List Part) : Prop :=
  ∀ p ∈ ps, p.hasPlaces = true ∧ Ty.Fine p.writtenType

end Part

/-- All strings of the unit have places for their expressions. -/
def SourceUnit.Filled (u : SourceUnit) : Prop :=
  Part.AllFilled (u.preorder fun _ => true)

instance (u : SourceUnit) : Decidable u.Filled :=
  inferInstanceAs (Decidable (∀ p ∈ u.preorder fun _ => true, p.hasPlaces = true))

/-- All types that are written in the unit are well formed. -/
def SourceUnit.Typed (u : SourceUnit) : Prop :=
  Part.AllTyped (u.preorder fun _ => true)

namespace Part

theorem allRead_nil : AllRead [] :=
  fun _ hp => absurd hp List.not_mem_nil

theorem AllRead.append {ps qs : List Part} (hp : AllRead ps) (hq : AllRead qs) :
    AllRead (ps ++ qs) :=
  List.forall_mem_append.mpr ⟨hp, hq⟩

theorem AllRead.cons {p : Part} {ps : List Part} (h : AllRead ps) (hself : p.hasPlaces = true)
    (htype : Ty.Fine p.writtenType) : AllRead (p :: ps) :=
  List.forall_mem_cons.mpr ⟨⟨hself, htype⟩, h⟩

/-- Most statements and branches have no type of their own. -/
theorem AllRead.untyped {p : Part} {ps : List Part} (h : AllRead ps) (hself : p.hasPlaces = true)
    (htype : p.writtenType = none) : AllRead (p :: ps) :=
  h.cons hself (htype ▸ Ty.fine_none)

theorem allRead_expr {e : Expr} (h : e.AllRead) : AllRead (e.preorder.map .expr) := by
  intro p hp
  obtain ⟨x, hx, rfl⟩ := List.mem_map.mp hp
  exact h x hx

theorem allRead_exprs {es : List Expr} (h : ∀ e ∈ es, e.AllRead) :
    AllRead ((Expr.preorderList es).map .expr) := by
  rw [Expr.preorderList_eq_flatMap]
  intro p hp
  obtain ⟨x, hx, rfl⟩ := List.mem_map.mp hp
  obtain ⟨e, he, hx⟩ := List.mem_flatMap.mp hx
  exact h e he x hx

end Part

namespace Document

open Yaml (Node)

variable {α β γ : Type}

/-! ## Readers -/

/-- What the reader gives satisfies `post`. -/
def Reads (x : Decode α) (post : α → Prop) : Prop :=
  ∀ src n a n', x src n = .ok (a, n') → post a

namespace Reads

variable {post : α → Prop} {post' : β → Prop}

theorem pure {a : α} (h : post a) : Reads (Pure.pure a) post := by
  intro src n b n' hrun
  cases hrun
  exact h

theorem throw (f : Fault) : Reads (throw f : Decode α) post := by
  intro src n a n' hrun
  cases hrun

theorem refuse (node : Node) (message : String) : Reads (Document.refuse node message) post := by
  intro src n a n' hrun
  cases hrun

theorem bind {x : Decode α} {k : α → Decode β} (hx : Reads x post)
    (hk : ∀ a, post a → Reads (k a) post') : Reads (x >>= k) post' := by
  intro src n b n' hrun
  rw [run_bind] at hrun
  rcases hx' : x src n with f | ⟨a, n₁⟩
  · rw [hx'] at hrun
    cases hrun
  · rw [hx'] at hrun
    exact hk a (hx src n a n₁ hx') src n₁ b n' hrun

/-- A reader of which nothing is needed. -/
theorem skip {x : Decode α} {k : α → Decode β} (hk : ∀ a, Reads (k a) post') :
    Reads (x >>= k) post' := by
  have hx : Reads x fun _ => True := fun _ _ _ _ _ => trivial
  exact hx.bind fun a _ => hk a

theorem map {x : Decode α} {f : α → β} (hx : Reads x post) (hf : ∀ a, post a → post' (f a)) :
    Reads (f <$> x) post' := by
  rw [map_eq_pure_bind]
  exact hx.bind fun a ha => .pure (hf a ha)

theorem mapM {f : γ → Decode α} (hf : ∀ x, Reads (f x) post) (xs : List γ) :
    Reads (xs.mapM f) fun as => ∀ a ∈ as, post a := by
  induction xs with
  | nil => exact .pure fun a ha => absurd ha List.not_mem_nil
  | cons x xs ih =>
    rw [List.mapM_cons]
    refine (hf x).bind fun a ha => ih.bind fun as has => .pure ?_
    exact List.forall_mem_cons.mpr ⟨ha, has⟩

end Reads

/-! ## Expressions -/

theorem places_getLeft (pieces : List (String ⊕ Expr)) :
    (pieces.filterMap Sum.getRight?).length = Expr.places (pieces.map Sum.getLeft?) := by
  unfold Expr.places
  induction pieces with
  | nil => rfl
  | cons p pieces ih =>
    cases p with
    | inl t => simpa [List.filterMap_cons] using ih
    | inr e => simpa using ih

/-- A type that is read is well formed. -/
theorem type_read (f : Fields) (key : String) : Reads (f.type key) Ty.Fine := by
  refine .skip fun text => ?_
  split
  · exact .pure Ty.fine_none
  · split
    · rename_i ty hty
      exact .pure (Ty.fine_some (Ty.parse_wellFormed hty))
    · exact .skip fun _ => .throw _

theorem variableExpr_read (f : Fields) (info : Info) :
    Reads (variableExpr f info) fun v => Ty.Fine v.type := by
  refine .skip fun name => .skip fun sigil => .skip fun package => .skip fun word => ?_
  split
  · exact .refuse _ _
  · exact (type_read f _).bind fun t ht => .pure ht

section Expressions

variable {expr : Node → Decode Expr} (hexpr : ∀ n, Reads (expr n) Expr.AllRead)

include hexpr

theorem requiredExpr_read (f : Fields) (key : String) :
    Reads (requiredExpr expr f key) Expr.AllRead := by
  unfold requiredExpr
  split
  · exact hexpr _
  · exact .refuse _ _

theorem optionalExpr_read (f : Fields) (key : String) :
    Reads (optionalExpr expr f key) fun value => ∀ e ∈ value, e.AllRead := by
  unfold optionalExpr
  split
  · exact .map (hexpr _) fun e he => by simpa using he
  · exact .pure (by simp)

theorem exprList_read (f : Fields) (key : String) :
    Reads (exprList expr f key) fun es => ∀ e ∈ es, e.AllRead := by
  unfold exprList
  split
  · exact .pure fun e he => absurd he List.not_mem_nil
  · exact .mapM hexpr _
  · exact .refuse _ _

/-- The places of a string and its expressions are read off the same pieces. -/
theorem stringExpr_read (f : Fields) (info : Info) :
    Reads (stringExpr expr f info) Expr.AllRead := by
  have hpiece (n : Node) : Reads (stringPiece expr n) fun p => ∀ e ∈ p.getRight?, e.AllRead := by
    unfold stringPiece
    split
    · exact .pure (by simp)
    · refine .skip fun f => ?_
      split
      · exact .map (hexpr _) fun e he => by simpa using he
      · refine .skip fun t => .pure ?_
        simp
  unfold stringExpr
  split
  · refine .skip fun t => .pure (Expr.allRead_untyped rfl rfl ?_)
    simp [Expr.parts]
  · -- both lists of the string are made from the pieces
    refine (Reads.mapM hpiece _).bind fun pieces h => .pure (Expr.allRead_untyped ?_ rfl ?_)
    · rw [Expr.hasPlaces, decide_eq_true_eq]
      exact places_getLeft pieces
    · intro p hp
      obtain ⟨e, he, rfl⟩ := List.mem_map.mp hp
      obtain ⟨piece, hpiece, hright⟩ := List.mem_filterMap.mp he
      exact h piece hpiece e hright
  · exact .refuse _ _

/-- An expression of any kind is read well if its parts are. -/
theorem exprOfKind_read (n : Node) (f : Fields) (info : Info) (kind : String) :
    Reads (exprOfKind expr n f info kind) Expr.AllRead := by
  have hleaf {e : Expr} (hself : e.IsRead) (hparts : e.parts .scalar = []) : e.AllRead := by
    refine Expr.allRead_of_parts hself fun p hp => ?_
    rw [hparts] at hp
    exact absurd hp List.not_mem_nil
  -- the usage that a part has does not matter here
  have hrow {es : List Expr} (h : ∀ e ∈ es, e.AllRead) (u : Usage) :
      ∀ p ∈ es.map (·, u), p.1.AllRead := by
    simpa using h
  have hrequired := requiredExpr_read hexpr f
  have hlist := exprList_read hexpr f
  have hindex (throughRef : Bool) : Reads (indexExpr expr f info throughRef) Expr.AllRead :=
    (hrequired _).bind fun target ht => (hrequired _).bind fun key hk =>
      .skip fun brace => .skip fun context =>
        .pure (Expr.allRead_untyped rfl rfl (by simp [Expr.parts, ht, hk]))
  unfold exprOfKind
  split
  · split
    · exact .pure (hleaf ⟨rfl, Ty.fine_none⟩ rfl)
    · exact .refuse _ _
  · exact stringExpr_read hexpr f info
  · exact .pure (hleaf ⟨rfl, Ty.fine_none⟩ rfl)
  · exact .map (variableExpr_read f info) fun v hv => hleaf ⟨rfl, hv⟩ rfl
  · exact hindex false
  · exact hindex true
  · exact (hrequired _).bind fun target h => .skip fun sigil =>
      .pure (Expr.allRead_untyped rfl rfl (by simp [Expr.parts, h]))
  · exact .map (hrequired _) fun target h => Expr.allRead_untyped rfl rfl (by simp [Expr.parts, h])
  · exact (hlist _).bind fun es h => (type_read f _).bind fun t ht =>
      .pure (Expr.allRead_of_parts ⟨rfl, ht⟩ (hrow h _))
  · exact (hlist _).bind fun es h => (type_read f _).bind fun t ht =>
      .pure (Expr.allRead_of_parts ⟨rfl, ht⟩ (hrow h _))
  · exact .map (hlist _) fun es h => Expr.allRead_untyped rfl rfl (hrow h _)
  · exact .skip fun op => (hrequired _).bind fun left hl => (hrequired _).bind fun right hr =>
      .pure (Expr.allRead_untyped rfl rfl (by simp [Expr.parts, hl, hr]))
  · refine .skip fun op => (hrequired _).bind fun left hl => (hrequired _).bind fun right hr => ?_
    split
    · exact .refuse _ _
    · exact .pure (Expr.allRead_untyped rfl rfl (by simp [Expr.parts, hl, hr]))
  · exact .skip fun op => .skip fun before => (hrequired _).bind fun target h =>
      .pure (Expr.allRead_untyped rfl rfl (by simp [Expr.parts, h]))
  · exact .skip fun op => .map (hrequired _) fun x h =>
      Expr.allRead_untyped rfl rfl (by simp [Expr.parts, h])
  · exact (hrequired _).bind fun cond hc => (hrequired _).bind fun yes hy =>
      (hrequired _).bind fun no hn =>
        .pure (Expr.allRead_untyped rfl rfl (by simp [Expr.parts, hc, hy, hn]))
  · refine .skip fun name => .skip fun package => (hlist _).bind fun args h =>
      .pure (Expr.allRead_untyped rfl rfl fun p hp => ?_)
    obtain ⟨k, hk, rfl⟩ := List.mem_mapIdx.mp hp
    exact h _ (List.getElem_mem hk)
  · exact .refuse _ _

end Expressions

theorem expr_read (levels : Nat) : ∀ n, Reads (expr levels n) Expr.AllRead := by
  induction levels with
  | zero =>
    intro n
    exact .throw _
  | succ levels ih =>
    intro n
    exact .skip fun f => .skip fun kind => .skip fun info => exprOfKind_read ih n f info kind

/-! ## Statements -/

/-- All parts of the statement are read well. -/
def StmtRead (s : Stmt) : Prop :=
  Part.AllRead (s.preorder fun _ => true)

/-- All parts of the body are read well. -/
def BlockRead (b : Block) : Prop :=
  Part.AllRead (b.preorder fun _ => true)

open TypedPerl.Part (allRead_nil allRead_expr allRead_exprs)

theorem allRead_list {ss : List Stmt} (h : ∀ s ∈ ss, StmtRead s) :
    Part.AllRead (Stmt.preorderList (fun _ => true) ss) := by
  induction ss with
  | nil => exact allRead_nil
  | cons s rest ih =>
    obtain ⟨hs, hrest⟩ := List.forall_mem_cons.mp h
    exact hs.append (ih hrest)

theorem allRead_branches {bs : List ElseIf}
    (h : ∀ b ∈ bs, Part.AllRead (b.preorder fun _ => true)) :
    Part.AllRead (Stmt.preorderBranches (fun _ => true) bs) := by
  induction bs with
  | nil => exact allRead_nil
  | cons b rest ih =>
    obtain ⟨hb, hrest⟩ := List.forall_mem_cons.mp h
    exact hb.append (ih hrest)

theorem allRead_loopVar (info : Info) {var : Option Variable} (implicit : Nat)
    (h : ∀ v ∈ var, Ty.Fine v.type) :
    Part.AllRead (Part.loopVar (fun _ => true) info var implicit) := by
  cases var with
  | none => exact allRead_nil.untyped rfl rfl
  | some v => exact allRead_nil.cons rfl (h v rfl)

section Statements

variable {expr : Node → Decode Expr} (hexpr : ∀ n, Reads (expr n) Expr.AllRead)
variable {stmt : Node → Decode Stmt} (hstmt : ∀ n, Reads (stmt n) StmtRead)

include hstmt

theorem stmtList_read (f : Fields) (key : String) :
    Reads (stmtList stmt f key) fun ss => ∀ s ∈ ss, StmtRead s := by
  unfold stmtList
  split
  · exact .pure fun s hs => absurd hs List.not_mem_nil
  · exact .mapM hstmt _
  · exact .refuse _ _

theorem blockField_read (f : Fields) (key : String) :
    Reads (blockField stmt f key) BlockRead := by
  unfold blockField
  split
  · exact .pure allRead_nil
  · refine (Reads.mapM hstmt _).bind fun ss h => .skip fun i => ?_
    exact .pure ((allRead_list h).untyped rfl rfl)
  · -- a block that is given as a statement
    refine (hstmt _).bind fun s h => ?_
    split
    · exact .pure h
    · exact .refuse _ _

theorem subStmt_read (f : Fields) (info : Info) : Reads (subStmt stmt f info) StmtRead := by
  refine .skip fun name => (type_read f _).bind fun returns ht =>
    (blockField_read hstmt f _).bind fun b h => ?_
  split
  · -- a subroutine without a body is given an empty one
    exact .skip fun i => .pure ((allRead_nil.untyped rfl rfl).cons rfl ht)
  · exact .pure (Part.AllRead.cons h rfl ht)

include hexpr

theorem condStmt_read (f : Fields) (info : Info) (negated : Bool) :
    Reads (condStmt expr stmt f info negated) StmtRead := by
  have hbranch (n : Node) :
      Reads (elseIf expr stmt n) fun b => Part.AllRead (b.preorder fun _ => true) := by
    refine .skip fun f => .skip fun info => (requiredExpr_read hexpr f _).bind fun test ht =>
      (blockField_read hstmt f _).bind fun body hb => .pure ?_
    exact ((allRead_expr ht).append hb).untyped rfl rfl
  -- the branches may be missing, and each of them is read like the first
  have hbranches : Reads (elseIfs expr stmt f) fun bs =>
      Part.AllRead (Stmt.preorderBranches (fun _ => true) bs) := by
    unfold elseIfs
    split
    · exact .pure allRead_nil
    · intro src n bs n' hrun
      exact allRead_branches (Reads.mapM hbranch _ src n bs n' hrun)
    · exact .refuse _ _
  refine (requiredExpr_read hexpr f _).bind fun test ht =>
    (blockField_read hstmt f _).bind fun yes hy =>
    (blockField_read hstmt f _).bind fun no hn => hbranches.bind fun bs hb => .pure ?_
  exact ((allRead_expr ht).append (hy.append (hb.append hn))).untyped rfl rfl

theorem loopStmt_read (f : Fields) (info : Info) (negated : Bool) :
    Reads (loopStmt expr stmt f info negated) StmtRead := by
  refine (requiredExpr_read hexpr f _).bind fun test ht => .skip fun bodyFirst =>
    (blockField_read hstmt f _).bind fun body hb => .pure ?_
  exact ((allRead_expr ht).append hb).untyped rfl rfl

theorem stepsStmt_read (f : Fields) (info : Info) :
    Reads (stepsStmt expr stmt f info) StmtRead := by
  refine (exprList_read hexpr f _).bind fun init hi =>
    (exprList_read hexpr f _).bind fun test ht =>
    (exprList_read hexpr f _).bind fun post hp =>
    (blockField_read hstmt f _).bind fun body hb => .pure ?_
  have hall : ∀ e ∈ init ++ (test ++ post), e.AllRead :=
    List.forall_mem_append.mpr ⟨hi, List.forall_mem_append.mpr ⟨ht, hp⟩⟩
  exact ((allRead_exprs hall).append hb).untyped rfl rfl

theorem foreachStmt_read (f : Fields) (info : Info) :
    Reads (foreachStmt expr stmt f info) StmtRead := by
  -- only a variable is taken from the expression that was read in its place
  have hvar : Reads (loopVariable expr f) fun var => ∀ v ∈ var, Ty.Fine v.type := by
    unfold loopVariable
    split
    · exact .pure (by simp)
    · refine (hexpr _).bind fun e he => ?_
      split
      · rename_i v
        refine .pure fun w hw => ?_
        cases hw
        exact (he (.var v) (Expr.self_mem_preorder _)).2
      · exact .refuse _ _
  refine (requiredExpr_read hexpr f _).bind fun list hl => hvar.bind fun var hv =>
    (blockField_read hstmt f _).bind fun body hb => .skip fun i => .pure ?_
  exact ((allRead_loopVar info i hv).append ((allRead_expr hl).append hb)).untyped rfl rfl

/-- A statement of any kind is read well if its parts are. -/
theorem stmtOfKind_read (n : Node) (f : Fields) (info : Info) (kind : String) :
    Reads (stmtOfKind expr stmt n f info kind) StmtRead := by
  -- packages, imports and comments have a text and no parts
  have hleaf {x : Decode String} {mk : String → Stmt}
      (h : ∀ a, (mk a).preorder (fun _ => true) = [.stmt (mk a)])
      (htype : ∀ a, (Part.stmt (mk a)).writtenType = none) : Reads (mk <$> x) StmtRead := by
    rw [map_eq_pure_bind]
    refine .skip fun a => .pure ?_
    rw [StmtRead, h a]
    exact allRead_nil.untyped rfl (htype a)
  unfold stmtOfKind
  split
  · exact .map (requiredExpr_read hexpr f _) fun e h => (allRead_expr h).untyped rfl rfl
  · exact .map (stmtList_read hstmt f _) fun ss h => (allRead_list h).untyped rfl rfl
  · exact condStmt_read hexpr hstmt f info _
  · exact condStmt_read hexpr hstmt f info _
  · exact loopStmt_read hexpr hstmt f info _
  · exact loopStmt_read hexpr hstmt f info _
  · exact stepsStmt_read hexpr hstmt f info
  · exact foreachStmt_read hexpr hstmt f info
  · refine .map (optionalExpr_read hexpr f _) fun value h => (allRead_exprs ?_).untyped rfl rfl
    simpa using h
  · exact .pure (allRead_nil.untyped rfl rfl)
  · exact .pure (allRead_nil.untyped rfl rfl)
  · exact subStmt_read hstmt f info
  · exact hleaf (fun _ => rfl) fun _ => rfl
  · exact hleaf (fun _ => rfl) fun _ => rfl
  · refine (type_read f _).bind fun t ht => ?_
    split
    · exact .refuse _ _
    · split
      · exact .skip fun targets => .pure (allRead_nil.cons rfl ht)
      · exact .refuse _ _
  · exact hleaf (fun _ => rfl) fun _ => rfl
  · split
    · exact .map (hexpr n) fun e h => (allRead_expr h).untyped rfl rfl
    · exact .refuse _ _

end Statements

theorem stmt_read (levels : Nat) : ∀ n, Reads (stmt levels n) StmtRead := by
  induction levels with
  | zero =>
    intro n
    exact .throw _
  | succ levels ih =>
    intro n
    exact .skip fun f => .skip fun kind => .skip fun info =>
      stmtOfKind_read (expr_read levels) ih n f info kind

theorem unit_read (name : String) (root : Node) :
    Reads (unit name root) fun u => Part.AllRead (u.preorder fun _ => true) := by
  refine .skip fun f => .skip fun given => .skip fun className => .skip fun src => ?_
  have hstmts (levels : Nat) (g : Source → Source) :
      Reads (withReader g (stmtList (stmt levels) f "statements")) fun ss =>
        ∀ s ∈ ss, StmtRead s :=
    fun src => stmtList_read (stmt_read levels) f _ (g src)
  exact (hstmts _ _).bind fun ss h => .pure (allRead_list h)

end Document

/-- Every tree that is decoded from a document has places for the expressions of its strings, and
well-formed types. -/
theorem SourceUnit.read_of_decode {text name : String} {u : SourceUnit}
    (h : SourceUnit.decode text name = .ok u) : Part.AllRead (u.preorder fun _ => true) := by
  unfold SourceUnit.decode at h
  split at h
  · cases h
  · cases h
  · rename_i root anchors _
    rcases hrun : Document.unit name root { name, file := "", anchors } 0 with f | ⟨v, n⟩
    · rw [hrun] at h
      cases h
    · rw [hrun] at h
      cases h
      exact Document.unit_read name root _ 0 v n hrun

/-- Every tree that is decoded from a document has places for the expressions of its strings. -/
theorem SourceUnit.filled_of_decode {text name : String} {u : SourceUnit}
    (h : SourceUnit.decode text name = .ok u) : u.Filled :=
  fun p hp => (read_of_decode h p hp).1

/-- Every tree that is decoded from a document has well-formed types. -/
theorem SourceUnit.typed_of_decode {text name : String} {u : SourceUnit}
    (h : SourceUnit.decode text name = .ok u) : u.Typed :=
  fun p hp => (read_of_decode h p hp).2

end TypedPerl
