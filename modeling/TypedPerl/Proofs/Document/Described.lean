import Mathlib.Data.List.Forall2
import TypedPerl.Document.SourceUnit
import TypedPerl.Proofs.Tree.Parts

/-!
# The tree that a document describes

`ExprOf`, `StmtOf` and `UnitOf` say which tree the nodes of a document describe, with no mention of
a reader: one rule for each kind of node. A part that a node must have is a field that is given and
that describes the part (`HasChild`), and a list has one part for each entry of a sequence, in order
(`HasList`). Where a node of the tree has a position, it is in the file that the document is about
(`UnitOf.placed`).
-/

namespace TypedPerl.Document

open Yaml (Node Mark Tag Anchors)

variable {α : Type}

/-! ## Fields -/

/-- The node is a mapping with these fields, or an alias of one. -/
def FieldsOf (src : Source) (n : Node) (f : Fields) : Prop :=
  ∃ m es, n.resolve src.anchors = .mapping m es ∧ f = ⟨.mapping m es, es⟩

/-- The text of a field, which is empty if it is not given. -/
inductive HasText (f : Fields) (key : String) : String → Prop
  | absent (h : f.get? key = none) : HasText f key ""
  | given {m : Mark} {t : String} {tag : Tag} (h : f.get? key = some (.scalar m t tag)) :
    HasText f key t

/-- The text of a field that must be given. -/
def HasWord (f : Fields) (key word : String) : Prop :=
  HasText f key word ∧ word ≠ ""

/-- The truth value of a field, which is false if it is not given. -/
inductive HasFlag (src : Source) (f : Fields) (key : String) : Bool → Prop
  | absent (h : f.get? key = none) : HasFlag src f key false
  | given {n : Node} {b : Bool} (h : f.get? key = some n) (hb : n.toBool? src.anchors = some b) :
    HasFlag src f key b

/-- The number of a field, which is zero if it is not given. -/
inductive HasNumber (src : Source) (f : Fields) (key : String) : Int → Prop
  | absent (h : f.get? key = none) : HasNumber src f key 0
  | given {n : Node} {i : Int} (h : f.get? key = some n) (hi : n.toInt? src.anchors = some i) :
    HasNumber src f key i

/-- The type of a field, if one is given: its text is the pragma form of a type. -/
inductive HasType (f : Fields) (key : String) : Option Ty → Prop
  | absent (h : HasText f key "") : HasType f key none
  | given {t : String} {ty : Ty} (h : HasWord f key t) (hty : Ty.parse t = .ok ty) :
    HasType f key (some ty)

/-- The mark of a field, which is the one of one value if it is not given. -/
inductive HasSigil (f : Fields) (key : String) : Sigil → Prop
  | absent (h : HasText f key "") : HasSigil f key .scalar
  | given {s : Sigil} (h : HasText f key s.toText) : HasSigil f key s

/-- The position is the one that the fields give, in the file that the document is about. -/
def HasPos (src : Source) (f : Fields) (pos : Pos) : Prop :=
  ∃ line column, HasNumber src f "line" line ∧ HasNumber src f "col" column ∧
    pos = ⟨src.file, line, column⟩

/-- The node describes something of a kind, with its fields and its position. -/
structure Described (src : Source) (n : Node) (kind : String) (f : Fields) (info : Info) :
    Prop where
  /-- The fields are those of the node. -/
  fields : FieldsOf src n f
  /-- The kind is given. -/
  kind : HasWord f "kind" kind
  /-- The position is given by the fields. -/
  pos : HasPos src f info.pos

/-- A node is given, and it describes `a`. -/
inductive HasChild (R : Node → α → Prop) : Option Node → α → Prop
  | given {c : Node} {a : α} (ha : R c a) : HasChild R (some c) a

/-- The node is a sequence whose entries describe the members of the list, one each and in order.
Where no node is given there are none. -/
inductive HasList (R : Node → α → Prop) : Option Node → List α → Prop
  | absent : HasList R none []
  | given {m : Mark} {items : List Node} {as : List α} (has : List.Forall₂ R items as) :
    HasList R (some (.sequence m items)) as

/-! ## Expressions -/

/-- A piece of a string: a text, or a mapping that holds an expression or a text. -/
inductive PieceOf (src : Source) (R : Node → Expr → Prop) : Node → String ⊕ Expr → Prop
  | plain {m : Mark} {t : String} {tag : Tag} : PieceOf src R (.scalar m t tag) (.inl t)
  | text {n : Node} {f : Fields} {t : String} (hf : FieldsOf src n f)
    (hnone : f.get? "expr" = none) (ht : HasText f "text" t) : PieceOf src R n (.inl t)
  | expr {n : Node} {f : Fields} {e : Expr} (hf : FieldsOf src n f)
    (he : HasChild R (f.get? "expr") e) : PieceOf src R n (.inr e)

/-- The fields describe a variable. -/
structure VariableOf (src : Source) (f : Fields) (v : Variable) : Prop where
  /-- The name is given. -/
  name : HasWord f "name" v.name
  /-- The package may be given. -/
  package : HasText f "package" v.package
  /-- The mark is one of the marks. -/
  sigil : HasSigil f "sigil" v.sigil
  /-- The declarator is one of the declarators. -/
  decl : HasText f "decl" v.decl.toText
  /-- The type may be given. -/
  type : HasType f "type" v.type

/-- The node describes the expression. -/
inductive ExprOf (src : Source) : Node → Expr → Prop
  | number {n : Node} {f : Fields} {i : Info} {m : Mark} {t : String} {tag : Tag}
    (h : Described src n "number" f i) (hvalue : f.get? "value" = some (.scalar m t tag)) :
    ExprOf src n (.number i t)
  | text {n : Node} {f : Fields} {i : Info} {t : String} (h : Described src n "string" f i)
    (hparts : f.get? "parts" = none) (ht : HasText f "value" t) :
    ExprOf src n (.string i [some t] [])
  | string {n : Node} {f : Fields} {i : Info} {m : Mark} {items : List Node}
    {pieces : List (String ⊕ Expr)} (h : Described src n "string" f i)
    (hparts : f.get? "parts" = some (.sequence m items))
    (hpieces : List.Forall₂ (PieceOf src (ExprOf src)) items pieces) :
    ExprOf src n (.string i (pieces.map Sum.getLeft?) (pieces.filterMap Sum.getRight?))
  | undef {n : Node} {f : Fields} {i : Info} (h : Described src n "undef" f i) :
    ExprOf src n (.undef i)
  | var {n : Node} {f : Fields} {v : Variable} (h : Described src n "var" f v.info)
    (hv : VariableOf src f v) : ExprOf src n (.var v)
  | index {n : Node} {f : Fields} {i : Info} {target key : Expr} {brace : Bool} {context : Sigil}
    (throughRef : Bool) (h : Described src n (if throughRef then "refindex" else "index") f i)
    (htarget : HasChild (ExprOf src) (f.get? "target") target)
    (hkey : HasChild (ExprOf src) (f.get? "key") key)
    (hbrace : HasFlag src f "brace" brace) (hcontext : HasSigil f "context" context) :
    ExprOf src n (.index i throughRef target key brace context)
  | deref {n : Node} {f : Fields} {i : Info} {target : Expr} {sigil : Sigil}
    (h : Described src n "deref" f i) (htarget : HasChild (ExprOf src) (f.get? "target") target)
    (hsigil : HasSigil f "sigil" sigil) : ExprOf src n (.deref i target sigil)
  | makeRef {n : Node} {f : Fields} {i : Info} {target : Expr} (h : Described src n "ref" f i)
    (htarget : HasChild (ExprOf src) (f.get? "target") target) : ExprOf src n (.makeRef i target)
  | anonArray {n : Node} {f : Fields} {i : Info} {elems : List Expr} {type : Option Ty}
    (h : Described src n "anon_array" f i) (helems : HasList (ExprOf src) (f.get? "elements") elems)
    (htype : HasType f "type" type) : ExprOf src n (.anonArray i elems type)
  | anonHash {n : Node} {f : Fields} {i : Info} {elems : List Expr} {type : Option Ty}
    (h : Described src n "anon_hash" f i) (helems : HasList (ExprOf src) (f.get? "elements") elems)
    (htype : HasType f "type" type) : ExprOf src n (.anonHash i elems type)
  | list {n : Node} {f : Fields} {i : Info} {elems : List Expr} (h : Described src n "list" f i)
    (helems : HasList (ExprOf src) (f.get? "elements") elems) : ExprOf src n (.list i elems)
  | assign {n : Node} {f : Fields} {i : Info} {op : String} {left right : Expr}
    (h : Described src n "assign" f i) (hop : HasText f "op" op)
    (hleft : HasChild (ExprOf src) (f.get? "left") left)
    (hright : HasChild (ExprOf src) (f.get? "right") right) :
    ExprOf src n (.assign i (if op = "" then "=" else op) left right)
  | incDec {n : Node} {f : Fields} {i : Info} {op : String} {before : Bool} {target : Expr}
    (h : Described src n "incdec" f i) (hop : HasWord f "op" op)
    (hbefore : HasFlag src f "prefix" before)
    (htarget : HasChild (ExprOf src) (f.get? "target") target) :
    ExprOf src n (.incDec i op before target)
  | binary {n : Node} {f : Fields} {i : Info} {op : String} {left right : Expr}
    (h : Described src n "binary" f i) (hop : HasWord f "op" op)
    (hleft : HasChild (ExprOf src) (f.get? "left") left)
    (hright : HasChild (ExprOf src) (f.get? "right") right) : ExprOf src n (.binary i op left right)
  | unary {n : Node} {f : Fields} {i : Info} {op : String} {operand : Expr}
    (h : Described src n "unary" f i) (hop : HasWord f "op" op)
    (hoperand : HasChild (ExprOf src) (f.get? "operand") operand) :
    ExprOf src n (.unary i op operand)
  | ternary {n : Node} {f : Fields} {i : Info} {cond yes no : Expr}
    (h : Described src n "ternary" f i) (hcond : HasChild (ExprOf src) (f.get? "cond") cond)
    (hyes : HasChild (ExprOf src) (f.get? "then") yes)
    (hno : HasChild (ExprOf src) (f.get? "else") no) :
    ExprOf src n (.ternary i cond yes no)
  | call {n : Node} {f : Fields} {i : Info} {package name : String} {args : List Expr}
    (h : Described src n "call" f i) (hname : HasWord f "name" name)
    (hpackage : HasText f "package" package) (hargs : HasList (ExprOf src) (f.get? "args") args) :
    ExprOf src n (.call i package name args)

/-! ## Statements -/

/-- The node is a text that is the variable, with its mark and with blanks around it. -/
inductive TargetOf : Node → PragmaTarget → Prop
  | intro {m : Mark} {t : String} {tag : Tag} {sigil : Sigil} {name : String}
    (h : Text.trim t = sigil.toText ++ name) (hname : name ≠ "") :
    TargetOf (.scalar m t tag) ⟨sigil, name⟩

mutual

/-- The node describes the statement. -/
inductive StmtOf (src : Source) : Node → Stmt → Prop
  | expr {n : Node} {f : Fields} {i : Info} {e : Expr} (h : Described src n "expr" f i)
    (he : HasChild (ExprOf src) (f.get? "expr") e) : StmtOf src n (.expr i e)
  | bare {n : Node} {f : Fields} {i : Info} {e : Expr} {kind : String}
    (h : Described src n kind f i) (hkind : kind ∈ exprKinds) (he : ExprOf src n e) :
    StmtOf src n (.expr i e)
  | block {n : Node} {f : Fields} {i : Info} {ss : List Stmt} (h : Described src n "block" f i)
    (hss : HasList (StmtOf src) (f.get? "statements") ss) : StmtOf src n (.block (.mk i ss))
  | cond {n : Node} {f : Fields} {i : Info} {test : Expr} {yes no : Block} {branches : List ElseIf}
    (negated : Bool) (h : Described src n (if negated then "unless" else "if") f i)
    (htest : HasChild (ExprOf src) (f.get? "cond") test) (hyes : BlockOf src (f.get? "then") yes)
    (hno : BlockOf src (f.get? "else") no)
    (hbranches : HasList (BranchOf src) (f.get? "elsif") branches) :
    StmtOf src n (.cond i negated test yes branches no)
  | loop {n : Node} {f : Fields} {i : Info} {test : Expr} {body : Block} {bodyFirst : Bool}
    (negated : Bool) (h : Described src n (if negated then "until" else "while") f i)
    (htest : HasChild (ExprOf src) (f.get? "cond") test) (hdo : HasFlag src f "do" bodyFirst)
    (hbody : BlockOf src (f.get? "body") body) :
    StmtOf src n (.loop i negated bodyFirst test body)
  | steps {n : Node} {f : Fields} {i : Info} {init test post : List Expr} {body : Block}
    (h : Described src n "for" f i) (hinit : HasList (ExprOf src) (f.get? "init") init)
    (htest : HasList (ExprOf src) (f.get? "cond") test)
    (hpost : HasList (ExprOf src) (f.get? "post") post)
    (hbody : BlockOf src (f.get? "body") body) : StmtOf src n (.steps i init test post body)
  | foreach {n : Node} {f : Fields} {i : Info} {var : Option Variable} {implicit : Nat}
    {list : Expr} {body : Block} (h : Described src n "foreach" f i)
    (hlist : HasChild (ExprOf src) (f.get? "list") list)
    (hvar : Option.Rel (fun c v => ExprOf src c (.var v)) (f.get? "var") var)
    (hbody : BlockOf src (f.get? "body") body) :
    StmtOf src n (.foreach i var implicit list body)
  | ret {n : Node} {f : Fields} {i : Info} {value : Option Expr} (h : Described src n "return" f i)
    (hvalue : Option.Rel (ExprOf src) (f.get? "value") value) : StmtOf src n (.ret i value)
  | jump {n : Node} {f : Fields} {i : Info} {keyword : String}
    (h : Described src n keyword f i) (hkeyword : keyword = "next" ∨ keyword = "last") :
    StmtOf src n (.jump i keyword)
  | sub {n : Node} {f : Fields} {i : Info} {name : String} {returns : Option Ty} {body : Block}
    (h : Described src n "sub" f i) (hname : HasWord f "name" name)
    (hreturns : HasType f "returns" returns) (hbody : BlockOf src (f.get? "body") body)
    (hpresent : body.isPresent = true) : StmtOf src n (.sub i name returns body)
  | bodiless {n : Node} {f : Fields} {i : Info} {name : String} {returns : Option Ty} {id : Nat}
    (h : Described src n "sub" f i) (hname : HasWord f "name" name)
    (hreturns : HasType f "returns" returns) (hbody : f.get? "body" = none) :
    StmtOf src n (.sub i name returns (.mk ⟨id, .unknown⟩ []))
  | package {n : Node} {f : Fields} {i : Info} {name : String} (h : Described src n "package" f i)
    (hname : HasWord f "name" name) : StmtOf src n (.package i name)
  | use {n : Node} {f : Fields} {i : Info} {name : String} (h : Described src n "use" f i)
    (hname : HasWord f "name" name) : StmtOf src n (.use i name)
  | pragma {n : Node} {f : Fields} {i : Info} {m : Mark} {items : List Node}
    {targets : List PragmaTarget} {type : Ty} (h : Described src n "pragma" f i)
    (htype : HasType f "type" (some type))
    (hitems : f.get? "targets" = some (.sequence m items))
    (htargets : List.Forall₂ TargetOf items targets) : StmtOf src n (.pragma i targets type)
  | comment {n : Node} {f : Fields} {i : Info} {text : String}
    (h : Described src n "comment" f i) (htext : HasText f "text" text) :
    StmtOf src n (.comment i text)

/-- The node describes a body: none if it is not given, else the statements of a sequence, or the
block that it describes as a statement. -/
inductive BlockOf (src : Source) : Option Node → Block → Prop
  | absent : BlockOf src none .absent
  | list {m : Mark} {items : List Node} {ss : List Stmt} {id : Nat}
    (hss : List.Forall₂ (StmtOf src) items ss) :
    BlockOf src (some (.sequence m items)) (.mk ⟨id, .unknown⟩ ss)
  | stmt {c : Node} {b : Block} (hb : StmtOf src c (.block b)) : BlockOf src (some c) b

/-- The node describes a further branch of a condition. -/
inductive BranchOf (src : Source) : Node → ElseIf → Prop
  | intro {n : Node} {f : Fields} {i : Info} {test : Expr} {body : Block} (hf : FieldsOf src n f)
    (hpos : HasPos src f i.pos) (htest : HasChild (ExprOf src) (f.get? "cond") test)
    (hbody : BlockOf src (f.get? "body") body) : BranchOf src n (.mk i test body)

end

/-! ## Units -/

/-- The root of a document with the name describes the tree: of the file that it names, or of one
that is named after the document. -/
inductive UnitOf (name : String) (anchors : Anchors) : Node → SourceUnit → Prop
  | intro {root : Node} {f : Fields} {given : String} {u : SourceUnit}
    (hf : FieldsOf ⟨name, u.file, anchors⟩ root f) (hgiven : HasText f "file" given)
    (hfile : u.file = if given = "" then PathName.sourceName name else given)
    (hclass : HasText f "class" u.className)
    (hstmts : HasList (StmtOf ⟨name, u.file, anchors⟩) (f.get? "statements") u.stmts) :
    UnitOf name anchors root u

/-! ## Positions -/

theorem exists_node_of_mem {R : Node → α → Prop} {items : List Node} {as : List α} {a : α}
    (h : List.Forall₂ R items as) (ha : a ∈ as) : ∃ c, R c a := by
  induction h with
  | nil => cases ha
  | cons hhead _ ih =>
    rcases List.mem_cons.mp ha with rfl | ha
    · exact ⟨_, hhead⟩
    · exact ih ha

theorem HasList.exists_node {R : Node → α → Prop} {n : Option Node} {as : List α} {a : α}
    (h : HasList R n as) (ha : a ∈ as) : ∃ c, R c a := by
  cases h with
  | absent => cases ha
  | given has => exact exists_node_of_mem has ha

theorem HasChild.exists_node {R : Node → α → Prop} {n : Option Node} {a : α}
    (h : HasChild R n a) : ∃ c, R c a := by
  obtain ⟨ha⟩ := h
  exact ⟨_, ha⟩

variable {src : Source}

theorem HasPos.file_eq {f : Fields} {pos : Pos} (h : HasPos src f pos) : pos.file = src.file := by
  obtain ⟨line, column, -, -, rfl⟩ := h
  rfl

theorem Described.file_eq {n : Node} {kind : String} {f : Fields} {i : Info}
    (h : Described src n kind f i) : i.pos.file = src.file :=
  h.pos.file_eq

namespace ExprOf

variable {n : Node} {e : Expr}

theorem file_eq (h : ExprOf src n e) : e.pos.file = src.file := by
  cases h <;> exact Described.file_eq ‹_›

/-- Every part of an expression is described by a node itself. -/
theorem part (h : ExprOf src n e) {u : Usage} {p : Expr × Usage} (hp : p ∈ e.parts u) :
    ∃ c, ExprOf src c p.1 := by
  have hrow {es : List Expr} {v : Usage} (hes : ∀ e ∈ es, ∃ c, ExprOf src c e)
      (hp : p ∈ es.map (·, v)) : ∃ c, ExprOf src c p.1 := by
    obtain ⟨e, he, rfl⟩ := List.mem_map.mp hp
    exact hes e he
  -- every part was described by a field of the node
  cases h with
  | number | text | undef | var => cases hp
  | string _ _ hpieces =>
    refine hrow (fun e he => ?_) hp
    obtain ⟨piece, hpiece, hright⟩ := List.mem_filterMap.mp he
    obtain ⟨c, hc⟩ := exists_node_of_mem hpieces hpiece
    cases hc with
    | plain | text => cases hright
    | expr _ he =>
      cases hright
      exact he.exists_node
  | anonArray _ helems | anonHash _ helems | list _ helems =>
    exact hrow (fun e he => helems.exists_node he) hp
  | call _ _ _ hargs =>
    obtain ⟨k, hk, rfl⟩ := List.mem_mapIdx.mp hp
    exact hargs.exists_node (List.getElem_mem hk)
  | deref _ h | makeRef _ h | incDec _ _ _ h | unary _ _ h =>
    cases List.mem_singleton.mp hp
    exact h.exists_node
  | index _ _ h h' | assign _ _ h h' | binary _ _ h h' =>
    rcases List.mem_pair.mp hp with rfl | rfl
    · first | exact h.exists_node | exact h'.exists_node
    · first | exact h.exists_node | exact h'.exists_node
  | ternary _ hcond hyes hno =>
    simp only [Expr.parts, List.mem_cons, List.not_mem_nil, or_false] at hp
    rcases hp with rfl | rfl | rfl
    · exact hcond.exists_node
    · exact hyes.exists_node
    · exact hno.exists_node

/-- An expression and all its parts are in the file that the document is about. -/
theorem placed (h : ExprOf src n e) : ∀ x ∈ e.preorder, x.pos.file = src.file := by
  -- The parts of an expression are the same under every usage, so any will do.
  suffices hall : ∀ e (u : Usage) n, ExprOf src n e → ∀ x ∈ e.preorder, x.pos.file = src.file from
    hall e .scalar n h
  refine Expr.parts_induction fun e u ih n h x hx => ?_
  rcases (Expr.mem_preorder_iff u).mp hx with rfl | ⟨p, hp, hx⟩
  · exact h.file_eq
  · obtain ⟨c, hc⟩ := h.part hp
    exact ih p hp c hc x hx

end ExprOf

/-- The parts that have a position are in the file. -/
def AllIn (file : String) (ps : List Part) : Prop :=
  ∀ p ∈ ps, p.info.pos ≠ .unknown → p.info.pos.file = file

namespace AllIn

variable {file : String} {ps qs : List Part}

theorem nil : AllIn file [] :=
  fun _ hp => absurd hp List.not_mem_nil

theorem append (hp : AllIn file ps) (hq : AllIn file qs) : AllIn file (ps ++ qs) :=
  List.forall_mem_append.mpr ⟨hp, hq⟩

theorem cons {p : Part} (hself : p.info.pos.file = file) (h : AllIn file ps) :
    AllIn file (p :: ps) :=
  List.forall_mem_cons.mpr ⟨fun _ => hself, h⟩

theorem unplaced {p : Part} (hself : p.info.pos = .unknown) (h : AllIn file ps) :
    AllIn file (p :: ps) :=
  List.forall_mem_cons.mpr ⟨fun hne => absurd hself hne, h⟩

theorem expr {n : Node} {e : Expr} (h : ExprOf src n e) :
    AllIn src.file (e.preorder.map .expr) := by
  intro p hp _
  obtain ⟨x, hx, rfl⟩ := List.mem_map.mp hp
  exact h.placed x hx

theorem child {n : Option Node} {e : Expr} (h : HasChild (ExprOf src) n e) :
    AllIn src.file (e.preorder.map .expr) := by
  obtain ⟨he⟩ := h
  exact expr he

theorem exprs {es : List Expr} (h : ∀ e ∈ es, ∃ c, ExprOf src c e) :
    AllIn src.file ((Expr.preorderList es).map .expr) := by
  rw [Expr.preorderList_eq_flatMap]
  intro p hp _
  obtain ⟨x, hx, rfl⟩ := List.mem_map.mp hp
  obtain ⟨e, he, hx⟩ := List.mem_flatMap.mp hx
  obtain ⟨c, hc⟩ := h e he
  exact hc.placed x hx

theorem option {n : Option Node} {value : Option Expr} (h : Option.Rel (ExprOf src) n value) :
    AllIn src.file ((Expr.preorderList value.toList).map .expr) := by
  refine exprs fun e he => ?_
  cases h with
  | none => cases he
  | some h =>
    cases List.mem_singleton.mp he
    exact ⟨_, h⟩

theorem loopVar {n : Option Node} {var : Option Variable} {info : Info} {implicit : Nat}
    (hinfo : info.pos.file = src.file)
    (h : Option.Rel (fun c v => ExprOf src c (.var v)) n var) :
    AllIn src.file (Part.loopVar (fun _ => true) info var implicit) := by
  cases h with
  | none => exact cons hinfo nil
  | some hv => exact cons hv.file_eq nil

end AllIn

mutual

/-- A statement and all its parts are in the file that the document is about. -/
theorem StmtOf.placed : ∀ (s : Stmt) {n : Node}, StmtOf src n s →
    AllIn src.file (s.preorder fun _ => true)
  | .expr _ _, _, h => by
    cases h with
    | expr h he => exact .cons h.file_eq (.child he)
    | bare h _ he => exact .cons h.file_eq (.expr he)
  | .block b, _, h => BlockOf.placed b (.stmt h)
  | .cond _ _ _ yes branches no, _, h => by
    cases h with
    | cond _ h htest hyes hno hbranches =>
      have hall : AllIn src.file (Stmt.preorderBranches (fun _ => true) branches) :=
        BranchOf.placedList branches fun b hb => hbranches.exists_node hb
      exact .cons h.file_eq (.append (.child htest)
        (.append (BlockOf.placed yes hyes) (.append hall (BlockOf.placed no hno))))
  | .loop _ _ _ _ body, _, h => by
    cases h with
    | loop _ h htest _ hbody =>
      exact .cons h.file_eq (.append (.child htest) (BlockOf.placed body hbody))
  | .steps _ _ _ _ body, _, h => by
    cases h with
    | steps h hinit htest hpost hbody =>
      have hall : ∀ e ∈ _ ++ (_ ++ _), ∃ c, ExprOf src c e :=
        List.forall_mem_append.mpr ⟨fun e he => hinit.exists_node he,
          List.forall_mem_append.mpr ⟨fun e he => htest.exists_node he,
            fun e he => hpost.exists_node he⟩⟩
      exact .cons h.file_eq (.append (.exprs hall) (BlockOf.placed body hbody))
  | .foreach _ _ _ _ body, _, h => by
    cases h with
    | foreach h hlist hvar hbody =>
      exact .cons h.file_eq (.append (.loopVar h.file_eq hvar)
        (.append (.child hlist) (BlockOf.placed body hbody)))
  | .ret _ _, _, h => by
    cases h with
    | ret h hvalue => exact .cons h.file_eq (.option hvalue)
  | .sub _ _ _ body, _, h => by
    cases h with
    | sub h _ _ hbody _ => exact .cons h.file_eq (BlockOf.placed body hbody)
    -- the body that stands in for a missing one has no position
    | bodiless h => exact .cons h.file_eq (.unplaced rfl .nil)
  | .jump _ _, _, h | .package _ _, _, h | .use _ _, _, h | .pragma _ _ _, _, h
  | .comment _ _, _, h => by
    cases h
    exact .cons (Described.file_eq ‹_›) .nil

theorem BlockOf.placed : ∀ (b : Block) {n : Option Node}, BlockOf src n b →
    AllIn src.file (b.preorder fun _ => true)
  | .absent, _, _ => .nil
  | .mk _ ss, _, h => by
    cases h with
    | list hss => exact .unplaced rfl (StmtOf.placedList ss fun s hs => exists_node_of_mem hss hs)
    | stmt hb =>
      cases hb with
      | block h hss => exact .cons h.file_eq (StmtOf.placedList ss fun s hs => hss.exists_node hs)

theorem StmtOf.placedList : ∀ ss : List Stmt, (∀ s ∈ ss, ∃ n, StmtOf src n s) →
    AllIn src.file (Stmt.preorderList (fun _ => true) ss)
  | [], _ => .nil
  | s :: rest, h => by
    obtain ⟨⟨n, hs⟩, hrest⟩ := List.forall_mem_cons.mp h
    exact (StmtOf.placed s hs).append (StmtOf.placedList rest hrest)

theorem BranchOf.placed : ∀ (b : ElseIf) {n : Node}, BranchOf src n b →
    AllIn src.file (b.preorder fun _ => true)
  | .mk _ _ body, _, h => by
    obtain ⟨-, hpos, htest, hbody⟩ := h
    exact .cons hpos.file_eq (.append (.child htest) (BlockOf.placed body hbody))

theorem BranchOf.placedList : ∀ bs : List ElseIf, (∀ b ∈ bs, ∃ n, BranchOf src n b) →
    AllIn src.file (Stmt.preorderBranches (fun _ => true) bs)
  | [], _ => .nil
  | b :: rest, h => by
    obtain ⟨⟨n, hb⟩, hrest⟩ := List.forall_mem_cons.mp h
    exact (BranchOf.placed b hb).append (BranchOf.placedList rest hrest)

end

/-- Where a part of the tree that a document describes has a position, it is in the file of the
tree. -/
theorem UnitOf.placed {name : String} {anchors : Anchors} {root : Node} {u : SourceUnit}
    (h : UnitOf name anchors root u) : AllIn u.file (u.preorder fun _ => true) := by
  obtain ⟨-, -, -, -, hstmts⟩ := h
  exact StmtOf.placedList u.stmts fun s hs => hstmts.exists_node hs

end TypedPerl.Document
