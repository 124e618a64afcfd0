import TypedPerl.Proofs.Document.Described
import TypedPerl.Proofs.Document.Numbering
import TypedPerl.Proofs.Yaml.Acyclic

/-!
# Reading a document gives its tree or refuses it

`Settles x post` says that a run of the reader `x` gives something that satisfies `post`, or refuses
the document with a diagnostic that names it. A reader of a node settles for what the node
describes, as soon as the node fits the levels that the reader has. The main result is that every
document that does not hold itself is read into the tree that it describes, or refused.
-/

namespace TypedPerl

/-- The fault is a diagnostic about a tree document, and its position names the document. -/
def Fault.Refuses (name : String) (f : Fault) : Prop :=
  ∃ r cause, f = .report r cause ∧ r.code = .invalidTree ∧ r.pos.file = name

namespace Document

open Yaml (Node Anchors Fits Acyclic)

variable {α β γ : Type}

/-! ## Readers -/

/-- A run of the reader gives something that satisfies `post`, or refuses the document. -/
def Settles (src : Source) (x : Decode α) (post : α → Prop) : Prop :=
  ∀ n, match x src n with
    | .ok (a, _) => post a
    | .error f => f.Refuses src.name

namespace Settles

variable {src : Source} {post : α → Prop} {post' : β → Prop}

theorem pure {a : α} (h : post a) : Settles src (Pure.pure a) post :=
  fun _ => h

theorem refuse (n : Node) (message : String) : Settles src (Document.refuse n message) post :=
  fun _ => ⟨_, _, rfl, rfl, rfl⟩

theorem bind {x : Decode α} {k : α → Decode β} (hx : Settles src x post)
    (hk : ∀ a, post a → Settles src (k a) post') : Settles src (x >>= k) post' := by
  intro n
  have hfirst := hx n
  rw [run_bind]
  rcases hrun : x src n with f | ⟨a, n₁⟩
  · rw [hrun] at hfirst
    exact hfirst
  · rw [hrun] at hfirst
    exact hk a hfirst n₁

theorem mono {x : Decode α} {stronger : α → Prop} (hx : Settles src x stronger)
    (h : ∀ a, stronger a → post a) : Settles src x post := by
  intro n
  have hrun := hx n
  split
  · rename_i heq
    rw [heq] at hrun
    exact h _ hrun
  · rename_i heq
    rw [heq] at hrun
    exact hrun

/-- What is known of the document is no more than the reader is told. -/
theorem read {k : Source → Decode β} (hk : Settles src (k src) post') :
    Settles src (MonadReader.read >>= k) post' :=
  fun n => hk n

theorem map {x : Decode α} {g : α → β} (hx : Settles src x post) (hg : ∀ a, post a → post' (g a)) :
    Settles src (g <$> x) post' := by
  rw [map_eq_pure_bind]
  exact hx.bind fun a ha => .pure (hg a ha)

/-- Reading several nodes in order gives one result for each. -/
theorem mapM {R : γ → α → Prop} {f : γ → Decode α} {xs : List γ}
    (hf : ∀ x ∈ xs, Settles src (f x) (R x)) : Settles src (xs.mapM f) (List.Forall₂ R xs) := by
  induction xs with
  | nil => exact .pure .nil
  | cons x xs ih =>
    obtain ⟨hx, hxs⟩ := List.forall_mem_cons.mp hf
    rw [List.mapM_cons]
    exact hx.bind fun a ha => (ih hxs).bind fun as has => .pure (.cons ha has)

end Settles

theorem settles_freshId (src : Source) : Settles src freshId fun _ => True :=
  fun _ => trivial

/-! ## Fields -/

/-- All that the fields hold fits a number of levels. -/
def Fields.Fit (f : Fields) (src : Source) (d : Nat) : Prop :=
  ∀ c ∈ f.entries, Fits src.anchors d c

theorem mem_of_lastValue? {key : String} {ns : List Node} {c : Node}
    (h : lastValue? key ns = some c) : c ∈ ns := by
  fun_induction lastValue? key ns with
  | case1 k v rest n heq ih =>
    cases h
    exact List.mem_cons_of_mem _ (List.mem_cons_of_mem _ (ih heq))
  | case2 k v rest _ _ _ =>
    cases h
    exact List.mem_cons_of_mem _ List.mem_cons_self
  | case3 => cases h
  | case4 => cases h

variable {src : Source} {d : Nat}

/-- What a field holds fits the levels that all fields fit. -/
theorem Fields.Fit.field {f : Fields} (hfit : f.Fit src d) {key : String} {c : Node}
    (h : f.get? key = some c) : Fits src.anchors d c :=
  hfit c (mem_of_lastValue? (Option.filter_eq_some_iff.mp h).1)

theorem settles_fields {n : Node} (hfit : Fits src.anchors (d + 1) n) :
    Settles src (fields n) fun f => FieldsOf src n f ∧ f.Fit src d := by
  refine .read ?_
  rcases hn : n.resolve src.anchors with _ | _ | ⟨m, es⟩ | _
  · exact .refuse _ _
  · exact .refuse _ _
  · refine .pure ⟨⟨m, es, hn, rfl⟩, fun c hc => ?_⟩
    rw [Fits, hn] at hfit
    exact hfit c hc
  · exact .refuse _ _

section Fields

variable (f : Fields) (key : String)

theorem settles_text : Settles src (f.text key) (HasText f key) := by
  unfold Fields.text
  split
  · exact .pure (.absent ‹_›)
  · exact .pure (.given ‹_›)
  · exact .refuse _ _

theorem settles_required : Settles src (f.required key) (HasWord f key) := by
  refine (settles_text f key).bind fun t ht => ?_
  split
  · exact .refuse _ _
  · exact .pure ⟨ht, ‹_›⟩

theorem settles_flag : Settles src (f.flag key) (HasFlag src f key) := by
  unfold Fields.flag
  split
  · exact .pure (.absent ‹_›)
  · refine .read ?_
    split
    · exact .pure (.given ‹_› ‹_›)
    · exact .refuse _ _

theorem settles_number : Settles src (f.number key) (HasNumber src f key) := by
  unfold Fields.number
  split
  · exact .pure (.absent ‹_›)
  · refine .read ?_
    split
    · exact .pure (.given ‹_› ‹_›)
    · exact .refuse _ _

theorem settles_type : Settles src (f.type key) (HasType f key) := by
  refine (settles_text f key).bind fun t ht => ?_
  split
  · exact .pure (.absent (‹t = ""› ▸ ht))
  · split
    · exact .pure (.given ⟨ht, ‹_›⟩ ‹_›)
    · -- the fault of the type becomes a diagnostic at the field
      exact .read fun _ => ⟨_, _, rfl, rfl, rfl⟩

theorem toText_of_ofText? {t : String} {s : Sigil} (h : Sigil.ofText? t = some s) :
    s.toText = t := by
  unfold Sigil.ofText? at h
  split at h <;> cases h <;> rfl

theorem settles_sigil : Settles src (f.sigil key) (HasSigil f key) := by
  refine (settles_text f key).bind fun t ht => ?_
  split
  · exact .pure (.absent (‹t = ""› ▸ ht))
  · split
    · exact .pure (.given (toText_of_ofText? ‹_› ▸ ht))
    · exact .refuse _ _

theorem settles_info : Settles src f.info fun i => HasPos src f i.pos := by
  refine (settles_number f _).bind fun line hline => (settles_number f _).bind fun column hcolumn =>
    (settles_freshId src).bind fun i _ => .read (.pure ?_)
  exact ⟨line, column, hline, hcolumn, rfl⟩

end Fields

/-! ## Expressions -/

/-- The entries of a sequence fit the levels of the sequence. -/
theorem fits_item {m : Yaml.Mark} {items : List Node}
    (hfit : Fits src.anchors d (.sequence m items)) {c : Node} (hc : c ∈ items) :
    Fits src.anchors d c := by
  cases d with
  | zero => cases hfit
  | succ d => exact (hfit c hc).mono (Nat.le_succ d)

section Expressions

variable {expr : Node → Decode Expr}
variable (hexpr : ∀ c, Fits src.anchors d c → Settles src (expr c) (ExprOf src c))

include hexpr

theorem settles_piece {n : Node} (hfit : Fits src.anchors d n) :
    Settles src (stringPiece expr n) (PieceOf src (ExprOf src) n) := by
  cases d with
  | zero => cases hfit
  | succ d =>
    unfold stringPiece
    split
    · exact .pure .plain
    -- anything but a scalar needs a level for its fields
    · refine (settles_fields hfit).bind fun f ⟨hf, hfit⟩ => ?_
      split
      · rename_i c hc
        refine (hexpr c ((hfit.field hc).mono (Nat.le_succ d))).map fun e he => .expr hf ?_
        rw [hc]
        exact .given he
      · exact (settles_text f _).map fun t ht => .text hf ‹_› ht

variable {f : Fields} (hfit : f.Fit src d)

include hfit

theorem settles_requiredExpr (key : String) :
    Settles src (requiredExpr expr f key) (HasChild (ExprOf src) (f.get? key)) := by
  unfold requiredExpr
  split
  · rename_i c hc
    rw [hc]
    exact (hexpr c (hfit.field hc)).mono fun _ he => .given he
  · exact .refuse _ _

theorem settles_optionalExpr (key : String) :
    Settles src (optionalExpr expr f key) (Option.Rel (ExprOf src) (f.get? key)) := by
  unfold optionalExpr
  split
  · rename_i c hc
    rw [hc]
    exact (hexpr c (hfit.field hc)).map fun _ he => .some he
  · rename_i hnone
    rw [hnone]
    exact .pure .none

theorem settles_exprList (key : String) :
    Settles src (exprList expr f key) (HasList (ExprOf src) (f.get? key)) := by
  unfold exprList
  split
  · rename_i hnone
    rw [hnone]
    exact .pure .absent
  · rename_i hitems
    rw [hitems]
    refine (Settles.mapM fun c hc => ?_).mono fun es hes => .given hes
    exact hexpr c (fits_item (hfit.field hitems) hc)
  · exact .refuse _ _

theorem settles_stringExpr {n : Node} {info : Info} (h : Described src n "string" f info) :
    Settles src (stringExpr expr f info) (ExprOf src n) := by
  unfold stringExpr
  split
  · exact (settles_text f _).bind fun t ht => .pure (.text h ‹_› ht)
  · rename_i hitems
    refine (Settles.mapM fun c hc => ?_).bind fun pieces hpieces => .pure (.string h hitems hpieces)
    exact settles_piece hexpr (fits_item (hfit.field hitems) hc)
  · exact .refuse _ _

theorem settles_indexExpr {n : Node} {info : Info} {throughRef : Bool}
    (h : Described src n (if throughRef then "refindex" else "index") f info) :
    Settles src (indexExpr expr f info throughRef) (ExprOf src n) :=
  (settles_requiredExpr hexpr hfit _).bind fun _ htarget =>
    (settles_requiredExpr hexpr hfit _).bind fun _ hkey =>
    (settles_flag f _).bind fun _ hbrace => (settles_sigil f _).bind fun _ hcontext =>
    .pure (.index throughRef h htarget hkey hbrace hcontext)

theorem settles_assignExpr {n : Node} {info : Info} (h : Described src n "assign" f info) :
    Settles src (assignExpr expr f info) (ExprOf src n) :=
  (settles_text f _).bind fun _ hop => (settles_requiredExpr hexpr hfit _).bind fun _ hleft =>
    (settles_requiredExpr hexpr hfit _).bind fun _ hright => .pure (.assign h hop hleft hright)

theorem settles_binaryExpr {n : Node} {info : Info} (h : Described src n "binary" f info) :
    Settles src (binaryExpr expr f info) (ExprOf src n) := by
  refine (settles_text f _).bind fun op hop =>
    (settles_requiredExpr hexpr hfit _).bind fun left hleft =>
    (settles_requiredExpr hexpr hfit _).bind fun right hright => ?_
  split
  · exact .refuse _ _
  · exact .pure (.binary h ⟨hop, ‹_›⟩ hleft hright)

theorem settles_incDecExpr {n : Node} {info : Info} (h : Described src n "incdec" f info) :
    Settles src (incDecExpr expr f info) (ExprOf src n) :=
  (settles_required f _).bind fun _ hop => (settles_flag f _).bind fun _ hbefore =>
    (settles_requiredExpr hexpr hfit _).bind fun _ htarget =>
    .pure (.incDec h hop hbefore htarget)

theorem settles_callExpr {n : Node} {info : Info} (h : Described src n "call" f info) :
    Settles src (callExpr expr f info) (ExprOf src n) :=
  (settles_required f _).bind fun _ hname => (settles_text f _).bind fun _ hpackage =>
    (settles_exprList hexpr hfit _).bind fun _ hargs => .pure (.call h hname hpackage hargs)

end Expressions

theorem toText_of_declarator {t : String} {d : Declarator} (h : Declarator.ofText? t = some d) :
    d.toText = t := by
  unfold Declarator.ofText? at h
  split at h <;> cases h <;> rfl

theorem settles_variableExpr (f : Fields) (info : Info) :
    Settles src (variableExpr f info) fun v => v.info = info ∧ VariableOf src f v := by
  refine (settles_required f _).bind fun name hname => (settles_sigil f _).bind fun sigil hsigil =>
    (settles_text f _).bind fun package hpackage => (settles_text f _).bind fun word hword => ?_
  split
  · exact .refuse _ _
  · rename_i decl hdecl
    refine (settles_type f _).bind fun type htype => .pure ⟨rfl, ?_⟩
    exact ⟨hname, hpackage, hsigil, toText_of_declarator hdecl ▸ hword, htype⟩

/-- An expression of any kind settles for what its node describes. -/
theorem settles_exprOfKind {expr : Node → Decode Expr}
    (hexpr : ∀ c, Fits src.anchors d c → Settles src (expr c) (ExprOf src c)) {f : Fields}
    (hfit : f.Fit src d) {n : Node} {info : Info} {kind : String}
    (h : Described src n kind f info) :
    Settles src (exprOfKind expr n f info kind) (ExprOf src n) := by
  have hrequired := settles_requiredExpr hexpr hfit
  have hlist := settles_exprList hexpr hfit
  -- one case for each kind, in the order in which the reader tells them apart
  unfold exprOfKind
  split
  · split
    · exact .pure (.number h ‹_›)
    · exact .refuse _ _
  · exact settles_stringExpr hexpr hfit h
  · exact .pure (.undef h)
  · exact (settles_variableExpr f info).map fun v ⟨hinfo, hv⟩ => .var (hinfo ▸ h) hv
  · exact settles_indexExpr hexpr hfit h
  · exact settles_indexExpr hexpr hfit h
  · exact (hrequired _).bind fun target htarget => (settles_sigil f _).bind fun sigil hsigil =>
      .pure (.deref h htarget hsigil)
  · exact (hrequired _).map fun target htarget => .makeRef h htarget
  · exact (hlist _).bind fun elems helems => (settles_type f _).bind fun type htype =>
      .pure (.anonArray h helems htype)
  · exact (hlist _).bind fun elems helems => (settles_type f _).bind fun type htype =>
      .pure (.anonHash h helems htype)
  · exact (hlist _).map fun elems helems => .list h helems
  · exact settles_assignExpr hexpr hfit h
  · exact settles_binaryExpr hexpr hfit h
  · exact settles_incDecExpr hexpr hfit h
  · exact (settles_required f _).bind fun op hop => (hrequired _).map fun operand hoperand =>
      .unary h hop hoperand
  · exact (hrequired _).bind fun cond hcond => (hrequired _).bind fun yes hyes =>
      (hrequired _).bind fun no hno => .pure (.ternary h hcond hyes hno)
  · exact settles_callExpr hexpr hfit h
  · exact .refuse _ _

/-- What stands in front of a node of the tree: its fields, its kind and its position. -/
theorem settles_described {n : Node} (hfit : Fits src.anchors (d + 1) n)
    {k : Fields → String → Info → Decode β} {post : β → Prop}
    (hk : ∀ f kind info, f.Fit src d → Described src n kind f info →
      Settles src (k f kind info) post) :
    Settles src (do
      let f ← fields n
      let kind ← f.required "kind"
      let info ← f.info
      k f kind info) post :=
  (settles_fields hfit).bind fun f ⟨hf, hfit⟩ => (settles_required f _).bind fun kind hkind =>
    (settles_info f).bind fun info hpos => hk f kind info hfit ⟨hf, hkind, hpos⟩

theorem settles_expr (levels : Nat) :
    ∀ c, Fits src.anchors levels c → Settles src (expr levels c) (ExprOf src c) := by
  induction levels with
  | zero =>
    intro c hfit
    cases hfit
  | succ levels ih =>
    intro c hfit
    exact settles_described hfit fun f kind info hfit h => settles_exprOfKind ih hfit h

/-! ## Statements -/

/-- A text of two bytes or more whose first character is a mark is the mark and a name. -/
theorem target_of_chars {s : String} {c : Char} {name : List Char} {sigil : Sigil}
    (hsize : ¬s.utf8ByteSize < 2) (hchars : s.toList = c :: name)
    (hsigil : Sigil.ofText? (String.singleton c) = some sigil) :
    s = sigil.toText ++ String.ofList name ∧ String.ofList name ≠ "" := by
  have hs : s = sigil.toText ++ String.ofList name := by
    rw [toText_of_ofText? hsigil, ← String.toList_inj, hchars]
    simp
  refine ⟨hs, fun hname => hsize ?_⟩
  -- a mark alone is one byte
  rw [hs, hname]
  cases sigil <;> decide

theorem settles_pragmaTarget (n : Node) : Settles src (pragmaTarget n) (TargetOf n) := by
  unfold pragmaTarget
  split
  · rename_i t _
    dsimp only
    split
    · exact .refuse _ _
    -- a target is a sigil and a name
    · rename_i hsize
      split
      · rename_i c name hchars
        split
        · rename_i sigil hsigil
          obtain ⟨htrim, hname⟩ := target_of_chars hsize hchars hsigil
          exact .pure (.intro htrim hname)
        · exact .refuse _ _
      · exact .refuse _ _
  · exact .refuse _ _

theorem settles_pragmaStmt {n : Node} {f : Fields} {info : Info}
    (h : Described src n "pragma" f info) : Settles src (pragmaStmt f info) (StmtOf src n) := by
  refine (settles_type f _).bind fun type htype => ?_
  split
  · exact .refuse _ _
  · split
    · exact (Settles.mapM fun c _ => settles_pragmaTarget c).bind fun targets htargets =>
        .pure (.pragma h htype ‹_› htargets)
    · exact .refuse _ _

/-- No node describes a body that is not there. -/
theorem none_of_absent {n : Option Node} (h : BlockOf src n .absent) : n = none := by
  cases h with
  | absent => rfl
  | stmt hb => cases hb

section Statements

variable {expr : Node → Decode Expr} {stmt : Node → Decode Stmt}
variable (hexpr : ∀ c, Fits src.anchors d c → Settles src (expr c) (ExprOf src c))
variable (hstmt : ∀ c, Fits src.anchors d c → Settles src (stmt c) (StmtOf src c))
variable {f : Fields} (hfit : f.Fit src d)

section Bodies

include hstmt hfit

theorem settles_stmtList (key : String) :
    Settles src (stmtList stmt f key) (HasList (StmtOf src) (f.get? key)) := by
  unfold stmtList
  split
  · rename_i hnone
    rw [hnone]
    exact .pure .absent
  · rename_i hitems
    rw [hitems]
    refine (Settles.mapM fun c hc => ?_).mono fun ss hss => .given hss
    exact hstmt c (fits_item (hfit.field hitems) hc)
  · exact .refuse _ _

theorem settles_blockField (key : String) :
    Settles src (blockField stmt f key) (BlockOf src (f.get? key)) := by
  unfold blockField
  split
  · rename_i hnone
    rw [hnone]
    exact .pure .absent
  -- a list takes a number of its own, and a single statement is the block
  · rename_i hitems
    rw [hitems]
    refine (Settles.mapM fun c hc => ?_).bind fun ss hss =>
      (settles_freshId src).bind fun i _ => .pure (.list hss)
    exact hstmt c (fits_item (hfit.field hitems) hc)
  · rename_i c _ hc
    rw [hc]
    refine (hstmt c (hfit.field hc)).bind fun s hs => ?_
    split
    · exact .pure (.stmt hs)
    · exact .refuse _ _

theorem settles_subStmt {n : Node} {info : Info} (h : Described src n "sub" f info) :
    Settles src (subStmt stmt f info) (StmtOf src n) := by
  refine (settles_required f _).bind fun name hname =>
    (settles_type f _).bind fun returns hreturns =>
    (settles_blockField hstmt hfit _).bind fun body hbody => ?_
  cases body with
  | absent =>
    -- a body in the document is never read as none, so none is given
    exact (settles_freshId src).bind fun i _ =>
      .pure (.bodiless h hname hreturns (none_of_absent hbody))
  | mk i ss => exact .pure (.sub h hname hreturns hbody rfl)

end Bodies

include hexpr hstmt

theorem settles_elseIf {n : Node} (hfit : Fits src.anchors d n) :
    Settles src (elseIf expr stmt n) (BranchOf src n) := by
  cases d with
  | zero => cases hfit
  | succ d =>
    refine (settles_fields hfit).bind fun f ⟨hf, hfit⟩ => ?_
    have hfit : f.Fit src (d + 1) := fun c hc => (hfit c hc).mono (Nat.le_succ d)
    exact (settles_info f).bind fun info hpos =>
      (settles_requiredExpr hexpr hfit _).bind fun test htest =>
      (settles_blockField hstmt hfit _).bind fun body hbody => .pure (.intro hf hpos htest hbody)

include hfit

theorem settles_elseIfs :
    Settles src (elseIfs expr stmt f) (HasList (BranchOf src) (f.get? "elsif")) := by
  unfold elseIfs
  split
  · rename_i hnone
    rw [hnone]
    exact .pure .absent
  · rename_i hitems
    rw [hitems]
    refine (Settles.mapM fun c hc => ?_).mono fun bs hbs => .given hbs
    exact settles_elseIf hexpr hstmt (fits_item (hfit.field hitems) hc)
  · exact .refuse _ _

theorem settles_condStmt {n : Node} {info : Info} {negated : Bool}
    (h : Described src n (if negated then "unless" else "if") f info) :
    Settles src (condStmt expr stmt f info negated) (StmtOf src n) :=
  (settles_requiredExpr hexpr hfit _).bind fun _ htest =>
    (settles_blockField hstmt hfit _).bind fun _ hyes =>
    (settles_blockField hstmt hfit _).bind fun _ hno =>
    (settles_elseIfs hexpr hstmt hfit).bind fun _ hbranches =>
    .pure (.cond negated h htest hyes hno hbranches)

theorem settles_loopStmt {n : Node} {info : Info} {negated : Bool}
    (h : Described src n (if negated then "until" else "while") f info) :
    Settles src (loopStmt expr stmt f info negated) (StmtOf src n) :=
  (settles_requiredExpr hexpr hfit _).bind fun _ htest => (settles_flag f _).bind fun _ hdo =>
    (settles_blockField hstmt hfit _).bind fun _ hbody => .pure (.loop negated h htest hdo hbody)

theorem settles_stepsStmt {n : Node} {info : Info} (h : Described src n "for" f info) :
    Settles src (stepsStmt expr stmt f info) (StmtOf src n) :=
  (settles_exprList hexpr hfit _).bind fun _ hinit =>
    (settles_exprList hexpr hfit _).bind fun _ htest =>
    (settles_exprList hexpr hfit _).bind fun _ hpost =>
    (settles_blockField hstmt hfit _).bind fun _ hbody =>
    .pure (.steps h hinit htest hpost hbody)

theorem settles_foreachStmt {n : Node} {info : Info} (h : Described src n "foreach" f info) :
    Settles src (foreachStmt expr stmt f info) (StmtOf src n) := by
  -- the variable is described as the expression that it is read as
  have hvar : Settles src (loopVariable expr f)
      (Option.Rel (fun c v => ExprOf src c (.var v)) (f.get? "var")) := by
    unfold loopVariable
    split
    · rename_i hnone
      rw [hnone]
      exact .pure .none
    · rename_i c hc
      rw [hc]
      refine (hexpr c (hfit.field hc)).bind fun e he => ?_
      split
      · exact .pure (.some he)
      · exact .refuse _ _
  exact (settles_requiredExpr hexpr hfit _).bind fun list hlist => hvar.bind fun var hvar =>
    (settles_blockField hstmt hfit _).bind fun body hbody =>
    (settles_freshId src).bind fun i _ => .pure (.foreach h hlist hvar hbody)

/-- A statement of any kind settles for what its node describes. An expression that stands for a
statement is read from the same node once more. -/
theorem settles_stmtOfKind {n : Node} (hself : Settles src (expr n) (ExprOf src n)) {info : Info}
    {kind : String} (h : Described src n kind f info) :
    Settles src (stmtOfKind expr stmt n f info kind) (StmtOf src n) := by
  -- one case for each kind, in the order in which the reader tells them apart
  unfold stmtOfKind
  split
  · exact (settles_requiredExpr hexpr hfit _).map fun e he => .expr h he
  · exact (settles_stmtList hstmt hfit _).map fun ss hss => .block h hss
  · exact settles_condStmt hexpr hstmt hfit h
  · exact settles_condStmt hexpr hstmt hfit h
  · exact settles_loopStmt hexpr hstmt hfit h
  · exact settles_loopStmt hexpr hstmt hfit h
  · exact settles_stepsStmt hexpr hstmt hfit h
  · exact settles_foreachStmt hexpr hstmt hfit h
  · exact (settles_optionalExpr hexpr hfit _).map fun value hvalue => .ret h hvalue
  · exact .pure (.jump h (.inl rfl))
  · exact .pure (.jump h (.inr rfl))
  · exact settles_subStmt hstmt hfit h
  · exact (settles_required f _).map fun name hname => .package h hname
  · exact (settles_required f _).map fun name hname => .use h hname
  · exact settles_pragmaStmt h
  · exact (settles_text f _).map fun text htext => .comment h htext
  · split
    · exact hself.map fun e he => .bare h (List.contains_iff_mem.mp ‹_›) he
    · exact .refuse _ _

end Statements

/-- A statement may be read once more as an expression, so that it takes one level more. -/
theorem settles_stmt (levels : Nat) :
    ∀ c, Fits src.anchors levels c → Settles src (stmt (levels + 1) c) (StmtOf src c) := by
  induction levels with
  | zero =>
    intro c hfit
    cases hfit
  | succ levels ih =>
    intro c hfit
    have hexpr : ∀ c, Fits src.anchors levels c →
        Settles src (expr (levels + 1) c) (ExprOf src c) := fun c hfit =>
      settles_expr (levels + 1) c (hfit.mono (Nat.le_succ levels))
    exact settles_described hfit fun f kind info hf h =>
      settles_stmtOfKind hexpr ih hf (settles_expr (levels + 1) c hfit) h

/-! ## Units -/

theorem run_read (k : Source → Decode α) (src : Source) (n : Nat) :
    (MonadReader.read >>= k) src n = k src src n :=
  rfl

/-- Reads the root of a document within a number of levels. -/
def unitWithin (levels : Nat) (name : String) (root : Node) : Decode SourceUnit := do
  let f ← fields root
  let given ← f.text "file"
  let file := if given = "" then PathName.sourceName name else given
  let className ← f.text "class"
  let stmts ← withReader (fun s => { s with file }) (stmtList (stmt levels) f "statements")
  return { file, className, stmts }

/-- The root of a document is read within the levels that are allowed for. -/
theorem unit_eq_unitWithin (name : String) (root : Node) (src : Source) (n : Nat) :
    unit name root src n = unitWithin (4 * Yaml.levels root src.anchors) name root src n := by
  unfold unit unitWithin
  rw [run_bind, run_bind]
  -- both read the same fields, and one of them asks for the bound before the statements
  cases fields root src n with
  | error f => rfl
  | ok r =>
    obtain ⟨f, k⟩ := r
    dsimp only
    rw [run_bind, run_bind]
    cases f.text "file" src k with
    | error g => rfl
    | ok r =>
      obtain ⟨given, k⟩ := r
      dsimp only
      rw [run_bind, run_bind]
      cases f.text "class" src k with
      | error g => rfl
      | ok r => exact run_read _ _ _

/-- The root of a document that fits the levels settles for the tree that it describes. -/
theorem settles_unitWithin {levels : Nat} {root : Node} (hfit : Fits src.anchors (d + 1) root)
    (hle : d < levels) :
    Settles src (unitWithin levels src.name root) (UnitOf src.name src.anchors root) := by
  obtain ⟨levels, rfl⟩ : ∃ k, levels = k + 1 := ⟨levels - 1, by omega⟩
  refine (settles_fields hfit).bind fun f ⟨hf, hfit⟩ => (settles_text f _).bind fun given hgiven =>
    (settles_text f _).bind fun className hclass => ?_
  -- there is a level left for an expression in the place of each statement
  have hstmts (file : String) : Settles { src with file }
      (stmtList (stmt (levels + 1)) f "statements")
      (HasList (StmtOf { src with file }) (f.get? "statements")) := by
    have hfit : f.Fit { src with file } d := hfit
    exact settles_stmtList (fun c hc => settles_stmt levels c (hc.mono (Nat.le_of_lt_succ hle)))
      hfit _
  refine Settles.bind (fun n => hstmts _ n) fun ss hss => .pure ?_
  exact .intro hf hgiven rfl hclass hss

/-- The root of a document that does not hold itself settles for the tree that it describes. -/
theorem settles_unit (hacyclic : Acyclic src.anchors) (root : Node) :
    Settles src (unit src.name root) (UnitOf src.name src.anchors root) := by
  have hfit := hacyclic.fits_levels root
  obtain ⟨d, hd⟩ : ∃ d, Yaml.levels root src.anchors = d + 1 := by
    rcases hlevels : Yaml.levels root src.anchors with _ | d
    · rw [hlevels] at hfit
      cases hfit
    · exact ⟨d, rfl⟩
  intro n
  rw [unit_eq_unitWithin]
  rw [hd] at hfit ⊢
  exact settles_unitWithin hfit (by omega) n

/-- What reading the root of a document ends with. -/
inductive Answers (name : String) (anchors : Anchors) (root : Node) :
    Except Fault SourceUnit → Prop
  /-- The tree that the root describes. What has a position in it is in the file of the tree. -/
  | tree {u : SourceUnit} (h : UnitOf name anchors root u)
    (hplaced : AllIn u.file (u.preorder fun _ => true)) : Answers name anchors root (.ok u)
  /-- The refusal of the document. -/
  | refused {f : Fault} (h : f.Refuses name) : Answers name anchors root (.error f)

/-- What is not refused is read into the tree. -/
theorem Answers.exists_tree {name : String} {anchors : Anchors} {root : Node}
    {r : Except Fault SourceUnit} (h : Answers name anchors root r) (hr : r.toBool = true) :
    ∃ u, r = .ok u ∧ UnitOf name anchors root u ∧ AllIn u.file (u.preorder fun _ => true) := by
  cases h with
  | tree h hplaced => exact ⟨_, rfl, h, hplaced⟩
  | refused h => cases hr

/-- Reading nodes that do not hold themselves gives the tree that they describe or refuses them. -/
theorem unit_answers (name : String) {anchors : Anchors} (hacyclic : Acyclic anchors)
    (root : Node) :
    Answers name anchors root ((unit name root { name, file := "", anchors } 0).map (·.1)) := by
  have hunit := @settles_unit { name, file := "", anchors } hacyclic root 0
  rcases hrun : unit name root { name, file := "", anchors } 0 with f | ⟨u, n⟩
  · rw [hrun] at hunit
    exact .refused hunit
  · rw [hrun] at hunit
    exact .tree hunit hunit.placed

end Document

/-- Reading a document gives the tree that it describes, with each part that has a position in the
file of the tree, or else a diagnostic that names the document. This is so for all nodes that a
document may consist of, as long as none holds itself, and so for each text that spells such nodes
or none. -/
theorem SourceUnit.decode_described (name : String) :
    (∀ root anchors, Yaml.Acyclic anchors → Document.Answers name anchors root
      ((Document.unit name root { name, file := "", anchors } 0).map (·.1))) ∧
    ∀ text, (∀ root anchors, Yaml.parse text = .root root anchors → Yaml.Acyclic anchors) →
      (∃ root anchors, Yaml.parse text = .root root anchors ∧
        Document.Answers name anchors root (SourceUnit.decode text name)) ∨
      ∃ f, SourceUnit.decode text name = .error f ∧ f.Refuses name := by
  refine ⟨fun root anchors h => Document.unit_answers name h root, fun text hacyclic => ?_⟩
  -- a text without a tree of nodes is refused without being read further
  unfold SourceUnit.decode
  split
  · exact .inr ⟨_, rfl, _, _, rfl, rfl, rfl⟩
  · exact .inr ⟨_, rfl, _, _, rfl, rfl, rfl⟩
  · rename_i root anchors hparse
    have hanswers := Document.unit_answers name (hacyclic root anchors hparse) root
    exact .inl ⟨root, anchors, hparse, hanswers⟩

/-- A document with an alias inside a named node, and with an alias of that node. -/
def aliasDocument : String :=
  "statements:\n- &one\n  kind: number\n  value: 1\n- &two\n  kind: ref\n  target: *one\n- *two\n"

/-- The aliases in the named nodes of the document stand for nodes before them. -/
theorem SourceUnit.aliasDocument_acyclic (root : Yaml.Node) (anchors : Yaml.Anchors)
    (hparse : Yaml.parse aliasDocument = .root root anchors) : Yaml.Acyclic anchors := by
  have hordered : (match Yaml.parse aliasDocument with
      | .root _ anchors => anchors.all fun e => e.2.aliases.all (· < e.1)
      | _ => true) = true := by
    decide +kernel
  rw [hparse] at hordered
  exact Yaml.acyclic_of_lt (by simpa using hordered)

theorem SourceUnit.aliasDocument_described :
    ∃ root anchors u, Yaml.parse aliasDocument = .root root anchors ∧ Yaml.Acyclic anchors ∧
      SourceUnit.decode aliasDocument "tree.yaml" = .ok u ∧
      Document.UnitOf "tree.yaml" anchors root u ∧
      Document.AllIn u.file (u.preorder fun _ => true) := by
  have hacyclic := aliasDocument_acyclic
  have hread : (SourceUnit.decode aliasDocument "tree.yaml").toBool = true := by
    decide +kernel
  rcases (SourceUnit.decode_described "tree.yaml").2 aliasDocument hacyclic with
    ⟨root, anchors, hparse, hanswers⟩ | ⟨f, hf, -⟩
  · obtain ⟨u, hu, h, hplaced⟩ := hanswers.exists_tree hread
    exact ⟨root, anchors, u, hparse, hacyclic root anchors hparse, hu, h, hplaced⟩
  · rw [hf] at hread
    cases hread

end TypedPerl
