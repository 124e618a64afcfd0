import TypedPerl.Proofs.Document.Looked

/-!
# What is looked at in a document that is read

Where a document describes a tree, each node that is looked at means something at its place: it is
the text, the number, the list or the part that is wanted there (`Looked.meant`). An alias that
means something is followed (`Place.Meant.follows`).
-/

namespace TypedPerl

namespace Document

open Yaml (Node Mark Anchors)

section Described

variable {src : Source}

/-- The node means something in the role: it describes what is read there. -/
def Role.Meant (src : Source) (r : Role) (n : Node) : Prop :=
  match r with
  | expr => ∃ e, ExprOf src n e
  | stmt => ∃ s, StmtOf src n s
  | branch => ∃ b, BranchOf src n b
  | piece => ∃ p, PieceOf src (ExprOf src) n p
  | target => ∃ t, TargetOf n t

/-- The node means something at the place: it is what is wanted there. -/
def Place.Meant (src : Source) (p : Place) (c : Node) : Prop :=
  match p with
  | field .text => ∃ m t tag, c = .scalar m t tag
  | field .truth => (c.toBool? src.anchors).isSome
  | field .number => (c.toInt? src.anchors).isSome
  | field (.part r) | node r => r.Meant src c
  | field (.row r) => ∃ m items, c = .sequence m items ∧ ∀ x ∈ items, r.Meant src x
  | field .block => ∃ b, BlockOf src (some c) b
  | key => True

/-- What a field holds means something under a look. -/
def Fields.Means (src : Source) (f : Fields) (p : String × Look) : Prop :=
  ∀ c, f.get? p.1 = some c → (Place.field p.2).Meant src c

section Fields

variable {f : Fields} {key : String}

theorem Fields.means_of_absent {l : Look} (h : f.get? key = none) : f.Means src (key, l) :=
  fun c hc => (Option.some_ne_none c (hc.symm.trans h)).elim

theorem HasText.means {t : String} (h : HasText f key t) : f.Means src (key, .text) := by
  cases h with
  | absent h => exact Fields.means_of_absent h
  | given h => exact fun c hc => ⟨_, _, _, Option.some.inj (hc.symm.trans h)⟩

theorem HasType.means {ty : Option Ty} (h : HasType f key ty) :
    f.Means src (key, .text) := by
  cases h with
  | absent h => exact h.means
  | given h => exact h.1.means

theorem HasSigil.means {s : Sigil} (h : HasSigil f key s) : f.Means src (key, .text) := by
  cases h with
  | absent h | given h => exact h.means

theorem HasFlag.means {b : Bool} (h : HasFlag src f key b) : f.Means src (key, .truth) := by
  cases h with
  | absent h => exact Fields.means_of_absent h
  | given h hb =>
    intro c hc
    cases Option.some.inj (hc.symm.trans h)
    exact Option.isSome_iff_exists.mpr ⟨b, hb⟩

theorem HasNumber.means {i : Int} (h : HasNumber src f key i) :
    f.Means src (key, .number) := by
  cases h with
  | absent h => exact Fields.means_of_absent h
  | given h hi =>
    intro c hc
    cases Option.some.inj (hc.symm.trans h)
    exact Option.isSome_iff_exists.mpr ⟨i, hi⟩

theorem HasChild.means {e : Expr} (h : HasChild (ExprOf src) (f.get? key) e) :
    f.Means src (key, .part .expr) := by
  intro c hc
  rw [hc] at h
  obtain ⟨h⟩ := h
  exact ⟨e, h⟩

theorem means_of_rel {α : Type} {R : Node → α → Prop} {a : Option α}
    (hR : ∀ c a, R c a → ∃ e, ExprOf src c e) (h : Option.Rel R (f.get? key) a) :
    f.Means src (key, .part .expr) := by
  intro c hc
  rw [hc] at h
  obtain ⟨h⟩ := h
  exact hR c _ h

theorem means_of_forall₂ {α : Type} {R : Node → α → Prop} {r : Role}
    (hR : ∀ c a, R c a → r.Meant src c) {m : Mark} {items : List Node} {as : List α}
    (hitems : f.get? key = some (.sequence m items)) (h : List.Forall₂ R items as) :
    f.Means src (key, .row r) := by
  intro c hc
  refine ⟨m, items, Option.some.inj (hc.symm.trans hitems), fun x hx => ?_⟩
  obtain ⟨a, -, ha⟩ := Yaml.exists_of_forall₂ h hx
  exact hR x a ha

theorem HasList.means {α : Type} {R : Node → α → Prop} {r : Role}
    (hR : ∀ c a, R c a → r.Meant src c) {as : List α} (h : HasList R (f.get? key) as) :
    f.Means src (key, .row r) := by
  generalize ho : f.get? key = o at h
  cases h with
  | absent => exact Fields.means_of_absent ho
  | given h => exact means_of_forall₂ hR ho h

theorem BlockOf.means {b : Block} (h : BlockOf src (f.get? key) b) :
    f.Means src (key, .block) :=
  fun _ hc => ⟨b, hc ▸ h⟩

theorem HasPos.means {pos : Pos} (h : HasPos src f pos) :
    ∀ p ∈ placeLooks, f.Means src p := by
  obtain ⟨line, column, hline, hcolumn, -⟩ := h
  simp only [placeLooks, List.forall_mem_cons]
  exact ⟨hline.means, hcolumn.means, by simp⟩

theorem kind_eq {kind : String} (h : HasWord f "kind" kind) : f.kind = kind := by
  obtain ⟨h, hne⟩ := h
  unfold Fields.kind
  cases h with
  | absent => exact absurd rfl hne
  | given h => rw [h]; rfl

theorem FieldsOf.unique {n : Node} {g : Fields} (hf : FieldsOf src n f) (hg : FieldsOf src n g) :
    f = g := by
  obtain ⟨m, es, hn, rfl⟩ := hf
  obtain ⟨m', es', hn', rfl⟩ := hg
  cases hn.symm.trans hn'
  rfl

/-- What is looked at in a node that describes something of a kind. -/
theorem Described.means {n : Node} {kind : String} {g : Fields} {i : Info}
    {looks : Fields → List (String × Look)} (h : Described src n kind g i) (hf : FieldsOf src n f)
    (hlooks : g.kind = kind → ∀ p ∈ looks g, g.Means src p) :
    ∀ p ∈ ("kind", Look.text) :: (placeLooks ++ looks f), f.Means src p := by
  obtain rfl := hf.unique h.fields
  simp only [List.forall_mem_cons, List.forall_mem_append]
  exact ⟨h.kind.1.means, h.pos.means, hlooks (kind_eq h.kind)⟩

end Fields

/-- The kinds of expressions are no kinds of statements. -/
theorem stmtLooks_of_exprKind {f : Fields} (h : f.kind ∈ exprKinds) : stmtLooks f = [] := by
  unfold stmtLooks
  split <;> first | rfl | exact absurd (‹f.kind = _› ▸ h) (by decide)

theorem ExprOf.means {n : Node} {e : Expr} {f : Fields} (h : ExprOf src n e)
    (hf : FieldsOf src n f) : ∀ p ∈ Role.expr.looks f, f.Means src p := by
  have hexprs {f : Fields} {key : String} {es : List Expr}
      (h : HasList (ExprOf src) (f.get? key) es) : f.Means src (key, .row .expr) :=
    h.means fun c e he => ⟨e, he⟩
  -- the fields that the reader looks at are those that describe the expression
  cases h with
  | number h hvalue =>
    refine h.means hf fun hkind => ?_
    simp only [exprLooks, hkind, List.forall_mem_cons]
    exact ⟨(HasText.given hvalue).means, by simp⟩
  | text h hparts ht =>
    refine h.means hf fun hkind => ?_
    simp only [exprLooks, hkind, hparts, Option.isNone_none, if_true, List.forall_mem_cons]
    exact ⟨Fields.means_of_absent hparts, ht.means, by simp⟩
  | string h hparts hpieces =>
    refine h.means hf fun hkind => ?_
    simp only [exprLooks, hkind, hparts, Option.isNone_some, List.forall_mem_cons]
    exact ⟨means_of_forall₂ (fun c p hp => ⟨p, hp⟩) hparts hpieces, by simp⟩
  | undef h => exact h.means hf fun hkind => by simp [exprLooks, hkind]
  | var h hv =>
    refine h.means hf fun hkind => ?_
    simp only [exprLooks, hkind, List.forall_mem_cons]
    exact ⟨hv.name.1.means, hv.sigil.means, hv.package.means, hv.decl.means,
      hv.type.means, by simp⟩
  | index throughRef h htarget hkey hbrace hcontext =>
    refine h.means hf fun hkind => ?_
    cases throughRef <;> simp only [exprLooks, hkind, List.forall_mem_cons, if_true, if_false,
      Bool.false_eq_true] <;>
      exact ⟨htarget.means, hkey.means, hbrace.means, hcontext.means, by simp⟩
  | deref h htarget hsigil =>
    refine h.means hf fun hkind => ?_
    simp only [exprLooks, hkind, List.forall_mem_cons]
    exact ⟨htarget.means, hsigil.means, by simp⟩
  | makeRef h htarget =>
    refine h.means hf fun hkind => ?_
    simp only [exprLooks, hkind, List.forall_mem_cons]
    exact ⟨htarget.means, by simp⟩
  | anonArray h helems htype | anonHash h helems htype =>
    refine h.means hf fun hkind => ?_
    simp only [exprLooks, hkind, List.forall_mem_cons]
    exact ⟨hexprs helems, htype.means, by simp⟩
  | list h helems =>
    refine h.means hf fun hkind => ?_
    simp only [exprLooks, hkind, List.forall_mem_cons]
    exact ⟨hexprs helems, by simp⟩
  | assign h hop hleft hright =>
    refine h.means hf fun hkind => ?_
    simp only [exprLooks, hkind, List.forall_mem_cons]
    exact ⟨hop.means, hleft.means, hright.means, by simp⟩
  | binary h hop hleft hright =>
    refine h.means hf fun hkind => ?_
    simp only [exprLooks, hkind, List.forall_mem_cons]
    exact ⟨hop.1.means, hleft.means, hright.means, by simp⟩
  | incDec h hop hbefore htarget =>
    refine h.means hf fun hkind => ?_
    simp only [exprLooks, hkind, List.forall_mem_cons]
    exact ⟨hop.1.means, hbefore.means, htarget.means, by simp⟩
  | unary h hop hoperand =>
    refine h.means hf fun hkind => ?_
    simp only [exprLooks, hkind, List.forall_mem_cons]
    exact ⟨hop.1.means, hoperand.means, by simp⟩
  | ternary h hcond hyes hno =>
    refine h.means hf fun hkind => ?_
    simp only [exprLooks, hkind, List.forall_mem_cons]
    exact ⟨hcond.means, hyes.means, hno.means, by simp⟩
  | call h hname hpackage hargs =>
    refine h.means hf fun hkind => ?_
    simp only [exprLooks, hkind, List.forall_mem_cons]
    exact ⟨hname.1.means, hpackage.means, hexprs hargs, by simp⟩

theorem StmtOf.means {n : Node} {s : Stmt} {f : Fields} (h : StmtOf src n s)
    (hf : FieldsOf src n f) : ∀ p ∈ Role.stmt.looks f, f.Means src p := by
  have hexprs {f : Fields} {key : String} {es : List Expr}
      (h : HasList (ExprOf src) (f.get? key) es) : f.Means src (key, .row .expr) :=
    h.means fun c e he => ⟨e, he⟩
  cases h with
  | expr h he =>
    refine h.means hf fun hkind => ?_
    simp only [stmtLooks, hkind, List.forall_mem_cons]
    exact ⟨he.means, by simp⟩
  -- an expression in the place of a statement has no fields of a statement
  | bare h hkind he =>
    refine h.means hf fun heq => ?_
    rw [← heq] at hkind
    rw [stmtLooks_of_exprKind hkind]
    exact fun _ hp => absurd hp List.not_mem_nil
  | block h hss =>
    refine h.means hf fun hkind => ?_
    simp only [stmtLooks, hkind, List.forall_mem_cons]
    exact ⟨hss.means fun c s hs => ⟨s, hs⟩, by simp⟩
  | cond negated h htest hyes hno hbranches =>
    refine h.means hf fun hkind => ?_
    cases negated <;> simp only [stmtLooks, hkind, List.forall_mem_cons, if_true, if_false,
      Bool.false_eq_true] <;>
      exact ⟨htest.means, hyes.means, hno.means,
        hbranches.means fun c b hb => ⟨b, hb⟩, by simp⟩
  | loop negated h htest hdo hbody =>
    refine h.means hf fun hkind => ?_
    cases negated <;> simp only [stmtLooks, hkind, List.forall_mem_cons, if_true, if_false,
      Bool.false_eq_true] <;>
      exact ⟨htest.means, hdo.means, hbody.means, by simp⟩
  | steps h hinit htest hpost hbody =>
    refine h.means hf fun hkind => ?_
    simp only [stmtLooks, hkind, List.forall_mem_cons]
    exact ⟨hexprs hinit, hexprs htest, hexprs hpost, hbody.means, by simp⟩
  | foreach h hlist hvar hbody =>
    refine h.means hf fun hkind => ?_
    simp only [stmtLooks, hkind, List.forall_mem_cons]
    exact ⟨hlist.means, means_of_rel (fun c v hv => ⟨_, hv⟩) hvar, hbody.means, by simp⟩
  | ret h hvalue =>
    refine h.means hf fun hkind => ?_
    simp only [stmtLooks, hkind, List.forall_mem_cons]
    exact ⟨means_of_rel (fun c e he => ⟨e, he⟩) hvalue, by simp⟩
  | jump h hkeyword =>
    refine h.means hf fun hkind => ?_
    rcases hkeyword with rfl | rfl <;> simp [stmtLooks, hkind]
  | sub h hname hreturns hbody =>
    refine h.means hf fun hkind => ?_
    simp only [stmtLooks, hkind, List.forall_mem_cons]
    exact ⟨hname.1.means, hreturns.means, hbody.means, by simp⟩
  | bodiless h hname hreturns hbody =>
    refine h.means hf fun hkind => ?_
    simp only [stmtLooks, hkind, List.forall_mem_cons]
    exact ⟨hname.1.means, hreturns.means, Fields.means_of_absent hbody, by simp⟩
  | package h hname | use h hname =>
    refine h.means hf fun hkind => ?_
    simp only [stmtLooks, hkind, List.forall_mem_cons]
    exact ⟨hname.1.means, by simp⟩
  | pragma h htype hitems htargets =>
    refine h.means hf fun hkind => ?_
    simp only [stmtLooks, hkind, List.forall_mem_cons]
    exact ⟨htype.means, means_of_forall₂ (fun c t ht => ⟨t, ht⟩) hitems htargets, by simp⟩
  | comment h htext =>
    refine h.means hf fun hkind => ?_
    simp only [stmtLooks, hkind, List.forall_mem_cons]
    exact ⟨htext.means, by simp⟩

/-- A statement whose kind is one of an expression is read once more as one. -/
theorem StmtOf.exprOf {n : Node} {s : Stmt} {f : Fields} (h : StmtOf src n s)
    (hf : FieldsOf src n f) (hkind : f.kind ∈ exprKinds) : ∃ e, ExprOf src n e := by
  have hnot {kind : String} {g : Fields} {i : Info} (h : Described src n kind g i)
      (hne : kind ∉ exprKinds) : False := by
    obtain rfl := hf.unique h.fields
    exact hne (kind_eq h.kind ▸ hkind)
  cases h with
  | bare _ _ he => exact ⟨_, he⟩
  | cond negated h | loop negated h => cases negated <;> exact (hnot h (by decide)).elim
  | jump h hkeyword => rcases hkeyword with rfl | rfl <;> exact (hnot h (by decide)).elim
  | expr h | block h | steps h | foreach h | ret h | sub h | bodiless h | package h | use h
  | pragma h | comment h => exact (hnot h (by decide)).elim

/-- What is looked at in a node that means something means something itself. -/
theorem Role.Meant.means {r : Role} {n : Node} {f : Fields} (h : r.Meant src n)
    (hf : FieldsOf src n f) : ∀ p ∈ r.looks f, f.Means src p := by
  cases r with
  | expr =>
    obtain ⟨e, he⟩ := h
    exact he.means hf
  | stmt =>
    obtain ⟨s, hs⟩ := h
    exact hs.means hf
  | branch =>
    obtain ⟨b, hg, hpos, htest, hbody⟩ := h
    obtain rfl := hf.unique hg
    simp only [Role.looks, List.forall_mem_append, List.forall_mem_cons]
    exact ⟨hpos.means, htest.means, hbody.means, by simp⟩
  | piece =>
    obtain ⟨p, hp⟩ := h
    cases hp with
    | plain =>
      obtain ⟨m, es, hn, -⟩ := hf
      cases hn
    | text hg hnone ht =>
      obtain rfl := hf.unique hg
      simp only [Role.looks, hnone, Option.isNone_none, if_true, List.forall_mem_cons]
      exact ⟨Fields.means_of_absent hnone, ht.means, by simp⟩
    | expr hg he =>
      obtain rfl := hf.unique hg
      -- a piece that has an expression is not asked for a text
      have hgiven : (f.get? "expr").isNone = false := by
        generalize f.get? "expr" = o at he ⊢
        cases he
        rfl
      simp only [Role.looks, hgiven, List.forall_mem_cons]
      exact ⟨he.means, by simp⟩
  | target => exact fun _ hp => absurd hp List.not_mem_nil

theorem Described.resolve {n : Node} {kind : String} {f : Fields} {i : Info}
    (h : Described src n kind f i) : ∃ m es, n.resolve src.anchors = .mapping m es := by
  obtain ⟨m, es, hn, -⟩ := h.fields
  exact ⟨m, es, hn⟩

theorem ExprOf.resolve {n : Node} {e : Expr} (h : ExprOf src n e) :
    ∃ m es, n.resolve src.anchors = .mapping m es := by
  cases h <;> exact Described.resolve ‹_›

theorem StmtOf.resolve {n : Node} {s : Stmt} (h : StmtOf src n s) :
    ∃ m es, n.resolve src.anchors = .mapping m es := by
  cases h <;> exact Described.resolve ‹_›

/-- A node that means something is no alias, or it is one of a mapping. -/
theorem Role.Meant.resolve {r : Role} {n : Node} (h : r.Meant src n) :
    n.isAlias = false ∨ ∃ m es, n.resolve src.anchors = .mapping m es := by
  have hfields {f : Fields} (hf : FieldsOf src n f) :
      ∃ m es, n.resolve src.anchors = .mapping m es :=
    have ⟨m, es, hn, _⟩ := hf
    ⟨m, es, hn⟩
  -- only a text and a target are read without their fields
  cases r with
  | expr =>
    obtain ⟨e, he⟩ := h
    exact .inr he.resolve
  | stmt =>
    obtain ⟨s, hs⟩ := h
    exact .inr hs.resolve
  | branch =>
    obtain ⟨b, hf, -⟩ := h
    exact .inr (hfields hf)
  | piece =>
    obtain ⟨p, hp⟩ := h
    cases hp with
    | plain => exact .inl rfl
    | text hf | expr hf => exact .inr (hfields hf)
  | target =>
    obtain ⟨t, ⟨_⟩⟩ := h
    exact .inl rfl

/-- A scalar that is said to denote nothing denotes nothing else. -/
theorem datum_of_isNull {c : Node} {anchors : Anchors} {x : Yaml.Datum}
    (hnull : (c.resolve anchors).isNull = true) (hx : c.datum? anchors = some x) : x = .null := by
  rw [Node.datum?] at hx
  generalize c.resolve anchors = n at hnull hx
  cases n with
  | scalar m t tag =>
    have htag : tag = .null := by simpa [Node.isNull] using hnull
    subst htag
    dsimp only [Yaml.Tag.read?] at hx
    cases hplain : Yaml.plainDatum t <;> simp [hplain, Yaml.Datum.tag] at hx
    exact hx.symm
  | sequence | mapping | refer => cases hnull

/-- Where an alias means something it is followed. -/
theorem Place.Meant.follows {p : Place} {c : Node} (h : p.Meant src c) (hp : p ≠ .key)
    (halias : c.isAlias = true) : p.Follows src.anchors c := by
  have hmapping {r : Role} (h : r.Meant src c) : ∃ m es, c.resolve src.anchors = .mapping m es :=
    h.resolve.resolve_left (Bool.not_eq_false _ ▸ halias)
  cases p with
  | key => exact absurd rfl hp
  | node r =>
    obtain ⟨m, es, hc⟩ := hmapping h
    cases r with
    | expr | stmt | branch => trivial
    | piece => exact (by rw [hc]; simp [kindText] : kindText (c.resolve src.anchors) ≠ "a scalar")
    | target =>
      obtain ⟨t, ⟨_⟩⟩ := h
      cases halias
  | field l =>
    cases l with
    | text =>
      obtain ⟨m, t, tag, rfl⟩ := h
      cases halias
    -- a field that is null without an alias would be missing, so the reader has to see the null
    | truth =>
      intro hnull
      obtain ⟨b, hb⟩ := Option.isSome_iff_exists.mp h
      obtain ⟨x, hx, -⟩ := Option.bind_eq_some_iff.mp hb
      rw [Node.toBool?, hx, datum_of_isNull hnull hx]
      rfl
    | number =>
      intro hnull
      obtain ⟨i, hi⟩ := Option.isSome_iff_exists.mp h
      obtain ⟨x, hx, -⟩ := Option.bind_eq_some_iff.mp hi
      rw [Node.toInt?, hx, datum_of_isNull hnull hx]
      rfl
    | part r =>
      obtain ⟨m, es, hc⟩ := hmapping h
      exact (by rw [hc]; rfl : (c.resolve src.anchors).isNull = false)
    | row r =>
      obtain ⟨m, items, rfl, -⟩ := h
      cases halias
    | block =>
      obtain ⟨b, hb⟩ := h
      cases hb with
      | list => cases halias
      | stmt hb =>
        obtain ⟨m, es, hc⟩ := hb.resolve
        exact (by rw [hc]; simp [Node.isNull, kindText] :
          (c.resolve src.anchors).isNull = false ∧ kindText (c.resolve src.anchors) ≠ "a list")

end Described

/-- All that is looked at in a document that describes a tree means something. -/
theorem Looked.meant {name : String} {anchors : Anchors} {root : Node} {u : SourceUnit}
    (hu : UnitOf name anchors root u) {p : Place} {c : Node} (h : Looked anchors root p c) :
    p.Meant ⟨name, u.file, anchors⟩ c := by
  -- each step down goes to a part of what the node above describes
  induction h with
  | @unit m es key l c hn hl hc =>
    obtain ⟨hf, hgiven, -, hclass, hstmts⟩ := hu
    obtain rfl := hf.unique ⟨m, es, hn, rfl⟩
    have hall : ∀ p ∈ unitLooks,
        Fields.Means ⟨name, u.file, anchors⟩ ⟨.mapping m es, es⟩ p := by
      simp only [unitLooks, List.forall_mem_cons]
      exact ⟨hgiven.means, hclass.means, hstmts.means fun c s hs => ⟨s, hs⟩, by simp⟩
    exact hall _ hl c hc
  | unitKey | key => trivial
  | @field r n m es key l c _ hn hl hc ih =>
    exact Role.Meant.means ih ⟨m, es, hn, rfl⟩ _ hl c hc
  | part _ ih => exact ih
  | entry _ hc ih =>
    obtain ⟨m, items, heq, hall⟩ := ih
    cases heq
    exact hall _ hc
  | statement _ hc ih =>
    obtain ⟨b, hb⟩ := ih
    cases hb with
    | list hss =>
      obtain ⟨s, -, hs⟩ := Yaml.exists_of_forall₂ hss hc
      exact ⟨s, hs⟩
    | stmt hb =>
      obtain ⟨m', es, hn⟩ := hb.resolve
      cases hn
  | body _ hc ih =>
    obtain ⟨b, hb⟩ := ih
    cases hb with
    | list => exact absurd rfl hc
    | stmt hb => exact ⟨_, hb⟩
  | bare _ hn hkind ih =>
    obtain ⟨s, hs⟩ := ih
    exact hs.exprOf ⟨_, _, hn, rfl⟩ hkind

end Document

end TypedPerl
