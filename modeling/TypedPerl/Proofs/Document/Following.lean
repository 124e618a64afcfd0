import TypedPerl.Proofs.Document.Looks
import TypedPerl.Proofs.Document.Settled
import TypedPerl.Proofs.Tree.Renumbered

/-!
# Readers that follow each other

One reader follows another when it ends alike wherever the other ends: with the same tree, or with a
refusal for the same reason (`Follows`). The numbers of nodes are compared after a renumbering, so
that the two may count from different numbers on, and the positions of refusals are not compared.
Readers of nodes that agree follow each other as long as the readers of the nodes inside do
(`AgreeAs.follows`), so that all nodes related by a simulation are read alike
(`follows_of_simulation`).
-/

namespace TypedPerl

/-- The fault with no position. -/
def Fault.unplaced : Fault → Fault
  | .report r cause => .report { r with pos := .unknown } cause
  | f => f

/-- A refusal is an end. -/
theorem Fault.Refuses.ne_endless {name : String} {f : Fault} (h : f.Refuses name) :
    f ≠ .endless := by
  obtain ⟨r, cause, rfl, -⟩ := h
  exact nofun

namespace Document

open Yaml (Node Mark Tag Anchors)

variable {α β γ δ : Type}

/-! ## Following -/

/-- Two runs of readers end alike: both give something, related by `post` and with counters that
are numbered alike, or both refuse the document for the same reason. -/
inductive Alike (name : String) (num : Nat → Nat) (post : α → β → Prop) :
    Except Fault (α × Nat) → Except Fault (β × Nat) → Prop
  | ok {a : α} {b : β} {n n' : Nat} (h : post a b) (hn : num n = num n') :
    Alike name num post (.ok (a, n)) (.ok (b, n'))
  | error {f g : Fault} (hf : f.Refuses name) (hg : g.Refuses name)
    (h : f.unplaced = g.unplaced) : Alike name num post (.error f) (.error g)

/-- The reader `y` of a document with other named nodes follows `x`: from counters that are numbered
alike, it ends alike wherever `x` ends. -/
def Follows (num : Nat → Nat) (src : Source) (anchors' : Anchors) (x : Decode α) (y : Decode β)
    (post : α → β → Prop) : Prop :=
  ∀ n n', num n = num n' →
    x src n = .error .endless ∨
      Alike src.name num post (x src n) (y { src with anchors := anchors' } n')

variable {num : Nat → Nat} {src : Source} {anchors' : Anchors}

namespace Follows

variable {post : α → β → Prop} {post' : γ → δ → Prop}

theorem pure {a : α} {b : β} (h : post a b) :
    Follows num src anchors' (Pure.pure a) (Pure.pure b) post :=
  fun _ _ hn => .inr (.ok h hn)

theorem refuse (c c' : Node) (message : String) :
    Follows num src anchors' (Document.refuse c message) (Document.refuse c' message) post :=
  fun _ _ _ => .inr (.error ⟨_, _, rfl, rfl, rfl⟩ ⟨_, _, rfl, rfl, rfl⟩ rfl)

theorem bind {x : Decode α} {y : Decode β} {k : α → Decode γ} {k' : β → Decode δ}
    (hx : Follows num src anchors' x y post)
    (hk : ∀ a b, post a b → Follows num src anchors' (k a) (k' b) post') :
    Follows num src anchors' (x >>= k) (y >>= k') post' := by
  intro n n' hn
  rw [run_bind, run_bind]
  rcases hx n n' hn with hend | halike
  · rw [hend]
    exact .inl rfl
  · generalize x src n = r, y { src with anchors := anchors' } n' = r' at halike
    cases halike with
    | ok h hn => exact hk _ _ h _ _ hn
    | error hf hg h => exact .inr (.error hf hg h)

theorem mono {x : Decode α} {y : Decode β} {stronger : α → β → Prop}
    (hx : Follows num src anchors' x y stronger) (h : ∀ a b, stronger a b → post a b) :
    Follows num src anchors' x y post := by
  intro n n' hn
  refine (hx n n' hn).imp_right fun halike => ?_
  generalize x src n = r, y { src with anchors := anchors' } n' = r' at halike
  cases halike with
  | ok hab hn => exact .ok (h _ _ hab) hn
  | error hf hg h => exact .error hf hg h

theorem map {x : Decode α} {y : Decode β} {g : α → γ} {g' : β → δ}
    (hx : Follows num src anchors' x y post) (hg : ∀ a b, post a b → post' (g a) (g' b)) :
    Follows num src anchors' (g <$> x) (g' <$> y) post' := by
  rw [map_eq_pure_bind, map_eq_pure_bind]
  exact hx.bind fun a b hab => .pure (hg a b hab)

/-- What is known of the two documents differs in their named nodes only. -/
theorem read {k : Source → Decode γ} {k' : Source → Decode δ}
    (hk : Follows num src anchors' (k src) (k' { src with anchors := anchors' }) post') :
    Follows num src anchors' (MonadReader.read >>= k) (MonadReader.read >>= k') post' :=
  fun n n' hn => hk n n' hn

/-- Reading several nodes in order. -/
theorem mapM {f : Node → Decode α} {g : Node → Decode β} {xs ys : List Node}
    (h : List.Forall₂ (fun c c' => Follows num src anchors' (f c) (g c') post) xs ys) :
    Follows num src anchors' (xs.mapM f) (ys.mapM g) (List.Forall₂ post) := by
  induction h with
  | nil => exact .pure .nil
  | cons hhead _ ih =>
    rw [List.mapM_cons, List.mapM_cons]
    exact hhead.bind fun _ _ ha => ih.bind fun _ _ has => .pure (.cons ha has)

end Follows

/-! ## Fields -/

theorem fields_of_other {n : Node} (hne : kindText (n.resolve src.anchors) ≠ "a mapping")
    (k : Nat) : fields n src k = refuse (n.resolve src.anchors)
      ("expected a mapping, got " ++ kindText (n.resolve src.anchors)) src k := by
  unfold fields
  rw [run_read]
  cases hn : n.resolve src.anchors with
  | mapping => exact absurd (hn ▸ rfl) hne
  | scalar | sequence | refer => rfl

theorem follows_fields {R : Role → Node → Node → Prop} {looks : Fields → List (String × Look)}
    {n n' : Node} (h : AgreeOn R src.anchors anchors' looks n n') :
    Follows num src anchors' (fields n) (fields n')
      fun f f' => FieldsOf src n f ∧ Fields.Agree R src.anchors anchors' (looks f) f f' := by
  cases h with
  | mapping hn hn' h =>
    refine .read ?_
    simp only [hn, hn']
    exact .pure ⟨⟨_, _, hn, rfl⟩, h⟩
  | other hkind hne =>
    intro k k' hk
    rw [fields_of_other hne, fields_of_other (hkind ▸ hne), hkind]
    exact Follows.refuse _ _ _ k k' hk

theorem flag_run (f : Fields) (key : String) (src : Source) (n : Nat) :
    f.flag key src n = match truthOf src.anchors (f.get? key) with
      | some b => .ok (b, n)
      | none => refuse ((f.get? key).getD f.node) (key ++ " must be a boolean") src n := by
  unfold Fields.flag
  cases f.get? key with
  | none => rfl
  | some c =>
    dsimp only
    rw [run_read, truthOf]
    cases c.toBool? src.anchors <;> rfl

theorem number_run (f : Fields) (key : String) (src : Source) (n : Nat) :
    f.number key src n = match numberOf src.anchors (f.get? key) with
      | some i => .ok (i, n)
      | none => refuse ((f.get? key).getD f.node) (key ++ " must be an integer") src n := by
  unfold Fields.number
  cases f.get? key with
  | none => rfl
  | some c =>
    dsimp only
    rw [run_read, numberOf]
    cases c.toInt? src.anchors <;> rfl

section Fields

variable {f f' : Fields} {key : String}

theorem follows_text (h : Option.Rel SameText (f.get? key) (f'.get? key)) :
    Follows num src anchors' (f.text key) (f'.text key)
      fun t t' => t = t' ∧ t = textOf (f.get? key) := by
  unfold Fields.text
  generalize f.get? key = o, f'.get? key = o' at h ⊢
  cases h with
  | none => exact .pure ⟨rfl, rfl⟩
  | some h =>
    cases h with
    | scalar => exact .pure ⟨rfl, rfl⟩
    | sequence | mapping | refer => exact .refuse _ _ _

theorem follows_required (h : Option.Rel SameText (f.get? key) (f'.get? key)) :
    Follows num src anchors' (f.required key) (f'.required key)
      fun t t' => t = t' ∧ t = textOf (f.get? key) := by
  refine (follows_text h).bind fun t t' ⟨heq, ht⟩ => ?_
  subst heq
  split
  · exact .refuse _ _ _
  · exact .pure ⟨rfl, ht⟩

theorem follows_flag
    (h : truthOf src.anchors (f.get? key) = truthOf anchors' (f'.get? key)) :
    Follows num src anchors' (f.flag key) (f'.flag key) Eq := by
  intro n n' hn
  rw [flag_run, flag_run, h]
  cases truthOf anchors' (f'.get? key) with
  | none => exact Follows.refuse _ _ _ n n' hn
  | some b => exact .inr (.ok rfl hn)

theorem follows_number
    (h : numberOf src.anchors (f.get? key) = numberOf anchors' (f'.get? key)) :
    Follows num src anchors' (f.number key) (f'.number key) Eq := by
  intro n n' hn
  rw [number_run, number_run, h]
  cases numberOf anchors' (f'.get? key) with
  | none => exact Follows.refuse _ _ _ n n' hn
  | some i => exact .inr (.ok rfl hn)

theorem follows_type (h : Option.Rel SameText (f.get? key) (f'.get? key)) :
    Follows num src anchors' (f.type key) (f'.type key) Eq := by
  refine (follows_text h).bind fun t t' ⟨heq, _⟩ => ?_
  subst heq
  split
  · exact .pure rfl
  · split
    · exact .pure rfl
    · -- the fault of the type becomes a diagnostic at the field
      exact .read fun _ _ _ => .inr (.error ⟨_, _, rfl, rfl, rfl⟩ ⟨_, _, rfl, rfl, rfl⟩ rfl)

theorem follows_sigil (h : Option.Rel SameText (f.get? key) (f'.get? key)) :
    Follows num src anchors' (f.sigil key) (f'.sigil key) Eq := by
  refine (follows_text h).bind fun t t' ⟨heq, _⟩ => ?_
  subst heq
  split
  · exact .pure rfl
  · split
    · exact .pure rfl
    · exact .refuse _ _ _

end Fields

/-! ## Nodes -/

/-- What two readers of nodes in a role give is the same up to the numbers. -/
def Role.Same (num : Nat → Nat) : (r : Role) → r.Result → r.Result → Prop
  | expr => fun e e' => Expr.renumber num e = Expr.renumber num e'
  | stmt => fun s s' => Stmt.renumber num s = Stmt.renumber num s'
  | branch => fun b b' => ElseIf.renumber num b = ElseIf.renumber num b'
  | piece => fun p p' => Sum.map (fun t => t) (Expr.renumber num) p =
      Sum.map (fun t => t) (Expr.renumber num) p'
  | target => Eq

/-- Reading the second node within `d'` levels follows reading the first within `d`. -/
def FollowsAs (num : Nat → Nat) (src : Source) (anchors' : Anchors) (d d' : Nat) (r : Role)
    (c c' : Node) : Prop :=
  Follows num src anchors' (r.read d c) (r.read d' c') (r.Same num)

theorem map_eq_of_forall₂ {g : α → β} {as bs : List α}
    (h : List.Forall₂ (fun a b => g a = g b) as bs) : as.map g = bs.map g := by
  induction h with
  | nil => rfl
  | cons hhead _ ih => rw [List.map_cons, List.map_cons, hhead, ih]

/-- A renumbering that goes on alike from numbers that it makes one. -/
def Steady (num : Nat → Nat) : Prop :=
  ∀ n n', num n = num n' → num (n + 1) = num (n' + 1)

section Nodes

variable (hnum : Steady num)

include hnum

theorem follows_freshId :
    Follows num src anchors' freshId freshId fun i j => num i = num j :=
  fun n n' hn => .inr (.ok hn (hnum n n' hn))

theorem follows_info {R : Role → Node → Node → Prop} {f f' : Fields}
    (h : Fields.Agree R src.anchors anchors' placeLooks f f') :
    Follows num src anchors' f.info f'.info fun i i' => i.renumber num = i'.renumber num := by
  refine (follows_number (h ("line", .number) (by simp [placeLooks]))).bind fun line _ hline => ?_
  refine (follows_number (h ("col", .number) (by simp [placeLooks]))).bind
    fun column _ hcolumn => ?_
  refine (follows_freshId hnum).bind fun i j hij => .read (.pure ?_)
  rw [Info.renumber, Info.renumber, hij, hline, hcolumn]

end Nodes

/-! ## Expressions -/

/-- Lists of nodes whose entries are read in order, and fields that hold them. -/
theorem follows_row {g : Node → Decode α} {g' : Node → Decode β} {post : α → β → Prop}
    (message : Node → String) (hmessage : ∀ c c', kindText c = kindText c' → message c = message c')
    {o o' : Option Node}
    (h : Option.Rel (SameRow fun c c' => Follows num src anchors' (g c) (g' c') post) o o') :
    Follows num src anchors'
      (match o with
        | none => Pure.pure []
        | some (.sequence _ items) => items.mapM g
        | some n => refuse n (message n))
      (match o' with
        | none => Pure.pure []
        | some (.sequence _ items) => items.mapM g'
        | some n => refuse n (message n))
      (List.Forall₂ post) := by
  -- a refusal names the kind of the node only
  have hrefuse (c c' : Node) (hkind : kindText c = kindText c') :
      Follows num src anchors' (refuse c (message c) : Decode (List α))
        (refuse c' (message c') : Decode (List β)) (List.Forall₂ post) := by
    rw [hmessage c c' hkind]
    exact .refuse _ _ _
  cases h with
  | none => exact .pure .nil
  | some h =>
    cases h with
    | sequence h => exact .mapM h
    | scalar | mapping | refer => exact hrefuse _ _ rfl

section Expressions

variable {d d' : Nat} {f f' : Fields}

theorem follows_requiredExpr {key : String}
    (h : Option.Rel (FollowsAs num src anchors' d d' .expr) (f.get? key) (f'.get? key)) :
    Follows num src anchors' (requiredExpr (expr d) f key) (requiredExpr (expr d') f' key)
      fun e e' => e.renumber num = e'.renumber num := by
  unfold requiredExpr
  generalize f.get? key = o, f'.get? key = o' at h ⊢
  cases h with
  | none => exact .refuse _ _ _
  | some h => exact h

theorem follows_optionalExpr {key : String}
    (h : Option.Rel (FollowsAs num src anchors' d d' .expr) (f.get? key) (f'.get? key)) :
    Follows num src anchors' (optionalExpr (expr d) f key) (optionalExpr (expr d') f' key)
      fun e e' => e.map (Expr.renumber num) = e'.map (Expr.renumber num) := by
  unfold optionalExpr
  generalize f.get? key = o, f'.get? key = o' at h ⊢
  cases h with
  | none => exact .pure rfl
  | some h => exact Follows.map h fun _ _ he => congrArg some he

theorem follows_exprList {key : String}
    (h : Option.Rel (SameRow (FollowsAs num src anchors' d d' .expr)) (f.get? key) (f'.get? key)) :
    Follows num src anchors' (exprList (expr d) f key) (exprList (expr d') f' key)
      fun es es' => Expr.renumberList num es = Expr.renumberList num es' := by
  refine (follows_row _ (fun _ _ hkind => by rw [hkind]) h).mono fun es es' hes => ?_
  rw [Expr.renumberList_eq_map, Expr.renumberList_eq_map]
  exact map_eq_of_forall₂ hes

/-- The pieces of two strings are the same texts, with the same expressions between them. -/
theorem pieces_same {ps ps' : List (String ⊕ Expr)}
    (h : List.Forall₂ (Role.piece.Same num) ps ps') :
    ps.map Sum.getLeft? = ps'.map Sum.getLeft? ∧
      Expr.renumberList num (ps.filterMap Sum.getRight?) =
        Expr.renumberList num (ps'.filterMap Sum.getRight?) := by
  induction h with
  | nil => exact ⟨rfl, rfl⟩
  | @cons p p' ps ps' hhead _ ih =>
    -- a text is never alike to an expression
    rcases p with t | e <;> rcases p' with t' | e'
    · cases hhead
      exact ⟨congrArg (some t :: ·) ih.1, ih.2⟩
    · cases hhead
    · cases hhead
    · have he : e.renumber num = e'.renumber num := Sum.inr.inj hhead
      refine ⟨congrArg (none :: ·) ih.1, ?_⟩
      simp only [List.filterMap_cons, Sum.getRight?, Expr.renumberList, he, ih.2]

theorem follows_piece {n n' : Node}
    (h : AgreePiece (FollowsAs num src anchors' d d') src.anchors anchors' n n') :
    FollowsAs num src anchors' d d' .piece n n' := by
  cases h with
  | scalar => exact .pure rfl
  | other h hne hne' =>
    show Follows num src anchors' (stringPiece (expr d) n) (stringPiece (expr d') n') _
    unfold stringPiece
    split
    · exact absurd rfl hne
    split
    · exact absurd rfl hne'
    refine (follows_fields h).bind fun f f' hlooks => ?_
    -- the text of a piece is read only where it has no expression
    have he := hlooks.2 ("expr", .part .expr) (by simp [Role.looks])
    have ht (hnone : f.get? "expr" = none) :=
      hlooks.2 ("text", .text) (by simp [Role.looks, hnone])
    dsimp only at he
    generalize f.get? "expr" = o, f'.get? "expr" = o' at he ht ⊢
    cases he with
    | none => exact (follows_text (ht rfl)).map fun t t' htext => congrArg Sum.inl htext.1
    | some he => exact Follows.map he fun e e' hee => congrArg Sum.inr hee

section Kinds

variable {i i' : Info} (hi : i.renumber num = i'.renumber num)
variable (h : Fields.Agree (FollowsAs num src anchors' d d') src.anchors anchors' (exprLooks f)
  f f')

include hi h

theorem follows_numberExpr (n n' : Node) (hkind : f.kind = "number") :
    Follows num src anchors' (exprOfKind (expr d) n f i "number")
      (exprOfKind (expr d') n' f' i' "number") fun e e' => e.renumber num = e'.renumber num := by
  have hvalue := h ("value", .text) (by simp [exprLooks, hkind])
  simp only [exprOfKind]
  generalize f.get? "value" = o, f'.get? "value" = o' at hvalue ⊢
  cases hvalue with
  | none => exact .refuse _ _ _
  | some hvalue =>
    cases hvalue with
    | scalar => exact .pure (by rw [Expr.renumber, Expr.renumber, hi])
    | sequence | mapping | refer => exact .refuse _ _ _

theorem follows_stringExpr (hkind : f.kind = "string") :
    Follows num src anchors' (stringExpr (expr d) f i) (stringExpr (expr d') f' i')
      fun e e' => e.renumber num = e'.renumber num := by
  have hparts := h ("parts", .row .piece) (by simp [exprLooks, hkind])
  have hvalue (hnone : f.get? "parts" = none) := h ("value", .text)
    (by simp [exprLooks, hkind, hnone])
  unfold stringExpr
  dsimp only at hparts
  generalize f.get? "parts" = o, f'.get? "parts" = o' at hparts hvalue ⊢
  -- the value counts only where no pieces are given
  cases hparts with
  | none =>
    refine (follows_text (hvalue rfl)).bind fun t t' ⟨ht, _⟩ => .pure ?_
    rw [Expr.renumber, Expr.renumber, hi, ht]
  | some hparts =>
    cases hparts with
    | sequence hitems =>
      refine (Follows.mapM hitems).bind fun ps ps' hps => .pure ?_
      obtain ⟨htexts, hexprs⟩ := pieces_same hps
      rw [Expr.renumber, Expr.renumber, hi, htexts, hexprs]
    | scalar | mapping | refer => exact .refuse _ _ _

theorem follows_variableExpr (hkind : f.kind = "var") :
    Follows num src anchors' (variableExpr f i) (variableExpr f' i')
      fun v v' => v.renumber num = v'.renumber num := by
  simp only [Fields.Agree, exprLooks, hkind, List.forall_mem_cons] at h
  obtain ⟨hname, hsigil, hpackage, hdecl, htype, -⟩ := h
  refine (follows_required hname).bind fun name _ ⟨hname, _⟩ => ?_
  refine (follows_sigil hsigil).bind fun sigil _ hsigil => ?_
  refine (follows_text hpackage).bind fun package _ ⟨hpackage, _⟩ => ?_
  refine (follows_text hdecl).bind fun word _ ⟨hword, _⟩ => ?_
  subst hname hsigil hpackage hword
  split
  · exact .refuse _ _ _
  · refine (follows_type htype).bind fun type _ htype => .pure ?_
    rw [Variable.renumber, Variable.renumber, hi, htype]

theorem follows_indexExpr {throughRef : Bool}
    (hkind : f.kind = if throughRef then "refindex" else "index") :
    Follows num src anchors' (indexExpr (expr d) f i throughRef)
      (indexExpr (expr d') f' i' throughRef) fun e e' => e.renumber num = e'.renumber num := by
  have hlooks : exprLooks f =
      [("target", .part .expr), ("key", .part .expr), ("brace", .truth), ("context", .text)] := by
    cases throughRef <;> simp [exprLooks, hkind]
  simp only [Fields.Agree, hlooks, List.forall_mem_cons] at h
  obtain ⟨htarget, hkey, hbrace, hcontext, -⟩ := h
  refine (follows_requiredExpr htarget).bind fun target _ htarget => ?_
  refine (follows_requiredExpr hkey).bind fun key _ hkey => ?_
  refine (follows_flag hbrace).bind fun brace _ hbrace => ?_
  refine (follows_sigil hcontext).bind fun context _ hcontext => .pure ?_
  rw [Expr.renumber, Expr.renumber, hi, htarget, hkey, hbrace, hcontext]

theorem follows_assignExpr (hkind : f.kind = "assign") :
    Follows num src anchors' (assignExpr (expr d) f i) (assignExpr (expr d') f' i')
      fun e e' => e.renumber num = e'.renumber num := by
  simp only [Fields.Agree, exprLooks, hkind, List.forall_mem_cons] at h
  obtain ⟨hop, hleft, hright, -⟩ := h
  refine (follows_text hop).bind fun op _ ⟨hop, _⟩ => ?_
  refine (follows_requiredExpr hleft).bind fun left _ hleft => ?_
  refine (follows_requiredExpr hright).bind fun right _ hright => .pure ?_
  rw [Expr.renumber, Expr.renumber, hi, hop, hleft, hright]

theorem follows_binaryExpr (hkind : f.kind = "binary") :
    Follows num src anchors' (binaryExpr (expr d) f i) (binaryExpr (expr d') f' i')
      fun e e' => e.renumber num = e'.renumber num := by
  simp only [Fields.Agree, exprLooks, hkind, List.forall_mem_cons] at h
  obtain ⟨hop, hleft, hright, -⟩ := h
  refine (follows_text hop).bind fun op _ ⟨hop, _⟩ => ?_
  refine (follows_requiredExpr hleft).bind fun left _ hleft => ?_
  refine (follows_requiredExpr hright).bind fun right _ hright => ?_
  subst hop
  split
  · exact .refuse _ _ _
  · refine .pure ?_
    rw [Expr.renumber, Expr.renumber, hi, hleft, hright]

theorem follows_incDecExpr (hkind : f.kind = "incdec") :
    Follows num src anchors' (incDecExpr (expr d) f i) (incDecExpr (expr d') f' i')
      fun e e' => e.renumber num = e'.renumber num := by
  simp only [Fields.Agree, exprLooks, hkind, List.forall_mem_cons] at h
  obtain ⟨hop, hbefore, htarget, -⟩ := h
  refine (follows_required hop).bind fun op _ ⟨hop, _⟩ => ?_
  refine (follows_flag hbefore).bind fun before _ hbefore => ?_
  refine (follows_requiredExpr htarget).bind fun target _ htarget => .pure ?_
  rw [Expr.renumber, Expr.renumber, hi, hop, hbefore, htarget]

theorem follows_callExpr (hkind : f.kind = "call") :
    Follows num src anchors' (callExpr (expr d) f i) (callExpr (expr d') f' i')
      fun e e' => e.renumber num = e'.renumber num := by
  simp only [Fields.Agree, exprLooks, hkind, List.forall_mem_cons] at h
  obtain ⟨hname, hpackage, hargs, -⟩ := h
  refine (follows_required hname).bind fun name _ ⟨hname, _⟩ => ?_
  refine (follows_text hpackage).bind fun package _ ⟨hpackage, _⟩ => ?_
  refine (follows_exprList hargs).bind fun args _ hargs => .pure ?_
  rw [Expr.renumber, Expr.renumber, hi, hname, hpackage, hargs]

/-- The expressions of one kind that two nodes with these fields describe. -/
theorem follows_exprOfKind (n n' : Node) {kind : String} (hkind : f.kind = kind) :
    Follows num src anchors' (exprOfKind (expr d) n f i kind) (exprOfKind (expr d') n' f' i' kind)
      fun e e' => e.renumber num = e'.renumber num := by
  have hpart (key : String) (hkey : (key, Look.part .expr) ∈ exprLooks f) :=
    follows_requiredExpr (h (key, .part .expr) hkey)
  have hrow (key : String) (hkey : (key, Look.row .expr) ∈ exprLooks f) :=
    follows_exprList (h (key, .row .expr) hkey)
  -- one case for each kind, in the order in which the reader tells them apart
  unfold exprOfKind
  split
  · exact follows_numberExpr hi h n n' hkind
  · exact follows_stringExpr hi h hkind
  · exact .pure (by rw [Expr.renumber, Expr.renumber, hi])
  · exact (follows_variableExpr hi h hkind).map fun v v' hv => by
      rw [Expr.renumber, Expr.renumber, hv]
  · exact follows_indexExpr hi h hkind
  · exact follows_indexExpr hi h hkind
  · refine (hpart "target" (by simp [exprLooks, hkind])).bind fun target _ htarget => ?_
    refine (follows_sigil (h ("sigil", .text) (by simp [exprLooks, hkind]))).bind
      fun sigil _ hsigil => .pure ?_
    rw [Expr.renumber, Expr.renumber, hi, htarget, hsigil]
  · exact (hpart "target" (by simp [exprLooks, hkind])).map fun e e' he => by
      rw [Expr.renumber, Expr.renumber, hi, he]
  · refine (hrow "elements" (by simp [exprLooks, hkind])).bind fun elems _ helems => ?_
    refine (follows_type (h ("type", .text) (by simp [exprLooks, hkind]))).bind
      fun type _ htype => .pure ?_
    rw [Expr.renumber, Expr.renumber, hi, helems, htype]
  · refine (hrow "elements" (by simp [exprLooks, hkind])).bind fun elems _ helems => ?_
    refine (follows_type (h ("type", .text) (by simp [exprLooks, hkind]))).bind
      fun type _ htype => .pure ?_
    rw [Expr.renumber, Expr.renumber, hi, helems, htype]
  · exact (hrow "elements" (by simp [exprLooks, hkind])).map fun es es' hes => by
      rw [Expr.renumber, Expr.renumber, hi, hes]
  · exact follows_assignExpr hi h hkind
  · exact follows_binaryExpr hi h hkind
  · exact follows_incDecExpr hi h hkind
  · refine (follows_required (h ("op", .text) (by simp [exprLooks, hkind]))).bind
      fun op _ ⟨hop, _⟩ => ?_
    refine (hpart "operand" (by simp [exprLooks, hkind])).map fun e e' he => ?_
    rw [Expr.renumber, Expr.renumber, hi, hop, he]
  · refine (hpart "cond" (by simp [exprLooks, hkind])).bind fun cond _ hcond => ?_
    refine (hpart "then" (by simp [exprLooks, hkind])).bind fun yes _ hyes => ?_
    refine (hpart "else" (by simp [exprLooks, hkind])).bind fun no _ hno => .pure ?_
    rw [Expr.renumber, Expr.renumber, hi, hcond, hyes, hno]
  · exact follows_callExpr hi h hkind
  · exact .refuse _ _ _

end Kinds

end Expressions

/-- What stands in front of a node of the tree: its fields, its kind and its position. -/
theorem follows_described (hnum : Steady num) {R : Role → Node → Node → Prop}
    {looks : Fields → List (String × Look)} {n n' : Node}
    (h : AgreeOn R src.anchors anchors'
      (fun f => ("kind", .text) :: (placeLooks ++ looks f)) n n')
    {k : Fields → String → Info → Decode α} {k' : Fields → String → Info → Decode β}
    {post : α → β → Prop}
    (hk : ∀ f f' i i', FieldsOf src n f → Fields.Agree R src.anchors anchors' (looks f) f f' →
      i.renumber num = i'.renumber num →
      Follows num src anchors' (k f f.kind i) (k' f' f.kind i') post) :
    Follows num src anchors'
      (do
        let f ← fields n
        let kind ← f.required "kind"
        let info ← f.info
        k f kind info)
      (do
        let f ← fields n'
        let kind ← f.required "kind"
        let info ← f.info
        k' f kind info) post := by
  -- the kind and the place come first, and the rest of the fields is read according to the kind
  refine (follows_fields h).bind fun f f' ⟨hf, hlooks⟩ => ?_
  simp only [Fields.Agree, List.forall_mem_cons, List.forall_mem_append] at hlooks
  obtain ⟨hkind, hplace, hlooks⟩ := hlooks
  refine (follows_required hkind).bind fun kind _ ⟨heq, hkind⟩ => ?_
  subst heq hkind
  exact (follows_info hnum hplace).bind fun i i' hi => hk f f' i i' hf hlooks hi

theorem follows_expr (hnum : Steady num) {d d' : Nat} {n n' : Node}
    (h : AgreeOn (FollowsAs num src anchors' d d') src.anchors anchors' Role.expr.looks n n') :
    FollowsAs num src anchors' (d + 1) (d' + 1) .expr n n' :=
  follows_described hnum h fun _ _ _ _ _ hlooks hi => follows_exprOfKind hi hlooks n n' rfl

/-! ## Statements -/

theorem follows_target {n n' : Node} (h : SameText n n') (d d' : Nat) :
    FollowsAs num src anchors' d d' .target n n' := by
  show Follows num src anchors' (pragmaTarget n) (pragmaTarget n') Eq
  cases h with
  | scalar =>
    simp only [pragmaTarget]
    split
    · exact .refuse _ _ _
    · split
      · split
        · exact .pure rfl
        · exact .refuse _ _ _
      · exact .refuse _ _ _
  | sequence | mapping | refer => exact .refuse _ _ _

/-- A statement that is the same as a block up to the numbers is a block. -/
theorem exists_block {s : Stmt} {b : Block}
    (h : Stmt.renumber num (.block b) = s.renumber num) :
    ∃ b', s = .block b' ∧ b.renumber num = b'.renumber num := by
  cases s with
  | block b' => exact ⟨b', rfl, Stmt.block.inj h⟩
  | _ => cases h

/-- An expression that is the same as a variable up to the numbers is a variable. -/
theorem exists_var {e : Expr} {v : Variable}
    (h : Expr.renumber num (.var v) = e.renumber num) :
    ∃ v', e = .var v' ∧ v.renumber num = v'.renumber num := by
  cases e with
  | var v' => exact ⟨v', rfl, Expr.var.inj h⟩
  | _ => cases h

section Statements

variable {d d' : Nat} {f f' : Fields}

theorem follows_stmtList {key : String}
    (h : Option.Rel (SameRow (FollowsAs num src anchors' d d' .stmt)) (f.get? key) (f'.get? key)) :
    Follows num src anchors' (stmtList (stmt d) f key) (stmtList (stmt d') f' key)
      fun ss ss' => Stmt.renumberList num ss = Stmt.renumberList num ss' := by
  refine (follows_row _ (fun _ _ hkind => by rw [hkind]) h).mono fun ss ss' hss => ?_
  rw [Stmt.renumberList_eq_map, Stmt.renumberList_eq_map]
  exact map_eq_of_forall₂ hss

theorem follows_blockField (hnum : Steady num) {key : String}
    (h : Option.Rel (SameBlock (FollowsAs num src anchors' d d' .stmt)) (f.get? key)
      (f'.get? key)) :
    Follows num src anchors' (blockField (stmt d) f key) (blockField (stmt d') f' key)
      fun b b' => b.renumber num = b'.renumber num := by
  unfold blockField
  generalize f.get? key = o, f'.get? key = o' at h ⊢
  cases h with
  | none => exact .pure rfl
  | some h =>
    cases h with
    | sequence h =>
      refine (Follows.mapM h).bind fun ss ss' hss => ?_
      refine (follows_freshId hnum).bind fun i j hij => .pure ?_
      rw [Block.renumber, Block.renumber, Info.renumber, Info.renumber, hij,
        Stmt.renumberList_eq_map, Stmt.renumberList_eq_map, map_eq_of_forall₂ hss]
    | other h hne hne' =>
      -- neither node is a sequence, so that each is read as a statement
      split
      · cases ‹some _ = none›
      · cases ‹some _ = some (Node.sequence _ _)›
        exact absurd rfl hne
      · cases ‹some _ = some _›
        split
        · cases ‹some _ = none›
        · cases ‹some _ = some (Node.sequence _ _)›
          exact absurd rfl hne'
        · cases ‹some _ = some _›
          refine Follows.bind h fun s s' hs => ?_
          split
          · obtain ⟨b', rfl, hb⟩ := exists_block hs
            exact .pure hb
          · split
            · obtain ⟨b, rfl, -⟩ := exists_block hs.symm
              exact (‹∀ b', Stmt.block b = Stmt.block b' → False› b rfl).elim
            · exact .refuse _ _ _

theorem follows_elseIf (hnum : Steady num) {n n' : Node}
    (h : AgreeOn (FollowsAs num src anchors' d d') src.anchors anchors' Role.branch.looks n n') :
    FollowsAs num src anchors' d d' .branch n n' := by
  refine (follows_fields h).bind fun f f' ⟨_, hlooks⟩ => ?_
  simp only [Fields.Agree, Role.looks, List.forall_mem_cons, List.forall_mem_append] at hlooks
  obtain ⟨hplace, hcond, hbody, -⟩ := hlooks
  refine (follows_info hnum hplace).bind fun i _ hi => ?_
  refine (follows_requiredExpr hcond).bind fun test _ htest => ?_
  refine (follows_blockField hnum hbody).bind fun body _ hbody => .pure ?_
  show ElseIf.renumber num _ = ElseIf.renumber num _
  rw [ElseIf.renumber, ElseIf.renumber, hi, htest, hbody]

theorem follows_elseIfs
    (h : Option.Rel (SameRow (FollowsAs num src anchors' d d' .branch)) (f.get? "elsif")
      (f'.get? "elsif")) :
    Follows num src anchors' (elseIfs (expr d) (stmt d) f) (elseIfs (expr d') (stmt d') f')
      fun bs bs' => ElseIf.renumberList num bs = ElseIf.renumberList num bs' := by
  refine (follows_row _ (fun _ _ _ => rfl) h).mono fun bs bs' hbs => ?_
  rw [ElseIf.renumberList_eq_map, ElseIf.renumberList_eq_map]
  exact map_eq_of_forall₂ hbs

section Kinds

variable (hnum : Steady num) {i i' : Info} (hi : i.renumber num = i'.renumber num)
variable (h : Fields.Agree (FollowsAs num src anchors' d d') src.anchors anchors' (stmtLooks f)
  f f')

section Bodies

include hnum hi h

theorem follows_condStmt {negated : Bool} (hkind : f.kind = if negated then "unless" else "if") :
    Follows num src anchors' (condStmt (expr d) (stmt d) f i negated)
      (condStmt (expr d') (stmt d') f' i' negated)
      fun s s' => s.renumber num = s'.renumber num := by
  have hlooks : stmtLooks f =
      [("cond", .part .expr), ("then", .block), ("else", .block), ("elsif", .row .branch)] := by
    cases negated <;> simp [stmtLooks, hkind]
  simp only [Fields.Agree, hlooks, List.forall_mem_cons] at h
  obtain ⟨hcond, hyes, hno, hbranches, -⟩ := h
  refine (follows_requiredExpr hcond).bind fun test _ htest => ?_
  refine (follows_blockField hnum hyes).bind fun yes _ hyes => ?_
  refine (follows_blockField hnum hno).bind fun no _ hno => ?_
  refine (follows_elseIfs hbranches).bind fun branches _ hbranches => .pure ?_
  rw [Stmt.renumber, Stmt.renumber, hi, htest, hyes, hno, hbranches]

theorem follows_loopStmt {negated : Bool} (hkind : f.kind = if negated then "until" else "while") :
    Follows num src anchors' (loopStmt (expr d) (stmt d) f i negated)
      (loopStmt (expr d') (stmt d') f' i' negated)
      fun s s' => s.renumber num = s'.renumber num := by
  have hlooks : stmtLooks f = [("cond", .part .expr), ("do", .truth), ("body", .block)] := by
    cases negated <;> simp [stmtLooks, hkind]
  simp only [Fields.Agree, hlooks, List.forall_mem_cons] at h
  obtain ⟨hcond, hfirst, hbody, -⟩ := h
  refine (follows_requiredExpr hcond).bind fun test _ htest => ?_
  refine (follows_flag hfirst).bind fun bodyFirst _ hfirst => ?_
  refine (follows_blockField hnum hbody).bind fun body _ hbody => .pure ?_
  rw [Stmt.renumber, Stmt.renumber, hi, htest, hfirst, hbody]

theorem follows_stepsStmt (hkind : f.kind = "for") :
    Follows num src anchors' (stepsStmt (expr d) (stmt d) f i) (stepsStmt (expr d') (stmt d') f' i')
      fun s s' => s.renumber num = s'.renumber num := by
  simp only [Fields.Agree, stmtLooks, hkind, List.forall_mem_cons] at h
  obtain ⟨hinit, hcond, hpost, hbody, -⟩ := h
  refine (follows_exprList hinit).bind fun init _ hinit => ?_
  refine (follows_exprList hcond).bind fun test _ htest => ?_
  refine (follows_exprList hpost).bind fun post _ hpost => ?_
  refine (follows_blockField hnum hbody).bind fun body _ hbody => .pure ?_
  rw [Stmt.renumber, Stmt.renumber, hi, hinit, htest, hpost, hbody]

theorem follows_foreachStmt (hkind : f.kind = "foreach") :
    Follows num src anchors' (foreachStmt (expr d) (stmt d) f i)
      (foreachStmt (expr d') (stmt d') f' i') fun s s' => s.renumber num = s'.renumber num := by
  simp only [Fields.Agree, stmtLooks, hkind, List.forall_mem_cons] at h
  obtain ⟨hlist, hvar, hbody, -⟩ := h
  -- the variable is read as an expression, which has to be a variable on both sides
  have hloopVar : Follows num src anchors' (loopVariable (expr d) f) (loopVariable (expr d') f')
      fun v v' => v.map (Variable.renumber num) = v'.map (Variable.renumber num) := by
    unfold loopVariable
    generalize f.get? "var" = o, f'.get? "var" = o' at hvar ⊢
    cases hvar with
    | none => exact .pure rfl
    | some hvar =>
      refine Follows.bind hvar fun e e' he => ?_
      split
      · obtain ⟨v', rfl, hv⟩ := exists_var he
        exact .pure (congrArg some hv)
      · split
        · obtain ⟨v, rfl, -⟩ := exists_var he.symm
          exact (‹∀ v', Expr.var v = Expr.var v' → False› v rfl).elim
        · exact .refuse _ _ _
  refine (follows_requiredExpr hlist).bind fun list _ hlist => ?_
  refine hloopVar.bind fun var _ hvar => ?_
  refine (follows_blockField hnum hbody).bind fun body _ hbody => ?_
  refine (follows_freshId hnum).bind fun j j' hj => .pure ?_
  rw [Stmt.renumber, Stmt.renumber, hi, hvar, hj, hlist, hbody]

theorem follows_subStmt (hkind : f.kind = "sub") :
    Follows num src anchors' (subStmt (stmt d) f i) (subStmt (stmt d') f' i')
      fun s s' => s.renumber num = s'.renumber num := by
  simp only [Fields.Agree, stmtLooks, hkind, List.forall_mem_cons] at h
  obtain ⟨hname, hreturns, hbody, -⟩ := h
  refine (follows_required hname).bind fun name _ ⟨hname, _⟩ => ?_
  refine (follows_type hreturns).bind fun returns _ hreturns => ?_
  refine (follows_blockField hnum hbody).bind fun body body' hbody => ?_
  cases body <;> cases body'
  · -- a body that is not given is an empty one
    refine (follows_freshId hnum).bind fun j j' hj => .pure ?_
    have hempty : (Block.mk ⟨j, .unknown⟩ []).renumber num =
        (Block.mk ⟨j', .unknown⟩ []).renumber num :=
      congrArg (fun k => Block.mk ⟨k, .unknown⟩ []) hj
    rw [Stmt.renumber, Stmt.renumber, hi, hname, hreturns, hempty]
  · cases hbody
  · cases hbody
  · refine .pure ?_
    rw [Stmt.renumber, Stmt.renumber, hi, hname, hreturns, hbody]

end Bodies

include hi h

theorem follows_pragmaStmt (hkind : f.kind = "pragma") :
    Follows num src anchors' (pragmaStmt f i) (pragmaStmt f' i')
      fun s s' => s.renumber num = s'.renumber num := by
  simp only [Fields.Agree, stmtLooks, hkind, List.forall_mem_cons] at h
  obtain ⟨htype, htargets, -⟩ := h
  refine (follows_type htype).bind fun type _ htype => ?_
  subst htype
  -- a pragma without a type is refused before its targets are read
  split
  · exact .refuse _ _ _
  · dsimp only [Look.Agree] at htargets
    generalize f.get? "targets" = o, f'.get? "targets" = o' at htargets ⊢
    cases htargets with
    | none => exact .refuse _ _ _
    | some htargets =>
      cases htargets with
      | sequence hitems =>
        refine (Follows.mapM hitems).bind fun ts ts' hts => .pure ?_
        have hts : ts = ts' := List.forall₂_eq_eq_eq ▸ hts
        rw [Stmt.renumber, Stmt.renumber, hi, hts]
      | scalar | mapping | refer => exact .refuse _ _ _

include hnum

/-- The statements of one kind that two nodes with these fields describe. An expression that stands
for a statement is read from the same node once more. -/
theorem follows_stmtOfKind {n n' : Node} {kind : String} (hkind : f.kind = kind)
    (hself : kind ∈ exprKinds → FollowsAs num src anchors' d d' .expr n n') :
    Follows num src anchors' (stmtOfKind (expr d) (stmt d) n f i kind)
      (stmtOfKind (expr d') (stmt d') n' f' i' kind)
      fun s s' => s.renumber num = s'.renumber num := by
  have hname (hlook : ("name", Look.text) ∈ stmtLooks f) :
      Follows num src anchors' (f.required "name") (f'.required "name") _ :=
    follows_required (h _ hlook)
  -- one case for each kind, in the order in which the reader tells them apart
  unfold stmtOfKind
  split
  · have he := follows_requiredExpr (h ("expr", .part .expr) (by simp [stmtLooks, hkind]))
    exact he.map fun e e' he => by rw [Stmt.renumber, Stmt.renumber, hi, he]
  · have hss := follows_stmtList (h ("statements", .row .stmt) (by simp [stmtLooks, hkind]))
    exact hss.map fun ss ss' hss => by
      rw [Stmt.renumber, Stmt.renumber, Block.renumber, Block.renumber, hi, hss]
  · exact follows_condStmt hnum hi h hkind
  · exact follows_condStmt hnum hi h hkind
  · exact follows_loopStmt hnum hi h hkind
  · exact follows_loopStmt hnum hi h hkind
  · exact follows_stepsStmt hnum hi h hkind
  · exact follows_foreachStmt hnum hi h hkind
  · have hvalue := follows_optionalExpr (h ("value", .part .expr) (by simp [stmtLooks, hkind]))
    exact hvalue.map fun e e' he => by rw [Stmt.renumber, Stmt.renumber, hi, he]
  · exact .pure (by rw [Stmt.renumber, Stmt.renumber, hi])
  · exact .pure (by rw [Stmt.renumber, Stmt.renumber, hi])
  · exact follows_subStmt hnum hi h hkind
  · exact (hname (by simp [stmtLooks, hkind])).map fun name _ ⟨hname, _⟩ => by
      rw [Stmt.renumber, Stmt.renumber, hi, hname]
  · exact (hname (by simp [stmtLooks, hkind])).map fun name _ ⟨hname, _⟩ => by
      rw [Stmt.renumber, Stmt.renumber, hi, hname]
  · exact follows_pragmaStmt hi h hkind
  · refine (follows_text (h ("text", .text) (by simp [stmtLooks, hkind]))).map
      fun text _ ⟨htext, _⟩ => ?_
    rw [Stmt.renumber, Stmt.renumber, hi, htext]
  -- a kind of expressions is read as the statement of that expression
  · split
    · have he := hself (List.contains_iff_mem.mp ‹_›)
      exact Follows.map he fun e e' he => by rw [Stmt.renumber, Stmt.renumber, hi, he]
    · exact .refuse _ _ _

end Kinds

theorem follows_stmt (hnum : Steady num) {n n' : Node}
    (h : AgreeAs (FollowsAs num src anchors' d d') src.anchors anchors' .stmt n n') :
    FollowsAs num src anchors' (d + 1) (d' + 1) .stmt n n' :=
  follows_described hnum h.1 fun _ _ _ _ ⟨_, _, hn, hf⟩ hlooks hi =>
    follows_stmtOfKind hnum hi hlooks rfl fun hkind => h.2 _ _ hn (hf ▸ hkind)

end Statements

/-! ## Simulations -/

/-- Readers in a role that see no difference between two nodes follow each other, as long as the
readers of the nodes inside do. -/
theorem AgreeAs.follows (hnum : Steady num) {d d' : Nat} {r : Role} {n n' : Node}
    (h : AgreeAs (FollowsAs num src anchors' d d') src.anchors anchors' r n n') :
    FollowsAs num src anchors' (r.above d) (r.above d') r n n' := by
  cases r with
  | expr => exact follows_expr hnum h
  | stmt => exact follows_stmt hnum h
  | branch => exact follows_elseIf hnum h
  | piece => exact follows_piece h
  | target => exact follows_target h d d'

/-- All roles and levels are reached when the levels are gone up from none, and at each of them from
the roles that take a level to those that take none. -/
theorem Role.levels_induction {P : Role → Nat → Prop} (expr : P .expr 0) (stmt : P .stmt 0)
    (above : ∀ r d, (∀ s, r.MayHold s → P s d) → P r (r.above d)) (r : Role) (d : Nat) : P r d := by
  -- the roles other than these two hold only them, and cost no level of their own
  have hfree {d : Nat} (hexpr : P .expr d) (hstmt : P .stmt d) (s : Role) : P s d := by
    cases s with
    | expr => exact hexpr
    | stmt => exact hstmt
    | branch | piece | target =>
      refine above _ d fun s hs => ?_
      cases s with
      | expr => exact hexpr
      | stmt => exact hstmt
      | branch | piece | target => exact absurd hs (by decide)
  induction d generalizing r with
  | zero => exact hfree expr stmt r
  | succ d ih => exact hfree (above .expr d fun s _ => ih s) (above .stmt d fun s _ => ih s) r

theorem Role.above_le_succ (r : Role) (d : Nat) : r.above d ≤ d + 1 := by
  cases r with
  | expr | stmt => exact Nat.le_refl _
  | branch | piece | target => exact Nat.le_succ d

theorem Role.exists_above {r : Role} {d d' : Nat} (hle : r.above d ≤ d') :
    ∃ k, d' = r.above k ∧ d ≤ k := by
  cases r with
  | expr | stmt =>
    have hle : d + 1 ≤ d' := hle
    exact ⟨d' - 1, show d' = d' - 1 + 1 by omega, by omega⟩
  | branch | piece | target => exact ⟨d', rfl, hle⟩

/-- Nodes that a simulation relates are read alike, with no less levels. -/
theorem follows_of_simulation (hnum : Steady num) {R : Role → Node → Node → Prop}
    (hR : ∀ r n n', R r n n' → AgreeAs R src.anchors anchors' r n n') (r : Role) {d d' : Nat}
    (hle : d ≤ d') {n n' : Node} (h : R r n n') : FollowsAs num src anchors' d d' r n n' := by
  induction r, d using Role.levels_induction generalizing d' n n' with
  | expr | stmt => exact fun _ _ _ => .inl rfl
  | above r d ih =>
    obtain ⟨k, rfl, hk⟩ := Role.exists_above hle
    exact AgreeAs.follows hnum ((hR r n n' h).mono fun s hs c c' hc => ih s hs hk hc)

/-! ## Units -/

theorem follows_unitWithin {d d' : Nat} (name : String) {root root' : Node}
    (h : AgreeOn (fun r c c' => ∀ file, FollowsAs num { src with file } anchors' d d' r c c')
      src.anchors anchors' (fun _ => unitLooks) root root') :
    Follows num src anchors' (unitWithin d name root) (unitWithin d' name root')
      fun u u' => u.renumber num = u'.renumber num := by
  refine (follows_fields h).bind fun f f' ⟨_, hlooks⟩ => ?_
  simp only [Fields.Agree, unitLooks, List.forall_mem_cons] at hlooks
  obtain ⟨hgiven, hclass, hstmts, -⟩ := hlooks
  refine (follows_text hgiven).bind fun given _ ⟨hgiven, _⟩ => ?_
  refine (follows_text hclass).bind fun className _ ⟨hclass, _⟩ => ?_
  subst hgiven hclass
  -- the statements are in the file that the root gives
  have hlist (file : String) :
      Follows num { src with file } anchors' (stmtList (stmt d) f "statements")
        (stmtList (stmt d') f' "statements")
        fun ss ss' => Stmt.renumberList num ss = Stmt.renumberList num ss' :=
    follows_stmtList (rel_mono (fun _ _ => SameRow.mono fun _ _ hc => hc file) hstmts)
  have hwith (file : String) : Follows num src anchors'
      (withReader (fun s => { s with file }) (stmtList (stmt d) f "statements"))
      (withReader (fun s => { s with file }) (stmtList (stmt d') f' "statements"))
      fun ss ss' => Stmt.renumberList num ss = Stmt.renumberList num ss' :=
    fun n n' hn => hlist file n n' hn
  refine (hwith _).bind fun ss ss' hss => .pure ?_
  rw [SourceUnit.renumber, SourceUnit.renumber, ← Stmt.renumberList_eq_map,
    ← Stmt.renumberList_eq_map, hss]

end Document

end TypedPerl
