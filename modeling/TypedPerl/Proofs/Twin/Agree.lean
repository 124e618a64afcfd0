import Mathlib.Data.List.Forall2
import TypedPerl.Access
import TypedPerl.ElementType
import TypedPerl.Proofs.Ty.WellFormed

/-!
# Generated code does not decide

Conversions, containers and accesses put code together from code. Whether they succeed, with which
fault they fail and what type their value has depends on the types and flags of their operands, and
never on the code. The *shape* of an operand is all of it but the code; `Agree S x y` says that two
computations fail with the same fault or both succeed with results that `S` relates.
-/

namespace TypedPerl

/-- Of two related options both hold a value, or neither does. -/
theorem rel_cases {α β : Type} {R : α → β → Prop} {x : Option α} {y : Option β}
    (h : Option.Rel R x y) :
    (∃ a b, x = some a ∧ y = some b ∧ R a b) ∨ (x = none ∧ y = none) := by
  cases h with
  | some h => exact .inl ⟨_, _, rfl, rfl, h⟩
  | none => exact .inr ⟨rfl, rfl⟩

/-! ## Computations that agree -/

/-- Both computations fail with the same fault, or both succeed and `S` relates their results. -/
inductive Agree {α β : Type} (S : α → β → Prop) : Except Fault α → Except Fault β → Prop
  | ok {a : α} {b : β} (h : S a b) : Agree S (.ok a) (.ok b)
  | error (f : Fault) : Agree S (.error f) (.error f)

/-- Both computations fail with the same fault, or both succeed. -/
abbrev Alike {α β : Type} (x : Except Fault α) (y : Except Fault β) : Prop :=
  Agree (fun _ _ => True) x y

namespace Agree

variable {α β γ δ : Type} {S T : α → β → Prop} {U : γ → δ → Prop}

theorem pure {a : α} {b : β} (h : S a b) : Agree S (Pure.pure a) (Pure.pure b) :=
  .ok h

theorem throw (f : Fault) :
    Agree S (MonadExcept.throw f : Except Fault α) (MonadExcept.throw f : Except Fault β) :=
  .error f

theorem mono {x : Except Fault α} {y : Except Fault β} (h : Agree S x y)
    (hST : ∀ a b, S a b → T a b) : Agree T x y := by
  cases h with
  | ok h => exact .ok (hST _ _ h)
  | error f => exact .error f

theorem bind {x : Except Fault α} {y : Except Fault β} {k : α → Except Fault γ}
    {l : β → Except Fault δ} (h : Agree S x y) (hk : ∀ a b, S a b → Agree U (k a) (l b)) :
    Agree U (x >>= k) (y >>= l) := by
  cases h with
  | ok h => exact hk _ _ h
  | error f => exact .error f

/-- A computation agrees with itself. -/
theorem refl {S : α → α → Prop} (x : Except Fault α) (h : ∀ a, x = .ok a → S a a) :
    Agree S x x := by
  cases x with
  | ok a => exact .ok (h a rfl)
  | error f => exact .error f

theorem of_eq {x y : Except Fault α} (h : x = y) : Alike x y :=
  h ▸ refl x fun _ _ => trivial

/-- Results that agree in one respect and, under a condition, are the same. -/
theorem and_eq {S : α → α → Prop} {same : Prop} {x y : Except Fault α} (h : Agree S x y)
    (heq : same → x = y) : Agree (fun a b => S a b ∧ (same → a = b)) x y := by
  cases h with
  | ok h => exact .ok ⟨h, fun hs => Except.ok.inj (heq hs)⟩
  | error f => exact .error f

theorem mapM {R : α → β → Prop} {k : α → Except Fault γ} {l : β → Except Fault δ}
    (hk : ∀ a b, R a b → Agree U (k a) (l b)) {as : List α} {bs : List β}
    (h : List.Forall₂ R as bs) : Agree (List.Forall₂ U) (as.mapM k) (bs.mapM l) := by
  induction h with
  | nil => exact .ok .nil
  | cons hab _ ih =>
    rw [List.mapM_cons, List.mapM_cons]
    exact (hk _ _ hab).bind fun _ _ hc => ih.bind fun _ _ hcs => .pure (.cons hc hcs)

end Agree

/-! ## Shapes -/

namespace Operand

/-- The operand without its code. -/
def shape (o : Operand) : Operand :=
  { o with code := "" }

/-- The operand with other code. -/
def recode (o : Operand) (code : String) : Operand :=
  { o with code := code }

/-- Operands of one shape differ in their code only. -/
theorem eq_recode {o p : Operand} (h : o.shape = p.shape) : ∃ c, p = o.recode c := by
  refine ⟨p.code, ?_⟩
  obtain ⟨oc, ot, on, ok, ou, om, of, or⟩ := o
  obtain ⟨pc, pt, pn, pk, pu, pm, pf, pr⟩ := p
  simp only [shape, Operand.mk.injEq, true_and] at h
  obtain ⟨rfl, rfl, rfl, rfl, rfl, rfl, rfl⟩ := h
  rfl

theorem type_eq {o p : Operand} (h : o.shape = p.shape) : o.type = p.type :=
  congrArg (·.type) h

theorem shape_ofElement (a b : String) (t : Option Ty) :
    (ofElement a t).shape = (ofElement b t).shape := by
  unfold ofElement
  split <;> rfl

theorem shape_reduce {o p : Operand} (h : o.shape = p.shape) : o.reduce.shape = p.reduce.shape := by
  obtain ⟨c, rfl⟩ := eq_recode h
  exact shape_ofElement _ _ _

theorem shape_referent {o p : Operand} (h : o.shape = p.shape) :
    o.referent.shape = p.referent.shape := by
  obtain ⟨c, rfl⟩ := eq_recode h
  unfold referent
  change _ = (if o.raw = true then _ else _ : Operand).shape
  split <;> rfl

/-- The operands differ in their code only, and their type is well formed. -/
structure Like (o p : Operand) : Prop where
  shape : o.shape = p.shape
  fine : Ty.Fine o.type

theorem Like.refl {o : Operand} (h : Ty.Fine o.type) : o.Like o :=
  ⟨rfl, h⟩

section

variable {o p : Operand} (h : o.Like p)

include h

theorem Like.type : o.type = p.type :=
  congrArg (·.type) h.shape

theorem Like.notNull : o.notNull = p.notNull :=
  congrArg (·.notNull) h.shape

theorem Like.constant : o.constant = p.constant :=
  congrArg (·.constant) h.shape

theorem Like.undef : o.undef = p.undef :=
  congrArg (·.undef) h.shape

theorem Like.multi : o.multi = p.multi :=
  congrArg (·.multi) h.shape

theorem Like.raw : o.raw = p.raw :=
  congrArg (·.raw) h.shape

theorem Like.elemType : o.elemType = p.elemType :=
  congrArg (·.map Ty.elem) h.type

theorem Like.isAggregate : o.isAggregate = p.isAggregate :=
  congrArg (·.any Ty.isAggregate) h.type

theorem Like.isSequence : o.isSequence = p.isSequence :=
  congrArg (·.any Ty.isSequence) h.type

theorem Like.isRef : o.isRef = p.isRef :=
  congrArg (·.any Ty.isRef) h.type

theorem Like.branchType : o.branchType = p.branchType := by
  simp only [Operand.branchType, h.multi, h.elemType, h.type]

theorem Like.scalarType : o.scalarType = p.scalarType := by
  simp only [Operand.scalarType, h.multi, h.elemType, h.isAggregate, h.type]

theorem Like.fine_elem : Ty.Fine o.elemType :=
  h.fine.map Ty.WellFormed.elem

theorem Like.fine_branch : Ty.Fine o.branchType := by
  unfold Operand.branchType
  split
  · exact h.fine_elem
  · exact h.fine

theorem Like.fine_scalar : Ty.Fine o.scalarType := by
  unfold Operand.scalarType
  split
  · exact h.fine_elem
  split
  · exact Ty.fine_scalar _
  · exact h.fine

end

theorem like_plain (a b : String) {t : Option Ty} (ht : Ty.Fine t) : (plain a t).Like (plain b t) :=
  ⟨rfl, ht⟩

theorem like_nonNull (a b : String) {t : Option Ty} (ht : Ty.Fine t) :
    (nonNull a t).Like (nonNull b t) :=
  ⟨rfl, ht⟩

theorem like_ofElement (a b : String) {t : Option Ty} (ht : Ty.Fine t) :
    (ofElement a t).Like (ofElement b t) := by
  refine ⟨shape_ofElement a b t, ?_⟩
  unfold ofElement
  split
  · exact ht.map Ty.WellFormed.refTo
  · exact ht

theorem Like.reduce {o p : Operand} (h : o.Like p) : o.reduce.Like p.reduce :=
  ⟨shape_reduce h.shape, (like_ofElement _ "" h.fine_elem).fine⟩

theorem Like.referent {o p : Operand} (h : o.Like p) : o.referent.Like p.referent := by
  refine ⟨shape_referent h.shape, ?_⟩
  unfold Operand.referent
  split
  · exact h.fine_elem
  · exact h.fine_elem

end Operand

/-! ## Conversions -/

namespace Conversion

theorem toScalar_alike {o p : Operand} (h : o.shape = p.shape) (k : Kind) :
    Alike (toScalar o k) (toScalar p k) := by
  have ht := Operand.type_eq h
  cases k with
  | number =>
    simp only [toScalar, toNumber, ← ht]
    split
    · exact .error _
    · exact .ok trivial
    · exact .ok trivial
    · exact .ok trivial
    · split <;> exact .ok trivial
  | file =>
    simp only [toScalar, toFile, ← ht]
    split
    · exact .ok trivial
    · exact .ok trivial
    · exact .error _
  | _ => exact .ok trivial

/-- The loop over the elements of a container is the same whatever the code of the container. -/
theorem aggregateTo_alike (conv : Operand → Except Fault String) (a b : String) (depth : Nat)
    (s : Shape) (selem : Ty) (d : Shape) (delem : Ty) :
    Alike (aggregateTo conv a depth s selem d delem)
      (aggregateTo conv b depth s selem d delem) := by
  -- no branch depends on the code of the container
  unfold aggregateTo
  dsimp only
  split
  · exact .ok trivial
  split
  · split <;> exact .ok trivial
  split
  · exact .ok trivial
  · unfold elementwise
    dsimp only
    split
    · exact (Agree.of_eq rfl).bind fun _ _ _ => .pure trivial
    · exact (Agree.of_eq rfl).bind fun _ _ _ => .pure trivial

theorem shape_followRefs (t : Ty) {o p : Operand} (h : o.shape = p.shape) :
    (followRefs t o).shape = (followRefs t p).shape := by
  induction t generalizing o p with
  | ref e ih => exact ih (Operand.shape_referent h)
  | scalar | object | agg => exact h

/-- A container, or a dynamic value that holds one, as a container. -/
def reached (conv : Operand → Except Fault String) (src : Operand) (s : Shape) (d : Ty)
    (depth : Nat) : Except Fault String :=
  match src.type with
  | some (.scalar .box) =>
    .ok (Java.castTo (some (.ref (.agg s d))) (helper "toRef" src.code) ++ ".get()")
  | some (.agg s' e) => aggregateTo conv src.code depth s' e s d
  | t => .error (.incompatible t (some (.agg s d)))

/-- A conversion to a container starts where the references lead to. -/
theorem convertTo_agg (s : Shape) (d : Ty) (o : Operand) (depth : Nat) :
    convertTo (.agg s d) o depth =
      match reached (fun x => convertTo d x (depth + 1))
        (match o.type with | some t => followRefs t o | none => o) s d depth with
      | .ok code => .ok code
      | .error f => .error (if o.isRef then .incompatible o.type (some (.agg s d)) else f) :=
  rfl

theorem reached_alike (conv : Operand → Except Fault String) {o p : Operand}
    (h : o.shape = p.shape) (s : Shape) (d : Ty) (depth : Nat) :
    Alike (reached conv o s d depth) (reached conv p s d depth) := by
  unfold reached
  rw [Operand.type_eq h]
  split
  · exact .ok trivial
  · exact aggregateTo_alike _ _ _ _ _ _ _ _
  · exact .error _

theorem convertTo_alike (dest : Ty) : ∀ {o p : Operand} (depth : Nat), o.shape = p.shape →
    Alike (convertTo dest o depth) (convertTo dest p depth) := by
  induction dest with
  | scalar k =>
    intro o p depth h
    exact toScalar_alike h k
  | object n =>
    intro o p depth h
    simp only [convertTo, Operand.type_eq h]
    split
    · exact .ok trivial
    · exact .error _
  | ref d ih =>
    intro o p depth h
    have hinner := ih depth (Operand.shape_referent h)
    simp only [convertTo, Operand.type_eq h]
    split
    · split
      · exact .ok trivial
      · -- a refusal of what is referred to becomes one of the reference
        generalize convertTo d o.referent depth = x at hinner ⊢
        generalize convertTo d p.referent depth = y at hinner ⊢
        cases hinner with
        | ok _ => exact .ok trivial
        | error f => exact .error _
    · exact .ok trivial
    · exact .error _
  | agg s d ih =>
    intro o p depth h
    have ht := Operand.type_eq h
    have hisRef : o.isRef = p.isRef := congrArg (·.any Ty.isRef) ht
    have hsrc : (match p.type with | some t => followRefs t o | none => o).shape
        = (match p.type with | some t => followRefs t p | none => p).shape := by
      split
      · exact shape_followRefs _ h
      · exact h
    rw [convertTo_agg, convertTo_agg, hisRef, ht]
    have hreached := reached_alike (fun x => convertTo d x (depth + 1)) hsrc s d depth
    revert hreached
    generalize reached _ (match p.type with | some t => followRefs t o | none => o) s d depth = x
    generalize reached _ (match p.type with | some t => followRefs t p | none => p) s d depth = y
    intro hreached
    cases hreached with
    | ok _ => exact .ok trivial
    | error f => exact .error _

/-- An operand that is one value. -/
theorem convertOne_alike {o p : Operand} (h : o.shape = p.shape) (dest : Option Ty) :
    Alike
      (if o.undef then .ok (if dest.any Ty.isBoolean then "false" else "null")
        else match dest with
          | some t => convertTo t o 0
          | none => .error (.incompatible o.type none))
      (if p.undef then .ok (if dest.any Ty.isBoolean then "false" else "null")
        else match dest with
          | some t => convertTo t p 0
          | none => .error (.incompatible p.type none)) := by
  -- both operands take the same branch, as their shapes decide it
  rw [show p.undef = o.undef from congrArg (·.undef) h.symm, Operand.type_eq h]
  split
  · exact .ok trivial
  · cases dest with
    | none => exact .error _
    | some t => exact convertTo_alike t 0 h

theorem convert_alike {o p : Operand} (h : o.shape = p.shape) (dest : Option Ty) :
    Alike (convert o dest) (convert p dest) := by
  obtain ⟨c, rfl⟩ := Operand.eq_recode h
  have hone : (if o.multi && !dest.any Ty.isAggregate then o.reduce else o).shape =
      (if o.multi && !dest.any Ty.isAggregate then (o.recode c).reduce
        else o.recode c).shape := by
    split
    · exact Operand.shape_reduce h
    · exact h
  exact convertOne_alike hone dest

theorem convertNonNull_alike (m n : Bool) {o p : Operand} (h : o.shape = p.shape)
    (dest : Option Ty) : Alike (convertNonNull m o dest) (convertNonNull n p dest) := by
  have hundef : o.undef = p.undef := congrArg (·.undef) h
  unfold convertNonNull
  rw [← hundef]
  split
  · exact .ok trivial
  · refine (convert_alike h dest).bind fun a b _ => ?_
    split <;> split <;> exact .pure trivial

/-- Every operand is a truth value, a text, a dynamic value and a number of known precision. -/
theorem convert_scalar (o : Operand) {k : Kind} (hfile : k ≠ .file) (hnumber : k ≠ .number) :
    ∃ code, convert o (some (.scalar k)) = .ok code := by
  -- only a file and a number may refuse their operand
  have hscalar (x : Operand) : ∃ code, convertTo (.scalar k) x 0 = .ok code := by
    cases k with
    | file => exact absurd rfl hfile
    | number => exact absurd rfl hnumber
    | _ => exact ⟨_, rfl⟩
  unfold convert
  dsimp only
  split
  · split
    · exact ⟨_, rfl⟩
    · exact hscalar o.reduce
  · split
    · exact ⟨_, rfl⟩
    · exact hscalar o

theorem convertNonNull_scalar (nullChecks : Bool) (o : Operand) {k : Kind} (hfile : k ≠ .file)
    (hnumber : k ≠ .number) : ∃ code, convertNonNull nullChecks o (some (.scalar k)) = .ok code := by
  obtain ⟨code, hcode⟩ := convert_scalar o hfile hnumber
  unfold convertNonNull
  split
  · exact ⟨_, rfl⟩
  · rw [hcode]
    exact ⟨_, apply_ite Except.ok _ _ _ |>.symm⟩

/-- A truth value can be had of every operand. -/
theorem convertNonNull_boolean (nullChecks : Bool) (o : Operand) :
    ∃ code, convertNonNull nullChecks o (some .boolean) = .ok code :=
  convertNonNull_scalar nullChecks o (by decide) (by decide)

end Conversion

end TypedPerl
