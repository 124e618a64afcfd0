import TypedPerl.Compile.Builtin
import TypedPerl.Proofs.Twin.Agree

/-!
# Values of like operands

What is generated from operands alone: containers, literals, choices, operators and element
accesses. Given operands that are alike, a generator fails with the same fault or gives alike
operands, whatever the code and whether or not undefined values are guarded.
-/

namespace TypedPerl

/-- Operands that are alike one by one. -/
abbrev Operand.Row (os ps : List Operand) : Prop :=
  List.Forall₂ Operand.Like os ps

/-! ## Containers -/

namespace Collection

open Conversion (convert convert_alike)

variable {os ps run run' : List Operand}

theorem sequenceRun_agree (h : Operand.Row run run') (elem : Ty) :
    Agree (fun a b => a.type = b.type) (sequenceRun run elem) (sequenceRun run' elem) :=
  (Agree.mapM (fun _ _ ho => convert_alike ho.shape (some elem)) h).bind fun _ _ _ => .pure rfl

theorem pairs_row : ∀ {os ps : List Operand}, Operand.Row os ps →
    List.Forall₂ (fun a b => a.1.Like b.1 ∧ a.2.Like b.2) (pairs os) (pairs ps)
  | _, _, .nil => .nil
  | _, _, .cons _ .nil => .nil
  | _, _, .cons hk (.cons hv hrest) => .cons ⟨hk, hv⟩ (pairs_row hrest)

theorem mapRun_agree (h : Operand.Row run run') (elem : Ty) :
    Agree (fun a b => a.type = b.type) (mapRun run elem) (mapRun run' elem) := by
  unfold mapRun
  simp only [h.length_eq]
  split
  · exact .pure rfl
  · refine .bind (S := fun _ _ => True) ?_ fun _ _ _ => .pure rfl
    refine (Agree.mapM (U := fun _ _ => True) (fun a b hab => ?_) (pairs_row h)).mono
      fun _ _ _ => trivial
    exact (convert_alike hab.1.shape _).bind fun _ _ _ =>
      (convert_alike hab.2.shape _).bind fun _ _ _ => .pure trivial

theorem runChunk_agree (h : Operand.Row run run') (s : Shape) (elem : Ty) :
    Agree (List.Forall₂ fun a b => a.type = b.type) (runChunk s elem run)
      (runChunk s elem run') := by
  have hempty : run.isEmpty = run'.isEmpty := by cases h <;> rfl
  unfold runChunk
  rw [hempty]
  split
  · exact .ok .nil
  dsimp only
  split
  · exact (mapRun_agree h elem).bind fun _ _ hc => .pure (.cons hc .nil)
  · exact (sequenceRun_agree h elem).bind fun _ _ hc => .pure (.cons hc .nil)

theorem splice_agree {o p : Operand} (h : o.Like p) (t : Ty) (s : Shape) (elem : Ty) :
    Agree (fun a b => a.type = b.type) (splice o t s elem) (splice p t s elem) := by
  unfold splice
  have hwhole : Agree (fun a b : Chunk => a.type = b.type)
      (do let code ← convert o (some (.agg s elem)); return ⟨code, .agg s elem⟩)
      (do let code ← convert p (some (.agg s elem)); return ⟨code, .agg s elem⟩) :=
    (convert_alike h.shape _).bind fun _ _ _ => .pure rfl
  dsimp only
  split <;> split
  · exact .ok rfl
  · exact hwhole
  · exact .ok rfl
  · exact hwhole

/-- The pieces of like elements have the same types, by induction on the elements; the row of values
that is still open is carried along. -/
theorem chunks_agree (s : Shape) (elem : Ty) (h : Operand.Row os ps) :
    ∀ {run run' : List Operand}, Operand.Row run run' →
      Agree (List.Forall₂ fun a b => a.type = b.type) (chunks s elem run os)
        (chunks s elem run' ps) := by
  induction h with
  | nil =>
    intro run run' hrun
    exact runChunk_agree hrun s elem
  | cons ho _ ih =>
    intro run run' hrun
    simp only [chunks, ho.type]
    -- a spliced operand ends the run before it, any other joins the run
    split
    · refine (runChunk_agree hrun s elem).bind fun _ _ hbefore => ?_
      refine (splice_agree ho _ s elem).bind fun _ _ hc => ?_
      exact (ih .nil).bind fun _ _ hafter => .pure (List.rel_append hbefore (.cons hc hafter))
    · exact ih (List.rel_append hrun (.cons ho .nil))

theorem buildFrom_alike (h : Operand.Row os ps) (s : Shape) (elem : Ty) :
    Alike (buildFrom os s elem) (buildFrom ps s elem) := by
  refine (chunks_agree s elem h .nil).bind fun cs ds hcs => ?_
  rcases hcs with _ | @⟨c, d, _, _, hc, _ | _⟩
  · exact .ok trivial
  · have hshape : (Operand.nonNull c.code (some c.type)).shape
        = (Operand.nonNull d.code (some d.type)).shape := by
      rw [hc]
      rfl
    exact convert_alike hshape (some (.agg s elem))
  · exact .ok trivial

theorem any_isSequence (h : Operand.Row os ps) :
    os.any Operand.isSequence = ps.any Operand.isSequence := by
  induction h with
  | nil => rfl
  | cons ho _ ih => rw [List.any_cons, List.any_cons, ho.isSequence, ih]

/-- A container is built from like elements, or refused. -/
theorem build_alike (h : Operand.Row os ps) (dest : Option Ty) :
    Alike (build os dest) (build ps dest) := by
  have hempty : os.isEmpty = ps.isEmpty := by cases h <;> rfl
  unfold build
  simp only [hempty, h.length_eq, any_isSequence h]
  split
  · split
    · exact .ok trivial
    split
    · exact (buildFrom_alike h .list .box).bind fun _ _ _ => convert_alike (by rfl) _
    · exact buildFrom_alike h _ _
  · exact .error _

end Collection

/-! ## Common types -/

namespace Operand

theorem Like.contribution {o p : Operand} (h : o.Like p) : o.contribution = p.contribution := by
  simp only [Operand.contribution, h.isSequence, h.elemType, h.type]

theorem Like.fine_contribution {o p : Operand} (h : o.Like p) : Ty.Fine o.contribution := by
  unfold Operand.contribution
  split
  · exact h.fine_elem
  · exact h.fine

theorem foldl_merge {os ps : List Operand} (h : Row os ps) : ∀ {t : Option Ty}, Ty.Fine t →
    (os.filter fun o => !o.undef).foldl (fun t o => Ty.merge? t o.contribution) t
        = (ps.filter fun o => !o.undef).foldl (fun t o => Ty.merge? t o.contribution) t ∧
      Ty.Fine ((os.filter fun o => !o.undef).foldl (fun t o => Ty.merge? t o.contribution) t) := by
  induction h with
  | nil =>
    intro t ht
    exact ⟨rfl, ht⟩
  | cons ho _ ih =>
    intro t ht
    simp only [List.filter_cons, ho.undef]
    -- an undefined operand contributes no type
    split
    · rw [List.foldl_cons, List.foldl_cons, ← ho.contribution]
      exact ih (ht.merge? ho.fine_contribution)
    · exact ih ht

/-- Like elements have the same common type. -/
theorem Row.elementType {os ps : List Operand} (h : Row os ps) :
    Operand.elementType os = Operand.elementType ps ∧ (Operand.elementType os).WellFormed := by
  obtain ⟨heq, hfine⟩ := foldl_merge h Ty.fine_none
  unfold Operand.elementType
  rw [← heq]
  refine ⟨rfl, ?_⟩
  generalize List.foldl _ none _ = t at hfine
  cases t with
  | none => exact Ty.wellFormed_scalar _
  | some t => exact hfine t rfl

theorem Like.makeRef {o p : Operand} (h : o.Like p) : o.makeRef.Like p.makeRef := by
  unfold Operand.makeRef
  simp only [h.isRef, h.type]
  split
  · exact h
  · exact ⟨rfl, h.type ▸ h.fine.map Ty.WellFormed.refTo⟩

end Operand

/-- What was generated differs in its code only, and its type is well formed. -/
structure Output.Like (a b : Output) : Prop where
  type : a.type = b.type
  raw : a.raw = b.raw
  fine : Ty.Fine a.type

theorem Operand.Like.toOutput {o p : Operand} (h : o.Like p) : o.toOutput.Like p.toOutput :=
  ⟨h.type, h.raw, h.fine⟩

/-! ## Accesses -/

namespace Path

open Conversion (convert convert_alike convertNonNull convertNonNull_alike)

/-- The paths differ in the code of their base and keys only. -/
structure Like (p q : Path) : Prop where
  base : p.base.Like q.base
  keys : Operand.Row p.keys q.keys
  throughRef : p.throughRef = q.throughRef
  deref : p.deref = q.deref
  brace : p.brace = q.brace
  context : p.context = q.context
  baseRepeatable : p.baseRepeatable = q.baseRepeatable
  keysRepeatable : p.keysRepeatable = q.keysRepeatable

theorem assumedReferent_wellFormed (p : Path) : p.assumedReferent.WellFormed := by
  unfold assumedReferent
  split
  · split <;> trivial
  · split <;> trivial

theorem sliceType_fine {t : Option Ty} (h : Ty.Fine t) : Ty.Fine (sliceType t) := by
  refine h.map fun {u} hu => ?_
  split
  · exact hu
  · exact hu.elem.wrap _

section

variable {p q : Path} {m n : Bool} (h : p.Like q)

include h

theorem Like.isMulti : p.isMulti = q.isMulti := by
  have hcontext := h.context
  have hkeys := h.keys
  unfold Path.isMulti
  rcases p with ⟨_, _, _, ks, _, _, _, _⟩
  rcases q with ⟨_, _, _, ks', _, _, _, _⟩
  rcases hkeys with _ | ⟨hk, _ | _⟩
  · rfl
  · simp only at hcontext ⊢
    rw [hcontext, hk.isAggregate]
  · rfl

theorem Like.assumedReferent : p.assumedReferent = q.assumedReferent := by
  simp only [Path.assumedReferent, h.deref, h.context, h.brace]

theorem reached_like : Agree Operand.Like p.reached q.reached := by
  unfold reached
  simp only [h.throughRef, h.deref, h.base.raw, h.base.isRef, h.base.type, h.assumedReferent]
  split
  · split
    · exact .ok h.base.referent
    · exact .ok h.base
  · split
    · exact .ok h.base.referent
    · exact .ok (Operand.like_plain _ _ (Ty.fine_some q.assumedReferent_wellFormed))
    · exact .error _

theorem container_like : Agree Operand.Like p.container q.container := by
  refine (reached_like h).bind fun cont cont' hcont => ?_
  simp only [h.deref, h.context, h.brace, h.base.type, h.assumedReferent, hcont.type,
    hcont.isAggregate]
  split
  · split
    · exact .pure hcont
    · exact .throw _
  · split
    · exact .pure hcont
    · exact .throw _

theorem key_agree (t : Option Ty) :
    Agree (fun a b => a.2 = b.2 ∧ a.2.WellFormed) (p.key m t) (q.key n t) := by
  have hhead : (p.keys.headD default).shape = (q.keys.headD default).shape := by
    have hkeys := h.keys
    generalize p.keys = ks at hkeys ⊢
    generalize q.keys = ks' at hkeys ⊢
    cases hkeys with
    | nil => rfl
    | cons hk _ => exact hk.shape
  unfold key
  dsimp only
  split
  · exact (convert_alike hhead _).bind fun _ _ _ => .pure ⟨rfl, trivial⟩
  · exact (convertNonNull_alike m n hhead _).bind fun _ _ _ => .pure ⟨rfl, trivial⟩

theorem keyArray_alike (t : Option Ty) : Alike (p.keyArray t) (q.keyArray t) :=
  Collection.build_alike h.keys _

/-- Both paths are written to with a value of the same type. -/
theorem target_agree : Agree (fun a b => a = b ∧ Ty.Fine a) p.target q.target := by
  refine (container_like h).bind fun cont cont' hcont => ?_
  simp only [h.deref, h.isMulti, h.context, hcont.type, hcont.elemType]
  split
  · exact .pure ⟨rfl, hcont.type ▸ hcont.fine⟩
  split
  · exact .pure ⟨rfl, hcont.elemType ▸ hcont.fine_elem⟩
  split
  · exact .pure ⟨rfl, sliceType_fine (hcont.type ▸ hcont.fine)⟩
  · exact .throw _

theorem read_like : Agree Operand.Like (p.read m) (q.read n) := by
  refine (container_like h).bind fun cont cont' hcont => ?_
  simp only [h.deref, h.isMulti, h.context, hcont.type, hcont.elemType]
  have hfine := hcont.type ▸ hcont.fine
  have helem := hcont.elemType ▸ hcont.fine_elem
  split
  · exact .pure hcont
  split
  · exact (key_agree h _).bind fun _ _ _ => .pure (Operand.like_ofElement _ _ helem)
  · refine (keyArray_alike h _).bind fun _ _ _ => ?_
    split
    · exact .pure (Operand.like_ofElement _ _ helem)
    · exact .pure (Operand.like_nonNull _ _ (sliceType_fine hfine))
    · exact .pure (Operand.like_nonNull _ _ (Ty.fine_some trivial))

/-- Both dereferences have a cell to write to, of the same type, or neither has. -/
theorem cell_rel : Option.Rel (fun a b => a.2 = b.2 ∧ a.2.WellFormed) p.cell? q.cell? := by
  have hfine := h.base.fine
  unfold cell?
  rw [← h.base.type]
  split
  · rename_i e ht
    rw [h.base.raw]
    split
    · exact .none
    · exact .some ⟨rfl, hfine _ ht⟩
  · exact .some ⟨congrArg Ty.refTo h.assumedReferent, p.assumedReferent_wellFormed.refTo⟩
  · exact .none

theorem write_alike (a b : String) : Alike (p.write m a) (q.write n b) := by
  have hcell := cell_rel h
  unfold write
  simp only [h.deref, h.isMulti, h.context]
  -- a whole referent is written to its cell, an element to its container
  split
  · generalize p.cell? = x at hcell ⊢
    generalize q.cell? = y at hcell ⊢
    cases hcell with
    | some _ => exact .ok trivial
    | none => exact .error _
  · refine (container_like h).bind fun cont cont' hcont => ?_
    simp only [hcont.type]
    split
    · exact (key_agree h _).bind fun _ _ _ => .pure trivial
    · refine (keyArray_alike h _).bind fun _ _ _ => ?_
      split
      · exact .pure trivial
      · exact .pure trivial
      · exact .throw _

theorem delete_like : Agree Operand.Like (p.delete m) (q.delete n) := by
  unfold delete
  simp only [h.deref, h.isMulti, h.context]
  -- a whole referent cannot be deleted, an element is deleted from its container
  split
  · exact .error _
  · refine (container_like h).bind fun cont cont' hcont => ?_
    have helem := hcont.elemType ▸ hcont.fine_elem
    simp only [hcont.type, hcont.elemType]
    split
    · exact (key_agree h _).bind fun _ _ _ => .pure (Operand.like_ofElement _ _ helem)
    · refine (keyArray_alike h _).bind fun _ _ _ => ?_
      split
      · exact .pure (Operand.like_nonNull _ _ (sliceType_fine (hcont.type ▸ hcont.fine)))
      split
      · exact .pure (Operand.like_ofElement _ _ helem)
      · exact (convertNonNull_alike m n (by rfl) _).bind fun _ _ _ =>
          .pure (Operand.like_ofElement _ _ helem)

theorem isPresent_like : Agree Operand.Like (p.isPresent m) (q.isPresent n) := by
  unfold isPresent
  simp only [h.deref, h.isMulti]
  split
  · exact .error _
  · refine (container_like h).bind fun cont cont' hcont => ?_
    simp only [hcont.type]
    refine (key_agree h _).bind fun _ _ _ => ?_
    split
    · exact .pure (Operand.like_nonNull _ _ (Ty.fine_scalar _))
    · exact .pure (Operand.like_nonNull _ _ (Ty.fine_scalar _))

end

end Path

/-! ## Literals, new containers and choices -/

namespace Compile

open Conversion (convert convert_alike convertNonNull convertNonNull_alike)

variable {o p : Operand} {os ps : List Operand} {m n : Bool}

theorem numberLiteral_wellFormed {text code : String} {t : Ty}
    (h : Java.numberLiteral? text = some (code, t)) : t.WellFormed := by
  unfold Java.numberLiteral? at h
  dsimp only at h
  -- every kind of literal has a scalar type
  split at h
  · obtain ⟨_, _, hx⟩ := Option.map_eq_some_iff.1 h
    cases hx
    trivial
  split at h
  · split at h
    · cases h
      trivial
    · cases h
      trivial
  split at h
  · split at h
    · cases h
    · cases h
      trivial
  · cases h

theorem numberOutput_like (text : String) :
    Agree Output.Like (numberOutput text) (numberOutput text) := by
  refine .refl _ fun out hout => ⟨rfl, rfl, ?_⟩
  unfold numberOutput at hout
  split at hout
  · rename_i code t ht
    cases hout
    exact Ty.fine_some (numberLiteral_wellFormed ht)
  · cases hout

theorem stringOperand_alike (h : o.Like p) : Alike (stringOperand o) (stringOperand p) := by
  unfold stringOperand
  simp only [h.type, h.undef, h.notNull, h.constant, h.multi]
  split
  · exact .ok trivial
  split
  · exact .ok trivial
  · exact convert_alike h.shape _

theorem stringPiece_alike (h : o.Like p) : Alike (stringPiece o) (stringPiece p) := by
  unfold stringPiece
  rw [h.isSequence]
  split
  · exact .ok trivial
  · exact stringOperand_alike h

theorem stringPieces_alike (pieces : List (Option String)) (h : Operand.Row os ps) :
    Alike (stringPieces pieces os) (stringPieces pieces ps) := by
  induction pieces generalizing os ps with
  | nil => exact .ok trivial
  | cons piece pieces ih =>
    cases piece with
    | some text => exact (ih h).bind fun _ _ _ => .pure trivial
    | none =>
      cases h with
      | nil => exact ih .nil
      | cons ho hos =>
        exact (stringPiece_alike ho).bind fun _ _ _ => (ih hos).bind fun _ _ _ => .pure trivial

theorem stringOutput_like (pieces : List (Option String)) (h : Operand.Row os ps) :
    Agree Output.Like (stringOutput pieces os) (stringOutput pieces ps) := by
  have hstring (a b : String) :
      Output.Like { code := a, type := some .string } { code := b, type := some .string } :=
    ⟨rfl, rfl, Ty.fine_scalar _⟩
  unfold stringOutput
  split
  · exact .pure (hstring _ _)
  · refine (stringPieces_alike pieces h).bind fun _ _ _ => ?_
    split <;> split <;> exact .pure (hstring _ _)

theorem newContainer_like (h : Operand.Row os ps) {t : Ty} (ht : t.WellFormed) :
    Agree Output.Like (newContainer os t) (newContainer ps t) :=
  (Collection.build_alike h _).bind fun _ _ _ => .pure ⟨rfl, rfl, Ty.fine_some ht.refTo⟩

theorem writtenContainer_fine {t : Option Ty} (h : Ty.Fine t) : Ty.Fine (writtenContainer t) := by
  unfold writtenContainer
  split
  · exact Ty.fine_some (h _ rfl).elem
  · exact h

theorem anonArrayOutput_like (h : Operand.Row os ps) {t : Option Ty} (ht : Ty.Fine t) :
    Agree Output.Like (anonArrayOutput os t) (anonArrayOutput ps t) := by
  unfold anonArrayOutput
  rw [← h.elementType.1]
  split
  · rename_i hwritten
    exact newContainer_like h (writtenContainer_fine ht _ hwritten)
  · exact newContainer_like h (h.elementType.2.wrap _)

theorem hashValues_row (h : Operand.Row os ps) : Operand.Row (hashValues os) (hashValues ps) := by
  unfold hashValues
  -- which operands are values depends on the position only, so it has to vary
  generalize 0 = i
  induction h generalizing i with
  | nil => exact .nil
  | @cons o p _ _ ho _ ih =>
    simp only [List.zipIdx_cons, List.filterMap_cons, ho.type, ho.elemType]
    by_cases hmap : p.type.any Ty.isMap
    · simp only [hmap, if_true]
      exact .cons (Operand.like_plain _ _ (ho.elemType ▸ ho.fine_elem)) (ih _)
    · simp only [hmap]
      by_cases hodd : i % 2 = 1
      · simp only [hodd, if_true]
        exact .cons ho (ih _)
      · simp only [hodd, if_false]
        exact ih _

theorem anonHashOutput_like (h : Operand.Row os ps) {t : Option Ty} (ht : Ty.Fine t) :
    Agree Output.Like (anonHashOutput os t) (anonHashOutput ps t) := by
  have hvalues := (hashValues_row h).elementType
  unfold anonHashOutput
  rw [← hvalues.1]
  split
  · rename_i hwritten
    exact newContainer_like h (writtenContainer_fine ht _ hwritten)
  · exact newContainer_like h (hvalues.2.wrap _)

theorem listOutput_like (h : Operand.Row os ps) (u : Usage) :
    Agree Output.Like (listOutput os u) (listOutput ps u) := by
  unfold listOutput
  rw [← h.elementType.1]
  split
  · exact .ok ⟨rfl, rfl, Ty.fine_some trivial⟩
  · exact (Collection.build_alike h _).bind fun _ _ _ =>
      .pure ⟨rfl, rfl, Ty.fine_some (h.elementType.2.wrap _)⟩

theorem choiceType_eq {a b a' b' : Operand} (ha : a.Like a') (hb : b.Like b') :
    choiceType a b = choiceType a' b' ∧ Ty.Fine (choiceType a b) := by
  unfold choiceType
  rw [← ha.undef, ← hb.undef, ← ha.branchType, ← hb.branchType]
  refine ⟨rfl, ?_⟩
  split
  · exact hb.fine_branch
  split
  · exact ha.fine_branch
  · exact ha.fine_branch.merge? hb.fine_branch

theorem ternaryOutput_like {a b a' b' : Operand} (h : o.Like p) (ha : a.Like a')
    (hb : b.Like b') :
    Agree Output.Like (ternaryOutput m o a b) (ternaryOutput n p a' b') := by
  obtain ⟨ht, hfine⟩ := choiceType_eq ha hb
  unfold ternaryOutput
  simp only [← ht]
  exact (convertNonNull_alike m n h.shape _).bind fun _ _ _ =>
    (convert_alike ha.shape _).bind fun _ _ _ =>
      (convert_alike hb.shape _).bind fun _ _ _ => .pure ⟨rfl, rfl, hfine⟩

theorem signed_like (sign : String) (h : o.Like p) {t : Ty} (ht : t.WellFormed) :
    Agree Output.Like (signed m sign o t) (signed n sign p t) :=
  (convertNonNull_alike m n h.shape _).bind fun _ _ _ => .pure ⟨rfl, rfl, Ty.fine_some ht⟩

theorem unaryOutput_like (op : String) (h : o.Like p) {out out' : Output} (hout : out.Like out') :
    Agree Output.Like (unaryOutput m op o out) (unaryOutput n op p out') := by
  unfold unaryOutput
  simp only [h.type]
  split
  · exact signed_like _ h trivial
  · exact signed_like _ h trivial
  · exact signed_like _ h trivial
  · exact .ok hout
  · exact signed_like _ h trivial
  · exact .error _

/-! ## Operators -/

section

variable {l r l' r' : Operand} (hl : l.Like l') (hr : r.Like r')

include hl hr

theorem both_alike (t : Ty) : Alike (both m l r t) (both n l' r' t) :=
  (convertNonNull_alike m n hl.shape _).bind fun _ _ _ =>
    (convertNonNull_alike m n hr.shape _).bind fun _ _ _ => .pure trivial

theorem bothStrings_alike : Alike (bothStrings l r) (bothStrings l' r') :=
  (stringOperand_alike hl).bind fun _ _ _ =>
    (stringOperand_alike hr).bind fun _ _ _ => .pure trivial

theorem infixOp_like (op : String) (t : Ty) {result : Ty} (hresult : result.WellFormed) :
    Agree Operand.Like (infixOp m op l r t result) (infixOp n op l' r' t result) :=
  (both_alike hl hr t).bind fun _ _ _ => .pure (Operand.like_nonNull _ _ (Ty.fine_some hresult))

theorem compareNumbers_like (op : String) :
    Agree Operand.Like (compareNumbers m op l r) (compareNumbers n op l' r') := by
  unfold compareNumbers
  simp only [hl.scalarType, hr.scalarType]
  exact (both_alike hl hr _).bind fun _ _ _ => .pure (Operand.like_nonNull _ _ (Ty.fine_scalar _))

theorem compareStrings_like (sign : String) :
    Agree Operand.Like (compareStrings sign l r) (compareStrings sign l' r') :=
  (bothStrings_alike hl hr).bind fun _ _ _ => .pure (Operand.like_nonNull _ _ (Ty.fine_scalar _))

/-- An operator gives a value of a type that follows from the types of its operands. -/
theorem binaryOp_like (op : String) :
    Agree Operand.Like (binaryOp m op l r) (binaryOp n op l' r') := by
  have hboth (t : Ty) {code : String × String → String} {result : Ty}
      (hresult : result.WellFormed) : Agree Operand.Like
        (both m l r t >>= fun c => pure (.nonNull (code c) (some result)))
        (both n l' r' t >>= fun c => pure (.nonNull (code c) (some result))) :=
    (both_alike hl hr t).bind fun _ _ _ =>
      .pure (Operand.like_nonNull _ _ (Ty.fine_some hresult))
  have hstrings {code : String × String → String} (k : Kind) : Agree Operand.Like
        (bothStrings l r >>= fun c => pure (.nonNull (code c) (some (.scalar k))))
        (bothStrings l' r' >>= fun c => pure (.nonNull (code c) (some (.scalar k)))) :=
    (bothStrings_alike hl hr).bind fun _ _ _ =>
      .pure (Operand.like_nonNull _ _ (Ty.fine_scalar k))
  unfold binaryOp
  simp only [hl.scalarType, hr.scalarType]
  split
  -- comparisons of numbers and of strings
  case h_12 | h_13 | h_14 | h_15 | h_16 | h_17 => exact compareNumbers_like hl hr _
  case h_29 | h_30 | h_31 | h_32 => exact compareStrings_like hl hr _
  -- operators on two numbers, and on two strings, that have a text of their own
  case h_11 | h_18 | h_33 => exact hboth _ trivial
  case h_24 | h_26 | h_27 | h_28 => exact hstrings _
  -- a repeated string
  case h_25 =>
    exact (stringOperand_alike hl).bind fun _ _ _ =>
      (convertNonNull_alike m n hr.shape _).bind fun _ _ _ =>
        .pure (Operand.like_nonNull _ _ (Ty.fine_scalar _))
  -- no operator, and those that stand between their operands
  case h_34 => exact .error _
  all_goals exact infixOp_like hl hr _ _ trivial

theorem logicalType_eq :
    logicalType l r = logicalType l' r' ∧ Ty.Fine (logicalType l r) := by
  unfold logicalType
  rw [← hl.undef, ← hr.undef, ← hl.scalarType, ← hr.scalarType]
  refine ⟨rfl, ?_⟩
  split
  · exact hl.fine_scalar
  split
  · exact hr.fine_scalar
  · exact hl.fine_scalar.merge? hr.fine_scalar

end

theorem logicalTest_alike (op : String) (h : o.Like p) (t : Option Ty) (repeatable : Bool)
    (a b : String) :
    Alike (logicalTest op o t repeatable a) (logicalTest op p t repeatable b) := by
  unfold logicalTest
  simp only [h.notNull, h.constant]
  split
  · exact .ok trivial
  · exact convert_alike (by rfl) _

/-! ## Sequences and builtin functions -/

theorem sequenceOf_agree (h : o.Like p) :
    Agree (fun a b => a.2 = b.2 ∧ Ty.Fine a.2) (sequenceOf o) (sequenceOf p) := by
  have hfine := h.fine
  unfold sequenceOf
  rw [← h.type]
  split
  · rename_i e ht
    exact (convert_alike h.shape _).bind fun _ _ _ =>
      .pure ⟨rfl, Ty.fine_some ((hfine _ ht).elem.wrap .list)⟩
  · rename_i s e _ ht
    exact .ok ⟨rfl, ht ▸ hfine⟩
  · exact (Collection.build_alike (.cons h .nil) _).bind fun _ _ _ =>
      .pure ⟨rfl, hfine.map fun hu => hu.wrap .array⟩

theorem sizeOperand_like (h : o.Like p) :
    Agree Operand.Like (sizeOperand o) (sizeOperand p) :=
  (convert_alike h.shape _).bind fun _ _ _ =>
    .pure (Operand.like_nonNull _ _ (Ty.fine_scalar _))

theorem definedOperand_like (o p : Operand) : (definedOperand o).Like (definedOperand p) :=
  Operand.like_nonNull _ _ (Ty.fine_scalar _)

theorem scalarOperand_like (h : o.Like p) :
    Agree Operand.Like (scalarOperand o) (scalarOperand p) := by
  unfold scalarOperand
  rw [h.multi, h.isAggregate]
  split
  · exact .ok h.reduce
  split
  · exact sizeOperand_like h
  · exact .ok h

theorem mapPart_like (name : String) (h : o.Like p) (u : Usage) :
    Agree Operand.Like (mapPart name o u) (mapPart name p u) := by
  have hfine := h.fine
  unfold mapPart
  rw [← h.type]
  split
  · rename_i e ht
    split
    · exact sizeOperand_like h
    split
    · exact .ok (Operand.like_nonNull _ _ (Ty.fine_some trivial))
    · exact .ok (Operand.like_nonNull _ _ (Ty.fine_some ((hfine _ ht).elem.wrap .list)))
  · exact .error _

end Compile

end TypedPerl
