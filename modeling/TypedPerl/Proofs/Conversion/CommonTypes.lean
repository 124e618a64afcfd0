import TypedPerl.Proofs.Conversion.ElementTypes

/-!
# Common types of values that are no containers

Among types that are no containers, some are wider than others: whole numbers widen to `long`,
numbers to `double`, and every type to the type of dynamic values (`Ty.Widens`). The merge of two
such types is the least type that both widen to (`Ty.bounds_merge?`), so the order in which types
are merged does not matter, and the common type of a list depends only on which types occur in it.

A value converts to each type that its own type widens to. An operand of the list converts to the
common type too, unless its type is not known, or it is marked as a row of values although it is
none: then something else is converted than what the common type was made from
(`Operand.Refused`). Operands of generated code are marked so only if they are containers
(`operandOf_multi`).
-/

namespace TypedPerl

namespace Ty

/-! ## Widening -/

/-- The second type takes the values of the first without loss of meaning. -/
inductive Widens : Ty → Ty → Prop where
  /-- Every type takes its own values. -/
  | refl (t : Ty) : Widens t t
  /-- The widest type of whole numbers. -/
  | long {t : Ty} (h : t.isIntegral = true) : Widens t .long
  /-- The widest type of numbers. -/
  | double {t : Ty} (h : t.isNumeric = true) : Widens t .double
  /-- Everything is a dynamic value. -/
  | box (t : Ty) : Widens t .box

variable {a b c : Ty}

theorem isNumeric_of_isIntegral (h : a.isIntegral = true) : a.isNumeric = true := by
  revert h
  rcases a with k | n | ⟨s, e⟩ | e
  · cases k <;> decide
  · exact nofun
  · exact nofun
  · exact nofun

theorem Widens.antisymm (hab : Widens a b) (hba : Widens b a) : a = b := by
  -- every step up leaves the types that the step came from
  cases hab with
  | refl => rfl
  | long h =>
    cases hba with
    | refl | long => rfl
    | double | box => exact absurd h (by decide)
  | double h =>
    cases hba with
    | refl | double => rfl
    | long h' => exact absurd h' (by decide)
    | box => exact absurd h (by decide)
  | box =>
    cases hba with
    | refl | box => rfl
    | long h | double h => exact absurd h (by decide)

theorem Widens.trans (hab : Widens a b) (hbc : Widens b c) : Widens a c := by
  -- the last step decides which one the whole is
  cases hbc with
  | refl => exact hab
  | long h =>
    cases hab with
    | refl => exact .long h
    | long h' => exact .long h'
    | double | box => exact absurd h (by decide)
  | double h =>
    cases hab with
    | refl => exact .double h
    | long h' => exact .double (isNumeric_of_isIntegral h')
    | double h' => exact .double h'
    | box => exact absurd h (by decide)
  | box => exact .box a

theorem Widens.convertible (h : Widens a b) : Convertible a b := by
  cases h with
  | refl => exact .refl _
  | long | double | box => exact .scalar (by decide)

/-! ## The merge is the least common type -/

theorem widens_merge_left (a b : Ty) : Widens a (a.merge b) := by
  unfold merge
  split
  · exact .refl a
  · split
    · next hnumeric =>
      rw [Bool.and_eq_true] at hnumeric
      split
      · next hintegral => exact .long (Bool.and_eq_true_iff.mp hintegral).1
      · exact .double hnumeric.1
    · split
      · exact .refl a
      · exact .box a

theorem widens_merge_right (hb : b.isAggregate = false) : Widens b (a.merge b) := by
  unfold merge
  split
  · next heq => exact heq ▸ .refl a
  · split
    · next hnumeric =>
      rw [Bool.and_eq_true] at hnumeric
      split
      · next hintegral => exact .long (Bool.and_eq_true_iff.mp hintegral).2
      · exact .double hnumeric.2
    · rw [hb, Bool.and_false, if_neg (by decide)]
      exact .box b

/-- What two different types both widen to is a type of numbers only if both are numbers. -/
theorem Widens.common_cases (ha : Widens a c) (hb : Widens b c) (hne : a ≠ b) :
    c = .box ∨ (a.isNumeric && b.isNumeric) = true ∧
      (c = .double ∨ c = .long ∧ (a.isIntegral && b.isIntegral) = true) := by
  -- whole numbers are numbers, so that both conditions come with `long`
  have hlong (h : a.isIntegral = true ∧ b.isIntegral = true) :
      (a.isNumeric && b.isNumeric) = true ∧
        (Ty.long = .double ∨ Ty.long = .long ∧ (a.isIntegral && b.isIntegral) = true) :=
    ⟨Bool.and_eq_true_iff.mpr ⟨isNumeric_of_isIntegral h.1, isNumeric_of_isIntegral h.2⟩,
      .inr ⟨rfl, Bool.and_eq_true_iff.mpr h⟩⟩
  cases ha with
  | refl =>
    cases hb with
    | refl => exact absurd rfl hne
    | long h => exact .inr (hlong ⟨rfl, h⟩)
    | double h => exact .inr ⟨Bool.and_eq_true_iff.mpr ⟨rfl, h⟩, .inl rfl⟩
    | box => exact .inl rfl
  | long h =>
    cases hb with
    | refl => exact .inr (hlong ⟨h, rfl⟩)
    | long h' => exact .inr (hlong ⟨h, h'⟩)
  | double h =>
    cases hb with
    | refl => exact .inr ⟨Bool.and_eq_true_iff.mpr ⟨h, rfl⟩, .inl rfl⟩
    | double h' => exact .inr ⟨Bool.and_eq_true_iff.mpr ⟨h, h'⟩, .inl rfl⟩
  | box => exact .inl rfl

theorem merge_widens (ha : Widens a c) (hb : Widens b c) : Widens (a.merge b) c := by
  unfold merge
  split
  · exact ha
  · next hne =>
    rcases ha.common_cases hb hne with rfl | ⟨hnumeric, rfl | ⟨rfl, hintegral⟩⟩
    · exact .box _
    · rw [if_pos hnumeric]
      split
      · exact .double rfl
      · exact .refl _
    · rw [if_pos hnumeric, if_pos hintegral]
      exact .refl _

/-- The merge is the least type that both widen to. -/
theorem merge_widens_iff (hb : b.isAggregate = false) :
    Widens (a.merge b) c ↔ Widens a c ∧ Widens b c :=
  ⟨fun h => ⟨(widens_merge_left a b).trans h, (widens_merge_right hb).trans h⟩,
    fun h => merge_widens h.1 h.2⟩

theorem isAggregate_merge (ha : a.isAggregate = false) : (a.merge b).isAggregate = false := by
  unfold merge
  split
  · exact ha
  · split
    · split
      · rfl
      · rfl
    · rw [ha, Bool.false_and, if_neg (by decide)]
      rfl

/-! ## Types that may be missing -/

/-- The type, if there is one, widens to `c`. -/
def BoundedBy (a : Option Ty) (c : Ty) : Prop :=
  ∀ t, a = some t → Widens t c

section Missing

variable {a b d : Option Ty}

theorem boundedBy_none (c : Ty) : BoundedBy none c := nofun

theorem boundedBy_some {t c : Ty} : BoundedBy (some t) c ↔ Widens t c :=
  ⟨fun h => h t rfl, fun h _ ht => Option.some.inj ht ▸ h⟩

/-- What widens to the same types is the same. -/
theorem eq_of_boundedBy (h : ∀ c, BoundedBy a c ↔ BoundedBy b c) : a = b := by
  -- no type widens to texts and to truth values, so a type is bounded by less than a missing one
  have hsome (t : Ty) : ¬∀ c, BoundedBy (some t) c := fun hall => by
    cases boundedBy_some.mp (hall .string)
    cases boundedBy_some.mp (hall .boolean)
  cases a with
  | none =>
    cases b with
    | none => rfl
    | some u => exact absurd (fun c => (h c).mp (boundedBy_none c)) (hsome u)
  | some t =>
    cases b with
    | none => exact absurd (fun c => (h c).mpr (boundedBy_none c)) (hsome t)
    | some u =>
      have htu := boundedBy_some.mp ((h u).mpr (boundedBy_some.mpr (.refl u)))
      have hut := boundedBy_some.mp ((h t).mp (boundedBy_some.mpr (.refl t)))
      rw [htu.antisymm hut]

theorem boundedBy_merge? (hb : b.any isAggregate = false) (c : Ty) :
    BoundedBy (merge? a b) c ↔ BoundedBy a c ∧ BoundedBy b c := by
  cases a with
  | none => exact (and_iff_right (boundedBy_none c)).symm
  | some t =>
    cases b with
    | none => exact (and_iff_left (boundedBy_none c)).symm
    | some u =>
      rw [merge?, boundedBy_some, boundedBy_some, boundedBy_some]
      exact merge_widens_iff hb

theorem isAggregate_merge? (ha : a.any isAggregate = false) (hb : b.any isAggregate = false) :
    (merge? a b).any isAggregate = false := by
  cases a with
  | none => exact hb
  | some t =>
    cases b with
    | none => exact ha
    | some u => exact isAggregate_merge ha

theorem merge?_comm (ha : a.any isAggregate = false) (hb : b.any isAggregate = false) :
    merge? a b = merge? b a :=
  eq_of_boundedBy fun c => by rw [boundedBy_merge? hb, boundedBy_merge? ha, and_comm]

theorem merge?_assoc (hb : b.any isAggregate = false) (hd : d.any isAggregate = false) :
    merge? (merge? a b) d = merge? a (merge? b d) :=
  eq_of_boundedBy fun c => by
    rw [boundedBy_merge? hd, boundedBy_merge? hb, boundedBy_merge? (isAggregate_merge? hb hd),
      boundedBy_merge? hd, and_assoc]

theorem merge?_self (a : Option Ty) : merge? a a = a := by
  cases a with
  | none => rfl
  | some t => exact congrArg some (if_pos rfl)

end Missing

end Ty

namespace Operand

open Ty (BoundedBy merge?)

/-! ## The common type of a list -/

/-- The type that the defined values of a list have in common, if one of them has a type. -/
def commonType? (ops : List Operand) : Option Ty :=
  (ops.filter fun o => !o.undef).foldl (fun t o => merge? t o.contribution) none

theorem elementType_eq_common (ops : List Operand) :
    elementType ops = (commonType? ops).getD .box := rfl

/-- A value that is no container brings in its own type. -/
theorem contribution_of_value {o : Operand} (ho : o.isAggregate = false) :
    o.contribution = o.type := by
  have hsequence : o.isSequence = false := by
    refine Bool.eq_false_iff.mpr fun h => ?_
    rw [isAggregate_of_isSequence h] at ho
    cases ho
  rw [contribution, hsequence, if_neg Bool.false_ne_true]

/-- What the merge of a list widens to, by induction on the list. -/
theorem boundedBy_foldl {ops : List Operand} (hops : ∀ o ∈ ops, o.isAggregate = false) (c : Ty) :
    ∀ a : Option Ty, BoundedBy (ops.foldl (fun t o => merge? t o.contribution) a) c ↔
      BoundedBy a c ∧ ∀ o ∈ ops, BoundedBy o.type c := by
  induction ops with
  | nil => exact fun a => (and_iff_left nofun).symm
  | cons o rest ih =>
    intro a
    obtain ⟨ho, hrest⟩ := List.forall_mem_cons.mp hops
    rw [List.foldl_cons, ih hrest, contribution_of_value ho, Ty.boundedBy_merge? ho,
      List.forall_mem_cons, and_assoc]

theorem isAggregate_foldl {ops : List Operand} (hops : ∀ o ∈ ops, o.isAggregate = false) :
    ∀ a : Option Ty, a.any Ty.isAggregate = false →
      (ops.foldl (fun t o => merge? t o.contribution) a).any Ty.isAggregate = false := by
  induction ops with
  | nil => exact fun a ha => ha
  | cons o rest ih =>
    intro a ha
    obtain ⟨ho, hrest⟩ := List.forall_mem_cons.mp hops
    rw [List.foldl_cons, contribution_of_value ho]
    exact ih hrest _ (Ty.isAggregate_merge? ha ho)

section Values

variable {ops : List Operand} (hops : ∀ o ∈ ops, o.isAggregate = false)

include hops

theorem isAggregate_of_defined : ∀ o ∈ ops.filter (fun o => !o.undef), o.isAggregate = false :=
  fun o ho => hops o (List.mem_filter.mp ho).1

/-- The common type is the least that the types of all defined values widen to. -/
theorem boundedBy_commonType? (c : Ty) :
    BoundedBy (commonType? ops) c ↔ ∀ o ∈ ops, o.undef = false → BoundedBy o.type c := by
  rw [commonType?, boundedBy_foldl (isAggregate_of_defined hops),
    and_iff_right (Ty.boundedBy_none c)]
  simp only [List.mem_filter, Bool.not_eq_true', and_imp]

/-- The order of the values does not matter. -/
theorem elementType_perm {ops' : List Operand} (h : ops.Perm ops') :
    elementType ops' = elementType ops := by
  have hops' : ∀ o ∈ ops', o.isAggregate = false := fun o ho => hops o (h.mem_iff.mpr ho)
  rw [elementType_eq_common, elementType_eq_common]
  refine congrArg (Option.getD · Ty.box) (Ty.eq_of_boundedBy fun c => ?_)
  rw [boundedBy_commonType? hops, boundedBy_commonType? hops']
  exact forall_congr' fun o => by rw [h.mem_iff]

theorem isAggregate_elementType : (elementType ops).isAggregate = false := by
  have hcommon := isAggregate_foldl (isAggregate_of_defined hops) none rfl
  rw [elementType_eq_common]
  unfold commonType?
  revert hcommon
  generalize List.foldl _ none _ = common
  intro hcommon
  cases common with
  | none => rfl
  | some t => exact hcommon

/-- Each defined value widens to the common type. -/
theorem boundedBy_elementType {o : Operand} (ho : o ∈ ops) (hdef : o.undef = false) :
    BoundedBy o.type (elementType ops) := by
  rw [elementType_eq_common]
  cases hcommon : commonType? ops with
  | none => exact fun t _ => .box t
  | some t =>
    refine (boundedBy_commonType? hops t).mp ?_ o ho hdef
    rw [hcommon, Ty.boundedBy_some]
    exact .refl t

end Values

/-- The undefined values of a list bring in nothing. -/
theorem elementType_defined (ops : List Operand) :
    elementType (ops.filter fun o => !o.undef) = elementType ops := by
  simp only [elementType, List.filter_filter, Bool.and_self]

/-! ## Conversion to the common type -/

open Conversion (convert derefType)

/-- Why an operand that is no container does not become a value of the common type. The undefined
value is null in any type, unless it is marked as a row: then a value of the row is taken. -/
inductive Refused (o : Operand) (common : Ty) : Prop where
  /-- Its type is not known, and the common type is not one that can be taken of any value. -/
  | untyped (htaken : o.undef = false ∨ o.multi = true) (htype : o.type = none)
      (hkind : ∀ k, common = .scalar k → k = .file ∨ k = .number)
  /-- It is a reference that is marked as a row, and what it refers to is taken for a value of the
  row. -/
  | referent {e : Ty} (hdef : o.undef = false) (hrow : o.multi = true)
      (htype : o.type = some (.ref e)) (hvalue : e.isAggregate = false)
      (hbox : derefType e ≠ .box) (hcommon : common = .ref e)
  /-- It is the undefined value, but marked as a row of values that are neither file handles nor
  dynamic values, where a file handle is common to the others. -/
  | undefinedFile {t : Ty} (hundef : o.undef = true) (hrow : o.multi = true)
      (hsource : o.sourceType common = some t) (hcommon : common = .file) (hfile : t ≠ .file)
      (hbox : t ≠ .box)
  /-- It is marked as a row of values that are no objects of the common class. -/
  | undefinedObject {t : Ty} {name : String} (hundef : o.undef = true) (hrow : o.multi = true)
      (hsource : o.sourceType common = some t) (hcommon : common = .object name)
      (hclass : t ≠ .object name)
  /-- It is marked as a row of values that are neither dynamic values nor references to what
  converts to what the common type refers to. -/
  | undefinedRef {t d : Ty} (hundef : o.undef = true) (hrow : o.multi = true)
      (hsource : o.sourceType common = some t) (hcommon : common = .ref d) (hbox : t ≠ .box)
      (href : ∀ e, t = .ref e → ¬Convertible e d)

/-- What a reference refers to converts back to the reference only if it is a dynamic value. -/
theorem convertible_ref_self_iff {e : Ty} : Convertible e (.ref e) ↔ derefType e = .box := by
  induction e with
  | scalar k =>
    rw [Convertible.ref_iff]
    exact ⟨fun h => h.resolve_right nofun, .inl⟩
  | object n =>
    rw [Convertible.ref_iff]
    exact iff_of_false (fun h => h.elim nofun nofun) nofun
  | agg s e =>
    rw [Convertible.ref_iff]
    exact iff_of_false (fun h => h.elim nofun nofun) nofun
  | ref e ih =>
    rw [derefType, ← ih, Convertible.ref_iff]
    constructor
    -- a reference is no dynamic value itself, so it converts only through what it refers to
    · rintro (h | ⟨s, hs, h⟩)
      · cases h
      · cases hs
        exact h
    · exact fun h => .inr ⟨e, rfl, h⟩

/-- A value that is no container is converted from its own type, unless it is a reference that is
marked as a row. -/
theorem sourceType_of_value {o : Operand} {t : Ty} (htype : o.type = some t)
    (ht : t.isAggregate = false) (common : Ty) :
    o.sourceType common = some t ∨ o.multi = true ∧ ∃ e, t = .ref e ∧ e.isAggregate = false ∧
      o.sourceType common = some e := by
  unfold sourceType elemType
  -- of a row of values only a reference has something else to be converted from
  split
  · next hrow =>
    rw [htype]
    cases t with
    | scalar k => exact .inl rfl
    | object n => exact .inl rfl
    | agg s e => cases ht
    | ref e =>
      cases hvalue : e.isAggregate with
      | true => exact .inl (by simp [Ty.elem, hvalue])
      | false =>
        exact .inr ⟨(Bool.and_eq_true_iff.mp hrow).1, e, rfl, hvalue, by simp [Ty.elem, hvalue]⟩
  · exact .inl htype

theorem convertibleFrom_of_value {o : Operand} {t common : Ty} (hdef : o.undef = false)
    (htype : o.type = some t) (ht : t.isAggregate = false) (hwidens : Ty.Widens t common)
    (hok : ¬o.Refused common) : ConvertibleFrom (o.sourceType common) common := by
  rcases sourceType_of_value htype ht common with h | ⟨hrow, e, rfl, hvalue, h⟩
  · exact h ▸ hwidens.convertible
  · rw [h]
    cases hwidens with
    | refl =>
      by_contra hnot
      exact hok (.referent hdef hrow htype hvalue (mt convertible_ref_self_iff.mpr hnot) rfl)
    | long hkind | double hkind => cases hkind
    | box => exact .scalar (by decide)

theorem sourceType_of_untyped {o : Operand} (htype : o.type = none) (common : Ty) :
    o.sourceType common = none := by
  rw [sourceType, elemType, htype]
  exact ite_self none

theorem Refused.not_succeeds {o : Operand} {common : Ty} (h : o.Refused common)
    (hcommon : common.isAggregate = false) : ¬Succeeds (convert o (some common)) := by
  intro hconverted
  -- in each case the type that is converted from is none that converts
  have hfrom (htaken : o.undef = false ∨ o.multi = true) :=
    (Conversion.convert_succeeds_iff
      (htaken.imp_right fun hrow => by simp [hrow, hcommon])).mp hconverted
  cases h with
  | untyped htaken htype hkind =>
    have hfrom := hfrom htaken
    rw [sourceType_of_untyped htype] at hfrom
    obtain ⟨k, hk, hfile, hnumber⟩ := hfrom
    exact (hkind k hk).elim hfile hnumber
  | @referent e hdef hrow htype hvalue hbox hrefs =>
    have hfrom := hfrom (.inl hdef)
    have hsource : o.sourceType common = some e := by
      simp [sourceType, elemType, hrow, hcommon, htype, Ty.elem, hvalue]
    rw [hsource, hrefs] at hfrom
    exact hbox (convertible_ref_self_iff.mp hfrom)
  | undefinedFile hundef hrow hsource hkind hfile hbox =>
    have hfrom := hfrom (.inr hrow)
    rw [hsource, hkind] at hfrom
    exact (Convertible.file_iff.mp hfrom).elim hfile hbox
  | undefinedObject hundef hrow hsource hobject hclass =>
    have hfrom := hfrom (.inr hrow)
    rw [hsource, hobject] at hfrom
    exact hclass (Convertible.object_iff.mp hfrom)
  | undefinedRef hundef hrow hsource hrefs hbox href =>
    have hfrom := hfrom (.inr hrow)
    rw [hsource, hrefs] at hfrom
    rcases Convertible.ref_iff.mp hfrom with h | ⟨e, he, h⟩
    · exact hbox h
    · exact href e he h

/-- The undefined value that is marked as a row is refused if the value of the row does not
convert. -/
theorem refused_of_undefined {o : Operand} {common : Ty} (hundef : o.undef = true)
    (hrow : o.multi = true) (hcommon : common.isAggregate = false)
    (hnot : ¬ConvertibleFrom (o.sourceType common) common) : o.Refused common := by
  cases htype : o.type with
  | none =>
    refine .untyped (.inr hrow) htype fun k hk => ?_
    by_contra hkind
    rw [not_or] at hkind
    exact hnot (sourceType_of_untyped htype common ▸ ⟨k, hk, hkind⟩)
  | some s =>
    -- a known type stays known when one value is taken of it
    obtain ⟨t, hsource⟩ : ∃ t, o.sourceType common = some t := by
      simp [sourceType, elemType, htype, hrow, hcommon]
    rw [hsource] at hnot
    cases common with
    | scalar k =>
      by_cases hk : k = .file
      · subst hk
        obtain ⟨hfile, hbox⟩ := not_or.mp (mt Convertible.file_iff.mpr hnot)
        exact .undefinedFile hundef hrow hsource rfl hfile hbox
      · exact absurd (.scalar hk) hnot
    | object name =>
      exact .undefinedObject hundef hrow hsource rfl (mt Convertible.object_iff.mpr hnot)
    | ref d =>
      obtain ⟨hbox, href⟩ := not_or.mp (mt Convertible.ref_iff.mpr hnot)
      exact .undefinedRef hundef hrow hsource rfl hbox fun e he h => href ⟨e, he, h⟩
    | agg shape d => cases hcommon

/-- An operand converts to what its type widens to, unless one of the reasons is against it. -/
theorem convert_common_iff {o : Operand} {common : Ty} (ho : o.isAggregate = false)
    (hcommon : common.isAggregate = false) (hbound : o.undef = false → BoundedBy o.type common) :
    Succeeds (convert o (some common)) ↔ ¬o.Refused common := by
  refine ⟨fun h hrefused => hrefused.not_succeeds hcommon h, fun hok => ?_⟩
  -- an undefined value always converts, unless it stands for a row
  cases hundef : o.undef with
  | true =>
    cases hrow : o.multi with
    | false => exact Conversion.convert_undef_succeeds hundef (by simp [hrow])
    | true =>
      refine (Conversion.convert_succeeds_iff (.inr (by simp [hrow, hcommon]))).mpr ?_
      by_contra hnot
      exact hok (refused_of_undefined hundef hrow hcommon hnot)
  | false =>
    refine (Conversion.convert_succeeds_iff (.inl hundef)).mpr ?_
    cases htype : o.type with
    | none =>
      by_contra hnot
      refine hok (.untyped (.inl hundef) htype fun k hk => ?_)
      by_contra hkind
      rw [not_or] at hkind
      exact hnot (sourceType_of_untyped htype common ▸ ⟨k, hk, hkind⟩)
    | some t =>
      have ht : t.isAggregate = false := by rwa [isAggregate, htype] at ho
      exact convertibleFrom_of_value hundef htype ht (hbound hundef t htype) hok

/-- Only arrays and lists are marked as rows in generated code. -/
theorem operandOf_multi {st : Compile.State} {e : Expr}
    (h : (st.operandOf e).isAggregate = false) : (st.operandOf e).multi = false := by
  refine Bool.eq_false_iff.mpr fun hrow => ?_
  have hsequence : (st.operandOf e).isSequence = true := (Bool.and_eq_true_iff.mp hrow).2
  rw [isAggregate_of_isSequence hsequence] at h
  cases h

/-- A value that is not marked as a row is refused only if its type is not known. -/
theorem Refused.untyped_of_value {o : Operand} {common : Ty} (h : o.Refused common)
    (hrow : o.multi = false) : o.undef = false ∧ o.type = none := by
  have hunmarked (hmarked : o.multi = true) : False := Bool.eq_false_iff.mp hrow hmarked
  cases h with
  | untyped htaken htype => exact ⟨htaken.resolve_right hunmarked, htype⟩
  | referent _ hmarked | undefinedFile _ hmarked | undefinedObject _ hmarked
  | undefinedRef _ hmarked => exact (hunmarked hmarked).elim

/-- On types that are no containers, missing ones included, merging is commutative, associative and
idempotent, and an operand of one of two types converts to the type they merge to, unless it is
refused. So the common type of a list of values that are no containers does not depend on their
order and leaves out the undefined ones, and the operands that do not convert to it are those that
are refused: of unknown type, or marked as rows of values. Operands of generated expressions are not
marked so, and all of them that have a type convert. -/
theorem common_types_laws :
    (∀ a b c : Option Ty, a.any Ty.isAggregate = false → b.any Ty.isAggregate = false →
      c.any Ty.isAggregate = false →
      merge? a b = merge? b a ∧ merge? (merge? a b) c = merge? a (merge? b c) ∧
        merge? a a = a ∧
        ∀ (o : Operand) (t : Ty), o.type = a → merge? a b = some t →
          (Succeeds (convert o (some t)) ↔ ¬o.Refused t)) ∧
    ∀ ops : List Operand, (∀ o ∈ ops, o.isAggregate = false) →
      (∀ ops', ops.Perm ops' → elementType ops' = elementType ops) ∧
      elementType (ops.filter fun o => !o.undef) = elementType ops ∧
      (∀ o ∈ ops, Succeeds (convert o (some (elementType ops))) ↔ ¬o.Refused (elementType ops)) ∧
      ∀ (st : Compile.State) (es : List Expr), ops = st.operands es →
        ∀ o ∈ ops, o.undef = true ∨ o.type ≠ none →
          Succeeds (convert o (some (elementType ops))) := by
  refine ⟨fun a b c ha hb hc => ⟨Ty.merge?_comm ha hb, Ty.merge?_assoc hb hc, Ty.merge?_self a,
    fun o t htype hmerged => ?_⟩, fun ops hops => ?_⟩
  · have hbound : BoundedBy (merge? a b) t := by
      rw [hmerged, Ty.boundedBy_some]
      exact .refl t
    have ht : t.isAggregate = false := by
      have h := Ty.isAggregate_merge? ha hb
      rwa [hmerged] at h
    rw [← htype] at ha hbound
    exact convert_common_iff ha ht fun _ => ((Ty.boundedBy_merge? hb t).mp hbound).1
  · have hconverts (o : Operand) (ho : o ∈ ops) :
        Succeeds (convert o (some (elementType ops))) ↔ ¬o.Refused (elementType ops) :=
      convert_common_iff (hops o ho) (isAggregate_elementType hops) (boundedBy_elementType hops ho)
    refine ⟨fun ops' h => elementType_perm hops h, elementType_defined ops, hconverts,
      fun st es hes o ho hknown => (hconverts o ho).mpr fun hrefused => ?_⟩
    have hrow : o.multi = false := by
      have hvalue := hops o ho
      rw [hes] at ho
      obtain ⟨e, -, rfl⟩ := List.mem_map.mp ho
      exact operandOf_multi hvalue
    -- what is left is the first reason, which needs a defined value of unknown type
    obtain ⟨hdef, htype⟩ := hrefused.untyped_of_value hrow
    rcases hknown with hundef | htyped
    · rw [hdef] at hundef
      cases hundef
    · exact htyped htype

/-- A whole number, the undefined value and a decimal. -/
def numberTrees : List Expr :=
  [.var { info := ⟨1, default⟩, name := "i", sigil := .scalar }, .undef ⟨2, default⟩,
    .number ⟨3, default⟩ "2.5"]

/-- What was generated for them. -/
def numbersState : Compile.State :=
  { (default : Compile.State) with
    outputs := [(1, { code := "i", type := some .integer }),
      (2, { code := "null", type := some .box }), (3, { code := "2.5", type := some .double })] }

/-- They all become decimals, in either order. -/
theorem numberTrees_common_type :
    let ops := numbersState.operands numberTrees
    (∀ o ∈ ops, o.isAggregate = false ∧ (o.undef = true ∨ o.type ≠ none)) ∧
      elementType ops = .double ∧ elementType ops.reverse = .double ∧
      elementType (ops.filter fun o => !o.undef) = .double ∧
      (∀ o ∈ ops, Succeeds (convert o (some .double)) ∧ ¬o.Refused .double) ∧
      Succeeds (convert (plain "i" (some .integer)) (some .double)) := by
  intro ops
  have hops : ∀ o ∈ ops, o.isAggregate = false ∧ (o.undef = true ∨ o.type ≠ none) := by
    simp only [ops, Compile.State.operands, numberTrees, List.map_cons, List.map_nil,
      List.forall_mem_cons]
    exact ⟨⟨rfl, .inr nofun⟩, ⟨rfl, .inl rfl⟩, ⟨rfl, .inr nofun⟩, nofun⟩
  -- the laws hold of any row, so only the common type itself is computed
  obtain ⟨hmerge, hlists⟩ := common_types_laws
  obtain ⟨horder, hdefined, hexact, hgenerated⟩ := hlists ops fun o ho => (hops o ho).1
  have hcommon : elementType ops = .double := rfl
  rw [hcommon] at hexact hgenerated
  have hconverts (o : Operand) (ho : o ∈ ops) : Succeeds (convert o (some .double)) :=
    hgenerated numbersState numberTrees rfl o ho (hops o ho).2
  obtain ⟨-, -, -, hone⟩ :=
    hmerge (some .integer) (some .double) (some .string) rfl rfl rfl
  refine ⟨hops, hcommon, (horder _ ops.reverse_perm.symm).trans hcommon, hdefined.trans hcommon,
    fun o ho => ⟨hconverts o ho, (hexact o ho).mp (hconverts o ho)⟩,
    (hone (plain "i" (some .integer)) .double rfl rfl).mpr fun hrefused => ?_⟩
  cases (hrefused.untyped_of_value rfl).2

/-- Two lists of values that are no containers, of which one value is refused: a value of unknown
type beside a number of unknown precision, and a reference to a whole number that is marked as a
row. -/
theorem untypedOrMarked_refused :
    let untyped := plain "x" none
    let number := plain "n" (some .number)
    let marked : Operand := { code := "f(args)", type := some (.ref .integer), multi := true }
    (untyped.isAggregate = false ∧ number.isAggregate = false ∧
      elementType [untyped, number] = .number ∧
      convert untyped (some .number) = .error (.incompatible none (some .number))) ∧
    marked.isAggregate = false ∧ elementType [marked] = .ref .integer ∧
      convert marked (some (.ref .integer)) =
        .error (.incompatible (some .integer) (some (.ref .integer))) :=
  ⟨⟨rfl, rfl, rfl, rfl⟩, rfl, rfl, rfl⟩

end Operand

end TypedPerl
