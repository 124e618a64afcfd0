import TypedPerl.Proofs.Conversion.Convertible
import TypedPerl.Proofs.Text.Within
import TypedPerl.Collection

/-!
# References among the elements of a sequence

The type of an array or list of references is that of an array or list of what is referred to: the
level of the reference is absorbed. A reference to a container is stored as that container. A
reference to anything else is not stored as what it refers to: where scalars are stored, its truth
or a dynamic value around it is put in its place, and where files or objects are, it is refused.
-/

namespace TypedPerl

/-- An array of anything but references is an array of just that. -/
theorem Ty.arrayOf_of_not_ref {elem : Ty} (h : elem.isRef = false) :
    Ty.arrayOf elem = .agg .array elem := by
  cases elem with
  | ref e => cases h
  | scalar | object | agg => rfl

namespace Conversion

variable {o : Operand} {e : Ty}

/-- What stands for a reference among scalars is longer than the code of what it refers to. -/
theorem toScalar_ref_length (ho : o.type = some (.ref e)) {k : Kind} {text : String}
    (htext : toScalar o k = .ok text) : o.referent.code.length < text.length := by
  have hreferent : o.referent.code.length ≤ o.code.length + 6 := by
    unfold Operand.referent
    split
    · exact Nat.le_add_right _ _
    · exact Nat.le_of_eq (String.length_append ..)
  have hcell : o.code.length ≤ o.cellCode.length := by
    unfold Operand.cellCode
    split
    · simp only [String.length_append]
      omega
    · exact Nat.le_refl _
  suffices hlong : o.code.length + 6 < text.length by omega
  cases k with
  | boolean | integer | long | float | double | string =>
    -- a test for null is put behind the code
    cases htext
    simp only [toBoolean, toNumeric, toText, ho, Java.paren, String.length_append]
    have htruth : " != null".length = 8 := rfl
    have hnumber : " != null ? ".length = 11 := rfl
    have htextual : " != null ? \"1\" : \"0\"".length = 20 := rfl
    omega
  | number =>
    simp only [toScalar, toNumber, ho] at htext
    cases htext
    simp only [Java.paren, String.length_append]
    have hnumber : " != null ? 1 : 0".length = 16 := rfl
    omega
  | box =>
    -- the cell of the reference goes into a dynamic value
    cases htext
    simp only [toBox, ho, helper, Java.call, Text.join, String.intercalate_singleton,
      String.length_append]
    have hclass : "Casting".length = 7 := rfl
    omega
  | file =>
    simp only [toScalar, toFile, ho] at htext
    cases htext

/-- A reference as a value of the type of what it refers to is what it refers to, if that is a
container, and never otherwise. -/
theorem convertTo_referent_iff (ho : o.type = some (.ref e)) (he : e.isRef = false) (depth : Nat) :
    convertTo e o depth = .ok o.referent.code ↔ e.isAggregate = true := by
  -- a scalar is converted by more code than the referent has, so it is not given as it is
  cases e with
  | scalar k =>
    refine iff_of_false (fun hstored => ?_) nofun
    have hlong : o.referent.code.length < o.referent.code.length := toScalar_ref_length ho hstored
    omega
  | object name =>
    refine iff_of_false (fun hstored => ?_) nofun
    simp [convertTo, ho] at hstored
  | ref e => cases he
  | agg s e =>
    refine iff_of_true ?_ rfl
    have htype : o.referent.type = some (.agg s e) := by
      unfold Operand.referent
      split
      · simp [Operand.elemType, ho, Ty.elem]
      · simp [Operand.plain, Operand.elemType, ho, Ty.elem]
    simp [convertTo, ho, followRefs, htype, aggregateTo]

end Conversion

namespace Collection

open Conversion (convert convertTo)

/-! ## One value as a sequence -/

/-- The code of a new array or list of items. -/
def newSequence (s : Shape) (elem : Ty) (items : List String) : String :=
  if s = .array then Java.arrayInitializer elem items
  else "new " ++ Java.declType (.agg s elem) ++ "(" ++ Java.arrayInitializer elem items ++ ")"

theorem newSequence_singleton_inj {s : Shape} {elem : Ty} {a b : String} :
    newSequence s elem [a] = newSequence s elem [b] ↔ a = b := by
  unfold newSequence
  split
  · simp [Java.arrayInitializer, Text.join]
  · simp [Java.arrayInitializer, Text.join]

/-- A row that is the only piece of a sequence is the sequence, as an array or made to a list. -/
theorem joinChunks_row {s : Shape} (hs : s ≠ .map) {elem : Ty} (helem : elem.isRef = false)
    (items : List String) :
    joinChunks s elem [⟨Java.arrayInitializer elem items, .arrayOf elem⟩] =
      .ok (newSequence s elem items) := by
  rw [joinChunks, Ty.arrayOf_of_not_ref helem]
  cases s with
  | array => simp [convert, convertTo, Operand.nonNull, Conversion.followRefs,
      Conversion.aggregateTo, newSequence]
  | list => simp [convert, convertTo, Operand.nonNull, Conversion.followRefs,
      Conversion.aggregateTo, newSequence, Shape.isSequence]
  | map => exact absurd rfl hs

/-- A value that is no container is one piece of a sequence. -/
theorem build_value {o : Operand} (ho : o.isAggregate = false) {s : Shape} (hs : s ≠ .map)
    (elem : Ty) :
    build [o] (some (.agg s elem)) = sequenceRun [o] elem >>= fun c => joinChunks s elem [c] := by
  have hrow : chunks s elem [] [o] = sequenceRun [o] elem >>= fun c => pure [c] := by
    rw [chunks]
    split
    · rename_i s' e' htype
      rw [Operand.isAggregate, htype] at ho
      cases ho
    · simp [chunks, runChunk, hs]
  simp [build, buildFrom, hrow]

/-- A value that is no container is stored in a sequence as a value of the elements' type. -/
theorem build_singleton {o : Operand} (ho : o.isAggregate = false) {s : Shape} (hs : s ≠ .map)
    {elem : Ty} (helem : elem.isRef = false) :
    build [o] (some (.agg s elem)) = do
      let item ← convert o (some elem)
      return newSequence s elem [item] := by
  rw [build_value ho hs, sequenceRun, List.mapM_cons]
  cases convert o (some elem) with
  | error f => rfl
  | ok item => exact joinChunks_row hs helem [item]

/-- A reference is stored in an array or list of what it refers to as what it refers to, if that is
a container, and only then. -/
theorem absorbed_referent_iff {o : Operand} {e : Ty} (ho : o.type = some (.ref e))
    (he : e.isRef = false) (hundef : o.undef = false) (hmulti : o.multi = false) {s : Shape}
    (hs : s ≠ .map) :
    build [o] (some (.wrap s (.ref e))) = .ok (newSequence s e [o.referent.code]) ↔
      e.isAggregate = true := by
  have hvalue : o.isAggregate = false := by
    rw [Operand.isAggregate, ho]
    rfl
  have hconvert : convert o (some e) = convertTo e o 0 := by
    simp [convert, hundef, hmulti]
  refine Iff.trans ?_ (Conversion.convertTo_referent_iff ho he 0)
  show build [o] (some (.agg s e)) = _ ↔ _
  rw [build_singleton hvalue hs he, hconvert]
  -- the item stands in the sequence as it is, so the sequences are equal exactly if the items are
  cases convertTo e o 0 with
  | error f => exact iff_of_false nofun nofun
  | ok item =>
    show Except.ok (newSequence s e [item]) = .ok (newSequence s e [o.referent.code]) ↔ _
    rw [Except.ok.injEq, Except.ok.injEq, newSequence_singleton_inj]

/-- An element of an array of arrays, which is a reference to the inner array. -/
def innerArray : Operand :=
  { code := "rows[0]", type := some (.ref (.agg .array .integer)), raw := true }

theorem innerArray_stored :
    build [innerArray] (some (.wrap .list (.ref (.agg .array .integer)))) =
      .ok "new PerlList<Integer[]>(new Integer[][]\x7brows[0]\x7d)" := by
  have hstored := (absorbed_referent_iff (o := innerArray) (s := .list) rfl rfl rfl rfl
    (by decide)).mpr rfl
  rw [hstored]
  exact congrArg Except.ok (by decide +kernel)

/-- A reference to a whole number. -/
def numberCell : Operand := .plain "r" (some (.ref .integer))

/-- An array of references to whole numbers is an array of whole numbers, and each reference is
stored as the number one: what it refers to is `r.get()`, which is not in the code at all. -/
theorem numberCell_not_stored :
    numberCell.undef = false ∧ numberCell.multi = false ∧ numberCell.referent.code = "r.get()" ∧
    build [numberCell] (some (.wrap .array (.ref .integer))) =
      .ok "new Integer[]\x7b(r != null ? 1 : 0)\x7d" ∧
    ¬Text.Within "r.get()" "new Integer[]\x7b(r != null ? 1 : 0)\x7d" := by
  refine ⟨rfl, rfl, rfl, ?_, by decide +kernel⟩
  have hitem : convert numberCell (some .integer) = .ok "(r != null ? 1 : 0)" :=
    congrArg Except.ok (by decide +kernel)
  have hstored : build [numberCell] (some (.agg .array .integer)) = do
      let item ← convert numberCell (some .integer)
      return newSequence .array .integer [item] := build_singleton rfl (by decide) rfl
  rw [hitem] at hstored
  exact hstored.trans (congrArg Except.ok (by decide +kernel))

end Collection

end TypedPerl
