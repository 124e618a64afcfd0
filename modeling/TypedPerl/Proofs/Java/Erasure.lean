import Mathlib.Data.List.Basic
import TypedPerl.Java.Ty
import TypedPerl.Ty.Tag

/-!
# Erased types

An erasure is made from text: what stands between the angle brackets of a declaration type is
dropped. `Java.erased` goes by the structure of the type instead, a class without its arguments and
an array as its element with a pair of brackets behind it. The two agree for every type whose object
class has no angle bracket in its name (`erasure_eq_erased`), by what each piece of a declaration
type leaves at each level of type arguments (`Leaves`).

The creation of an array takes the levels of arrays off the element type and puts their brackets
back behind the length. So it names the erasure of the array it creates, with the length in the
pair of brackets of the outermost level.
-/

namespace TypedPerl.Java

/-! ## What is left of a text -/

/-- No angle bracket stands in the text. -/
def NoAngle (x : String) : Prop :=
  ∀ c ∈ x.toList, c ≠ '<' ∧ c ≠ '>'

instance (x : String) : Decidable (NoAngle x) :=
  List.decidableBAll (fun c => c ≠ '<' ∧ c ≠ '>') x.toList

/-- Outside of type arguments `kept` is left of the text, and inside nothing. What stands behind the
text is on the level that the text starts on. -/
def Leaves (x kept : String) : Prop :=
  ∀ level : Nat, ∀ rest, dropTypeArgs level (x.toList ++ rest) =
    (if level = 0 then kept.toList else []) ++ dropTypeArgs level rest

namespace Leaves

variable {x y k l : String}

theorem plain (h : NoAngle x) : Leaves x x := by
  intro level rest
  unfold NoAngle at h
  generalize x.toList = cs at h ⊢
  induction cs with
  | nil => simp
  | cons c cs ih =>
    obtain ⟨⟨hopen, hclose⟩, hcs⟩ := List.forall_mem_cons.mp h
    rw [List.cons_append, dropTypeArgs, if_neg hopen, if_neg hclose, ih hcs]
    by_cases hlevel : level = 0
    · simp [hlevel]
    · simp [hlevel]

theorem append (hx : Leaves x k) (hy : Leaves y l) : Leaves (x ++ y) (k ++ l) := by
  intro level rest
  rw [String.toList_append, List.append_assoc, hx, hy, String.toList_append]
  split
  · rw [List.append_assoc]
  · rfl

/-- Of type arguments in their brackets nothing is left. -/
theorem typeArgs (h : Leaves x k) : Leaves ("<" ++ x ++ ">") "" := by
  intro level rest
  -- inside the brackets the level is one higher, and so not that of the declaration type itself
  have hinside : dropTypeArgs ((level : Int) + 1) (x.toList ++ '>' :: rest) =
      dropTypeArgs level rest := by
    have h := h (level + 1) ('>' :: rest)
    rw [if_neg (Nat.succ_ne_zero level), List.nil_append, Int.natCast_succ] at h
    rw [h, dropTypeArgs, if_neg (by decide), if_pos rfl, Int.add_sub_cancel]
  have htext : ("<" ++ x ++ ">").toList ++ rest = '<' :: (x.toList ++ '>' :: rest) := by
    simp [String.toList_append]
  rw [htext, dropTypeArgs, if_pos rfl, hinside]
  split
  · rfl
  · rfl

/-- A class with type arguments is left without them. -/
theorem generic (hx : NoAngle x) (hy : Leaves y k) : Leaves (x ++ "<" ++ y ++ ">") x := by
  have h := (plain hx).append hy.typeArgs
  rwa [String.append_empty, ← String.append_assoc, ← String.append_assoc] at h

end Leaves

/-! ## Erasure by structure -/

/-- The type without type arguments, by its structure. -/
def erased : Ty → String
  | .scalar k => kindClass k
  | .object n => n
  | .ref _ => refClass
  | .agg .array e => erased e ++ "[]"
  | .agg .list _ => listClass
  | .agg .map _ => mapClass

theorem leaves_declType {t : Ty} (h : NoAngle t.objectName) : Leaves (declType t) (erased t) := by
  induction t with
  | scalar k => cases k <;> exact .plain (by decide)
  | object n => exact .plain h
  | ref e ih => exact .generic (by decide) (ih h)
  | agg s e ih =>
    cases s with
    | array => exact (ih h).append (.plain (by decide))
    | list => exact .generic (by decide) (ih h)
    | map => exact .generic (by decide) (ih h)

theorem erasure_eq_erased {t : Ty} (h : NoAngle t.objectName) : erasure t = erased t := by
  have hleft := leaves_declType h 0 []
  rw [List.append_nil, if_pos rfl, dropTypeArgs, List.append_nil] at hleft
  rw [erasure, ← Int.natCast_zero, hleft, String.ofList_toList]

/-! ## Arrays -/

/-- The brackets of the levels of arrays at the top of a type. -/
def pairs (t : Ty) : String :=
  String.join (List.replicate (arrayLevels t) "[]")

theorem pairs_array (e : Ty) : pairs (.agg .array e) = "[]" ++ pairs e := by
  rw [pairs, arrayLevels, List.replicate_succ, String.join_cons, pairs]

theorem pairs_comm (t : Ty) : "[]" ++ pairs t = pairs t ++ "[]" := by
  unfold pairs
  generalize arrayLevels t = levels
  induction levels with
  | zero => rfl
  | succ n ih => rw [List.replicate_succ, String.join_cons, String.append_assoc, ← ih]

theorem erased_arrayBase (t : Ty) : erased t = erased (arrayBase t) ++ pairs t := by
  induction t with
  | scalar k => simp [arrayBase, pairs, arrayLevels]
  | object n => simp [arrayBase, pairs, arrayLevels]
  | ref e => simp [arrayBase, pairs, arrayLevels]
  | agg s e ih =>
    cases s with
    | array => rw [erased, ih, arrayBase, pairs_array, pairs_comm, String.append_assoc]
    | list => simp [arrayBase, pairs, arrayLevels]
    | map => simp [arrayBase, pairs, arrayLevels]

theorem objectName_arrayBase (t : Ty) : (arrayBase t).objectName = t.objectName := by
  induction t with
  | scalar k => rfl
  | object n => rfl
  | ref e => rfl
  | agg s e ih =>
    cases s with
    | array => exact ih
    | list | map => rfl

theorem erased_arrayOf {t : Ty} (h : t.isRef = false) :
    erased (.arrayOf t) = erased (arrayBase t) ++ "[]" ++ pairs t := by
  have hunref : t.unref = t := by
    cases t with
    | ref e => cases h
    | scalar | object | agg => rfl
  rw [Ty.arrayOf, Ty.wrap, hunref, erased, erased_arrayBase, String.append_assoc,
    String.append_assoc, pairs_comm]

theorem newArray_eq_erased {t : Ty} (h : NoAngle t.objectName) (length : String) :
    newArray t length = "new " ++ erased (arrayBase t) ++ "[" ++ length ++ "]" ++ pairs t := by
  rw [newArray, erasure_eq_erased (objectName_arrayBase t ▸ h), pairs]

/-! ## The length of an array -/

/-- The characters with `x` behind the first opening bracket. -/
def fillFirst (x : List Char) : List Char → List Char
  | [] => []
  | c :: cs => if c = '[' then c :: (x ++ cs) else c :: fillFirst x cs

/-- The text with `x` in its first pair of brackets. -/
def inFirstPair (x text : String) : String :=
  String.ofList (fillFirst x.toList text.toList)

theorem fillFirst_append {x front back : List Char} (h : '[' ∉ front) :
    fillFirst x (front ++ '[' :: back) = front ++ '[' :: (x ++ back) := by
  induction front with
  | nil => exact if_pos rfl
  | cons c front ih =>
    rw [List.mem_cons, not_or] at h
    rw [List.cons_append, fillFirst, if_neg (Ne.symm h.1), ih h.2, List.cons_append]

theorem inFirstPair_append {x front back : String} (h : '[' ∉ front.toList) :
    inFirstPair x (front ++ "[" ++ back) = front ++ "[" ++ x ++ back := by
  have htext : (front ++ "[" ++ back).toList = front.toList ++ '[' :: back.toList := by
    simp [String.toList_append]
  rw [inFirstPair, htext, fillFirst_append h]
  apply String.toList_injective
  simp [String.toList_append]

/-- The class below the levels of arrays has an opening bracket only in the name of an object. -/
theorem bracket_in_arrayBase {t : Ty} (h : '[' ∈ (erased (arrayBase t)).toList) :
    ∃ name, arrayBase t = .object name ∧ '[' ∈ name.toList := by
  induction t with
  | scalar k => cases k <;> exact absurd h (by decide)
  | object n => exact ⟨n, rfl, h⟩
  | ref e => exact absurd h (show '[' ∉ refClass.toList by decide)
  | agg s e ih =>
    cases s with
    | array => exact ih h
    | list => exact absurd h (show '[' ∉ listClass.toList by decide)
    | map => exact absurd h (show '[' ∉ mapClass.toList by decide)

/-- The erasure of a type, its class literal and the creations of arrays of it name the type as its
structure says, if the name of its object class has no angle bracket. An array is created as the
erasure of an array of the elements, and its length stands in the pair of brackets right behind the
class that is below all levels of arrays. That is the first pair of the text, unless the class has a
bracket in its own name. Names of classes are texts of characters, as all readers of types give
them. -/
theorem erasure_structural {t : Ty} (h : NoAngle t.objectName) :
    erasure t = erased t ∧ classLiteral t = erased t ++ ".class" ∧
    (t.isRef = false →
      newArray t "" = "new " ++ erasure (.arrayOf t) ∧
      (∀ items, arrayInitializer t items =
        "new " ++ erased (.arrayOf t) ++ "\x7b" ++ Text.join ", " items ++ "\x7d") ∧
      erased (.arrayOf t) = erased (arrayBase t) ++ "[]" ++ pairs t ∧
      ∀ length, newArray t length =
          "new " ++ erased (arrayBase t) ++ "[" ++ length ++ "]" ++ pairs t ∧
        ((∀ name, arrayBase t = .object name → '[' ∉ name.toList) →
          newArray t length = inFirstPair length (newArray t ""))) := by
  have herasure := erasure_eq_erased h
  refine ⟨herasure, by rw [classLiteral, herasure], fun href => ?_⟩
  have harray : NoAngle (Ty.arrayOf t).objectName := by
    cases t with
    | ref e => cases href
    | scalar | object | agg => exact h
  have hempty : newArray t "" = "new " ++ erased (.arrayOf t) := by
    rw [newArray_eq_erased h, erased_arrayOf href]
    simp [String.append_assoc]
  refine ⟨by rw [hempty, erasure_eq_erased harray], fun items => by rw [arrayInitializer, hempty],
    erased_arrayOf href, fun length => ⟨newArray_eq_erased h length, fun hname => ?_⟩⟩
  have hfront : '[' ∉ ("new " ++ erased (arrayBase t)).toList := by
    rw [String.toList_append, List.mem_append, not_or]
    refine ⟨by decide, fun hmem => ?_⟩
    obtain ⟨name, hbase, hbracket⟩ := bracket_in_arrayBase hmem
    exact hname name hbase hbracket
  -- in front of the pair for the length stands no other bracket, so it is the first
  rw [newArray_eq_erased h, newArray_eq_erased h, String.append_empty]
  generalize "new " ++ erased (arrayBase t) = front at hfront ⊢
  calc front ++ "[" ++ length ++ "]" ++ pairs t
      = front ++ "[" ++ length ++ ("]" ++ pairs t) := String.append_assoc
    _ = inFirstPair length (front ++ "[" ++ ("]" ++ pairs t)) := (inFirstPair_append hfront).symm
    _ = inFirstPair length (front ++ "[" ++ "]" ++ pairs t) := by rw [← String.append_assoc]

/-- Arrays of arrays of texts, and arrays of lists of arrays of them. -/
theorem textMatrix_structural :
    let matrix : Ty := .agg .array (.agg .array (.object "Text"))
    let lists : Ty := .agg .array (.agg .list matrix)
    (NoAngle matrix.objectName ∧ matrix.isRef = false ∧
      (∀ name, arrayBase matrix = .object name → '[' ∉ name.toList) ∧
      newArray matrix "n" = "new Text[n][][]" ∧
      newArray matrix "n" = inFirstPair "n" (newArray matrix "")) ∧
    erasure lists = "PerlList[]" ∧ newArray lists "" = "new " ++ erasure (.arrayOf lists) := by
  intro matrix lists
  -- the class name has no brackets, so the first pair in the text is the one of the array
  have hname : ∀ name, arrayBase matrix = .object name → '[' ∉ name.toList := by
    rintro name ⟨⟩
    decide
  obtain ⟨-, -, hmatrix⟩ := erasure_structural (t := matrix) (by decide)
  obtain ⟨herasure, -, hlists⟩ := erasure_structural (t := lists) (by decide)
  obtain ⟨hnew, hpair⟩ := (hmatrix rfl).2.2.2 "n"
  exact ⟨⟨by decide, rfl, hname, hnew.trans (by decide), hpair hname⟩, herasure.trans rfl,
    (hlists rfl).1⟩

/-- A class that has brackets in its name keeps its own first pair: the length of an array of it
stands in the second pair of the text. -/
theorem bracketedClass_second_pair :
    let t : Ty := .object "byte[]"
    t.WellFormed ∧ NoAngle t.objectName ∧ t.isRef = false ∧
      newArray t "" = "new byte[][]" ∧ newArray t "n" = "new byte[][n]" ∧
      inFirstPair "n" (newArray t "") = "new byte[n][]" ∧
      newArray t "n" ≠ inFirstPair "n" (newArray t "") := by
  have hwf : "byte[]" ≠ "" := by decide
  exact ⟨hwf, by decide, rfl, by decide, by decide, by decide, by decide⟩

end TypedPerl.Java
