import TypedPerl.Compile.State
import TypedPerl.Proofs.Conversion.Convertible
import TypedPerl.Proofs.Conversion.Linear

/-!
# Null checks of the one value of a row

Where null is not taken, the runtime checks numbers and texts that may be null. Of a row of values
one counts, and it may be null although the row is not. The conversion takes that one value, but
whether it is checked is decided by what is known of the row. So a row is converted as its one value
is exactly if the row is not marked, or if there is nothing to check.

Every row that an expression gives is marked: a call or a list is never null as a whole
(`operandOf_row`). With checks on, the value that counts of such a row is therefore never
checked where a number or a text is wanted (`operandOf_row_agrees_iff`).
-/

namespace TypedPerl

namespace Operand

/-- Of an element only its type is known, and whether it is a container. -/
theorem ofElement_eq (code : String) (elem : Option Ty) : ofElement code elem =
    { code := code, type := elem.map fun e => if e.isAggregate then .ref e else e,
      raw := elem.any Ty.isAggregate } := by
  rcases elem with _ | (k | n | ⟨s, e⟩ | e) <;> rfl

/-- The one value of a row is one value, and may be null. -/
theorem reduce_flags (o : Operand) :
    o.reduce.multi = false ∧ o.reduce.undef = false ∧ o.reduce.notNull = false ∧
      o.reduce.constant = false := by
  rw [reduce, ofElement_eq]
  exact ⟨rfl, rfl, rfl, rfl⟩

end Operand

namespace Conversion

variable {o : Operand} {dest : Option Ty}

/-- The runtime checks values of the type for null: numbers and texts. -/
def isChecked (dest : Option Ty) : Bool :=
  dest.any Ty.isNumeric || dest.any Ty.isString

/-- The code of a value, checked for null if `check` holds. -/
def guarded (check : Bool) (code : String) : String :=
  if check then Java.call "Pd" "checkNull" [code] else code

/-- A check is seen in the code. -/
theorem guarded_inj {check check' : Bool} {code : String} :
    guarded check code = guarded check' code ↔ check = check' := by
  have hlonger : Java.call "Pd" "checkNull" [code] ≠ code := by
    intro h
    have hlength := congrArg String.length h
    have hclass : "Pd".length = 2 := rfl
    simp only [Java.call, Text.join, String.intercalate_singleton, String.length_append] at hlength
    omega
  cases check <;> cases check' <;> simp [guarded, hlonger, hlonger.symm]

theorem isChecked_kind (h : isChecked dest = true) :
    ∃ k : Kind, dest = some (.scalar k) ∧ k ≠ .file := by
  rcases dest with _ | (k | n | ⟨s, e⟩ | e)
  · cases h
  · refine ⟨k, rfl, ?_⟩
    rintro rfl
    cases h
  all_goals cases h

/-- A defined operand is converted, and then it may be checked. -/
theorem convertNonNull_eq (nullChecks : Bool) (ho : o.undef = false) (dest : Option Ty) :
    convertNonNull nullChecks o dest = (convert o dest).map
      (guarded (nullChecks && !o.notNull && !o.constant && isChecked dest)) := by
  have heq := convertNonNull_withCode nullChecks ho dest o.code
  rw [show o.withCode o.code = o from rfl] at heq
  rw [heq]
  cases convert o dest with
  | error f => rfl
  | ok code =>
    show (if _ then Except.ok _ else Except.ok _) = Except.ok (guarded _ code)
    rw [guarded, isChecked]
    split
    · rfl
    · rfl

/-- Two checks of one result are the same if it is checked in both, or if there is no result. -/
theorem map_guarded_inj {x : Except Fault String} {check check' : Bool} :
    x.map (guarded check) = x.map (guarded check') ↔ (Succeeds x → check = check') := by
  cases x with
  | error f => exact iff_of_true rfl fun h => absurd h (Succeeds.not_error f)
  | ok code =>
    simp only [Except.map, Except.ok.injEq, guarded_inj]
    exact ⟨fun h _ => h, fun h => h (.ok code)⟩

/-- A row is converted by converting its one value. -/
theorem convert_reduce (hmulti : o.multi = true) (hdest : dest.any Ty.isAggregate = false) :
    convert o.reduce dest = convert o dest := by
  obtain ⟨hone, -⟩ := o.reduce_flags
  simp [convert, hmulti, hdest, hone]

/-- The one value of a row becomes a number or a text, unless its type is not known and the number
is of no particular precision. -/
theorem convert_row_succeeds_iff (hmulti : o.multi = true) (hdest : isChecked dest = true) :
    Succeeds (convert o dest) ↔ (o.type = none → dest ≠ some .number) := by
  obtain ⟨k, rfl, hfile⟩ := isChecked_kind hdest
  obtain ⟨hone, hdefined, -⟩ := o.reduce_flags
  have hvalue : convert o (some (.scalar k)) = convertTo (.scalar k) o.reduce 0 := by
    rw [← convert_reduce hmulti rfl]
    simp [convert, hone, hdefined]
  rw [hvalue, convertTo_succeeds_iff, type_reduce, Operand.elemType]
  cases o.type with
  | none =>
    -- the element has no type either, and a number of unknown precision cannot be made of it
    show (∃ k', Ty.scalar k = .scalar k' ∧ k' ≠ .file ∧ k' ≠ .number) ↔ _
    constructor
    · rintro ⟨_, ⟨⟩, -, hnumber⟩ - ⟨⟩
      exact hnumber rfl
    · intro h
      exact ⟨k, rfl, hfile, fun hnumber => h rfl (hnumber ▸ rfl)⟩
  | some t =>
    have hvacuous (hnone : some t = none) : some (Ty.scalar k) ≠ some .number :=
      absurd hnone (Option.some_ne_none t)
    exact iff_of_true (.scalar hfile) hvacuous

/-- A row of values and its one value are converted alike where null is not taken, if what is known
of the row makes no difference to the check. -/
theorem row_agrees_iff (hmulti : o.multi = true) (ho : o.undef = false)
    (hdest : dest.any Ty.isAggregate = false) (nullChecks : Bool) :
    convertNonNull nullChecks o dest = convertNonNull nullChecks o.reduce dest ↔
      (Succeeds (convert o dest) →
        (nullChecks && !o.notNull && !o.constant && isChecked dest) =
          (nullChecks && isChecked dest)) := by
  obtain ⟨-, hdefined, hnull, hliteral⟩ := o.reduce_flags
  rw [convertNonNull_eq nullChecks ho, convertNonNull_eq nullChecks hdefined,
    convert_reduce hmulti hdest, map_guarded_inj, hnull, hliteral, Bool.not_false, Bool.and_true,
    Bool.and_true]

/-- A row of values and its one value are converted alike where null is not taken, exactly if
nothing is checked, or no more is known of the row than of the one value, or the conversion is
refused. -/
theorem row_converts_as_value_iff (hmulti : o.multi = true) (ho : o.undef = false)
    (hdest : dest.any Ty.isAggregate = false) (nullChecks : Bool) :
    convertNonNull nullChecks o dest = convertNonNull nullChecks o.reduce dest ↔
      nullChecks = false ∨ isChecked dest = false ∨ (o.notNull = false ∧ o.constant = false) ∨
        (o.type = none ∧ dest = some .number) := by
  rw [row_agrees_iff hmulti ho hdest]
  cases hchecked : isChecked dest with
  | false => simp
  | true =>
    rw [convert_row_succeeds_iff hmulti hchecked]
    cases nullChecks <;> cases o.notNull <;> cases o.constant <;> simp

/-- A row that may be null as a whole. -/
def unmarkedRow : Operand :=
  { code := "f()", type := some (.arrayOf .box), multi := true }

theorem unmarkedRow_converts_as_value :
    unmarkedRow.multi = true ∧ unmarkedRow.undef = false ∧
      (some Ty.string).any Ty.isAggregate = false ∧
      convertNonNull true unmarkedRow (some .string) =
        convertNonNull true unmarkedRow.reduce (some .string) ∧
      convertNonNull true unmarkedRow (some .string) =
        .ok "Pd.checkNull(Casting.toString(Pd.last(f())))" :=
  ⟨rfl, rfl, rfl, (row_converts_as_value_iff rfl rfl rfl true).mpr (.inr (.inr (.inl ⟨rfl, rfl⟩))),
    congrArg Except.ok (by decide +kernel)⟩

/-- The row that a call gives, which is never null as a whole. -/
def calledRow : Operand :=
  { code := "f(args)", type := some (.arrayOf .integer), notNull := true, multi := true }

/-- The last number of the row that a call gives is checked for null if it stands by itself, and is
not if it is taken from the row. -/
theorem calledRow_not_checked :
    calledRow.multi = true ∧ calledRow.undef = false ∧
      convertNonNull true calledRow (some .integer) = .ok "Pd.last(f(args))" ∧
      convertNonNull true calledRow.reduce (some .integer) =
        .ok "Pd.checkNull(Pd.last(f(args)))" ∧
      convertNonNull true calledRow (some .integer) ≠
        convertNonNull true calledRow.reduce (some .integer) := by
  have hrow : convertNonNull true calledRow (some .integer) = .ok "Pd.last(f(args))" :=
    congrArg Except.ok (by decide +kernel)
  have hvalue : convertNonNull true calledRow.reduce (some .integer) =
      .ok "Pd.checkNull(Pd.last(f(args)))" := congrArg Except.ok (by decide +kernel)
  refine ⟨rfl, rfl, hrow, hvalue, ?_⟩
  rw [hrow, hvalue, ne_eq, Except.ok.injEq]
  decide +kernel

end Conversion

/-! ## Rows in expressions -/

namespace Compile

open Conversion

variable {st : State} {e : Expr}

/-- A row that an expression gives is a call or a list. It is defined, and not null as a whole. -/
theorem operandOf_row (h : (st.operandOf e).multi = true) :
    (st.operandOf e).undef = false ∧ (st.operandOf e).notNull = true := by
  have hmulti : e.isMultiValued = true := (Bool.and_eq_true_iff.mp h).1
  show e.isUndef = false ∧ e.isNotNull = true
  cases e with
  | call i package name args => exact ⟨rfl, rfl⟩
  | list i es =>
    rcases es with _ | ⟨x, _ | ⟨y, rest⟩⟩
    · exact ⟨rfl, rfl⟩
    · -- a list of one element is no row
      cases hmulti
    · exact ⟨rfl, rfl⟩
  | _ => cases hmulti

/-- With checks on, the one value of a row that an expression gives is never converted to a number
or a text as it is by itself. -/
theorem operandOf_row_agrees_iff (h : (st.operandOf e).multi = true) {dest : Option Ty}
    (hdest : dest.any Ty.isAggregate = false) (nullChecks : Bool) :
    convertNonNull nullChecks (st.operandOf e) dest =
        convertNonNull nullChecks (st.operandOf e).reduce dest ↔
      nullChecks = false ∨ isChecked dest = false := by
  obtain ⟨hdefined, hnull⟩ := operandOf_row h
  rw [row_agrees_iff h hdefined hdest, hnull]
  -- without a check there is nothing to differ in
  cases hchecked : isChecked dest with
  | false => simp
  | true =>
    have hsequence : (st.operandOf e).type ≠ none := by
      intro hnone
      have hmulti : (e.isMultiValued && (st.operandOf e).type.any Ty.isSequence) = true := h
      simp [hnone] at hmulti
    rw [convert_row_succeeds_iff h hchecked]
    cases nullChecks <;> simp [hsequence]

end Compile

end TypedPerl
