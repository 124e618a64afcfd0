import TypedPerl.Proofs.Fault.Raised
import TypedPerl.Proofs.Java.StringLiterals
import TypedPerl.Proofs.Numeral.Written

/-!
# Equality of numbers

The runtime keeps numbers in boxes, and two boxes are equal only if they are one. Where neither
operand of `==` or `!=` is a constant, both are cast to the primitive type of the comparison, so that
values are compared. Beside a constant nothing is cast, since its literal is primitive already. A
number has such a literal in every comparison that it takes part in, but a text is converted by the
runtime, which gives a box: `equality_compares_values_iff` says when a side is left that is
primitive.
-/

namespace TypedPerl.Compile

open Conversion (IsLiteral convertNonNull helper numericHelper toNumeric toScalar)

/-! ## Primitive sides -/

/-- The side of a comparison is primitive: a numeral, or a value that is cast. -/
def Primitive (k : Kind) (side : String) : Prop :=
  Java.isNumeral side = true ∨ ∃ code, side = unbox code k

theorem unbox_primitive (k : Kind) (code : String) : Primitive k (unbox code k) :=
  .inr ⟨code, rfl⟩

/-- What begins with a letter is neither a numeral nor a cast. -/
theorem not_primitive {c : Char} (hc : (c.isDigit || c = '.' || c = '-') = false) (hparen : c ≠ '(')
    (k : Kind) (rest : String) : ¬Primitive k (String.ofList [c] ++ rest) := by
  rintro (hnumeral | ⟨code, heq⟩)
  · rw [Java.not_isNumeral hc] at hnumeral
    cases hnumeral
  · have hchars := congrArg String.toList heq
    have hopen : "((".toList = ['(', '('] := by decide
    simp only [unbox, String.toList_append, String.toList_ofList, hopen, List.cons_append,
      List.cons.injEq] at hchars
    exact hparen hchars.1

/-! ## Constants -/

/-- The operand is a constant as the walk makes them: the literal of a number of the source, or that
of a text. -/
inductive ConstantOperand (o : Operand) : Prop where
  | number {text code : String} {t : Ty} (hfirst : Java.BeginsNumber text)
      (hread : Java.numberLiteral? text = some (code, t)) (h : IsLiteral o code t)
  | text {s : String} (h : IsLiteral o (Java.stringLiteral s) .string)

/-- The operand is the literal of a text. -/
def IsText (o : Operand) : Prop :=
  o.constant = true ∧ o.type = some .string

/-- A value of the type takes part in comparisons of the kind. -/
def ComparesAs (t : Option Ty) (k : Kind) : Prop :=
  k = .integer ∧ t = some .integer ∨ k = .long ∧ t ≠ some .double ∨ k = .double

theorem arithmeticKind_compares (a b : Option Ty) :
    ComparesAs a (arithmeticKind a b) ∧ ComparesAs b (arithmeticKind a b) := by
  -- two integers, two that count as numbers, or anything as a decimal number
  unfold arithmeticKind
  split
  · next h =>
    obtain ⟨ha, hb⟩ : a = some .integer ∧ b = some .integer := by simpa using h
    exact ⟨.inl ⟨rfl, ha⟩, .inl ⟨rfl, hb⟩⟩
  · split
    · next h =>
      obtain ⟨ha, hb⟩ := Bool.and_eq_true_iff.mp h
      refine ⟨.inr (.inl ⟨rfl, ?_⟩), .inr (.inl ⟨rfl, ?_⟩)⟩
      · rintro rfl
        cases ha
      · rintro rfl
        cases hb
    · exact ⟨.inr (.inr rfl), .inr (.inr rfl)⟩

theorem ComparesAs.kind {t : Option Ty} {k : Kind} (h : ComparesAs t k) :
    k = .integer ∨ k = .long ∨ k = .double := by
  obtain ⟨rfl, -⟩ | ⟨rfl, -⟩ | rfl := h
  · exact .inl rfl
  · exact .inr (.inl rfl)
  · exact .inr (.inr rfl)

/-- The literal of a number of the source stays a numeral. -/
theorem number_primitive {o : Operand} {text code : String} {t : Ty} {k : Kind}
    (hfirst : Java.BeginsNumber text) (hread : Java.numberLiteral? text = some (code, t))
    (h : IsLiteral o code t) (hk : ComparesAs (some t) k) : Primitive k (toNumeric o k) := by
  obtain ⟨hsigned, htypes⟩ := Java.numberLiteral?_signed hfirst hread
  by_cases hsame : t = .scalar k
  · -- of its own kind it stays as it is
    subst hsame
    have hcode : toNumeric o k = code := by
      obtain rfl | rfl | rfl : k = .integer ∨ k = .long ∨ k = .double := by simpa using htypes
      · simp [toNumeric, h.type, h.code]
      · simp [toNumeric, h.type, h.code]
      · simp [toNumeric, h.type, h.code]
    rw [hcode]
    exact .inl hsigned.isNumeral
  · -- of a wider kind it is written anew
    obtain ⟨hwhole, hwide⟩ : t ≠ .double ∧ (k = .long ∨ k = .double) := by
      obtain ⟨rfl, ht⟩ | ⟨rfl, ht⟩ | rfl := hk
      · exact absurd (Option.some.inj ht) hsame
      · exact ⟨fun heq => ht (congrArg some heq), .inl rfl⟩
      · exact ⟨hsame, .inr rfl⟩
    obtain ⟨lit, hlit⟩ := Java.numericLiteral?_of_source hfirst hread hwhole hwide
    have hcode : toNumeric o k = lit := by
      obtain rfl | rfl | rfl := htypes
      · have hne : Kind.integer ≠ k := fun heq => hsame (heq ▸ rfl)
        simp [toNumeric, h.type, h.constant, h.code, hne, hlit]
      · have hne : Kind.long ≠ k := fun heq => hsame (heq ▸ rfl)
        simp [toNumeric, h.type, h.constant, h.code, hne, hlit]
      · exact absurd rfl hwhole
    rw [hcode]
    exact .inl (Java.numericLiteral?_signed hlit).isNumeral

/-- The literal of a text is converted by the runtime. -/
theorem text_not_primitive {o : Operand} {s : String} (h : IsLiteral o (Java.stringLiteral s) .string)
    {k : Kind} (hk : k ≠ .string) : ¬Primitive k (toNumeric o k) := by
  have hcode : toNumeric o k = helper (numericHelper k) o.code := by
    simp [toNumeric, h.type, hk.symm]
  have hhelper : helper (numericHelper k) o.code = String.ofList ['C'] ++
      ("asting." ++ numericHelper k ++ "(" ++ Text.join ", " [o.code] ++ ")") := by
    rw [helper, Java.call]
    apply String.toList_injective
    simp
  rw [hcode, hhelper]
  exact not_primitive (by decide) (by decide) k _

theorem ConstantOperand.isLiteral {o : Operand} (h : ConstantOperand o) :
    ∃ code t, IsLiteral o code t := by
  cases h with
  | number hfirst hread h => exact ⟨_, _, h⟩
  | text h => exact ⟨_, _, h⟩

/-- A constant converts to a kind of number in one way. -/
theorem convertNonNull_constant {o : Operand} (h : ConstantOperand o) {k : Kind}
    (hk : ComparesAs o.type k) (nullChecks : Bool) :
    convertNonNull nullChecks o (some (.scalar k)) = .ok (toNumeric o k) := by
  obtain ⟨code, t, h⟩ := h.isLiteral
  have hscalar : toScalar o k = .ok (toNumeric o k) := by
    obtain rfl | rfl | rfl := hk.kind
    · rfl
    · rfl
    · rfl
  exact (h.renders hscalar).2 nullChecks

/-- A constant is primitive in a comparison exactly when it is no text. -/
theorem ConstantOperand.primitive_iff {o : Operand} (h : ConstantOperand o) {k : Kind}
    (hk : ComparesAs o.type k) : Primitive k (toNumeric o k) ↔ ¬IsText o := by
  -- a constant numeral is primitive and no text, a constant text the other way round
  cases h with
  | number hfirst hread h =>
    rw [h.type] at hk
    refine iff_of_true (number_primitive hfirst hread h hk) ?_
    rintro ⟨-, htext⟩
    obtain ⟨-, rfl | rfl | rfl⟩ := Java.numberLiteral?_signed hfirst hread
    · cases h.type.symm.trans htext
    · cases h.type.symm.trans htext
    · cases h.type.symm.trans htext
  | text h =>
    have hne : k ≠ .string := by
      rintro rfl
      obtain hk | hk | hk := hk.kind <;> cases hk
    exact iff_of_false (text_not_primitive h hne) (not_not_intro ⟨h.constant, h.type⟩)

theorem ConstantOperand.scalarType {o : Operand} (h : ConstantOperand o) : o.scalarType = o.type := by
  have hscalar {code : String} {k : Kind} (h : IsLiteral o code (.scalar k)) :
      o.scalarType = o.type := by
    simp [Operand.scalarType, h.multi, Operand.isAggregate, h.type, Ty.isAggregate]
  cases h with
  | number hfirst hread h =>
    obtain ⟨-, rfl | rfl | rfl⟩ := Java.numberLiteral?_signed hfirst hread
    · exact hscalar h
    · exact hscalar h
    · exact hscalar h
  | text h => exact hscalar h

/-! ## Comparisons -/

variable {nullChecks : Bool} {op : String} {l r o : Operand}

/-- A constant that is converted for a comparison is primitive exactly when it is no text. -/
theorem constant_side {o : Operand} (h : ConstantOperand o) {k : Kind}
    (hk : ComparesAs o.scalarType k) {code : String}
    (hcode : convertNonNull nullChecks o (some (.scalar k)) = .ok code) :
    Primitive k code ↔ ¬IsText o := by
  rw [h.scalarType] at hk
  rw [convertNonNull_constant h hk] at hcode
  cases hcode
  exact h.primitive_iff hk

/-- Two numbers are compared for equality with a primitive side exactly if no text is a constant, or
the other side is primitive by itself. -/
theorem equality_compares_values_iff (hop : op = "==" ∨ op = "!=")
    (hl : l.constant = true → ConstantOperand l) (hr : r.constant = true → ConstantOperand r)
    (h : binaryOp nullChecks op l r = .ok o) :
    ∃ k lc rc ls rs, k = arithmeticKind l.scalarType r.scalarType ∧
      both nullChecks l r (.scalar k) = .ok (lc, rc) ∧
      o.code = Java.paren (ls ++ " " ++ op ++ " " ++ rs) ∧
      ls = (if l.constant || r.constant then lc else unbox lc k) ∧
      rs = (if l.constant || r.constant then rc else unbox rc k) ∧
      (Primitive k ls ∨ Primitive k rs ↔
        ¬(IsText l ∧ ¬Primitive k rc) ∧ ¬(IsText r ∧ ¬Primitive k lc)) := by
  have hcompare : compareNumbers nullChecks op l r = .ok o := by
    obtain rfl | rfl := hop
    · exact h
    · exact h
  obtain ⟨⟨lc, rc⟩, hboth, hcode⟩ := exists_of_bind_ok hcompare
  obtain ⟨lc', hlc, hrest⟩ := exists_of_bind_ok hboth
  obtain ⟨rc', hrc, hpair⟩ := exists_of_bind_ok hrest
  cases hpair
  obtain ⟨hkl, hkr⟩ := arithmeticKind_compares l.scalarType r.scalarType
  generalize arithmeticKind l.scalarType r.scalarType = k at *
  refine ⟨k, lc, rc, _, _, rfl, hboth, ?_, rfl, rfl, ?_⟩
  · have hequal : (op = "==" || op = "!=") = true := by simpa using hop
    have hboxed : (!l.constant && !r.constant) = !(l.constant || r.constant) := by
      rw [Bool.not_or]
    have ho : o.code = Java.paren ((if !(l.constant || r.constant) then unbox lc k else lc) ++ " " ++
        op ++ " " ++ (if !(l.constant || r.constant) then unbox rc k else rc)) := by
      rw [← Except.ok.inj hcode, ← hboxed]
      simp only [hequal, Bool.true_and]
      rfl
    rw [ho]
    cases l.constant || r.constant
    · rfl
    · rfl
  · -- the sides are cast if neither operand is a constant; an operand that is none is no text
    have hplain {x : Operand} (h : x.constant = false) : ¬IsText x := by
      rintro ⟨hconst, -⟩
      exact Bool.false_ne_true (h.symm.trans hconst)
    by_cases hlc' : l.constant = true
    · have hside := constant_side (hl hlc') hkl hlc
      simp only [hlc', Bool.true_or, if_true, hside, not_not]
      by_cases hrc' : r.constant = true
      · have hother := constant_side (hr hrc') hkr hrc
        simp only [hother, not_not, ← not_and_or, and_comm (a := IsText r), and_self]
      · have hother := hplain (Bool.eq_false_iff.mpr hrc')
        simp only [hother, false_and, not_false_iff, and_true, not_and_or, not_not]
    · have hside := hplain (Bool.eq_false_iff.mpr hlc')
      by_cases hrc' : r.constant = true
      · have hother := constant_side (hr hrc') hkr hrc
        simp only [hrc', Bool.or_true, if_true, hother, hside, false_and, not_false_iff, true_and,
          not_and_or, not_not, or_comm]
      · -- neither operand is a constant, and both are cast
        have hother := hplain (Bool.eq_false_iff.mpr hrc')
        simp only [hlc', hrc', Bool.false_or, Bool.false_eq_true, if_false, unbox_primitive, hside,
          hother, true_or, false_and, not_false_iff, true_and]

/-- A variable of a decimal type, which may hold a box. -/
def decimalVariable : Operand :=
  .plain "x" (some .double)

/-- Beside a number, the literal of which is written anew, nothing is cast. -/
theorem equalsNumber_compares_values :
    (∀ c ∈ "1".toList.head?, c.isDigit = true ∨ c = '.') ∧
    Java.numberLiteral? "1" = some ("1", .integer) ∧
    binaryOp false "==" decimalVariable ⟨"1", some .integer, true, true, false, false, false, false⟩ =
      .ok (.nonNull "(x == 1d)" (some .boolean)) ∧
    ∃ ls rs, "(x == 1d)" = Java.paren (ls ++ " " ++ "==" ++ " " ++ rs) ∧
      (Primitive .double ls ∨ Primitive .double rs) := by
  have hfirst : Java.BeginsNumber "1" := by
    rintro c ⟨⟩
    exact .inl rfl
  have hread : Java.numberLiteral? "1" = some ("1", .integer) := by decide +kernel
  have hcode : binaryOp false "==" decimalVariable
      ⟨"1", some .integer, true, true, false, false, false, false⟩ =
        .ok (.nonNull "(x == 1d)" (some .boolean)) :=
    congrArg Except.ok (by decide +kernel)
  -- not both sides are constant texts, so the comparison is by value
  obtain ⟨k, lc, rc, ls, rs, rfl, -, heq, -, -, hiff⟩ := equality_compares_values_iff (.inl rfl)
    (fun hconst => absurd hconst (by decide)) (fun _ => .number hfirst hread ⟨rfl, rfl, rfl, rfl, rfl⟩) hcode
  refine ⟨hfirst, hread, hcode, ls, rs, heq, hiff.mpr ⟨?_, ?_⟩⟩
  · rintro ⟨⟨hconst, -⟩, -⟩
    cases hconst
  · rintro ⟨⟨-, htype⟩, -⟩
    cases htype

/-- Beside a text nothing is cast either, though the runtime converts it to a box: two boxes are
compared. -/
theorem equalsText_compares_boxes :
    binaryOp false "==" decimalVariable
      ⟨Java.stringLiteral "1", some .string, true, true, false, false, false, false⟩ =
        .ok (.nonNull (Java.paren ("x" ++ " == " ++ "Casting.toDouble(\"1\")")) (some .boolean)) ∧
    ¬Primitive .double "x" ∧ ¬Primitive .double "Casting.toDouble(\"1\")" := by
  refine ⟨congrArg Except.ok (by decide +kernel), ?_, ?_⟩
  · exact not_primitive (c := 'x') (by decide) (by decide) .double ""
  · exact not_primitive (c := 'C') (by decide) (by decide) .double "asting.toDouble(\"1\")"

end TypedPerl.Compile
