import TypedPerl.Conversion
import TypedPerl.Proofs.Numeral.Characters
import TypedPerl.Proofs.Numeral.Whole
import TypedPerl.Proofs.Text.Trim

/-!
# Whole numerals as literals

A whole numeral of the source becomes a literal of the same characters, with a letter behind it when
it needs 64 bits. Reading the literal back gives the number that the numeral denotes
(`readConstant?_of_denotes`): the letter is taken off, and no digit is taken for the letter of a type.
So what a constant is folded to has the value of the numeral (`wholeNumeral_keeps_value`).
-/

namespace TypedPerl.Java

open Numeral (Denotes IsDigitOf Writes marks readInt?)

variable {cs : List Char} {n : Nat}

/-! ## Numbers of limited width -/

theorem fitsWord_natCast (bits n : Nat) :
    Numeral.fitsWord bits (n : Int) = true ↔ n < 2 ^ (bits - 1) := by
  have hlimit : Numeral.wordLimit bits = 2 ^ (bits - 1) := rfl
  simp only [Numeral.fitsWord, hlimit, Bool.and_eq_true, decide_eq_true_eq]
  omega

/-! ## The characters of a numeral -/

/-- A numeral has no sign, no blank and no underscore, and none of its letters is that of a long
integer. -/
theorem plain_of_denotes (h : Denotes cs n) :
    ∀ c ∈ cs, Text.isBlank c = false ∧ c ≠ '_' ∧ c ≠ '-' ∧ c ≠ '+' ∧ Text.lowerChar c ≠ 'l' := by
  refine h.forall_char (fun c d hd hc => ?_) (by decide)
  obtain rfl | rfl := hc
  · interval_cases d <;> decide
  · interval_cases d <;> decide

theorem IsDigitOf.isDigit_lower {c : Char} {d : Nat} (hd : d < 10) (h : IsDigitOf c d) :
    (Text.lowerChar c).isDigit = true := by
  obtain rfl | rfl := h
  · interval_cases d <;> rfl
  · interval_cases d <;> rfl

/-- Without the mark of a base other than eight there are no letters in a numeral but that mark. -/
theorem isDigit_of_unmarked (h : Denotes cs n) (hbase : hasBase (cs.map Text.lowerChar) = false) :
    ∀ c ∈ cs.map Text.lowerChar, c.isDigit = true ∨ c = 'o' := by
  have hwritten {base : Nat} (hten : base ≤ 10) {cs : List Char} (h : Writes base cs n) :
      ∀ c ∈ cs, (Text.lowerChar c).isDigit = true ∨ Text.lowerChar c = 'o' :=
    h.forall_char fun c d hd hc => .inl (IsDigitOf.isDigit_lower (hd.trans_le hten) hc)
  rw [List.forall_mem_map]
  cases h with
  | decimal _ h => exact hwritten (by decide) h
  | octal h => exact List.forall_mem_cons.mpr ⟨.inl rfl, hwritten (by decide) h⟩
  | @marked m c base cs n hm h =>
    -- of the marks only the one of octal numerals is not seen as a base
    obtain ⟨hletter, rfl⟩ : Text.lowerChar m = 'o' ∧ base = 8 := by
      simp only [marks, List.mem_cons, Prod.mk.injEq, List.not_mem_nil, or_false] at hm
      obtain ⟨rfl, rfl⟩ | ⟨rfl, rfl⟩ | ⟨rfl, rfl⟩ | ⟨rfl, rfl⟩ | ⟨rfl, rfl⟩ | ⟨rfl, rfl⟩ := hm
      · cases hbase
      · cases hbase
      · cases hbase
      · cases hbase
      · exact ⟨rfl, rfl⟩
      · exact ⟨rfl, rfl⟩
    exact List.forall_mem_cons.mpr ⟨.inl rfl,
      List.forall_mem_cons.mpr ⟨.inr hletter, hwritten (by decide) h⟩⟩

/-! ## Reading literals back -/

/-- Reading a numeral without a sign as a number of 64 bits. -/
theorem readInt?_eq_some_iff (hsign : ∀ c ∈ cs.head?, c ≠ '-' ∧ c ≠ '+') (v : Int) :
    readInt? (String.ofList cs) = some v ↔ ∃ n : Nat, v = n ∧ Denotes cs n ∧ n < 2 ^ 63 := by
  have hplain : Numeral.splitSign cs = (false, cs) := by
    unfold Numeral.splitSign
    split
    · exact absurd rfl (hsign _ rfl).1
    · exact absurd rfl (hsign _ rfl).2
    · rfl
  have hword (n : Nat) : Numeral.signedWord? 64 false n = some v ↔ v = n ∧ n < 2 ^ 63 := by
    rw [Numeral.signedWord?, Option.ite_none_right_eq_some, if_neg (by decide), fitsWord_natCast,
      Option.some_inj, and_comm, eq_comm]
  rw [readInt?, String.toList_ofList, hplain]
  simp only [Option.bind_eq_bind, Option.bind_eq_some_iff, hword, Numeral.readNat?_eq_some_iff]
  exact exists_congr fun n => and_left_comm

/-- A text in which there are no letters of decimal types has none at its end. -/
theorem dropDecimalSuffix_eq (h : ∀ c ∈ cs, c ≠ 'd' ∧ c ≠ 'f') : dropDecimalSuffix cs = cs := by
  rcases List.eq_nil_or_concat cs with rfl | ⟨ds, c, rfl⟩
  · rfl
  · obtain ⟨hd, hf⟩ := h c (by simp)
    simp [dropDecimalSuffix, hd, hf]

/-- The letter of a long integer in lower case, or nothing. -/
def LongLetter (cs : List Char) : Prop :=
  cs = [] ∨ cs = ['l']

/-- The letter is no mark of a base. -/
theorem LongLetter.hasBase_append {letter : List Char} (h : LongLetter letter) (cs : List Char) :
    hasBase (cs ++ letter) = hasBase cs := by
  obtain rfl | rfl := h
  · rw [List.append_nil]
  · rcases cs with _ | ⟨c, _ | ⟨d, cs⟩⟩
    · rfl
    · by_cases hc : c = '0'
      · subst hc
        rfl
      · simp [hasBase, hc]
    · by_cases hc : c = '0'
      · subst hc
        rfl
      · simp [hasBase, hc]

/-- The letter is taken off. -/
theorem LongLetter.dropLast_append {letter : List Char} (h : LongLetter letter)
    (hcs : ∀ c ∈ cs, c ≠ 'l') :
    (if (cs ++ letter).getLast? = some 'l' then (cs ++ letter).dropLast else cs ++ letter) = cs := by
  obtain rfl | rfl := h
  · rw [List.append_nil, if_neg fun hlast => hcs _ (List.mem_of_getLast? hlast) rfl]
  · rw [List.getLast?_concat, if_pos rfl, List.dropLast_concat]

/-- In lower case no digit of a numeral is taken for the letter of a decimal type. -/
theorem dropDecimalSuffix_numeral (h : Denotes cs n) :
    (if hasBase (cs.map Text.lowerChar) then cs.map Text.lowerChar
      else dropDecimalSuffix (cs.map Text.lowerChar)) = cs.map Text.lowerChar := by
  split
  · rfl
  · next hbase =>
    refine dropDecimalSuffix_eq fun c hc => ?_
    obtain hdigit | rfl := isDigit_of_unmarked h (Bool.eq_false_iff.mpr hbase) c hc
    · constructor <;> rintro rfl <;> cases hdigit
    · decide

/-- In lower case a numeral is not taken for a decimal. -/
theorem whole_of_denotes (h : Denotes cs n) : (hasBase (cs.map Text.lowerChar) ||
    !(cs.map Text.lowerChar).any fun c => c = '.' || c = 'e') = true := by
  cases hbase : hasBase (cs.map Text.lowerChar) with
  | true => rfl
  | false =>
    rw [Bool.false_or, Bool.not_eq_true', List.any_eq_false]
    intro c hc
    obtain hdigit | rfl := isDigit_of_unmarked h hbase c hc
    · have hpoint : c ≠ '.' ∧ c ≠ 'e' := by constructor <;> rintro rfl <;> cases hdigit
      simp [hpoint]
    · decide

/-- Nothing in front of a text, behind it or in it is dropped when none of it is a blank or an
underscore. -/
theorem dropUnderscores_trim {s : String}
    (h : ∀ c ∈ s.toList, Text.isBlank c = false ∧ c ≠ '_') :
    (dropUnderscores (Text.trim s)).toList = s.toList := by
  rw [dropUnderscores, Text.trim, String.toList_ofList, String.toList_ofList,
    Text.trimBlanks_of_no_blank fun c hc => (h c hc).1,
    List.filter_eq_self.mpr fun c hc => by simpa using (h c hc).2]

/-- A numeral, with the letter of a long integer or without it, is read as the number that it
denotes. -/
theorem readConstant?_of_denotes {s suffix : String} (h : Denotes s.toList n) (hn : n < 2 ^ 63)
    (hsuffix : suffix = "" ∨ suffix = "L") :
    readConstant? (s ++ suffix) = some (.whole n) := by
  have hplain := plain_of_denotes h
  have hall : ∀ c ∈ s.toList ++ suffix.toList, Text.isBlank c = false ∧ c ≠ '_' ∧ c ≠ '-' := by
    refine List.forall_mem_append.mpr ⟨fun c hc => ?_, ?_⟩
    · obtain ⟨hblank, hunder, hminus, -⟩ := hplain c hc
      exact ⟨hblank, hunder, hminus⟩
    · obtain rfl | rfl := hsuffix
      · exact List.forall_mem_nil _
      · exact List.forall_mem_singleton.mpr (by decide)
  have hcs : (dropUnderscores (Text.trim (s ++ suffix))).toList = s.toList ++ suffix.toList := by
    rw [dropUnderscores_trim fun c hc => ?_, String.toList_append]
    rw [String.toList_append] at hc
    exact ⟨(hall c hc).1, (hall c hc).2.1⟩
  -- a numeral has no sign, so the reader takes it as it stands
  have hsign (rest : List Char) : s.toList ++ suffix.toList ≠ '-' :: rest := fun heq =>
    (hall '-' (by rw [heq]; exact List.mem_cons_self)).2.2 rfl
  have hletter : LongLetter (suffix.toList.map Text.lowerChar) := by
    obtain rfl | rfl := hsuffix
    · exact .inl rfl
    · exact .inr (by decide)
  have hlower : ∀ c ∈ s.toList.map Text.lowerChar, c ≠ 'l' :=
    List.forall_mem_map.mpr fun c hc => (hplain c hc).2.2.2.2
  -- the digits are read in lower case, in which they denote the same number
  have hread : readInt? (String.ofList (s.toList.map Text.lowerChar)) = some (n : Int) := by
    refine (readInt?_eq_some_iff (fun c hc => ?_) n).mpr ⟨n, rfl, h.lower, hn⟩
    obtain ⟨-, -, hminus, hplus, -⟩ := plain_of_denotes h.lower c (List.mem_of_mem_head? hc)
    exact ⟨hminus, hplus⟩
  have hnonempty : (s.toList.map Text.lowerChar).isEmpty = false := by
    rw [List.isEmpty_map]
    generalize s.toList = cs at h
    cases h <;> rfl
  simp only [readConstant?, hcs, List.map_append, hletter.hasBase_append,
    hletter.dropLast_append hlower, dropDecimalSuffix_numeral h, hnonempty, whole_of_denotes h, hread]
  rfl

/-! ## Numerals of the source -/

theorem dropUnderscores_toList (s : String) :
    (dropUnderscores s).toList = s.toList.filter (· ≠ '_') :=
  String.toList_ofList

/-- The literal of a whole numeral has its characters, with a letter behind them when 32 bits do not
hold the number. -/
theorem numberLiteral?_whole {text code : String} {t : Ty}
    (hdigit : ∀ c ∈ text.toList.head?, c.isDigit = true) (h : numberLiteral? text = some (code, t))
    (ht : t = .integer ∨ t = .long) :
    ∃ n, Denotes (dropUnderscores text).toList n ∧ n < 2 ^ 63 ∧
      (t = .integer ∧ n < 2 ^ 31 ∧ code = dropUnderscores text ∨
        t = .long ∧ ¬n < 2 ^ 31 ∧ code = dropUnderscores text ++ "L") := by
  -- underscores aside, the text still begins with its digit
  have hsign : ∀ c ∈ (dropUnderscores text).toList.head?, c ≠ '-' ∧ c ≠ '+' := by
    intro c hc
    cases hcs : text.toList with
    | nil => simp [dropUnderscores_toList, hcs] at hc
    | cons d ds =>
      have hd : d.isDigit = true := hdigit d (by rw [hcs]; rfl)
      have hunder : d ≠ '_' := by rintro rfl; cases hd
      obtain rfl : d = c := by simpa [dropUnderscores_toList, hcs, hunder] using hc
      constructor <;> rintro rfl <;> cases hd
  have hdouble : t ≠ .double := by obtain rfl | rfl := ht <;> decide
  -- a literal of a whole type is not read as a decimal number
  unfold numberLiteral? at h
  dsimp only at h
  split at h
  · obtain ⟨x, -, hx⟩ := Option.map_eq_some_iff.mp h
    cases hx
    exact absurd rfl hdouble
  · split at h
    · next v hv =>
      obtain ⟨n, rfl, hn, hlt⟩ := (readInt?_eq_some_iff hsign v).mp (by
        rwa [String.ofList_toList])
      refine ⟨n, hn, hlt, ?_⟩
      split at h
      · next hfits =>
        cases h
        exact .inl ⟨rfl, (fitsWord_natCast 32 n).mp hfits, rfl⟩
      · next hfits =>
        cases h
        exact .inr ⟨rfl, fun hlt => hfits ((fitsWord_natCast 32 n).mpr hlt), rfl⟩
    · split at h
      · split at h
        · cases h
        · cases h
          exact absurd rfl hdouble
      · cases h

/-- A number that 32 bits do not hold is written as no integer. -/
theorem numericLiteral?_of_wide {code : String} {i : Int} (h : readConstant? code = some (.whole i))
    (hwide : Numeral.fitsWord 32 i = false) : numericLiteral? code .integer = none := by
  simp [numericLiteral?, h, Constant.toWhole?, hwide]

end TypedPerl.Java

/-! ## Folding -/

namespace TypedPerl.Conversion

open Numeral (Denotes)

/-- The operand is a literal of a type. -/
structure IsLiteral (o : Operand) (code : String) (t : Ty) : Prop where
  code : o.code = code
  type : o.type = some t
  constant : o.constant = true
  undef : o.undef = false
  multi : o.multi = false

/-- The operand becomes the code where a value of the type is wanted, whether null is taken there or
not. -/
def Renders (o : Operand) (dest : Ty) (code : String) : Prop :=
  convert o (some dest) = .ok code ∧ ∀ checks, convertNonNull checks o (some dest) = .ok code

theorem IsLiteral.renders {o : Operand} {code : String} {t : Ty} (h : IsLiteral o code t) {k : Kind}
    {out : String} (hout : toScalar o k = .ok out) : Renders o (.scalar k) out := by
  have hconvert : convert o (some (.scalar k)) = .ok out := by
    simp only [convert, h.multi, Bool.false_and, Bool.false_eq_true, if_false, h.undef, convertTo]
    exact hout
  refine ⟨hconvert, fun checks => ?_⟩
  simp [convertNonNull, h.undef, hconvert, h.constant, pure, Except.pure, bind, Except.bind]

/-- What a literal with the value of a natural number becomes where other types are wanted. -/
structure Folds (o : Operand) (t : Ty) (n : Nat) : Prop where
  boolean : Renders o .boolean (if n = 0 then "false" else "true")
  text : Renders o .string ("\"" ++ toString n ++ "\"")
  long : t = .integer → Renders o .long (toString n ++ "L")
  /-- The runtime converts a long integer to an integer. -/
  integer : t = .long → Java.numericLiteral? o.code .integer = none ∧
    Renders o .integer (helper "toInteger" o.code)

theorem IsLiteral.folds {o : Operand} {code : String} {t : Ty} {n : Nat} (h : IsLiteral o code t)
    (hread : Java.readConstant? code = some (.whole n)) (ht : t = .integer ∨ t = .long)
    (hlong : t = .long → ¬n < 2 ^ 31) : Folds o t n := by
  have hcode : Java.readConstant? o.code = some (.whole n) := h.code ▸ hread
  -- a long literal is too wide to be folded to an integer
  have hnone (hlong' : t = .long) : Java.numericLiteral? o.code .integer = none := by
    refine Java.numericLiteral?_of_wide hcode ?_
    rw [Bool.eq_false_iff, Ne, Java.fitsWord_natCast]
    exact hlong hlong'
  have hdecimal : toString (n : Int) = toString n := rfl
  constructor
  · refine h.renders (congrArg Except.ok ?_)
    obtain rfl | rfl := ht <;>
      simp [toBoolean, h.type, h.constant, hcode, Java.Constant.isZero]
  · refine h.renders (congrArg Except.ok ?_)
    rw [← Numeral.quote_numeral (Numeral.isNumeralChar_nat n)]
    obtain rfl | rfl := ht <;>
      simp only [toText, h.type, h.constant, hcode, if_true, hdecimal]
  · rintro rfl
    refine h.renders (congrArg Except.ok ?_)
    simp [toNumeric, h.type, h.constant, hcode, Java.numericLiteral?, Java.Constant.toWhole?,
      Java.kindSuffix, -Nat.toString_eq_repr, -Int.toString_eq_repr, hdecimal]
  · intro hlong'
    refine ⟨hnone hlong', h.renders (congrArg Except.ok ?_)⟩
    have hnone := hnone hlong'
    subst hlong'
    simp [toNumeric, h.type, h.constant, hnone, numericHelper]

/-- Whole numerals keep their value through typing and folding: the narrowest type is chosen, the
literal is read back as the number that the numeral denotes, and constants of other types are
folded from that number. -/
theorem wholeNumeral_keeps_value {text code : String} {t : Ty}
    (hdigit : ∀ c ∈ text.toList.head?, c.isDigit = true)
    (h : Java.numberLiteral? text = some (code, t)) (ht : t = .integer ∨ t = .long) :
    ∃ n, Denotes (text.toList.filter (· ≠ '_')) n ∧
      (∀ n', Denotes (text.toList.filter (· ≠ '_')) n' → n' = n) ∧
      (t = .integer ↔ n < 2 ^ 31) ∧
      Java.readConstant? code = some (.whole n) ∧
      ∀ o, IsLiteral o code t → Folds o t n := by
  obtain ⟨n, hn, hlt, hcode⟩ := Java.numberLiteral?_whole hdigit h ht
  have htype : t = .integer ↔ n < 2 ^ 31 := by
    obtain ⟨rfl, hsmall, -⟩ | ⟨rfl, hlarge, -⟩ := hcode
    · exact iff_of_true rfl hsmall
    · exact iff_of_false (by decide) hlarge
  -- the suffix is dropped when the code is read
  have hread : Java.readConstant? code = some (.whole n) := by
    obtain ⟨-, -, rfl⟩ | ⟨-, -, rfl⟩ := hcode
    · rw [← String.append_empty (s := Java.dropUnderscores text)]
      exact Java.readConstant?_of_denotes hn hlt (.inl rfl)
    · exact Java.readConstant?_of_denotes hn hlt (.inr rfl)
  rw [Java.dropUnderscores_toList] at hn
  refine ⟨n, hn, fun n' hn' => hn'.unique hn, htype, hread, fun o ho => ho.folds hread ht ?_⟩
  rintro rfl hsmall
  cases htype.mpr hsmall

/-- A hexadecimal numeral of 32 bits whose digits are also letters of types. -/
theorem hexNumeral_keeps_value :
    (∀ c ∈ "0xDEAD_BEEF".toList.head?, c.isDigit = true) ∧
      Java.numberLiteral? "0xDEAD_BEEF" = some ("0xDEADBEEFL", .long) ∧
      Denotes "0xDEADBEEF".toList 3735928559 ∧
      Java.readConstant? "0xDEADBEEFL" = some (.whole 3735928559) ∧
      Folds ⟨"0xDEADBEEFL", some .long, true, true, false, false, false, false⟩ .long 3735928559 := by
  have hfirst : "0xDEAD_BEEF".toList.head? = some '0' := by decide
  have hdigit : ∀ c ∈ "0xDEAD_BEEF".toList.head?, c.isDigit = true := by
    rw [hfirst]
    rintro c ⟨⟩
    rfl
  have hliteral : Java.numberLiteral? "0xDEAD_BEEF" = some ("0xDEADBEEFL", .long) := by
    decide +kernel
  have hdenotes : Denotes "0xDEADBEEF".toList 3735928559 :=
    (Numeral.readNat?_eq_some_iff _ _).mp (by decide +kernel)
  -- the value is the one that the digits denote, which is computed only once
  obtain ⟨n, -, hunique, -, hread, hfolds⟩ := wholeNumeral_keeps_value hdigit hliteral (.inr rfl)
  obtain rfl : 3735928559 = n := hunique _ hdenotes
  exact ⟨hdigit, hliteral, hdenotes, hread, hfolds _ ⟨rfl, rfl, rfl, rfl, rfl⟩⟩

end TypedPerl.Conversion
