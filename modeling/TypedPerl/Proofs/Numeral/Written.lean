import Mathlib.Data.List.TakeWhile
import TypedPerl.Proofs.Numeral.Literals
import TypedPerl.Proofs.Numeral.Truncation

/-!
# Numbers are written as numerals

The code of a number begins with a digit or a point, behind a sign or not, and goes on with letters,
digits, points and the signs of exponents (`isNumeral`): no call, no variable and no other expression
does. The shortest decimal of a number has a digit (`shortest_digits_ne_zero`), so that whatever is
laid out is a numeral (`general_isNumeral`), and so is what a constant is rewritten to
(`numericLiteral?_isNumeral`) and what a number of the source is read as (`numberLiteral?_isNumeral`).
-/

namespace TypedPerl

/-! ## Numerals -/

namespace Java

/-- The characters behind another one may follow it in a numeral: a sign stands only behind the
letter of an exponent. -/
def numeralTail : Char → List Char → Bool
  | _, [] => true
  | before, c :: cs =>
    (c.isAlphanum || c = '.' || ((c = '+' || c = '-') && (before = 'e' || before = 'E'))) &&
      numeralTail c cs

/-- The characters are those of a numeral without a sign. -/
def numeralChars : List Char → Bool
  | [] => false
  | c :: cs => (c.isDigit || c = '.') && numeralTail c cs

/-- The code is a numeral, with a sign or without one. -/
def isNumeral (code : String) : Bool :=
  match code.toList with
  | '-' :: cs => numeralChars cs
  | cs => numeralChars cs

variable {cs ds : List Char}

theorem numeralTail_of_plain (h : ∀ c ∈ cs, c.isAlphanum = true ∨ c = '.') (before : Char) :
    numeralTail before cs = true := by
  induction cs generalizing before with
  | nil => rfl
  | cons c cs ih =>
    obtain ⟨hc, hcs⟩ := List.forall_mem_cons.mp h
    have hfirst : (c.isAlphanum || c = '.') = true := by simpa using hc
    simp [numeralTail, hfirst, ih hcs]

theorem numeralTail_append {before : Char} (hcs : numeralTail before cs = true)
    (hds : ∀ before, numeralTail before ds = true) : numeralTail before (cs ++ ds) = true := by
  induction cs generalizing before with
  | nil => exact hds before
  | cons c cs ih =>
    rw [numeralTail, Bool.and_eq_true] at hcs
    rw [List.cons_append, numeralTail, hcs.1, ih hcs.2]
    rfl

/-- A numeral goes on with letters and digits. -/
theorem numeralChars_append (hcs : numeralChars cs = true) (hds : ∀ c ∈ ds, c.isAlphanum = true) :
    numeralChars (cs ++ ds) = true := by
  cases cs with
  | nil => cases hcs
  | cons c cs =>
    rw [numeralChars, Bool.and_eq_true] at hcs
    rw [List.cons_append, numeralChars, hcs.1]
    exact numeralTail_append hcs.2 (numeralTail_of_plain fun d hd => .inl (hds d hd))

theorem isAlphanum_of_isDigit {c : Char} (h : c.isDigit = true) : c.isAlphanum = true := by
  rw [Char.isAlphanum, h, Bool.or_true]

/-- Some digits are a numeral. -/
theorem numeralChars_of_digits (hne : cs ≠ []) (h : ∀ c ∈ cs, c.isDigit = true) :
    numeralChars cs = true := by
  cases cs with
  | nil => exact absurd rfl hne
  | cons c cs =>
    obtain ⟨hc, hcs⟩ := List.forall_mem_cons.mp h
    rw [numeralChars, hc]
    exact numeralTail_of_plain (fun d hd => .inl (isAlphanum_of_isDigit (hcs d hd))) c

/-- The code is a numeral without a sign, or one behind a minus. -/
def Signed (code : String) : Prop :=
  ∃ sign cs, (sign = "" ∨ sign = "-") ∧ code = sign ++ String.ofList cs ∧ numeralChars cs = true

theorem Signed.isNumeral {code : String} (h : Signed code) : isNumeral code = true := by
  obtain ⟨sign, cs, rfl | rfl, rfl, hcs⟩ := h
  · have hchars : ("" ++ String.ofList cs).toList = cs := by simp
    rw [Java.isNumeral, hchars]
    split
    · cases hcs
    · exact hcs
  · have hchars : ("-" ++ String.ofList cs).toList = '-' :: cs := by simp
    rw [Java.isNumeral, hchars]
    exact hcs

/-- The letter of a type belongs to the numeral. -/
theorem Signed.append {code : String} (h : Signed code) (k : Kind) :
    Signed (code ++ kindSuffix k) := by
  obtain ⟨sign, cs, hsign, rfl, hcs⟩ := h
  have hletter : (kindSuffix k).toList.all Char.isAlphanum = true := by
    cases k <;> decide
  refine ⟨sign, cs ++ (kindSuffix k).toList, hsign, ?_,
    numeralChars_append hcs (List.all_eq_true.mp hletter)⟩
  rw [String.ofList_append, String.ofList_toList, String.append_assoc]

/-- A numeral consists of characters of numerals. -/
theorem Signed.chars {code : String} (h : Signed code) :
    ∀ c ∈ code.toList, Numeral.isNumeralChar c = true := by
  -- a sign within a numeral stands behind an exponent, so each character is one of a numeral
  have htail : ∀ (before : Char) (cs : List Char), numeralTail before cs = true →
      ∀ c ∈ cs, Numeral.isNumeralChar c = true := by
    intro before cs
    induction cs generalizing before with
    | nil => exact fun _ => List.forall_mem_nil _
    | cons c cs ih =>
      intro h
      rw [numeralTail, Bool.and_eq_true] at h
      refine List.forall_mem_cons.mpr ⟨?_, ih c h.2⟩
      have hfirst := h.1
      simp only [Bool.or_eq_true, Bool.and_eq_true, decide_eq_true_eq] at hfirst
      simp only [Numeral.isNumeralChar, Bool.or_eq_true, decide_eq_true_eq]
      tauto
  obtain ⟨sign, cs, hsign, rfl, hcs⟩ := h
  rw [String.toList_append, String.toList_ofList, List.forall_mem_append]
  constructor
  · rcases hsign with rfl | rfl <;> exact List.all_eq_true.mp rfl
  · cases cs with
    | nil => cases hcs
    | cons c cs =>
      rw [numeralChars, Bool.and_eq_true] at hcs
      refine List.forall_mem_cons.mpr ⟨?_, htail c cs hcs.2⟩
      rcases (Bool.or_eq_true _ _).mp hcs.1 with hdigit | hpoint
      · exact Numeral.isNumeralChar_of_isDigit hdigit
      · rw [decide_eq_true_eq] at hpoint
        rw [hpoint]
        rfl

/-- Neither letter nor parenthesis begins a numeral. -/
theorem not_isNumeral {c : Char} (hc : (c.isDigit || c = '.' || c = '-') = false) (rest : String) :
    isNumeral (String.ofList [c] ++ rest) = false := by
  simp only [Bool.or_eq_false_iff] at hc
  obtain ⟨⟨hdigit, hpoint⟩, hminus⟩ := hc
  have hchars : (String.ofList [c] ++ rest).toList = c :: rest.toList := by simp
  rw [isNumeral, hchars]
  split
  · next heq =>
    cases heq
    cases hminus
  · simp [numeralChars, hdigit, hpoint]

end Java

/-! ## Shortest decimals -/

namespace Numeral

open Java (numeralChars numeralTail isNumeral numeralTail_of_plain numeralTail_append
  isAlphanum_of_isDigit)

theorem lt_pow_length_digitsOf (n : ℕ) : n < 10 ^ (digitsOf n).length := by
  by_cases hn : n = 0
  · simp [hn]
  · rw [digitsOf, if_neg hn]
    exact (Nat.length_toDigits_le_iff (by decide) Nat.length_toDigits_pos).mp le_rfl

/-- Beyond the place of the point by eighteen digits there is a whole part. -/
theorem le_mul_of_pointOf {n d : ℕ} (hn : 0 < n) :
    d ≤ n * 10 ^ (18 - pointOf n d).toNat := by
  unfold pointOf
  split
  · next hle => exact hle.trans (Nat.le_mul_of_pos_right n (by positivity))
  · -- the quotient turned around has as many digits as the point lies behind it
    have hlt : d < n * 10 ^ (digitsOf (d / n)).length := by
      have hquot := lt_pow_length_digitsOf (d / n)
      rw [Nat.div_lt_iff_lt_mul hn] at hquot
      rwa [Nat.mul_comm]
    extract_lets k
    refine hlt.le.trans (Nat.mul_le_mul_left n (Nat.pow_le_pow_right (by decide) ?_))
    change k ≤ _
    split <;> omega

theorem atDigits?_ne_zero {iv : Interval} {point : ℤ} {n c : ℕ} (hlow : 0 < iv.low)
    (h : atDigits? iv point n = some c) : c ≠ 0 := by
  unfold atDigits? at h
  split at h
  next s unit hscale =>
  have hs : 0 < s := by
    split at hscale
    · cases hscale
      exact Nat.one_pos
    · cases hscale
      exact Nat.pow_pos (by decide)
  have hpos : 0 < iv.low * s := Nat.mul_pos hlow hs
  extract_lets inside q below above at h
  -- what is tried has to lie in the interval, which begins above zero
  have hinside : ∀ c, inside c = true → c ≠ 0 := by
    rintro c hc rfl
    unfold inside at hc
    split at hc
    · simp only [Nat.zero_mul, Bool.and_eq_true, decide_eq_true_eq] at hc
      omega
    · simp only [Nat.zero_mul, Bool.and_eq_true, decide_eq_true_eq] at hc
      omega
  split at h
  · next hq _ =>
    have hne := hinside q hq
    split at h
    · rw [← Option.some.inj h]
      exact hne
    · split at h
      · cases h
        exact Nat.succ_ne_zero _
      · cases h
        split
        · exact hne
        · exact Nat.succ_ne_zero _
  · next hq _ =>
    rw [← Option.some.inj h]
    exact hinside q hq
  · cases h
    exact Nat.succ_ne_zero _
  · cases h

theorem searchDigits_ne_zero {iv : Interval} {point : ℤ} (hlow : 0 < iv.low) (hden : 0 < iv.den)
    (fuel : ℕ) : ∀ n : ℕ, iv.den ≤ iv.mid * 10 ^ (((n + fuel : ℕ) : ℤ) - point).toNat →
      (searchDigits iv point fuel n).digits ≠ 0 := by
  induction fuel with
  | zero =>
    intro n hle
    -- with the greatest number of digits the middle itself is cut off, but not to zero
    exact Nat.ne_of_gt (Nat.div_pos hle hden)
  | succ fuel ih =>
    intro n hle
    rw [searchDigits]
    split
    · next c hc =>
      split
      · exact Nat.one_ne_zero
      · exact atDigits?_ne_zero hlow hc
    · refine ih (n + 1) ?_
      rwa [show n + 1 + fuel = n + (fuel + 1) by omega]

/-- The shortest decimal of a number that is not zero has a digit. -/
theorem shortest_digits_ne_zero (f : Format) {m : ℕ} (hm : m ≠ 0) (e : ℤ) :
    (shortest f m e).digits ≠ 0 := by
  -- the interval that rounds to the number does not begin at zero
  have hiv : 0 < (intervalOf f m e).low ∧ 0 < (intervalOf f m e).mid ∧
      0 < (intervalOf f m e).den := by
    unfold intervalOf
    extract_lets low
    have hlow : 0 < low := by
      unfold low
      split <;> omega
    split
    next k den hscale =>
    have hscale : 0 < k ∧ 0 < den := by
      split at hscale
      · cases hscale
        exact ⟨Nat.pow_pos (by decide), Nat.one_pos⟩
      · cases hscale
        exact ⟨Nat.one_pos, Nat.pow_pos (by decide)⟩
    exact ⟨Nat.mul_pos hlow hscale.1, Nat.mul_pos (by omega) hscale.1, hscale.2⟩
  obtain ⟨hlow, hmid, hden⟩ := hiv
  exact searchDigits_ne_zero hlow hden 17 1 (le_mul_of_pointOf hmid)

/-! ## Layout -/

theorem mem_digitsOf {n : ℕ} : ∀ c ∈ digitsOf n, c.isDigit = true := by
  intro c hc
  unfold digitsOf at hc
  split at hc
  · cases hc
  · exact Nat.isDigit_of_mem_toDigits (by decide) (by decide) hc

/-- Digits of which none but zeros are left denote zero. -/
theorem ofDigitChars_zeros {ds : List Char} (h : ∀ c ∈ ds, c = '0') :
    Nat.ofDigitChars 10 ds 0 = 0 := by
  induction ds with
  | nil => rfl
  | cons c ds ih =>
    obtain ⟨rfl, hds⟩ := List.forall_mem_cons.mp h
    exact ih hds

theorem dropZeros_ne_nil {n : ℕ} (hn : n ≠ 0) : dropZeros (digitsOf n) ≠ [] := by
  intro hnil
  have hzeros : ∀ c ∈ digitsOf n, c = '0' := by
    rw [dropZeros, List.reverse_eq_nil_iff, List.dropWhile_eq_nil_iff] at hnil
    simpa using hnil
  have hvalue := Nat.ofDigitChars_toDigits (b := 10) (n := n) (by decide) (by decide)
  rw [digitsOf, if_neg hn] at hzeros
  exact hn (hvalue.symm.trans (ofDigitChars_zeros hzeros))

theorem mem_dropZeros {n : ℕ} : ∀ c ∈ dropZeros (digitsOf n), c.isDigit = true := by
  intro c hc
  rw [dropZeros, List.mem_reverse] at hc
  have hmem := (List.dropWhile_sublist _).subset hc
  exact mem_digitsOf c (List.mem_reverse.mp hmem)

theorem numeralTail_exponent (e : ℤ) (before : Char) :
    numeralTail before ('e' :: (exponentText e).toList) = true := by
  have hdigits : ∀ c ∈ (toString e.natAbs).toList, c.isDigit = true := by
    intro c hc
    refine Nat.isDigit_of_mem_toDigits (b := 10) (n := e.natAbs) (by decide) (by decide) ?_
    simpa using hc
  have hrest : ∀ c ∈ (if (toString e.natAbs).length < 2 then "0" ++ toString e.natAbs
      else toString e.natAbs).toList, c.isAlphanum = true ∨ c = '.' := by
    intro c hc
    refine .inl (isAlphanum_of_isDigit ?_)
    split at hc
    · rw [String.toList_append] at hc
      rcases List.mem_append.mp hc with hc | hc
      · rw [List.mem_singleton.mp hc]
        rfl
      · exact hdigits c hc
    · exact hdigits c hc
  -- a sign belongs to the numeral since the letter of the exponent stands before it
  have hminus : "-".toList = ['-'] := by decide
  have hplus : "+".toList = ['+'] := by decide
  rw [exponentText, String.toList_append]
  split
  · rw [hminus]
    simpa [numeralTail] using numeralTail_of_plain hrest '-'
  · rw [hplus]
    simpa [numeralTail] using numeralTail_of_plain hrest '+'

theorem numeralChars_scientific {ds : List Char} (hne : ds ≠ []) (h : ∀ c ∈ ds, c.isDigit = true)
    (e : ℤ) : ∃ cs, scientific ds e = String.ofList cs ∧ numeralChars cs = true := by
  obtain ⟨d, ds, rfl⟩ := List.exists_cons_of_ne_nil hne
  obtain ⟨hd, hds⟩ := List.forall_mem_cons.mp h
  -- a single digit is written without a point
  have hfraction : ∀ c ∈ (if ds = [] then [] else '.' :: ds), c.isAlphanum = true ∨ c = '.' := by
    split
    · exact List.forall_mem_nil _
    · exact List.forall_mem_cons.mpr ⟨.inr rfl, fun c hc => .inl (isAlphanum_of_isDigit (hds c hc))⟩
  refine ⟨d :: ((if ds = [] then [] else '.' :: ds) ++ 'e' :: (exponentText e).toList), ?_, ?_⟩
  · apply String.toList_injective
    unfold scientific
    by_cases hnil : ds = []
    · simp [hnil]
    · simp [hnil]
  · rw [numeralChars, hd]
    exact numeralTail_append (numeralTail_of_plain hfraction d) (numeralTail_exponent e)

theorem numeralChars_positional {ds : List Char} (hne : ds ≠ []) (h : ∀ c ∈ ds, c.isDigit = true)
    (point : ℤ) : ∃ cs, positional ds point = String.ofList cs ∧ numeralChars cs = true := by
  have hplain : ∀ c ∈ ds, c.isAlphanum = true ∨ c = '.' :=
    fun c hc => .inl (isAlphanum_of_isDigit (h c hc))
  have hzeros (n : ℕ) : ∀ c ∈ List.replicate n '0', c.isDigit = true := by
    intro c hc
    rw [List.eq_of_mem_replicate hc]
    rfl
  unfold positional
  split
  · refine ⟨_, rfl, numeralTail_of_plain ?_ '0'⟩
    refine List.forall_mem_cons.mpr ⟨.inr rfl, List.forall_mem_append.mpr ⟨fun c hc => ?_, hplain⟩⟩
    exact .inl (isAlphanum_of_isDigit (hzeros _ c hc))
  · extract_lets p
    split
    · refine ⟨_, rfl, Java.numeralChars_of_digits (List.append_ne_nil_of_left_ne_nil hne _) ?_⟩
      exact List.forall_mem_append.mpr ⟨h, hzeros _⟩
    · -- a digit stands before the point
      obtain ⟨d, ds, rfl⟩ := List.exists_cons_of_ne_nil hne
      obtain ⟨q, hq⟩ := Nat.exists_eq_add_one_of_ne_zero (show p ≠ 0 by omega)
      refine ⟨_, rfl, ?_⟩
      rw [hq, List.take_succ_cons, List.drop_succ_cons, List.cons_append, numeralChars,
        h d List.mem_cons_self]
      refine numeralTail_of_plain (List.forall_mem_append.mpr ⟨fun c hc => ?_, ?_⟩) d
      · exact hplain c (List.mem_cons_of_mem _ (List.mem_of_mem_take hc))
      · refine List.forall_mem_cons.mpr ⟨.inr rfl, fun c hc => ?_⟩
        exact hplain c (List.mem_cons_of_mem _ (List.mem_of_mem_drop hc))

/-- A finite number is laid out as a numeral. -/
theorem signed_general (f : Format) (neg : Bool) (m : ℕ) (e : ℤ) :
    Java.Signed (general f (.finite neg m e)) := by
  have hsign : (if neg then "-" else "") = "" ∨ (if neg then "-" else "") = "-" := by
    cases neg
    · exact .inl rfl
    · exact .inr rfl
  rw [general]
  extract_lets d ds lead
  by_cases hm : m = 0
  · rw [if_pos hm]
    exact ⟨_, ['0'], hsign, rfl, rfl⟩
  · have hne : ds ≠ [] := dropZeros_ne_nil (shortest_digits_ne_zero f hm e)
    have hdigit : ∀ c ∈ ds, c.isDigit = true := mem_dropZeros
    -- how the number is laid out depends on the place of its first digit
    have hbody : ∃ cs, (if lead < -4 || 6 ≤ lead then scientific ds lead
        else positional ds d.point) = String.ofList cs ∧ numeralChars cs = true := by
      split
      · exact numeralChars_scientific hne hdigit lead
      · exact numeralChars_positional hne hdigit d.point
    obtain ⟨cs, hcs, hnumeral⟩ := hbody
    rw [if_neg hm, hcs]
    exact ⟨_, cs, hsign, rfl, hnumeral⟩

/-- Sixty-four bits lie far below the greatest number of double precision. -/
theorem ofInt_finite {i : ℤ} (h : i.natAbs < 2 ^ 64) :
    ∃ neg m e, Binary.ofInt binary64 i = .finite neg m e := by
  have hlog : i.natAbs.log2 < 64 := by
    by_cases hi : i.natAbs = 0
    · rw [hi]
      decide
    · exact (Nat.log2_lt hi).mpr h
  have hone : Nat.log2 1 = 0 := by decide
  -- a whole number of a word is far below the greatest exponent
  have hfit : Binary.fitExponent binary64 i.natAbs 1 ≤ 12 := by
    unfold Binary.fitExponent
    extract_lets guess
    split
    extract_lets e
    have hguess : guess ≤ 11 := by
      unfold guess
      rw [hone]
      simp only [binary64]
      omega
    have he : e ≤ 11 := by
      unfold e
      split <;> omega
    simp only [binary64]
    omega
  unfold Binary.ofInt Binary.round
  split
  · exact ⟨_, _, _, rfl⟩
  · extract_lets e
    split
    extract_lets q
    split
    next m e' hme =>
    have he' : ¬e' > binary64.maxExp := by
      have : e' ≤ e + 1 := by
        split at hme
        · cases hme
          exact le_rfl
        · cases hme
          omega
      have : e ≤ 12 := hfit
      simp only [binary64]
      omega
    rw [if_neg he']
    exact ⟨_, _, _, rfl⟩

/-! ## Decimals that are read -/

/-- Behind the mantissa of a decimal that is read there is nothing but an exponent. -/
theorem readFloat?_rest {s : String} {x : Binary} (hs : special? (s.map Char.toLower) = none)
    (hsign : splitSign s.toList = (false, s.toList))
    (hhex : ∀ rest, s.toList ≠ '0' :: 'x' :: rest ∧ s.toList ≠ '0' :: 'X' :: rest)
    (h : readFloat? s = some x) :
    (readMantissa 10 false ⟨0, 0, false⟩ (s.toList.filter (· ≠ '_'))).2 = [] ∨
      ∃ c tail e, (readMantissa 10 false ⟨0, 0, false⟩ (s.toList.filter (· ≠ '_'))).2 = c :: tail ∧
        (c = 'e' ∨ c = 'E') ∧ readExponent? tail = some e := by
  unfold readFloat? at h
  rw [hs] at h
  split at h
  next heq => cases heq
  rw [hsign] at h
  split at h
  next neg cs₀ hcs₀ =>
  cases hcs₀
  split at h
  next hex cs hcs =>
  -- the digits are decimal ones
  obtain ⟨rfl, rfl⟩ : hex = false ∧ s.toList = cs := by
    split at hcs
    · next heq => exact absurd heq (hhex _).1
    · next heq => exact absurd heq (hhex _).2
    · cases hcs
      exact ⟨rfl, rfl⟩
  extract_lets isDigit mantissa at h
  have hm : mantissa () = some x := by
    split at h
    · cases h
    · exact h
  unfold mantissa at hm
  split at hm
  next m rest hrest =>
  extract_lets rounded exponent at hm
  have he : exponent () = some x := by
    split at hm
    · cases hm
    · exact hm
  rw [if_neg (by decide)] at hrest
  rw [hrest]
  unfold exponent at he
  -- behind the mantissa there is nothing, or an exponent
  cases rest with
  | nil => exact .inl rfl
  | cons c tail =>
    right
    simp only [Bool.false_eq_true, if_false] at he
    split at he
    · next hc =>
      obtain ⟨e, hexp, -⟩ := Option.bind_eq_some_iff.mp he
      exact ⟨c, tail, e, rfl, by simpa using hc, hexp⟩
    · cases he

theorem isDigit_of_hexValue? {c : Char} {d : ℕ} (h : Text.hexValue? c = some d) (hd : d < 10) :
    c.isDigit = true := by
  obtain ⟨-, rfl | rfl⟩ := isDigitOf_of_hexValue? h
  · interval_cases d <;> rfl
  · interval_cases d <;> rfl

/-- A mantissa is made of digits and points. -/
theorem readMantissa_split (dotted : Bool) (m : Mantissa) (cs : List Char) : ∃ front,
    cs = front ++ (readMantissa 10 dotted m cs).2 ∧ ∀ c ∈ front, c.isAlphanum = true ∨ c = '.' := by
  fun_induction readMantissa 10 dotted m cs with
  | case1 => exact ⟨[], rfl, List.forall_mem_nil _⟩
  | case2 m cs => exact ⟨[], rfl, List.forall_mem_nil _⟩
  | case3 dotted m cs _ ih =>
    obtain ⟨front, hcs, hfront⟩ := ih
    exact ⟨'.' :: front, congrArg _ hcs, List.forall_mem_cons.mpr ⟨.inr rfl, hfront⟩⟩
  | case4 dotted m c cs _ d hd hlt ih =>
    obtain ⟨front, hcs, hfront⟩ := ih
    refine ⟨c :: front, congrArg _ hcs, List.forall_mem_cons.mpr ⟨.inl ?_, hfront⟩⟩
    exact isAlphanum_of_isDigit (isDigit_of_hexValue? hd hlt)
  | case5 => exact ⟨[], rfl, List.forall_mem_nil _⟩
  | case6 => exact ⟨[], rfl, List.forall_mem_nil _⟩

theorem numeralTail_readExponent {tail : List Char} {e : ℤ} (h : readExponent? tail = some e)
    {c : Char} (hc : c = 'e' ∨ c = 'E') (before : Char) : numeralTail before (c :: tail) = true := by
  have hletter : c.isAlphanum = true := by
    obtain rfl | rfl := hc
    · rfl
    · rfl
  rw [numeralTail, hletter]
  unfold readExponent? at h
  split at h
  next neg ds hsplit =>
  have hds : ∀ d ∈ ds, d.isAlphanum = true ∨ d = '.' := by
    split at h
    · cases h
    · next hdigits =>
      intro d hd
      have hall : ∀ d ∈ ds, d.isDigit = true := by simp_all
      exact .inl (isAlphanum_of_isDigit (hall d hd))
  -- the exponent may have a sign, which stands behind its letter
  unfold splitSign at hsplit
  split at hsplit
  · cases hsplit
    obtain rfl | rfl := hc
    · simpa [numeralTail] using numeralTail_of_plain hds '-'
    · simpa [numeralTail] using numeralTail_of_plain hds '-'
  · cases hsplit
    obtain rfl | rfl := hc
    · simpa [numeralTail] using numeralTail_of_plain hds '+'
    · simpa [numeralTail] using numeralTail_of_plain hds '+'
  · cases hsplit
    exact numeralTail_of_plain hds c

/-- No special value begins with a digit or a point. -/
theorem special?_eq_none_of_first {s : String}
    (h : ∀ c ∈ s.toList.head?, c.isDigit = true ∨ c = '.') :
    special? (s.map Char.toLower) = none := by
  have hlower : ∀ c ∈ (s.map Char.toLower).toList.head?, c.isDigit = true ∨ c = '.' := by
    intro c hc
    rw [String.toList_map, List.head?_map, Option.mem_map] at hc
    obtain ⟨d, hd, rfl⟩ := hc
    obtain hdigit | rfl := h d hd
    · -- a digit stands before the letters
      have hlow : ¬(d.val ≥ 'A'.val ∧ d.val ≤ 'Z'.val) := by
        have hnine : d.val.toNat ≤ 57 := by
          simp only [Char.isDigit, Bool.and_eq_true, decide_eq_true_eq, UInt32.le_iff_toNat_le]
            at hdigit
          exact hdigit.2
        have hletter : 'A'.val.toNat = 65 := rfl
        rintro ⟨h, -⟩
        rw [ge_iff_le, UInt32.le_iff_toNat_le] at h
        omega
      have hsame : d.toLower = d := dif_neg hlow
      rw [hsame]
      exact .inl hdigit
    · exact .inr rfl
  generalize s.map Char.toLower = name at hlower
  have hfirst : name.toList.head?.all (fun c => c.isDigit || c = '.') = true := by
    cases hc : name.toList.head? with
    | none => rfl
    | some c => simpa using hlower c hc
  unfold special?
  split <;> first | rfl | exact absurd hfirst (by decide)

/-- A decimal that is read and begins with a digit or a point is a numeral. -/
theorem numeralChars_of_readFloat? {s : String} {x : Binary} (hne : s.toList ≠ [])
    (hfirst : ∀ c ∈ s.toList.head?, c.isDigit = true ∨ c = '.') (hunder : '_' ∉ s.toList)
    (hhex : ∀ rest, s.toList ≠ '0' :: 'x' :: rest ∧ s.toList ≠ '0' :: 'X' :: rest)
    (h : readFloat? s = some x) : numeralChars s.toList = true := by
  have hspecial := special?_eq_none_of_first hfirst
  obtain ⟨c, cs, hcs⟩ := List.exists_cons_of_ne_nil hne
  have hc := hfirst c (by rw [hcs]; rfl)
  have hsign : splitSign s.toList = (false, s.toList) := by
    rw [hcs]
    unfold splitSign
    split
    · next heq =>
      cases heq
      exact absurd hc (by decide)
    · next heq =>
      cases heq
      exact absurd hc (by decide)
    · rfl
  have hfilter : s.toList.filter (· ≠ '_') = s.toList :=
    List.filter_eq_self.mpr fun d hd => decide_eq_true fun heq => hunder (heq ▸ hd)
  have hrest := readFloat?_rest hspecial hsign hhex h
  obtain ⟨front, hsplit, hfront⟩ := readMantissa_split false ⟨0, 0, false⟩ s.toList
  rw [hfilter] at hrest
  generalize (readMantissa 10 false ⟨0, 0, false⟩ s.toList).2 = rest at hrest hsplit
  have htail (before : Char) : numeralTail before rest = true := by
    obtain rfl | ⟨d, tail, e, rfl, hd, he⟩ := hrest
    · rfl
    · exact numeralTail_readExponent he hd before
  -- whatever stood before it, the text goes on as a numeral: as its mantissa, then as its exponent
  have hall : numeralTail c cs = true := by
    have hwhole := numeralTail_append (numeralTail_of_plain hfront '0') htail
    rw [← hsplit, hcs, numeralTail, Bool.and_eq_true] at hwhole
    exact hwhole.2
  rw [hcs, numeralChars, hall, Bool.and_true]
  simpa using hc

end Numeral

/-! ## Literals -/

namespace Java

open Numeral (Binary binary32 binary64)

theorem signed_toString (i : ℤ) : Signed (toString i) := by
  have hnat (n : ℕ) : numeralChars (Nat.toDigits 10 n) = true :=
    numeralChars_of_digits Nat.toDigits_ne_nil fun c hc =>
      Nat.isDigit_of_mem_toDigits (by decide) (by decide) hc
  rw [Int.toString_eq_repr, Int.repr_eq_if]
  split
  · exact ⟨"", _, .inl rfl, (String.empty_append).symm, hnat _⟩
  · exact ⟨"-", _, .inr rfl, rfl, hnat _⟩

theorem finiteText?_signed {f : Numeral.Format} {k : Kind} {x : Binary} {lit : String}
    (hx : x ≠ .nan) (h : finiteText? f k x = some lit) : Signed lit := by
  cases x with
  | finite neg m e =>
    cases h
    exact (Numeral.signed_general f neg m e).append k
  | infinite neg => cases h
  | nan => exact absurd rfl hx

/-- What a numeric literal is written as for another kind is a numeral. -/
theorem numericLiteral?_signed {code lit : String} {k : Kind}
    (h : numericLiteral? code k = some lit) : Signed lit := by
  rw [numericLiteral?, Option.bind_eq_bind] at h
  obtain ⟨n, hn, h⟩ := Option.bind_eq_some_iff.mp h
  have hbinary : n.toBinary ≠ .nan := by
    cases n with
    | whole i =>
      rw [Constant.toBinary, Binary.ofInt]
      exact Numeral.round_ne_nan _ _ _ _
    | decimal x =>
      obtain ⟨neg, m, e, rfl⟩ := readConstant?_decimal hn
      rw [Constant.toBinary]
      intro hnan
      cases hnan
  -- rounding to fewer digits does not make a number into none
  have hconvert : n.toBinary.convert binary32 ≠ .nan := by
    cases hx : n.toBinary with
    | finite neg m e =>
      unfold Binary.convert
      dsimp only
      split
      · exact Numeral.round_ne_nan _ _ _ _
      · exact Numeral.round_ne_nan _ _ _ _
    | infinite neg =>
      intro hnan
      cases hnan
    | nan => exact absurd hx hbinary
  cases k with
  | integer =>
    obtain ⟨i, -, h⟩ := Option.bind_eq_some_iff.mp h
    split at h
    · cases h
      exact signed_toString i
    · cases h
  | long =>
    obtain ⟨i, -, h⟩ := Option.bind_eq_some_iff.mp h
    cases h
    exact (signed_toString i).append .long
  | float => exact finiteText?_signed hconvert h
  | double => exact finiteText?_signed hbinary h
  | _ => cases h

/-! ## Numbers of the source -/

/-- The text begins as numbers of the source do: with a digit or a point. -/
def BeginsNumber (text : String) : Prop :=
  ∀ c ∈ text.toList.head?, c.isDigit = true ∨ c = '.'

variable {text code : String} {t : Ty}

theorem BeginsNumber.dropUnderscores (h : BeginsNumber text) :
    BeginsNumber (dropUnderscores text) := by
  intro c hc
  cases hcs : text.toList with
  | nil => simp [dropUnderscores_toList, hcs] at hc
  | cons d ds =>
    have hd : d.isDigit = true ∨ d = '.' := h d (by rw [hcs]; rfl)
    have hunder : d ≠ '_' := by
      rintro rfl
      exact absurd hd (by decide)
    obtain rfl : d = c := by simpa [dropUnderscores_toList, hcs, hunder] using hc
    exact hd

/-- The characters of a whole numeral are letters and digits. -/
theorem isAlphanum_of_denotes {n : ℕ} (h : Numeral.Denotes cs n) : ∀ c ∈ cs, c.isAlphanum = true := by
  refine h.forall_char (fun c d hd hc => ?_) (by decide)
  obtain rfl | rfl := hc
  · interval_cases d <;> rfl
  · interval_cases d <;> rfl

/-- The literal of a number of the source is a decimal that was read, a whole numeral with a letter or
without one, or a number that is laid out anew. -/
theorem numberLiteral?_cases (h : numberLiteral? text = some (code, t)) :
    t = .double ∧ (∃ x, Numeral.readFloat? (dropUnderscores text) = some x) ∧
        hasBase (Text.lower (dropUnderscores text)).toList = false ∧
        (dropUnderscores text).toList ≠ [] ∧ code = dropUnderscores text ∨
      (t = .integer ∨ t = .long) ∧ (Text.lower (dropUnderscores text)).toList.head? ≠ some '.' ∧
        (code = dropUnderscores text ∨ code = dropUnderscores text ++ "L") ∨
      t = .double ∧ ∃ x, Numeral.readFloat? (dropUnderscores text) = some x ∧
        code = Numeral.general binary64 x ++ kindSuffix .double := by
  unfold numberLiteral? at h
  dsimp only at h
  -- with a point or an exponent the text stays as it is; otherwise it is whole, or too great for a
  -- whole type
  split at h
  · next hdecimal =>
    obtain ⟨x, hx, heq⟩ := Option.map_eq_some_iff.mp h
    cases heq
    have hbase : hasBase (Text.lower (dropUnderscores text)).toList = false := by simp_all
    have hne : (dropUnderscores text).toList ≠ [] := by
      intro hnil
      simp [Text.lower, hnil] at hdecimal
    exact .inl ⟨rfl, ⟨x, hx⟩, hbase, hne, rfl⟩
  · next hdecimal =>
    right
    split at h
    · have hpoint : (Text.lower (dropUnderscores text)).toList.head? ≠ some '.' := by
        intro hhead
        obtain ⟨rest, hrest⟩ := List.head?_eq_some_iff.mp hhead
        exact hdecimal (by rw [hrest]; rfl)
      left
      split at h
      · cases h
        exact ⟨.inl rfl, hpoint, .inl rfl⟩
      · cases h
        exact ⟨.inr rfl, hpoint, .inr rfl⟩
    · split at h
      · next x hx =>
        split at h
        · cases h
        · cases h
          exact .inr ⟨rfl, x, hx, rfl⟩
      · cases h

/-- What begins with a point is no whole number. -/
theorem isDigit_of_whole (hfirst : BeginsNumber text) (h : numberLiteral? text = some (code, t))
    (ht : t ≠ .double) : ∀ c ∈ text.toList.head?, c.isDigit = true := by
  intro c hc
  obtain hdigit | rfl := hfirst c hc
  · exact hdigit
  · obtain ⟨rest, hrest⟩ := List.head?_eq_some_iff.mp hc
    have hpoint : (Text.lower (dropUnderscores text)).toList.head? = some '.' := by
      rw [Text.lower, String.toList_map, dropUnderscores_toList, hrest]
      rfl
    obtain ⟨rfl, -⟩ | ⟨-, hno, -⟩ | ⟨rfl, -⟩ := numberLiteral?_cases h
    · exact absurd rfl ht
    · exact absurd hpoint hno
    · exact absurd rfl ht

/-- The literal of a number of the source is a numeral of one of three types. -/
theorem numberLiteral?_signed (hfirst : BeginsNumber text)
    (h : numberLiteral? text = some (code, t)) :
    Signed code ∧ (t = .integer ∨ t = .long ∨ t = .double) := by
  have hbegins := hfirst.dropUnderscores
  -- a decimal text as it stands, a whole one, and one that is written anew
  obtain ⟨rfl, ⟨x, hx⟩, hbase, hne, rfl⟩ | ⟨ht, -, -⟩ | ⟨rfl, x, hx, rfl⟩ := numberLiteral?_cases h
  · refine ⟨⟨"", (dropUnderscores text).toList, .inl rfl, ?_, ?_⟩, .inr (.inr rfl)⟩
    · rw [String.empty_append, String.ofList_toList]
    · have hhex (rest : List Char) : (dropUnderscores text).toList ≠ '0' :: 'x' :: rest ∧
          (dropUnderscores text).toList ≠ '0' :: 'X' :: rest := by
        rw [Text.lower, String.toList_map] at hbase
        constructor
        · intro heq
          rw [heq] at hbase
          cases hbase
        · intro heq
          rw [heq] at hbase
          cases hbase
      refine Numeral.numeralChars_of_readFloat? hne hbegins ?_ hhex hx
      rw [dropUnderscores_toList]
      simp
  · have hdouble : t ≠ .double := by
      obtain rfl | rfl := ht
      · decide
      · decide
    obtain ⟨n, hn, -, hcode⟩ := numberLiteral?_whole (isDigit_of_whole hfirst h hdouble) h ht
    have hsigned : Signed (dropUnderscores text) := by
      refine ⟨"", (dropUnderscores text).toList, .inl rfl, ?_, ?_⟩
      · rw [String.empty_append, String.ofList_toList]
      · have halnum := isAlphanum_of_denotes hn
        rw [BeginsNumber] at hbegins
        generalize (dropUnderscores text).toList = cs at hn halnum hbegins
        cases cs with
        | nil => cases hn
        | cons c cs =>
          have hc : (c.isDigit || c = '.') = true := by simpa using hbegins c rfl
          rw [numeralChars, hc, Bool.true_and]
          exact numeralTail_of_plain (fun d hd => .inl (halnum d (List.mem_cons_of_mem c hd))) c
    refine ⟨?_, ht.imp_right .inl⟩
    obtain ⟨-, -, rfl⟩ | ⟨-, -, rfl⟩ := hcode
    · exact hsigned
    · exact hsigned.append .long
  · obtain ⟨neg, m, e, rfl⟩ := Numeral.readFloat?_finite
      (Numeral.special?_eq_none_of_first hbegins) x hx
    exact ⟨(Numeral.signed_general _ _ _ _).append .double, .inr (.inr rfl)⟩

/-- A whole number of the source has a literal of each wider kind. -/
theorem numericLiteral?_of_source (hfirst : BeginsNumber text)
    (h : numberLiteral? text = some (code, t)) (ht : t ≠ .double) {k : Kind}
    (hk : k = .long ∨ k = .double) : ∃ lit, numericLiteral? code k = some lit := by
  have ht' : t = .integer ∨ t = .long := by
    obtain ⟨-, ht' | ht' | ht'⟩ := numberLiteral?_signed hfirst h
    · exact .inl ht'
    · exact .inr ht'
    · exact absurd ht' ht
  obtain ⟨n, hn, hlt, hcode⟩ := numberLiteral?_whole (isDigit_of_whole hfirst h ht) h ht'
  -- the literal of a whole number is read as that number again
  have hread : readConstant? code = some (.whole n) := by
    obtain ⟨-, -, rfl⟩ | ⟨-, -, rfl⟩ := hcode
    · rw [← String.append_empty (s := dropUnderscores text)]
      exact readConstant?_of_denotes hn hlt (.inl rfl)
    · exact readConstant?_of_denotes hn hlt (.inr rfl)
  obtain ⟨neg, m, e, hfinite⟩ := Numeral.ofInt_finite (i := n) (by omega)
  rw [numericLiteral?, hread]
  obtain rfl | rfl := hk
  · exact ⟨_, rfl⟩
  · refine ⟨Numeral.general binary64 (.finite neg m e) ++ kindSuffix .double, ?_⟩
    rw [Option.bind_eq_bind, Option.bind_some]
    show finiteText? binary64 .double (Binary.ofInt binary64 n) = _
    rw [hfinite]
    rfl

end Java

end TypedPerl
