import Mathlib.Algebra.Order.Field.Power
import Mathlib.Data.Rat.Floor
import TypedPerl.Java.Literal

/-!
# Truncated decimals

A decimal literal is read as a finite number of double precision, which has an exact rational value.
`Binary.trunc?` is this value without its fraction (`trunc?_finite`), and a decimal that is written
as a whole literal keeps it (`truncated_literal_iff`), with one exception: `2^63` passes the guard of
the range, since the greatest number of 64 bits is no number of double precision and the guard
compares with the next one that is.
-/

namespace TypedPerl.Numeral

/-! ## Exact values -/

/-- The exact value of a finite number. -/
def Binary.rational? : Binary → Option ℚ
  | .finite neg m e => some (if neg then -(m * 2 ^ e) else m * 2 ^ e)
  | _ => none

/-- A rational number without its fraction. -/
def towardZero (q : ℚ) : ℤ :=
  if 0 ≤ q then ⌊q⌋ else ⌈q⌉

theorem towardZero_neg (q : ℚ) : towardZero (-q) = -towardZero q := by
  unfold towardZero
  -- the sign decides between floor and ceiling, which negation exchanges
  rcases lt_trichotomy q 0 with hq | rfl | hq
  · rw [if_pos (by linarith), if_neg (by linarith), Int.floor_neg]
  · simp
  · rw [if_neg (by linarith), if_pos hq.le, Int.ceil_neg]

/-- The whole part of `m · 2^e`. -/
theorem floor_mul_two_zpow (m : ℕ) (e : ℤ) :
    ⌊(m : ℚ) * 2 ^ e⌋ =
      ((if 0 ≤ e then m * Nat.pow 2 e.toNat else m / Nat.pow 2 (-e).toNat : ℕ) : ℤ) := by
  split
  · next he =>
    lift e to ℕ using he
    rw [zpow_natCast, Int.toNat_natCast]
    exact_mod_cast Int.floor_natCast (R := ℚ) (m * 2 ^ e)
  · next he =>
    obtain ⟨k, rfl⟩ : ∃ k : ℕ, e = -k := ⟨(-e).toNat, by omega⟩
    rw [zpow_neg, zpow_natCast, neg_neg, Int.toNat_natCast, ← div_eq_mul_inv]
    exact_mod_cast Rat.floor_natCast_div_natCast m (2 ^ k)

/-- Dropping the bits of the fraction drops the fraction. -/
theorem trunc?_finite (neg : Bool) (m : ℕ) (e : ℤ) :
    (Binary.finite neg m e).trunc? = (Binary.finite neg m e).rational?.map towardZero := by
  have hnonneg : 0 ≤ (m : ℚ) * 2 ^ e := mul_nonneg m.cast_nonneg (zpow_nonneg (by decide) e)
  have hwhole : towardZero ((m : ℚ) * 2 ^ e) = _ := (if_pos hnonneg).trans (floor_mul_two_zpow m e)
  cases neg with
  | false => exact congrArg some hwhole.symm
  | true =>
    rw [Binary.rational?, Option.map_some, if_pos rfl, towardZero_neg, hwhole]
    rfl

/-! ## Decimals that are read -/

/-- Whatever is given is a finite number. -/
def OnlyFinite (o : Option Binary) : Prop :=
  ∀ x, o = some x → ∃ neg m e, x = .finite neg m e

theorem OnlyFinite.bind {α : Type} {o : Option α} {f : α → Option Binary}
    (h : ∀ a, OnlyFinite (f a)) : OnlyFinite (o.bind f) := by
  intro x hx
  obtain ⟨a, -, ha⟩ := Option.bind_eq_some_iff.mp hx
  exact h a x ha

theorem round_ne_nan (f : Format) (neg : Bool) (n d : ℕ) : Binary.round f neg n d ≠ .nan := by
  dsimp only [Binary.round]
  split_ifs <;> nofun

/-- Rounding gives a finite number or an infinity, and infinities are refused. -/
theorem OnlyFinite.round (f : Format) (neg : Bool) (n d : ℕ) :
    OnlyFinite (match Binary.round f neg n d with
      | .infinite _ => .none
      | x => some x) := by
  intro x hx
  cases hround : Binary.round f neg n d with
  | finite neg m e =>
    rw [hround] at hx
    cases hx
    exact ⟨neg, m, e, rfl⟩
  | infinite neg =>
    rw [hround] at hx
    cases hx
  | nan => exact absurd hround (round_ne_nan f neg n d)

/-- No special value has a point or an exponent. -/
theorem special?_eq_none {s : String} (h : s.toList.any (fun c => c = '.' || c = 'e') = true) :
    special? s = none := by
  unfold special?
  split <;> first | rfl | exact absurd h (by decide)

/-- What is read is a finite number, unless it is a special value: every way through the reader
fails or ends by rounding. -/
theorem readFloat?_finite {s : String} (hspecial : special? (s.map Char.toLower) = none) :
    OnlyFinite (readFloat? s) := by
  unfold readFloat?
  rw [hspecial]
  split
  · next heq => cases heq
  · split
    split
    -- the reader goes on in three steps: the mantissa, the exponent, and the rounding
    extract_lets isDigit mantissa
    have hmantissa (r : PUnit) : OnlyFinite (mantissa r) := by
      unfold mantissa
      split
      extract_lets rounded exponent
      have hrounded (e : Int) : OnlyFinite (rounded e) := by
        unfold rounded
        split
        exact .round _ _ _ _
      have hexponent (r : PUnit) : OnlyFinite (exponent r) := by
        unfold exponent
        split
        · split <;> exact .bind hrounded
        · split <;> split <;> exact .bind hrounded
      split
      · exact .bind hexponent
      · exact hexponent ()
    split
    · exact .bind hmantissa
    · exact hmantissa ()

end TypedPerl.Numeral

namespace TypedPerl.Java

open Numeral (Binary towardZero)

/-- A decimal literal is read as a finite number, of either sign. -/
theorem readConstant?_decimal {code : String} {x : Binary}
    (h : readConstant? code = some (.decimal x)) : ∃ neg m e, x = .finite neg m e := by
  unfold readConstant? at h
  extract_lets whole at h
  split at h
  next neg signless heq =>
  extract_lets lower radix letterless cs at h
  split at h
  · cases h
  · split at h
    · obtain ⟨i, -, hi⟩ := Option.map_eq_some_iff.mp h
      cases hi
    · next hdecimal =>
      obtain ⟨y, hy, hx⟩ := Option.map_eq_some_iff.mp h
      have hpoint : cs.any (fun c => c = '.' || c = 'e') = true := by
        by_contra hnone
        exact hdecimal (by rw [Bool.eq_false_iff.mpr hnone, Bool.not_false, Bool.or_true])
      -- a text with a point or an exponent is none of the names of infinity and of no number
      have hspecial : Numeral.special? ((String.ofList cs).map Char.toLower) = none := by
        obtain ⟨c, hc, hce⟩ := List.any_eq_true.mp hpoint
        refine Numeral.special?_eq_none (List.any_eq_true.mpr ⟨c, ?_, hce⟩)
        have hlower : c.toLower = c := by
          obtain rfl | rfl : c = '.' ∨ c = 'e' := by simpa using hce
          · rfl
          · rfl
        rw [String.toList_map, String.toList_ofList]
        exact List.mem_map.mpr ⟨c, hc, hlower⟩
      obtain ⟨neg', m, e, rfl⟩ := Numeral.readFloat?_finite hspecial y hy
      cases hx
      split
      · exact ⟨_, m, e, rfl⟩
      · exact ⟨_, m, e, rfl⟩

/-! ## Whole literals of decimals -/

/-- The bits of a kind of whole numbers. -/
def wholeBits : Kind → ℕ
  | .long => 64
  | _ => 32

/-- The literal of a kind that denotes a whole number: its decimal digits and the letter. -/
def wholeLiteral (k : Kind) (i : Int) : String :=
  toString i ++ kindSuffix k

theorem fitsWord_64 (t : Int) : Numeral.fitsWord 64 t = true ↔ -2 ^ 63 ≤ t ∧ t < 2 ^ 63 := by
  have hlimit : (Numeral.wordLimit 64 : Int) = 2 ^ 63 := rfl
  rw [Numeral.fitsWord, hlimit, Bool.and_eq_true, decide_eq_true_eq, decide_eq_true_eq]

/-- Without its fraction a decimal is taken for a number of 64 bits when it is one, and `2^63` for
the least one. -/
theorem toWhole?_decimal {x : Binary} {t : Int} (h : x.trunc? = some t) :
    (Constant.decimal x).toWhole? =
      if Numeral.fitsWord 64 t then some t else if t = 2 ^ 63 then some (-2 ^ 63) else none := by
  have hlimit : (Numeral.wordLimit 64 : Int) = 2 ^ 63 := rfl
  rw [Constant.toWhole?, h, hlimit]
  dsimp only
  -- in range, rounding to the word changes nothing
  by_cases hfits : Numeral.fitsWord 64 t = true
  · obtain ⟨hlow, hhigh⟩ := (fitsWord_64 t).mp hfits
    have hwrap : Numeral.wrapWord 64 t = t :=
      Int.bmod_eq_of_le (by norm_num; omega) (by norm_num; omega)
    rw [if_pos hfits, hwrap, if_neg]
    simp only [Bool.or_eq_true, decide_eq_true_eq, not_or]
    omega
  · rw [if_neg hfits]
    rw [fitsWord_64] at hfits
    -- just above the range the bound is met, and the value wraps to the least one
    by_cases htop : t = 2 ^ 63
    · subst htop
      rfl
    · rw [if_neg htop, if_pos]
      simp only [Bool.or_eq_true, decide_eq_true_eq]
      omega

/-- A number of 32 bits is one of 64 bits. -/
theorem fitsWord_64_of_32 {t : Int} (h : Numeral.fitsWord 32 t = true) :
    Numeral.fitsWord 64 t = true := by
  have hlimit : (Numeral.wordLimit 32 : Int) = 2 ^ 31 := rfl
  rw [Numeral.fitsWord, hlimit, Bool.and_eq_true, decide_eq_true_eq, decide_eq_true_eq] at h
  rw [fitsWord_64]
  omega

/-- What a decimal literal is written as when a whole number is wanted. -/
theorem numericLiteral?_decimal {code : String} {x : Binary} {t : Int} {k : Kind}
    (h : readConstant? code = some (.decimal x)) (ht : x.trunc? = some t)
    (hk : k = .integer ∨ k = .long) :
    numericLiteral? code k =
      if Numeral.fitsWord (wholeBits k) t then some (wholeLiteral k t)
      else if k = .long ∧ t = 2 ^ 63 then some (wholeLiteral .long (-2 ^ 63))
      else none := by
  rw [numericLiteral?, h, Option.bind_eq_bind, Option.bind_some]
  obtain rfl | rfl := hk
  · simp only [wholeBits, toWhole?_decimal ht]
    by_cases hfits : Numeral.fitsWord 32 t = true
    · simp only [fitsWord_64_of_32 hfits, hfits, if_true, Option.bind_eq_bind, Option.bind_some]
      simp [wholeLiteral, kindSuffix]
    · -- the least number of 64 bits, which `2^63` is taken for, is no integer
      have hleast : ¬Numeral.fitsWord 32 (-2 ^ 63) = true := by decide
      simp only [hfits, reduceCtorEq, false_and, if_false]
      split
      · exact if_neg hfits
      · split
        · rw [Option.bind_eq_bind, Option.bind_some, if_neg hleast]
        · rfl
  · simp only [wholeBits, toWhole?_decimal ht, true_and]
    split
    · rfl
    · split <;> rfl

/-- A decimal that becomes a whole literal keeps its value without the fraction exactly when this is
a number of the kind. The guard admits one more value, `2^63`, of which the literal of a long integer
has the sign turned. -/
theorem truncated_literal_iff {code : String} {x : Binary} {k : Kind}
    (h : readConstant? code = some (.decimal x)) (hk : k = .integer ∨ k = .long) :
    ∃ q, x.rational? = some q ∧
      ((∃ lit, numericLiteral? code k = some lit) ↔
        Numeral.fitsWord (wholeBits k) (towardZero q) = true ∨
          k = .long ∧ towardZero q = 2 ^ 63) ∧
      ∀ lit, numericLiteral? code k = some lit →
        (lit = wholeLiteral k (towardZero q) ↔
          Numeral.fitsWord (wholeBits k) (towardZero q) = true) := by
  obtain ⟨neg, m, e, rfl⟩ := readConstant?_decimal h
  obtain ⟨q, hq⟩ : ∃ q, (Binary.finite neg m e).rational? = some q := ⟨_, rfl⟩
  have ht : (Binary.finite neg m e).trunc? = some (towardZero q) := by
    rw [Numeral.trunc?_finite, hq, Option.map_some]
  refine ⟨q, hq, ?_⟩
  rw [numericLiteral?_decimal h ht hk]
  by_cases hfits : Numeral.fitsWord (wholeBits k) (towardZero q) = true
  · rw [if_pos hfits]
    refine ⟨iff_of_true ⟨_, rfl⟩ (.inl hfits), fun lit hlit => ?_⟩
    cases hlit
    exact iff_of_true rfl hfits
  · rw [if_neg hfits]
    -- only the first value above the range is folded though it does not fit
    by_cases htop : k = .long ∧ towardZero q = 2 ^ 63
    · rw [if_pos htop]
      refine ⟨iff_of_true ⟨_, rfl⟩ (.inr htop), fun lit hlit => ?_⟩
      cases hlit
      rw [htop.1, htop.2]
      exact iff_of_false (by decide) (by decide)
    · rw [if_neg htop]
      refine ⟨iff_of_false (fun ⟨_, hlit⟩ => nomatch hlit) ?_, fun lit hlit => nomatch hlit⟩
      exact fun hor => hor.elim hfits htop

/-- A decimal below the least integer by less than one is written as that integer. -/
theorem belowLeast_truncated :
    readConstant? "-2147483648.75" = some (.decimal (.finite true 4503599628943360 (-21))) ∧
      ∃ q, (Binary.finite true 4503599628943360 (-21)).rational? = some q ∧
        towardZero q = -2147483648 ∧
        numericLiteral? "-2147483648.75" .integer = some (wholeLiteral .integer (towardZero q)) := by
  have hread : readConstant? "-2147483648.75" =
      some (.decimal (.finite true 4503599628943360 (-21))) := by
    decide +kernel
  obtain ⟨q, hq, hguard, htrunc⟩ := truncated_literal_iff hread (k := .integer) (.inl rfl)
  -- the fraction is dropped towards zero, back into the range
  have ht : towardZero q = -2147483648 := by
    have htrunc := Numeral.trunc?_finite true 4503599628943360 (-21)
    rw [hq, Option.map_some] at htrunc
    exact (Option.some.inj htrunc).symm.trans (by decide)
  have hfits : Numeral.fitsWord (wholeBits .integer) (towardZero q) = true := by
    rw [ht]
    decide
  obtain ⟨lit, hlit⟩ := hguard.mpr (.inl hfits)
  refine ⟨hread, q, hq, ht, ?_⟩
  rw [hlit, (htrunc lit hlit).mpr hfits]

/-- The number above those of 64 bits is written as the least of them. -/
theorem aboveGreatest_wraps :
    readConstant? "9223372036854775808.0" = some (.decimal (.finite false (2 ^ 52) 11)) ∧
      (Binary.finite false (2 ^ 52) 11).rational? = some (2 ^ 63) ∧
      towardZero (2 ^ 63) = 2 ^ 63 ∧
      numericLiteral? "9223372036854775808.0" .long = some (wholeLiteral .long (-2 ^ 63)) ∧
      wholeLiteral .long (-2 ^ 63) ≠ wholeLiteral .long (2 ^ 63) := by
  refine ⟨by decide +kernel, ?_, ?_, by decide +kernel, by decide⟩
  · norm_num [Binary.rational?]
  · rw [towardZero, if_pos (by norm_num)]
    exact_mod_cast Int.floor_natCast (R := ℚ) (2 ^ 63)

end TypedPerl.Java
