import Mathlib.Data.List.Forall2
import Mathlib.Data.Nat.Digits.Defs
import Mathlib.Tactic.IntervalCases
import Mathlib.Tactic.Ring
import TypedPerl.Numeral.Read

/-!
# Whole numerals

`Denotes` says which number a numeral without a sign stands for: decimal digits, a zero with octal
digits behind it, or digits of the base that `0x`, `0b` or `0o` names. Reading follows this relation
exactly (`readNat?_eq_some_iff`), so that a numeral denotes at most one number. In lower case it
denotes the same number.
-/

namespace TypedPerl.Numeral

/-! ## Digits -/

/-- The character is the digit of the value, in either case. -/
def IsDigitOf (c : Char) (d : Nat) : Prop :=
  c = Nat.digitChar d ∨ c = (Nat.digitChar d).toUpper

/-- The characters are the digits of the number in the base, the leading one first. -/
def Writes (base : Nat) (cs : List Char) (n : Nat) : Prop :=
  ∃ ds : List Nat, (∀ d ∈ ds, d < base) ∧ List.Forall₂ IsDigitOf cs ds ∧
    Nat.ofDigits base ds.reverse = n

theorem hexValue?_of_isDigitOf {c : Char} {d : Nat} (hd : d < 16) (h : IsDigitOf c d) :
    Text.hexValue? c = some d := by
  obtain rfl | rfl := h
  · interval_cases d <;> rfl
  · interval_cases d <;> rfl

theorem isDigitOf_of_hexValue? {c : Char} {d : Nat} (h : Text.hexValue? c = some d) :
    d < 16 ∧ IsDigitOf c d := by
  -- a character of a range is one of few code points
  have hrange (a b : Char) (k : Nat) (hc : (decide (a ≤ c) && decide (c ≤ b)) = true)
      (hdigits : ∀ n ∈ List.range' a.toNat (b.toNat + 1 - a.toNat),
        n - k < 16 ∧ IsDigitOf (Char.ofNat n) (n - k)) :
      c.toNat - k < 16 ∧ IsDigitOf c (c.toNat - k) := by
    have hbounds : a.toNat ≤ c.toNat ∧ c.toNat ≤ b.toNat := by
      simpa [Char.le_def, UInt32.le_iff_toNat_le] using hc
    have hd := hdigits c.toNat (List.mem_range'_1.mpr ⟨hbounds.1, by omega⟩)
    rwa [Char.ofNat_toNat] at hd
  unfold Text.hexValue? at h
  split at h
  · next hc =>
    cases h
    exact hrange _ _ 48 hc (by unfold IsDigitOf; decide)
  · split at h
    · next hc =>
      cases h
      exact hrange _ _ 87 hc (by unfold IsDigitOf; decide)
    · split at h
      · next hc =>
        cases h
        exact hrange _ _ 55 hc (by unfold IsDigitOf; decide)
      · cases h

/-- Reading digits one by one behind a number that was read already, which is the accumulator of the
induction. -/
theorem foldlM_digits_iff {base : Nat} (hbase : base ≤ 16) (cs : List Char) (acc n : Nat) :
    cs.foldlM (fun acc c =>
      match Text.hexValue? c with
      | some d => if d < base then some (acc * base + d) else none
      | none => none) acc = some n ↔
    ∃ ds : List Nat, (∀ d ∈ ds, d < base) ∧ List.Forall₂ IsDigitOf cs ds ∧
      acc * base ^ ds.length + Nat.ofDigits base ds.reverse = n := by
  -- the number read so far is shifted by a digit at each step
  induction cs generalizing acc with
  | nil =>
    simp only [List.foldlM_nil, List.forall₂_nil_left_iff]
    constructor
    · rintro ⟨⟩
      exact ⟨[], by simp, rfl, by simp⟩
    · rintro ⟨ds, -, rfl, rfl⟩
      simp
  | cons c cs ih =>
    rw [List.foldlM_cons]
    constructor
    · intro h
      split at h
      · next d hd =>
        split at h
        · next hlt =>
          obtain ⟨ds, hds, hdigits, hn⟩ := (ih _).mp h
          refine ⟨d :: ds, ?_, .cons (isDigitOf_of_hexValue? hd).2 hdigits, ?_⟩
          · simpa using ⟨hlt, hds⟩
          · rw [← hn, Nat.ofDigits_reverse_cons, List.length_cons]
            ring
        · cases h
      · cases h
    · rintro ⟨ds, hds, hdigits, hn⟩
      cases hdigits with
      | @cons _ d _ ds hd hdigits =>
        obtain ⟨hlt, hds⟩ := List.forall_mem_cons.mp hds
        rw [hexValue?_of_isDigitOf (hlt.trans_le hbase) hd]
        simp only [if_pos hlt]
        refine (ih _).mpr ⟨ds, hds, hdigits, ?_⟩
        rw [← hn, Nat.ofDigits_reverse_cons, List.length_cons]
        ring

theorem digitsValue?_eq_some_iff {base : Nat} (hbase : base ≤ 16) (cs : List Char) (n : Nat) :
    digitsValue? base cs = some n ↔ Writes base cs n := by
  refine (foldlM_digits_iff hbase cs 0 n).trans ?_
  simp only [zero_mul, zero_add, Writes]

/-! ## Numerals -/

/-- The letters that mark a base behind a leading zero. -/
def marks : List (Char × Nat) :=
  [('x', 16), ('X', 16), ('b', 2), ('B', 2), ('o', 8), ('O', 8)]

/-- The number that a numeral without a sign denotes. -/
inductive Denotes : List Char → Nat → Prop where
  /-- Decimal digits, of which the first is no zero. -/
  | decimal {c : Char} {cs : List Char} {n : Nat} : c ≠ '0' → Writes 10 (c :: cs) n →
      Denotes (c :: cs) n
  /-- A zero, and octal digits behind it. -/
  | octal {cs : List Char} {n : Nat} : Writes 8 cs n → Denotes ('0' :: cs) n
  /-- A zero, the mark of a base, and digits of the base. -/
  | marked {m c : Char} {base : Nat} {cs : List Char} {n : Nat} : (m, base) ∈ marks →
      Writes base (c :: cs) n → Denotes ('0' :: m :: c :: cs) n

theorem splitBase_decimal {c : Char} (hc : c ≠ '0') (cs : List Char) :
    splitBase (c :: cs) = (10, c :: cs) := by
  unfold splitBase
  split
  · next heq =>
    cases heq
    exact absurd rfl hc
  · next heq =>
    cases heq
    exact absurd rfl hc
  · rfl

/-- Octal digits do not begin with a mark. -/
theorem splitBase_octal {cs : List Char} {n : Nat} (h : Writes 8 cs n) :
    splitBase ('0' :: cs) = (8, cs) := by
  obtain ⟨ds, hds, hdigits, -⟩ := h
  cases hdigits with
  | nil => rfl
  | @cons m d cs ds hd hdigits =>
    have hlt := hds d List.mem_cons_self
    cases cs with
    | nil => rfl
    | cons c cs =>
      obtain rfl | rfl := hd
      · interval_cases d <;> rfl
      · interval_cases d <;> rfl

theorem splitBase_marked {m c : Char} {base : Nat} (hm : (m, base) ∈ marks) (cs : List Char) :
    splitBase ('0' :: m :: c :: cs) = (base, c :: cs) ∧ base ≤ 16 := by
  simp only [marks, List.mem_cons, Prod.mk.injEq, List.not_mem_nil, or_false] at hm
  obtain ⟨rfl, rfl⟩ | ⟨rfl, rfl⟩ | ⟨rfl, rfl⟩ | ⟨rfl, rfl⟩ | ⟨rfl, rfl⟩ | ⟨rfl, rfl⟩ := hm <;>
    exact ⟨rfl, by decide⟩

/-- Behind a zero there is the mark of a base, or octal digits are read. -/
theorem splitBase_zero (cs : List Char) : splitBase ('0' :: cs) = (8, cs) ∨
    ∃ m c base rest, cs = m :: c :: rest ∧ (m, base) ∈ marks := by
  rcases cs with _ | ⟨m, _ | ⟨c, rest⟩⟩
  · exact .inl rfl
  · exact .inl rfl
  · simp only [splitBase]
    split
    · next hm => exact .inr ⟨m, c, 2, rest, rfl, by simpa [marks] using hm⟩
    · split
      · next hm => exact .inr ⟨m, c, 8, rest, rfl, by simpa [marks] using hm⟩
      · split
        · next hm => exact .inr ⟨m, c, 16, rest, rfl, by simpa [marks] using hm⟩
        · exact .inl rfl

/-- Reading gives the number that the numeral denotes. -/
theorem readNat?_eq_some_iff (cs : List Char) (n : Nat) : readNat? cs = some n ↔ Denotes cs n := by
  constructor
  · intro h
    rcases cs with _ | ⟨c, cs⟩
    · cases h
    · rw [readNat?, if_neg (by simp)] at h
      -- only after a zero does a mark or another base follow
      by_cases hc : c = '0'
      · subst hc
        obtain hsplit | ⟨m, c, base, rest, rfl, hm⟩ := splitBase_zero cs
        · rw [hsplit] at h
          exact .octal ((digitsValue?_eq_some_iff (by decide) _ _).mp h)
        · obtain ⟨hsplit, hbase⟩ := splitBase_marked hm rest
          rw [hsplit] at h
          exact .marked hm ((digitsValue?_eq_some_iff hbase _ _).mp h)
      · rw [splitBase_decimal hc] at h
        exact .decimal hc ((digitsValue?_eq_some_iff (by decide) _ _).mp h)
  · rintro (⟨hc, h⟩ | h | ⟨hm, h⟩)
    · rw [readNat?, if_neg (by simp), splitBase_decimal hc]
      exact (digitsValue?_eq_some_iff (by decide) _ _).mpr h
    · rw [readNat?, if_neg (by simp), splitBase_octal h]
      exact (digitsValue?_eq_some_iff (by decide) _ _).mpr h
    · obtain ⟨hsplit, hbase⟩ := splitBase_marked hm _
      rw [readNat?, if_neg (by simp), hsplit]
      exact (digitsValue?_eq_some_iff hbase _ _).mpr h

/-- A numeral denotes one number. -/
theorem Denotes.unique {cs : List Char} {n n' : Nat} (h : Denotes cs n) (h' : Denotes cs n') :
    n = n' := by
  have hread := (readNat?_eq_some_iff cs n).mpr h
  rw [(readNat?_eq_some_iff cs n').mpr h'] at hread
  exact (Option.some.inj hread).symm

/-! ## Characters -/

theorem Writes.forall_char {base n : Nat} {cs : List Char} {P : Char → Prop} (h : Writes base cs n)
    (hP : ∀ c d, d < base → IsDigitOf c d → P c) : ∀ c ∈ cs, P c := by
  obtain ⟨ds, hds, hdigits, -⟩ := h
  intro c hc
  induction hdigits with
  | nil => cases hc
  | cons hd _ ih =>
    obtain ⟨hlt, hds⟩ := List.forall_mem_cons.mp hds
    obtain rfl | hc := List.mem_cons.mp hc
    · exact hP _ _ hlt hd
    · exact ih hds hc

/-- The characters of a numeral are digits and marks. -/
theorem Denotes.forall_char {cs : List Char} {n : Nat} {P : Char → Prop} (h : Denotes cs n)
    (hdigit : ∀ c d, d < 16 → IsDigitOf c d → P c) (hmark : ∀ q ∈ marks, P q.1) :
    ∀ c ∈ cs, P c := by
  have hwritten {base : Nat} (hbase : base ≤ 16) {cs : List Char} (h : Writes base cs n) :
      ∀ c ∈ cs, P c :=
    h.forall_char fun c d hd => hdigit c d (hd.trans_le hbase)
  have hzero : P '0' := hdigit '0' 0 (by decide) (.inl rfl)
  cases h with
  | decimal _ h => exact hwritten (by decide) h
  | octal h => exact List.forall_mem_cons.mpr ⟨hzero, hwritten (by decide) h⟩
  | @marked m c base cs n hm h =>
    obtain ⟨-, hbase⟩ := splitBase_marked (c := c) hm cs
    exact List.forall_mem_cons.mpr ⟨hzero, List.forall_mem_cons.mpr ⟨hmark _ hm, hwritten hbase h⟩⟩

/-! ## Lower case -/

theorem IsDigitOf.lower {c : Char} {d : Nat} (hd : d < 16) (h : IsDigitOf c d) :
    IsDigitOf (Text.lowerChar c) d := by
  unfold IsDigitOf
  obtain rfl | rfl := h
  · interval_cases d <;> decide
  · interval_cases d <;> decide

/-- Decimal digits have no case. -/
theorem IsDigitOf.lower_eq {c : Char} {d : Nat} (hd : d < 10) (h : IsDigitOf c d) :
    Text.lowerChar c = c := by
  obtain rfl | rfl := h
  · interval_cases d <;> rfl
  · interval_cases d <;> rfl

theorem Writes.lower {base n : Nat} {cs : List Char} (hbase : base ≤ 16) (h : Writes base cs n) :
    Writes base (cs.map Text.lowerChar) n := by
  obtain ⟨ds, hds, hdigits, hn⟩ := h
  refine ⟨ds, hds, ?_, hn⟩
  clear hn
  induction hdigits with
  | nil => exact .nil
  | cons hd _ ih =>
    obtain ⟨hlt, hds⟩ := List.forall_mem_cons.mp hds
    exact .cons (hd.lower (hlt.trans_le hbase)) (ih hds)

theorem lower_mem_marks : ∀ q ∈ marks, (Text.lowerChar q.1, q.2) ∈ marks := by
  decide

/-- The numeral in lower case denotes the same number. -/
theorem Denotes.lower {cs : List Char} {n : Nat} (h : Denotes cs n) :
    Denotes (cs.map Text.lowerChar) n := by
  cases h with
  | @decimal c cs n hc h =>
    refine .decimal ?_ (h.lower (by decide))
    rwa [h.forall_char (fun _ _ => IsDigitOf.lower_eq) c List.mem_cons_self]
  | octal h => exact .octal (h.lower (by decide))
  | @marked m c base cs n hm h =>
    obtain ⟨-, hbase⟩ := splitBase_marked (c := c) hm cs
    exact .marked (lower_mem_marks _ hm) (h.lower hbase)

end TypedPerl.Numeral
