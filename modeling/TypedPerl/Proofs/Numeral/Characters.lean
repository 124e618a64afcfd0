import Mathlib.Data.List.Basic
import TypedPerl.Proofs.Text.ByteOrder
import TypedPerl.Text.Quoted

/-!
# Characters of numerals

Numbers are written with letters, digits, points and signs. No mark of a literal, no bracket and no
escape is among these, so that a written number stands between quotes as it is (`quote_numeral`).
-/

namespace TypedPerl.Numeral

/-- A character of numerals. -/
def isNumeralChar (c : Char) : Bool :=
  c.isAlphanum || c = '.' || c = '+' || c = '-'

theorem isNumeralChar_of_isDigit {c : Char} (h : c.isDigit = true) : isNumeralChar c = true := by
  simp [isNumeralChar, Char.isAlphanum, h]

theorem isNumeralChar_nat (n : Nat) : ∀ c ∈ (toString n).toList, isNumeralChar c = true := by
  intro c hc
  refine isNumeralChar_of_isDigit (Nat.isDigit_of_mem_toDigits (b := 10) (n := n) ?_ ?_ ?_)
  · decide
  · decide
  · simpa using hc

theorem isNumeralChar_int (i : Int) : ∀ c ∈ (toString i).toList, isNumeralChar c = true := by
  cases i with
  | ofNat n => exact isNumeralChar_nat n
  | negSucc n =>
    have hsign : (toString (Int.negSucc n)).toList = '-' :: (toString (n + 1)).toList :=
      String.toList_append
    rw [hsign]
    exact List.forall_mem_cons.mpr ⟨rfl, isNumeralChar_nat _⟩

theorem not_mem_numeral {cs : List Char} (h : ∀ c ∈ cs, isNumeralChar c = true) {d : Char}
    (hd : isNumeralChar d = false) : d ∉ cs := fun hmem => by
  rw [h d hmem] at hd
  cases hd

/-- The characters of numerals lie between the plus and the letters. -/
theorem range_of_isNumeralChar {c : Char} (h : isNumeralChar c = true) :
    43 ≤ c.toNat ∧ c.toNat ≤ 122 := by
  simp only [isNumeralChar, Bool.or_eq_true, decide_eq_true_eq] at h
  rcases h with ((h | rfl) | rfl) | rfl
  · have hrange := Text.toNat_of_isAlphanum h
    omega
  · decide
  · decide
  · decide

/-- A numeral stands between quotes as it is. -/
theorem quote_numeral {s : String} (h : ∀ c ∈ s.toList, isNumeralChar c = true) :
    Text.quote s = "\"" ++ s ++ "\"" := by
  -- no character of a numeral is escaped
  have hplain : ∀ c ∈ s.toList, Text.quoteChar c = [c] := by
    intro c hc
    have hrange := range_of_isNumeralChar (h c hc)
    have hquote : ¬(c = '"' ∨ c = '\\') := by
      rintro (rfl | rfl) <;> exact absurd (h _ hc) (by decide)
    have hprint : Text.isPrintable .current c = true := by
      rw [Text.isPrintable, if_pos (by omega), decide_eq_true_eq]
      omega
    rw [Text.quoteChar, if_neg (by simpa using hquote), if_pos hprint]
  have hflat : s.toList.flatMap Text.quoteChar = s.toList := by
    rw [List.flatMap_congr hplain]
    exact List.flatMap_singleton' _
  apply String.toList_injective
  rw [Text.quote, hflat]
  simp

end TypedPerl.Numeral
