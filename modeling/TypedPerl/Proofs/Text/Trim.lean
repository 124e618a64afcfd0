import TypedPerl.Text.Class

/-!
# Trimming

A text is its trimmed form with blanks on either side (`Text.eq_blanks_append`), blanks put around a
text do not change its trimmed form, and trimming never goes past a character that is no blank.
Letters and decimal digits are no blanks, so a name that is made of them is trimmed; nor are they
the bracket that ends a tag.
-/

namespace TypedPerl

namespace Text

/-! ## Trimming -/

/-- The text consists of blanks. -/
def Blanks (cs : List Char) : Prop :=
  ∀ c ∈ cs, isBlank c = true

theorem dropWhile_blanks_append {bs : List Char} (h : Blanks bs) (cs : List Char) :
    (bs ++ cs).dropWhile isBlank = cs.dropWhile isBlank :=
  List.dropWhile_append_of_pos h

/-- The characters without the blanks at the end. -/
def trimEnd (cs : List Char) : List Char :=
  (cs.reverse.dropWhile isBlank).reverse

theorem trimBlanks_eq (cs : List Char) : trimBlanks cs = trimEnd (cs.dropWhile isBlank) := rfl

theorem trimEnd_append_blanks {bs : List Char} (h : Blanks bs) (cs : List Char) :
    trimEnd (cs ++ bs) = trimEnd cs := by
  have hrev : Blanks bs.reverse := fun c hc => h c (List.mem_reverse.mp hc)
  rw [trimEnd, List.reverse_append, dropWhile_blanks_append hrev, ← trimEnd]

/-- Nothing in front of a character that is no blank is trimmed away at the end. -/
theorem trimEnd_append_cons {c : Char} (hc : isBlank c = false) (before after : List Char) :
    trimEnd (before ++ c :: after) = before ++ c :: trimEnd after := by
  rw [trimEnd, List.reverse_append, List.reverse_cons, List.append_assoc, List.dropWhile_append]
  split
  · next hempty =>
    have hnil : after.reverse.dropWhile isBlank = [] := by simpa using hempty
    simp [trimEnd, hnil, hc]
  · simp [trimEnd]

/-- What the blanks at the end are. -/
theorem eq_trimEnd_append (cs : List Char) : ∃ bs, Blanks bs ∧ cs = trimEnd cs ++ bs := by
  refine ⟨(cs.reverse.takeWhile isBlank).reverse, fun c hc => ?_, ?_⟩
  · exact List.all_eq_true.mp List.all_takeWhile c (List.mem_reverse.mp hc)
  · rw [trimEnd, ← List.reverse_append, List.takeWhile_append_dropWhile, List.reverse_reverse]

theorem trimBlanks_blanks_append {bs : List Char} (h : Blanks bs) (cs : List Char) :
    trimBlanks (bs ++ cs) = trimBlanks cs := by
  rw [trimBlanks_eq, dropWhile_blanks_append h, ← trimBlanks_eq]

theorem trimBlanks_append_blanks {bs : List Char} (h : Blanks bs) (cs : List Char) :
    trimBlanks (cs ++ bs) = trimBlanks cs := by
  rw [trimBlanks_eq, List.dropWhile_append]
  split
  · next hempty =>
    have hnil : cs.dropWhile isBlank = [] := by simpa using hempty
    have hblanks := dropWhile_blanks_append h []
    rw [List.append_nil] at hblanks
    rw [trimBlanks_eq, hnil, hblanks, List.dropWhile_nil]
  · rw [trimEnd_append_blanks h, ← trimBlanks_eq]

/-- A text is its trimmed form with blanks around it. -/
theorem eq_blanks_append (cs : List Char) :
    ∃ before after, Blanks before ∧ Blanks after ∧ cs = before ++ trimBlanks cs ++ after := by
  obtain ⟨after, hafter, hend⟩ := eq_trimEnd_append (cs.dropWhile isBlank)
  refine ⟨cs.takeWhile isBlank, after, List.all_eq_true.mp List.all_takeWhile, hafter, ?_⟩
  rw [trimBlanks_eq, List.append_assoc, ← hend, List.takeWhile_append_dropWhile]

theorem length_trimBlanks_le (cs : List Char) : (trimBlanks cs).length ≤ cs.length := by
  obtain ⟨before, after, -, -, hcs⟩ := eq_blanks_append cs
  have hlength := congrArg List.length hcs
  simp only [List.length_append] at hlength
  omega

/-- A text that starts with a character that is no blank is only trimmed at its end. -/
theorem trimBlanks_cons {c : Char} (hc : isBlank c = false) (cs : List Char) :
    trimBlanks (c :: cs) = c :: trimEnd cs := by
  have hstart : (c :: cs).dropWhile isBlank = c :: cs := by simp [hc]
  rw [trimBlanks_eq, hstart]
  exact trimEnd_append_cons hc [] cs

theorem trimBlanks_trimEnd (cs : List Char) : trimBlanks (trimEnd cs) = trimBlanks cs := by
  obtain ⟨bs, hbs, hcs⟩ := eq_trimEnd_append cs
  have htrim := congrArg trimBlanks hcs
  rwa [trimBlanks_append_blanks hbs, eq_comm] at htrim

theorem trimBlanks_of_blanks {bs : List Char} (h : Blanks bs) : trimBlanks bs = [] := by
  have := trimBlanks_blanks_append h []
  rwa [List.append_nil] at this

/-- A text without blanks is trimmed. -/
theorem trimBlanks_of_no_blank {cs : List Char} (h : ∀ c ∈ cs, isBlank c = false) :
    trimBlanks cs = cs := by
  have hnil {bs : List Char} (hbs : Blanks bs) (hmem : ∀ c ∈ bs, c ∈ cs) : bs = [] := by
    cases bs with
    | nil => rfl
    | cons c bs =>
      have hfalse := h c (hmem c List.mem_cons_self)
      rw [hbs c List.mem_cons_self] at hfalse
      cases hfalse
  obtain ⟨before, after, hbefore, hafter, hcs⟩ := eq_blanks_append cs
  have hb : before = [] := hnil hbefore fun c hc => by rw [hcs]; simp [hc]
  have ha : after = [] := hnil hafter fun c hc => by rw [hcs]; simp [hc]
  rwa [hb, ha, List.nil_append, List.append_nil, eq_comm] at hcs

/-! ## Characters of class names -/

/-- The code points of the blanks. -/
def blankCodes : List Nat :=
  [9, 10, 11, 12, 13, 0x20, 0x85, 0xa0, 0x1680, 0x2000, 0x2001, 0x2002, 0x2003, 0x2004, 0x2005,
    0x2006, 0x2007, 0x2008, 0x2009, 0x200a, 0x2028, 0x2029, 0x202f, 0x205f, 0x3000]

theorem mem_blankCodes {c : Char} (h : isBlank c = true) : c.toNat ∈ blankCodes := by
  simp only [isBlank, Bool.or_eq_true, Bool.and_eq_true, decide_eq_true_eq, beq_iff_eq] at h
  simp only [blankCodes, List.mem_cons, List.not_mem_nil, or_false]
  omega

theorem inRanges_eq (table : Array CodeRange) (n : Nat) :
    inRanges table n = table.toList.any fun r => r.1 ≤ n && n ≤ r.2 := by
  rw [inRanges, Array.any_toList]

/-- Neither a blank nor a closing bracket is a letter or a decimal digit, in any version. -/
theorem isBlank_of_isWord {e : Edition} {c : Char}
    (h : (isLetter e c || isDecimalDigit e c) = true) : isBlank c = false ∧ c ≠ '>' := by
  have hcodes : ∀ n ∈ '>'.toNat :: blankCodes,
      (e.covers letterRanges laterLetterRanges n ||
        e.covers digitRanges laterDigitRanges n) = false := by
    -- tables are searched much faster as lists
    simp only [Edition.covers, inRanges_eq]
    cases e <;> decide +kernel
  have hother (hmem : c.toNat ∈ '>'.toNat :: blankCodes) : False := by
    rw [isLetter, isDecimalDigit, hcodes _ hmem] at h
    cases h
  constructor
  · cases hblank : isBlank c with
    | false => rfl
    | true => exact (hother (List.mem_cons_of_mem _ (mem_blankCodes hblank))).elim
  · rintro rfl
    exact hother List.mem_cons_self

end Text
end TypedPerl
