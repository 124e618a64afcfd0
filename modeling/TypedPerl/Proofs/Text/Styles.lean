import Mathlib.Data.List.Infix

/-!
# Texts with styles

A terminal shows what follows a style sequence in another style: an escape, a bracket, numbers
between semicolons, and an `m`. `dropStyles` takes these sequences out of a text. Texts that hold
none are `Unstyled`; they stay as they are among style sequences, as long as each is followed by a
character that no sequence goes on with (`dropStylesFrom_append`).
-/

namespace TypedPerl.Text

/-- The character that begins a style sequence. -/
def escape : Char := '\x1b'

/-- A character of the numbers in a style sequence. -/
def isStyleNumber (c : Char) : Bool :=
  c.isDigit || c = ';'

/-- The length of what is left of a style sequence behind its bracket, if it is complete. -/
def styleEnd? : List Char → Option Nat
  | [] => none
  | c :: cs =>
    if c = 'm' then some 1
    else if isStyleNumber c then (styleEnd? cs).map (· + 1)
    else none

/-- The length of the style sequence that a text begins with, if there is one. -/
def styleLength? : List Char → Option Nat
  | c :: d :: cs => if c = escape ∧ d = '[' then (styleEnd? cs).map (· + 2) else none
  | _ => none

/-- A text without its style sequences; the first `skip` characters belong to one. -/
def dropStylesFrom : Nat → List Char → List Char
  | _, [] => []
  | skip + 1, _ :: cs => dropStylesFrom skip cs
  | 0, c :: cs =>
    match styleLength? (c :: cs) with
    | some n => dropStylesFrom (n - 1) cs
    | none => c :: dropStylesFrom 0 cs

/-- A text without its style sequences. -/
def dropStyles (s : String) : String :=
  String.ofList (dropStylesFrom 0 s.toList)

/-- No style sequence begins anywhere in the text. -/
def Unstyled (cs : List Char) : Prop :=
  ∀ rest, rest <:+ cs → styleLength? rest = none

/-- The text does not begin with a character that goes on with a style sequence. -/
def Bars (cs : List Char) : Prop :=
  ∀ c ∈ cs.head?, c ≠ 'm' ∧ c ≠ '[' ∧ isStyleNumber c = false

theorem Bars.cons {c : Char} (h : c ≠ 'm' ∧ c ≠ '[' ∧ isStyleNumber c = false)
    (cs : List Char) : Bars (c :: cs) := by
  rintro _ ⟨⟩
  exact h

/-! ## Sequences in texts that are put together -/

theorem styleEnd?_append {cs : List Char} (h : styleEnd? cs = none) {rest : List Char}
    (hrest : Bars rest) : styleEnd? (cs ++ rest) = none := by
  induction cs with
  | nil =>
    -- the numbers reach the end of the text, so what follows decides: it neither goes on with a
    -- number nor ends the style
    cases rest with
    | nil => rfl
    | cons d rest =>
      obtain ⟨hm, -, hnumber⟩ := hrest d rfl
      simp [styleEnd?, hm, hnumber]
  | cons c cs ih =>
    unfold styleEnd? at h
    rw [List.cons_append, styleEnd?]
    split at h
    · cases h
    · next hm =>
      rw [if_neg hm]
      split at h
      · next hnumber =>
        rw [if_pos hnumber, ih (Option.map_eq_none_iff.mp h)]
        rfl
      · next hnumber => rw [if_neg hnumber]

/-- A sequence that is not completed in a text is not completed behind it. -/
theorem styleLength?_append {c : Char} {cs : List Char} (h : styleLength? (c :: cs) = none)
    {rest : List Char} (hrest : Bars rest) : styleLength? (c :: cs ++ rest) = none := by
  match cs with
  | [] =>
    -- an escape alone begins a style only before an opening bracket, and none follows
    cases rest with
    | nil => rfl
    | cons d rest =>
      obtain ⟨-, hbracket, -⟩ := hrest d rfl
      exact if_neg fun hstart => hbracket hstart.2
  | d :: cs =>
    rw [styleLength?] at h
    rw [List.cons_append, List.cons_append, styleLength?]
    by_cases hstart : c = escape ∧ d = '['
    · rw [if_pos hstart] at h ⊢
      rw [styleEnd?_append (Option.map_eq_none_iff.mp h) hrest]
      rfl
    · rw [if_neg hstart]

namespace Unstyled

variable {cs ds : List Char}

theorem of_cons {c : Char} (h : Unstyled (c :: cs)) : Unstyled cs :=
  fun rest hrest => h rest (hrest.trans (List.suffix_cons c cs))

/-- A text without the character that begins sequences has none. -/
theorem of_not_mem (h : escape ∉ cs) : Unstyled cs := by
  intro rest hrest
  match rest with
  | [] => rfl
  | [_] => rfl
  | c :: d :: rest =>
    refine if_neg fun hstart => h ?_
    exact hstart.1 ▸ hrest.subset List.mem_cons_self

theorem append (hcs : Unstyled cs) (hds : Unstyled ds) (hbars : Bars ds) :
    Unstyled (cs ++ ds) := by
  induction cs with
  | nil => exact hds
  | cons c cs ih =>
    intro rest hrest
    rw [List.cons_append] at hrest
    rcases List.suffix_cons_iff.mp hrest with rfl | hrest
    · exact styleLength?_append (hcs _ List.suffix_rfl) hbars
    · exact ih hcs.of_cons rest hrest

/-- No sequence goes on from a text without the character that begins them. -/
theorem behind (h : escape ∉ cs) (hds : Unstyled ds) : Unstyled (cs ++ ds) := by
  induction cs with
  | nil => exact hds
  | cons c cs ih =>
    obtain ⟨hc, hcs⟩ := not_or.mp (mt List.mem_cons.mpr h)
    intro rest hrest
    rw [List.cons_append] at hrest
    rcases List.suffix_cons_iff.mp hrest with rfl | hrest
    · match cs ++ ds with
      | [] => rfl
      | _ :: _ => exact if_neg fun hstart => hc hstart.1.symm
    · exact ih hcs rest hrest

end Unstyled

/-! ## Dropping styles -/

/-- A text that holds no style sequence stays. -/
theorem dropStylesFrom_append {cs rest : List Char} (h : Unstyled cs) (hrest : Bars rest) :
    dropStylesFrom 0 (cs ++ rest) = cs ++ dropStylesFrom 0 rest := by
  induction cs with
  | nil => rfl
  | cons c cs ih =>
    have hnone := styleLength?_append (h _ List.suffix_rfl) hrest
    rw [List.cons_append] at hnone ⊢
    rw [dropStylesFrom, hnone]
    dsimp only
    rw [ih h.of_cons, List.cons_append]

theorem dropStylesFrom_unstyled {cs : List Char} (h : Unstyled cs) : dropStylesFrom 0 cs = cs := by
  have hnil : Bars [] := fun _ hc => nomatch hc
  have hstays := dropStylesFrom_append h hnil
  rwa [List.append_nil, dropStylesFrom, List.append_nil] at hstays

end TypedPerl.Text
