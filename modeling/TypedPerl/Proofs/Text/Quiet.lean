import Mathlib.Data.List.Infix
import TypedPerl.Proofs.Text.Within

/-!
# Texts that bring in no word

A text is `Quiet` when, put behind any other text, it brings in no occurrence of `supplier`: neither
one of its own nor one that begins in the text before it. Quiet texts can therefore be put behind
each other, and a text that is made of them holds no such word at all.
-/

namespace TypedPerl.Text

/-- A word that stands in generated code only where an error is raised. -/
def supplier : String := "Supplier<"

/-- The last two characters of the word are told from the others. -/
theorem toList_supplier :
    supplier.toList = ['S', 'u', 'p', 'p', 'l', 'i', 'e'] ++ ['r', '<'] :=
  String.toList_ofList

/-- Put behind any text, the text brings in no supplier. -/
def Quiet (s : String) : Prop :=
  ∀ y, Within supplier (y ++ s) → Within supplier y

namespace Quiet

variable {x y : String}

theorem not_within (h : Quiet x) : ¬Within supplier x := by
  intro hx
  have hempty : Within supplier "" := h "" (by simpa using hx)
  have hnil : supplier.toList = [] := List.infix_nil.mp hempty
  rw [toList_supplier] at hnil
  cases hnil

theorem append (hx : Quiet x) (hy : Quiet y) : Quiet (x ++ y) := by
  -- what is in front of the second text is the text before both with the first behind it
  intro z hz
  rw [← String.append_assoc] at hz
  exact hx z (hy _ hz)

/-- A text is quiet when it does not go on with the end of the word and holds no such end. -/
theorem of_ends (hhead : x.toList.head? ≠ some '<') (hpair : ¬['r', '<'] <:+: x.toList) :
    Quiet x := by
  intro z ⟨pre, post, heq⟩
  rw [String.toList_append] at heq
  rcases List.append_eq_append_iff.mp heq with ⟨rest, hz, -⟩ | ⟨rest, hpre, hx⟩
  · -- the word ends within the text before
    exact ⟨pre, rest, hz.symm⟩
  rw [toList_supplier, ← List.append_assoc] at hpre
  rcases List.append_eq_append_iff.mp hpre with ⟨before, hz, hends⟩ | ⟨before, -, hrest⟩
  · -- one of its last two characters is the first behind the text before, or neither is
    match before, hends with
    | [], hends =>
      exact absurd ⟨[], post, by rw [hx, hends]; rfl⟩ hpair
    | [_], hends =>
      have hrest : ['<'] = rest := (List.cons.inj hends).2
      exact absurd (by rw [hx, ← hrest]; rfl) hhead
    | [a, b], hends =>
      have hboth : ['r', '<'] = [a, b] := by
        cases hends
        rfl
      exact ⟨pre, [], by rw [List.append_nil, hz, toList_supplier, hboth, List.append_assoc]⟩
    | _ :: _ :: _ :: _, hends => cases hends
  · -- both stand behind it
    exact absurd ⟨before, post, by rw [hx, hrest]⟩ hpair

theorem of_not_mem (h : '<' ∉ x.toList) : Quiet x := by
  refine of_ends (fun hhead => h (List.mem_of_mem_head? hhead)) fun hpair => ?_
  exact h (hpair.subset (by simp))

theorem chars {cs : List Char} (h : '<' ∉ cs) : Quiet (String.ofList cs) :=
  of_not_mem (by rwa [String.toList_ofList])

/-- A text that is written out: its characters are looked through. -/
theorem lit {cs : List Char} (h : decide ('<' ∉ cs) = true) : Quiet (String.ofList cs) :=
  chars (of_decide_eq_true h)

/-- A text that is written out and holds the last character of the word, but not behind the one
before it. -/
theorem angle (cs : List Char)
    (h : decide (cs.head? ≠ some '<' ∧ ¬['r', '<'] <:+: cs) = true) : Quiet (String.ofList cs) := by
  obtain ⟨hhead, hpair⟩ := of_decide_eq_true h
  exact of_ends (by rwa [String.toList_ofList]) (by rwa [String.toList_ofList])

theorem empty : Quiet "" :=
  chars List.not_mem_nil

theorem before {cs : List Char} (h : decide ('<' ∉ cs) = true) (hx : Quiet x) :
    Quiet (String.ofList cs ++ x) :=
  (lit h).append hx

theorem behind {cs : List Char} (hx : Quiet x) (h : decide ('<' ∉ cs) = true) :
    Quiet (x ++ String.ofList cs) :=
  hx.append (lit h)

theorem between {cs : List Char} (hx : Quiet x) (h : decide ('<' ∉ cs) = true) (hy : Quiet y) :
    Quiet (x ++ String.ofList cs ++ y) :=
  (hx.behind h).append hy

theorem join {sep : String} (hsep : Quiet sep) {ys : List String} (h : ∀ y ∈ ys, Quiet y) :
    Quiet (Text.join sep ys) := by
  rw [Text.join]
  induction ys with
  | nil => exact empty
  | cons a rest ih =>
    obtain ⟨ha, hrest⟩ := List.forall_mem_cons.mp h
    cases rest with
    | nil =>
      rw [String.intercalate_singleton]
      exact ha
    | cons b more =>
      rw [String.intercalate_cons_cons]
      exact (ha.append hsep).append (ih hrest)

theorem concat {ys : List String} (h : ∀ y ∈ ys, Quiet y) : Quiet (String.join ys) := by
  induction ys with
  | nil => exact empty
  | cons a rest ih =>
    obtain ⟨ha, hrest⟩ := List.forall_mem_cons.mp h
    rw [String.join_cons]
    exact ha.append (ih hrest)

theorem call {cls method : String} (hcls : Quiet cls) (hmethod : Quiet method)
    {args : List String} (h : ∀ y ∈ args, Quiet y) : Quiet (Java.call cls method args) :=
  .behind (.between (.between hcls rfl hmethod) rfl (join (.lit rfl) h)) rfl

end Quiet

end TypedPerl.Text
