import TypedPerl.Java.Layout
import Mathlib.Data.List.Infix

/-!
# Texts within texts

`Within x y` says that the text `x` occurs in the text `y`. What is generated for a part of a
program occurs in what is generated around it, and this module has the rules for each way to put
code around code: behind and before other code, among arguments, in parentheses that are taken off
again, and in braces.

Braces move lines in. A text of several lines therefore occurs in a body with its further lines
moved in (`Java.hang`); `Shown x y` allows for that any number of times, and means the same as
`Within` for a text of one line.
-/

namespace TypedPerl

/-- A text of two characters or more is what stands between its first and its last. -/
theorem Java.exists_between {cs : List Char} {first last : Char} (hlength : 2 ≤ cs.length)
    (hfirst : cs.head? = some first) (hlast : cs.getLast? = some last) :
    ∃ inner, cs = first :: (inner ++ [last]) := by
  obtain ⟨rest, rfl⟩ := List.head?_eq_some_iff.mp hfirst
  have hrest : rest.getLast? = some last := by
    cases rest with
    | nil => simp at hlength
    | cons a more => simpa using hlast
  obtain ⟨inner, rfl⟩ := List.getLast?_eq_some_iff.mp hrest
  exact ⟨inner, rfl⟩

namespace Text

/-- The text occurs in another one. -/
def Within (x y : String) : Prop :=
  x.toList <:+: y.toList

instance (x y : String) : Decidable (Within x y) :=
  inferInstanceAs (Decidable (x.toList <:+: y.toList))

namespace Within

variable {x y z : String}

theorem refl (x : String) : Within x x :=
  List.infix_refl _

theorem trans (hxy : Within x y) (hyz : Within y z) : Within x z :=
  List.IsInfix.trans hxy hyz

@[grind ←] theorem behind (h : Within x y) (s : String) : Within x (y ++ s) := by
  have hpart : Within y (y ++ s) := by
    rw [Within, String.toList_append]
    exact (List.prefix_append _ _).isInfix
  exact h.trans hpart

@[grind ←] theorem before (s : String) (h : Within x y) : Within x (s ++ y) := by
  have hpart : Within y (s ++ y) := by
    rw [Within, String.toList_append]
    exact (List.suffix_append _ _).isInfix
  exact h.trans hpart

@[grind ←] theorem paren (h : Within x y) : Within x (Java.paren y) :=
  (h.before "(").behind ")"

/-- One of several texts that are joined. -/
theorem join (sep : String) {ys : List String} (h : ∃ y ∈ ys, Within x y) :
    Within x (Text.join sep ys) := by
  obtain ⟨y, hy, hxy⟩ := h
  rw [Text.join]
  induction ys with
  | nil => exact absurd hy List.not_mem_nil
  | cons a rest ih =>
    cases rest with
    | nil =>
      rw [String.intercalate_singleton]
      exact List.mem_singleton.mp hy ▸ hxy
    | cons b more =>
      rw [String.intercalate_cons_cons]
      obtain rfl | hy := List.mem_cons.mp hy
      · exact (hxy.behind _).behind _
      · exact (ih hy).before _

theorem concat {ys : List String} (h : ∃ y ∈ ys, Within x y) : Within x (String.join ys) := by
  obtain ⟨y, hy, hxy⟩ := h
  induction ys with
  | nil => exact absurd hy List.not_mem_nil
  | cons a rest ih =>
    rw [String.join_cons]
    obtain rfl | hy := List.mem_cons.mp hy
    · exact hxy.behind _
    · exact (ih hy).before _

/-- One of several arguments. -/
@[grind ←] theorem call (cls method : String) {args : List String}
    (h : ∃ y ∈ args, Within x y) : Within x (Java.call cls method args) :=
  ((join ", " h).before _).behind ")"

/-- A text among those that are not empty. An empty text occurs anywhere. -/
theorem join_nonEmpty (sep : String) {ys : List String} (h : ∃ y ∈ ys, Within x y) :
    Within x (Text.join sep (Java.nonEmpty ys)) := by
  obtain ⟨y, hy, hxy⟩ := h
  by_cases hempty : y = ""
  · subst hempty
    have hx : x.toList = [] := List.infix_nil.mp hxy
    rw [Within, hx]
    exact List.nil_infix
  · apply join
    exact ⟨y, List.mem_filter.mpr ⟨hy, by simpa using hempty⟩, hxy⟩

theorem arrayInitializer (t : Ty) {items : List String} (h : ∃ y ∈ items, Within x y) :
    Within x (Java.arrayInitializer t items) :=
  ((join ", " h).before _).behind _

/-- Code without the parentheses around it, between parentheses again. -/
theorem unparen (h : Within x y) (pre post : String) :
    Within x (pre ++ "(" ++ Java.unparen y ++ ")" ++ post) := by
  -- either nothing was taken off, or just the two characters that are put back
  unfold Java.unparen
  dsimp only
  split
  · next hcond =>
    simp only [Bool.and_eq_true, decide_eq_true_eq] at hcond
    obtain ⟨⟨⟨hlength, hfirst⟩, hlast⟩, -⟩ := hcond
    obtain ⟨inner, hinner⟩ := Java.exists_between hlength hfirst hlast
    have heq : pre ++ "(" ++ String.ofList ((y.toList.drop 1).take (y.toList.length - 2)) ++ ")" ++
        post = pre ++ y ++ post := by
      apply String.toList_injective
      simp [String.toList_append, hinner]
    rw [heq]
    exact (h.before pre).behind post
  · exact ((h.before _).behind _).behind post

end Within

end Text

open Text (Within)

namespace Java

/-! ## Lines that are moved in -/

/-- A text that starts within a line, with all further lines moved in. -/
def hang (code : String) : String :=
  String.ofList (indentFrom false code.toList)

/-- The place behind a text is the start of a line. -/
def startsLine (start : Bool) : List Char → Bool
  | [] => start
  | c :: rest => startsLine (c = '\n') rest

theorem indentFrom_append (start : Bool) (xs ys : List Char) :
    indentFrom start (xs ++ ys) =
      indentFrom start xs ++ indentFrom (startsLine start xs) ys := by
  induction xs generalizing start with
  | nil => rfl
  | cons c rest ih =>
    by_cases hc : c = '\n'
    · simp [indentFrom, startsLine, hc, ih]
    · simp [indentFrom, startsLine, hc, ih]

/-- At the start of a line there may be room before the text. -/
theorem hang_part (start : Bool) (xs : List Char) :
    indentFrom false xs <:+: indentFrom start xs := by
  cases xs with
  | nil => exact List.nil_infix
  | cons c rest =>
    unfold indentFrom
    by_cases hc : c = '\n'
    · simp [hc]
    · simp only [hc, if_false]
      exact (List.suffix_append _ _).isInfix

/-- What occurs in a text occurs in it when its lines are moved in. -/
theorem hang_within_indentFrom {x y : String} (start : Bool) (h : Within x y) :
    (hang x).toList <:+: indentFrom start y.toList := by
  obtain ⟨pre, post, hy⟩ := h
  rw [← hy, indentFrom_append, indentFrom_append, hang, String.toList_ofList]
  exact (hang_part _ _).trans ⟨_, _, rfl⟩

theorem hang_of_one_line {x : String} (h : '\n' ∉ x.toList) : hang x = x := by
  have hsame : ∀ xs : List Char, '\n' ∉ xs → indentFrom false xs = xs := by
    intro xs
    induction xs with
    | nil => exact fun _ => rfl
    | cons c rest ih =>
      intro hxs
      obtain ⟨hc, hrest⟩ := not_or.mp (mt List.mem_cons.mpr hxs)
      simp [indentFrom, Ne.symm hc, ih hrest]
  rw [hang, hsame x.toList h, String.ofList_toList]

end Java

namespace Text

/-- The text occurs in another one, apart from the room before its further lines. -/
def Shown (x y : String) : Prop :=
  ∃ times, Within (Java.hang^[times] x) y

namespace Shown

variable {x y z : String}

theorem of_within (h : Within x y) : Shown x y :=
  ⟨0, h⟩

theorem within (h : Shown x y) (hyz : Within y z) : Shown x z := by
  obtain ⟨times, h⟩ := h
  exact ⟨times, h.trans hyz⟩

theorem braces (h : Shown x y) : Shown x (Java.braces [y]) := by
  obtain ⟨times, h⟩ := h
  refine ⟨times + 1, ?_⟩
  rw [Function.iterate_succ_apply']
  have hindent : Within (Java.hang (Java.hang^[times] x)) (Java.indent y) := by
    rw [Within, Java.indent, String.toList_ofList]
    exact Java.hang_within_indentFrom true h
  have hbraces : Java.braces [y] = "\x7b\n" ++ Java.indent y ++ "\n\x7d" := by
    simp [Java.braces, Text.join, String.intercalate_singleton]
  rw [hbraces]
  exact (hindent.before _).behind _

/-- A text of one line occurs as it is. -/
theorem within_of_one_line (h : Shown x y) (hx : '\n' ∉ x.toList) : Within x y := by
  obtain ⟨times, h⟩ := h
  have hsame : Java.hang^[times] x = x := Function.iterate_fixed (Java.hang_of_one_line hx) times
  rwa [hsame] at h

end Shown

end Text

end TypedPerl
