import TypedPerl.Java.Ty
import TypedPerl.Text.Quoted

/-!
# Layout of generated code

Indentation, braces and redundant parentheses.
-/

namespace TypedPerl.Java

/-- Moves every line that is not empty in by one step; `start` holds at the start of a line. -/
def indentFrom (start : Bool) : List Char → List Char
  | [] => []
  | c :: rest =>
    if c = '\n' then '\n' :: indentFrom true rest
    else (if start then [' ', ' ', ' ', ' '] else []) ++ c :: indentFrom false rest

/-- A text with every line that is not empty moved in by one step. -/
def indent (code : String) : String :=
  String.ofList (indentFrom true code.toList)

/-- Lines in braces. -/
def braces (lines : List String) : String :=
  if lines.isEmpty then "\x7b\n\x7d"
  else "\x7b\n" ++ indent (Text.join "\n" lines) ++ "\n\x7d"

/-- The texts that are not empty. -/
def nonEmpty (texts : List String) : List String :=
  texts.filter (· ≠ "")

/-! ## Parentheses -/

/-- A closing parenthesis before the last character brings the nesting to zero. `literal` is the
mark that ends the literal in which the code starts. -/
def closesEarly : Option Char → Int → List Char → Bool
  | _, _, [] => false
  | some _, _, ['\\'] => false
  | some mark, level, '\\' :: _ :: rest => closesEarly (some mark) level rest
  | some mark, level, c :: rest =>
    closesEarly (if c = mark then none else some mark) level rest
  | none, level, c :: rest =>
    if c = '"' || c = Text.tick then closesEarly (some c) level rest
    else if c = '(' then closesEarly none (level + 1) rest
    else if c = ')' then
      (level - 1 = 0 && !rest.isEmpty) || closesEarly none (level - 1) rest
    else closesEarly none level rest

/-- Code without one pair of parentheses around the whole of it. -/
def unparen (code : String) : String :=
  let cs := code.toList
  if 2 ≤ cs.length && cs.head? = some '(' && cs.getLast? = some ')' && !closesEarly none 0 cs then
    String.ofList ((cs.drop 1).take (cs.length - 2))
  else code

end TypedPerl.Java
