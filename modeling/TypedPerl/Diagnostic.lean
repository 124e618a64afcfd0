import TypedPerl.Ty.Tag

/-!
# Faults and diagnostics

A fault is what keeps a unit from being compiled: two types that do not convert, a construct
without a counterpart, a missing package, or a diagnostic, which is a message with a code and a
source position. Faults may stand inside one another: a context puts words before a fault, and a
diagnostic keeps the fault it was made from. `Fault.locate` turns a fault into a diagnostic; one
that already holds a diagnostic keeps it, and only gets a position if it had none.
-/

namespace TypedPerl

/-! ## Positions -/

/-- A source position. Fields that are not known are empty or zero. -/
structure Pos where
  /-- The file. -/
  file : String
  /-- The line, counted from 1. -/
  line : Int
  /-- The column, counted from 1. -/
  column : Int
deriving DecidableEq, Repr, Inhabited

namespace Pos

/-- The position of which nothing is known. -/
def unknown : Pos := ⟨"", 0, 0⟩

/-- The text of a position: the file, then the line and the column as far as they are known. -/
def toText (p : Pos) : String :=
  if 0 < p.line then
    if 0 < p.column then p.file ++ ":" ++ toString p.line ++ ":" ++ toString p.column
    else p.file ++ ":" ++ toString p.line
  else p.file

end Pos

/-! ## Codes -/

/-- The code of a diagnostic. -/
inductive Code where
  /-- Types that do not convert. -/
  | incompatible
  /-- A variable that is not declared. -/
  | undeclared
  /-- A declaration without a type. -/
  | untyped
  /-- A package that is not known. -/
  | unknownPackage
  /-- A package variable outside a package. -/
  | ourOutside
  /-- A subroutine that is not known. -/
  | unknownSub
  /-- A construct that has no counterpart. -/
  | unsupported
  /-- A tree document that cannot be read. -/
  | invalidTree
  /-- A code of some other program. -/
  | other (text : String)
deriving DecidableEq, Repr, Inhabited

namespace Code

/-- The text of a code. -/
def toText : Code → String
  | incompatible => "T001"
  | undeclared => "S001"
  | untyped => "S002"
  | unknownPackage => "S003"
  | ourOutside => "S004"
  | unknownSub => "S005"
  | unsupported => "G001"
  | invalidTree => "L001"
  | other t => t

/-- The code of a text. -/
def ofText (s : String) : Code :=
  match s with
  | "T001" => incompatible
  | "S001" => undeclared
  | "S002" => untyped
  | "S003" => unknownPackage
  | "S004" => ourOutside
  | "S005" => unknownSub
  | "G001" => unsupported
  | "L001" => invalidTree
  | t => other t

/-- A short name for a code. -/
def title : Code → String
  | incompatible => "incompatible types"
  | undeclared => "undeclared variable"
  | untyped => "untyped declaration"
  | unknownPackage => "unknown package"
  | ourOutside => "our outside package"
  | unknownSub => "unknown subroutine"
  | unsupported => "unsupported construct"
  | invalidTree => "invalid tree"
  | other _ => ""

end Code

/-! ## Faults -/

/-- A message with a code and a position. -/
structure Report where
  /-- The code. -/
  code : Code
  /-- The position. -/
  pos : Pos
  /-- The message. -/
  message : String
deriving DecidableEq, Repr, Inhabited

/-- The text of a diagnostic. -/
def Report.toText (r : Report) : String :=
  let pos := r.pos.toText
  (if pos = "" then "" else pos ++ ": ") ++ "error [" ++ r.code.toText ++ "]: " ++ r.message

/-- What keeps a unit from being compiled. -/
inductive Fault where
  /-- A fault that is no more than its words. -/
  | plain (text : String)
  /-- No conversion leads from one type to the other. -/
  | incompatible (src dest : Option Ty)
  /-- A text or a row of tags is no type. -/
  | tag (fault : TagFault)
  /-- A construct has no counterpart. -/
  | unsupported (what : String)
  /-- A node was generated before. -/
  | alreadyGenerated
  /-- A package was never exported. -/
  | packageNotFound
  /-- A document holds itself, so that reading it has no end. -/
  | endless
  /-- A fault with words before it. -/
  | context (words : String) (inner : Fault)
  /-- A diagnostic, and the fault that it was made from. -/
  | report (report : Report) (cause : Option Fault)
deriving Repr, Inhabited

/-- The pragma form of a type that may be missing. -/
def optTyText : Option Ty → String
  | some t => t.toText
  | none => "%!s(<nil>)"

namespace Fault

/-- The words of a fault. -/
def message : Fault → String
  | plain t => t
  | incompatible s d => "cannot convert " ++ optTyText s ++ " to " ++ optTyText d
  | tag f => f.message
  | unsupported w => "unsupported: " ++ w
  | alreadyGenerated => "node output already generated"
  | packageNotFound => "package not found in catalog"
  | endless => "document holds itself"
  | context w inner => w ++ ": " ++ inner.message
  | report r _ => r.toText

/-- The outermost diagnostic in a fault, with its cause. -/
def report? : Fault → Option (Report × Option Fault)
  | report r c => some (r, c)
  | context _ inner => inner.report?
  | _ => none

/-- The innermost fault: what is left without contexts and diagnostics around it. -/
def root : Fault → Fault
  | context _ inner => inner.root
  | report _ (some c) => c.root
  | f => f

/-- The fault, or one inside it, is a refused conversion. -/
def isIncompatible : Fault → Bool
  | incompatible _ _ => true
  | context _ inner => inner.isIncompatible
  | report _ (some c) => c.isIncompatible
  | _ => false

/-- Turns a fault into a diagnostic. A diagnostic in it stays as it is, but for a position that
was not known at all. -/
def locate (code : Code) (pos : Pos) (f : Fault) : Fault :=
  match f.report? with
  | some (r, c) => .report (if r.pos = .unknown then { r with pos := pos } else r) c
  | none => .report ⟨code, pos, f.message⟩ (some f)

/-- Turns a fault into a diagnostic whose code follows from it: types that do not convert, or else
a construct that has no counterpart. -/
def diagnose (pos : Pos) (f : Fault) : Fault :=
  f.locate (if f.isIncompatible then .incompatible else .unsupported) pos

/-! ## Showing a fault -/

/-- The terminal sequence for red and bold. -/
def redOn : String := "\x1b[31;1m"
/-- The terminal sequence for bold. -/
def boldOn : String := "\x1b[1m"
/-- The terminal sequence that ends a style. -/
def styleOff : String := "\x1b[0m"

/-- The text of a fault for a terminal, in colour if wanted. Only a diagnostic has colours. -/
def format (color : Bool) (f : Fault) : String :=
  match f.report? with
  | none => f.message
  | some (r, _) =>
    let pos := r.pos.toText
    let label := "error [" ++ r.code.toText ++ "]"
    let place := if pos = "" then "" else
      (if color then boldOn ++ pos ++ styleOff else pos) ++ ": "
    place ++ (if color then redOn ++ label ++ styleOff else label) ++ ": " ++ r.message

end Fault

end TypedPerl
