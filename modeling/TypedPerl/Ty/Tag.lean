import TypedPerl.Ty.Basic
import TypedPerl.Text.Quoted

/-!
# Linear form of types

A type is written down as a row of tag codes, outermost first, with the class name beside it when
the innermost type is an object. `Ty.tagCodes` writes the row and `Ty.ofTagCodes` reads it back;
it refuses a row that does not end in a terminal, that has a terminal further out, or that has a
reference anywhere but outermost.
-/

namespace TypedPerl

/-! ## Faults -/

/-- Why a row of tags or a type text is no type. Names are texts, or rows of bytes. -/
inductive TagReason (τ : Type := String) where
  /-- There is no tag at all. -/
  | empty
  /-- A tag does not start with its bracket. -/
  | expectedOpen
  /-- A tag has no closing bracket. -/
  | unterminated
  /-- The name of a tag is not known. -/
  | unknown (name : τ)
  /-- An object class has tags after it. -/
  | objectNotTerminal (name : τ)
  /-- The object tag comes without a class name. -/
  | unnamedObject
  /-- The last tag is no terminal. -/
  | noTerminal
  /-- A reference stands below another tag. -/
  | innerRef
  /-- A terminal stands above another tag. -/
  | innerTerminal
deriving DecidableEq, Repr

/-- The reason with its name in another form. -/
def TagReason.map {τ σ : Type} (f : τ → σ) : TagReason τ → TagReason σ
  | .empty => .empty
  | .expectedOpen => .expectedOpen
  | .unterminated => .unterminated
  | .unknown n => .unknown (f n)
  | .objectNotTerminal n => .objectNotTerminal (f n)
  | .unnamedObject => .unnamedObject
  | .noTerminal => .noTerminal
  | .innerRef => .innerRef
  | .innerTerminal => .innerTerminal

/-- The wording of a reason. -/
def TagReason.message : TagReason → String
  | .empty => "empty type"
  | .expectedOpen => "expected '<'"
  | .unterminated => "unterminated tag"
  | .unknown n => "unknown tag <" ++ n ++ ">"
  | .objectNotTerminal n => "object type <" ++ n ++ "> must be terminal"
  | .unnamedObject => "opaque type without a name"
  | .noTerminal => "type does not end in a terminal"
  | .innerRef => "ref must be the outermost tag"
  | .innerTerminal => "terminal tag in non-terminal position"

/-- A refused type: the text that was read, empty when there was none, and the reason. -/
structure TagFault (τ : Type := String) where
  /-- The text that was read. -/
  input : τ
  /-- Why it is no type. -/
  reason : TagReason τ
deriving DecidableEq, Repr

/-- The fault with its text in another form. -/
def TagFault.map {τ σ : Type} (f : τ → σ) (fault : TagFault τ) : TagFault σ :=
  ⟨f fault.input, fault.reason.map f⟩

/-- The wording of a refused type. -/
def TagFault.message (f : TagFault) : String :=
  if f.input = "" then "invalid type: " ++ f.reason.message
  else "invalid type " ++ Text.quote f.input ++ ": " ++ f.reason.message

/-! ## Tag codes -/

/-- The code of a kind, from 1 to 9. -/
def Kind.tagCode : Kind → UInt8
  | .integer => 1
  | .long => 2
  | .float => 3
  | .double => 4
  | .string => 5
  | .number => 6
  | .boolean => 7
  | .file => 8
  | .box => 9

/-- The code of an object class. -/
def objectCode : UInt8 := 10

/-- The code of a shape, from 11 to 13. -/
def Shape.tagCode : Shape → UInt8
  | .array => 11
  | .list => 12
  | .map => 13

/-- The code of a reference. -/
def refCode : UInt8 := 14

/-- The kind that a code stands for. -/
def Kind.ofTagCode? (c : UInt8) : Option Kind :=
  if c = 1 then some .integer
  else if c = 2 then some .long
  else if c = 3 then some .float
  else if c = 4 then some .double
  else if c = 5 then some .string
  else if c = 6 then some .number
  else if c = 7 then some .boolean
  else if c = 8 then some .file
  else if c = 9 then some .box
  else none

/-- The shape that a code stands for. -/
def Shape.ofTagCode? (c : UInt8) : Option Shape :=
  if c = 11 then some .array
  else if c = 12 then some .list
  else if c = 13 then some .map
  else none

namespace Ty

/-- The tag codes of a type, outermost first. -/
def tagCodes : Ty → List UInt8
  | scalar k => [k.tagCode]
  | object _ => [objectCode]
  | agg s e => s.tagCode :: e.tagCodes
  | ref e => refCode :: e.tagCodes

/-- The class name that goes with the tag codes: empty when the innermost type is no object. -/
def objectName : Ty → String
  | scalar _ => ""
  | object n => n
  | agg _ e | ref e => e.objectName

/-- The terminal that the last code stands for. -/
def ofTerminalCode (name : String) (c : UInt8) : Except TagReason Ty :=
  match Kind.ofTagCode? c with
  | some k => .ok (.scalar k)
  | none =>
    if c = objectCode then
      if name = "" then .error .unnamedObject else .ok (.object name)
    else .error .noTerminal

/-- Puts the level that a code stands for above a type. Only an outermost code may be a
reference. -/
def pushCode (outermost : Bool) (c : UInt8) (t : Ty) : Except TagReason Ty :=
  match Shape.ofTagCode? c with
  | some s => .ok (.agg s t)
  | none =>
    if c = refCode then
      if outermost then .ok (.ref t) else .error .innerRef
    else .error .innerTerminal

/-- The type of a row of codes. The row is judged from its end, so the innermost fault counts. -/
def ofTagCodes (name : String) (outermost : Bool) : List UInt8 → Except TagReason Ty
  | [] => .error .empty
  | [c] => ofTerminalCode name c
  | c :: d :: rest =>
    match ofTagCodes name false (d :: rest) with
    | .ok t => pushCode outermost c t
    | .error e => .error e

/-- The type of a whole row of codes. -/
def ofTags (codes : List UInt8) (name : String) : Except TagReason Ty :=
  ofTagCodes name true codes

end Ty

end TypedPerl
