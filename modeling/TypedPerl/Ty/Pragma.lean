import TypedPerl.Ty.Tag

/-!
# Type texts

Reads the text of a type pragma: tags in angle brackets, with blanks anywhere around a tag and
around the name in it. Tag names are known in either case; any other name in the last tag is the
name of an object class, if it has the form of one.

The text is any row of bytes (`parseBytes`), and a refusal holds these bytes. What is a letter or a
digit in the name of a class depends on the version of the character data.
-/

namespace TypedPerl.Ty

open Text (Symbol)

/-- The tag code of a lower-case tag name. -/
def tagCodeOfName? (name : String) : Option UInt8 :=
  match name with
  | "integer" | "int" => some Kind.integer.tagCode
  | "long" => some Kind.long.tagCode
  | "float" => some Kind.float.tagCode
  | "double" => some Kind.double.tagCode
  | "string" => some Kind.string.tagCode
  | "number" => some Kind.number.tagCode
  | "boolean" => some Kind.boolean.tagCode
  | "file" => some Kind.file.tagCode
  | "box" => some Kind.box.tagCode
  | "array" => some Shape.array.tagCode
  | "list" => some Shape.list.tagCode
  | "map" | "hash" => some Shape.map.tagCode
  | "ref" => some refCode
  | _ => none

/-- The first byte of a name, taken for a character of its own, is a capital letter: one of ASCII
or of the upper half of the one-byte characters. -/
def startsUpper (name : String) : Bool :=
  match (Text.encode name.toList).head? with
  | some b => (65 ≤ b && b ≤ 90) || (0xc0 ≤ b && b ≤ 0xde && b != 0xd7)
  | none => false

/-- The form of a class name: it starts with a capital letter and holds letters, digits,
underscores and dots only. -/
def isObjectName (e : Text.Edition) (name : String) : Bool :=
  startsUpper name &&
    name.toList.all fun c => Text.isLetter e c || Text.isDecimalDigit e c || c == '_' || c == '.'

/-! ## Names in bytes -/

/-- The symbols without the blanks at both ends. A byte that is part of no character is no
blank. -/
def trimSymbols (ss : List Symbol) : List Symbol :=
  let isBlank (s : Symbol) : Bool := s.char?.any Text.isBlank
  ((ss.dropWhile isBlank).reverse.dropWhile isBlank).reverse

/-- The text of symbols, if all of them are characters. -/
def nameOf? (ss : List Symbol) : Option String :=
  (ss.mapM Symbol.char?).map String.ofList

/-- The tag code of a name in either case. -/
def tagCode? (name : List Symbol) : Option UInt8 :=
  (nameOf? name).bind fun n => tagCodeOfName? (Text.lower n)

/-- The name of a class. A byte that is part of no character is neither a letter nor a digit. -/
def objectName? (e : Text.Edition) (name : List Symbol) : Option String :=
  (nameOf? name).filter (isObjectName e)

/-! ## Reading -/

/-- Reads tags up to the end of the symbols, which have no blank at either end. The codes read so
far come innermost first; the fuel bounds the number of tags. -/
def readTags (e : Text.Edition) :
    Nat → List UInt8 → List Symbol → Except (TagReason (List UInt8)) (List UInt8 × String)
  | _, codes, [] => .ok (codes.reverse, "")
  | 0, _, _ :: _ => .error .expectedOpen
  | fuel + 1, codes, s :: ss =>
    if s ≠ .char '<' then .error .expectedOpen
    else if !ss.contains (.char '>') then .error .unterminated
    else
      let name := trimSymbols (ss.takeWhile (· ≠ .char '>'))
      let rest := trimSymbols ((ss.dropWhile (· ≠ .char '>')).drop 1)
      match tagCode? name with
      | some code => readTags e fuel (code :: codes) rest
      | none =>
        match objectName? e name with
        | none => .error (.unknown (name.flatMap Symbol.bytes))
        | some n =>
          if !rest.isEmpty then .error (.objectNotTerminal (name.flatMap Symbol.bytes))
          else .ok ((objectCode :: codes).reverse, n)

/-- The type that bytes denote. -/
def parseBytes (e : Text.Edition) (input : List UInt8) : Except (TagFault (List UInt8)) Ty :=
  let ss := trimSymbols (Text.symbols input)
  let result : Except (TagReason (List UInt8)) Ty := do
    if ss.isEmpty then throw .empty
    let (codes, name) ← readTags e ss.length [] ss
    (ofTags codes name).mapError (TagReason.map fun n => Text.encode n.toList)
  result.mapError (TagFault.mk input)

/-- The type that a text denotes. -/
def parse (input : String) : Except TagFault Ty :=
  (parseBytes .current (Text.encode input.toList)).mapError (TagFault.map Text.ofBytes)

end TypedPerl.Ty
