import TypedPerl.Text.Class

/-!
# Reserved names

The identifiers that are never written into the generated class for a name of the source: the
words of the target language, the classes of the runtime library and of the framework that the
class runs in, and everything that starts like a generated name.
-/

namespace TypedPerl.Name

/-- How every generated name starts. -/
def generatedStart : String := "pd_"

/-- The words of the target language. -/
def keywords : List String :=
  ["abstract", "continue", "for", "new", "switch",
    "assert", "default", "goto", "package", "synchronized",
    "boolean", "do", "if", "private", "this",
    "break", "double", "implements", "protected", "throw",
    "byte", "else", "import", "public", "throws",
    "case", "enum", "instanceof", "return", "transient",
    "catch", "extends", "int", "short", "try",
    "char", "final", "interface", "static", "void",
    "class", "finally", "long", "strictfp", "volatile",
    "const", "float", "native", "super", "while",
    "true", "false", "null"]

/-- The classes that a generated class relies on. -/
def runtimeNames : List String :=
  ["IOException", "Box", "Casting", "Pd", "Perl", "PerlFile", "PerlList", "PerlMap", "Ref",
    "Regex", "__", "Text", "Mapper", "Reducer"]

/-- A name that may not be written as it is. -/
def isReserved (id : String) : Bool :=
  id == "" || id == "_" || runtimeNames.contains id || keywords.contains id ||
    generatedStart.isPrefixOf id

/-! ## Normal form -/

/-- A letter or digit of ASCII. -/
def isAlnumByte (b : UInt8) : Bool :=
  (97 ≤ b && b ≤ 122) || (65 ≤ b && b ≤ 90) || (48 ≤ b && b ≤ 57)

/-- One byte of a name in normal form. Only the first byte may not be a digit. -/
def normalByte (first : Bool) (b : UInt8) : List Char :=
  if b = 95 then ['_', '_']
  else if first && 48 ≤ b && b ≤ 57 then ['_']
  else if isAlnumByte b then [Char.ofNat b.toNat]
  else ['_']

/-- The normal form of the bytes of a name. -/
def normalBytes : List UInt8 → List Char
  | [] => []
  | b :: bs => normalByte true b ++ bs.flatMap (normalByte false)

/-- Turns a name into an identifier: an underscore is doubled, and a leading digit and every byte
that is no ASCII letter or digit become an underscore. -/
def normalize (name : String) : String :=
  String.ofList (normalBytes name.toUTF8.toList)

end TypedPerl.Name
