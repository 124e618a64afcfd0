import TypedPerl.Toml.Scalar

/-!
# Lines of key-value files

A text in the TOML format is a row of statements: a key with its value, or the header of a table.
This module reads the statements; what they say together is the matter of `TypedPerl.Toml.Document`.
-/

namespace TypedPerl.Toml

/-- The parts of a key or of a header. -/
abbrev Path := List String

/-- A value as it is written. -/
inductive Value where
  /-- A string. -/
  | text (s : String)
  /-- A whole number. -/
  | integer (i : Int)
  /-- A truth value. -/
  | boolean (b : Bool)
  /-- A decimal, a date or a time. -/
  | other
  /-- An array of values. -/
  | array (items : List Value)
  /-- A table of keys with their values. -/
  | table (pairs : List (Path × Value))
deriving Inhabited

/-- A statement. -/
inductive Statement where
  /-- A key with its value. -/
  | pair (key : Path) (value : Value)
  /-- The header of a table, or of a table in an array of tables. -/
  | header (path : Path) (inArray : Bool)
deriving Inhabited

/-! ## Keys -/

/-- A character of a key without quotes. -/
def isKeyChar (c : Char) : Bool :=
  c.isAlphanum || c = '_' || c = '-'

/-- One part of a key. -/
def keyPart? (cs : Input) : Option (String × Input) :=
  match cs with
  | [] => none
  | c :: rest =>
    if c = '"' || c = Text.tick then
      (lineString? c (rest.length + 1) rest).map fun (s, rest) => (String.ofList s, rest)
    else
      let part := cs.takeWhile isKeyChar
      if part.isEmpty then none else some (String.ofList part, cs.dropWhile isKeyChar)

/-- A key: parts with dots between them. The fuel bounds the number of parts. -/
def key? : Nat → Input → Option (Path × Input)
  | 0, _ => none
  | fuel + 1, cs => do
    let (part, rest) ← keyPart? (skipSpaces cs)
    match skipSpaces rest with
    | '.' :: rest => do
      let (parts, rest) ← key? fuel rest
      some (part :: parts, rest)
    | rest => some ([part], rest)

/-! ## Values -/

/-- The value of a word. -/
def wordValue? (w : List Char) : Option Value :=
  if w = ['t', 'r', 'u', 'e'] then some (.boolean true)
  else if w = ['f', 'a', 'l', 's', 'e'] then some (.boolean false)
  else match integer? w with
    | some i => some (.integer i)
    | none => if isDecimal w then some .other else none

/-- A value that is neither an array nor a table. -/
def scalar? (cs : Input) : Option (Value × Input) :=
  match cs with
  | [] => none
  | c :: rest =>
    if c = '"' || c = Text.tick then (quoted? c rest).map fun (s, rest) => (.text s, rest)
    else if startsDate cs then
      if isDateTime (dateText (cs.takeWhile isDateChar)) then
        some (.other, cs.dropWhile isDateChar)
      else none
    else
      let (w, rest) := word cs
      (wordValue? w).map fun v => (v, rest)

mutual

/-- A value. The fuel bounds the number of steps of this reader and of the ones below. -/
def value? : Nat → Input → Option (Value × Input)
  | 0, _ => none
  | fuel + 1, cs =>
    match cs with
    | '[' :: rest => (items? fuel rest).map fun (vs, rest) => (.array vs, rest)
    | '\x7b' :: rest => (pairs? fuel rest).map fun (ps, rest) => (.table ps, rest)
    | cs => scalar? cs

/-- The values of an array, behind its bracket or a comma in it. -/
def items? : Nat → Input → Option (List Value × Input)
  | 0, _ => none
  | fuel + 1, cs =>
    match skipLines (cs.length + 1) cs with
    | ']' :: rest => some ([], rest)
    | cs => do
      let (v, cs) ← value? fuel cs
      match skipLines (cs.length + 1) cs with
      | ']' :: rest => some ([v], rest)
      | ',' :: rest => (items? fuel rest).map fun (vs, rest) => (v :: vs, rest)
      | _ => none

/-- The keys of a table that is written as a value, behind its brace or a comma in it. -/
def pairs? : Nat → Input → Option (List (Path × Value) × Input)
  | 0, _ => none
  | fuel + 1, cs =>
    match skipLines (cs.length + 1) cs with
    | '\x7d' :: rest => some ([], rest)
    | cs => do
      let (p, cs) ← pair? fuel cs
      match skipLines (cs.length + 1) cs with
      | '\x7d' :: rest => some ([p], rest)
      | ',' :: rest => (pairs? fuel rest).map fun (ps, rest) => (p :: ps, rest)
      | _ => none

/-- A key with its value. -/
def pair? : Nat → Input → Option ((Path × Value) × Input)
  | 0, _ => none
  | fuel + 1, cs => do
    let (path, cs) ← key? (cs.length + 1) cs
    match cs with
    | '=' :: rest => do
      let (v, rest) ← value? fuel (skipSpaces rest)
      some ((path, v), rest)
    | _ => none

end

/-! ## Statements -/

/-- The header of a table, behind its brackets. -/
def header? (closing : List Char) (cs : Input) : Option (Path × Input) := do
  let (path, cs) ← key? (cs.length + 1) cs
  if closing.isPrefixOf cs then some (path, cs.drop closing.length) else none

/-- One statement, up to the end of its line. -/
def statement? (cs : Input) : Option (Statement × Input) := do
  let (s, rest) ← match cs with
    | '[' :: '[' :: rest =>
      (header? [']', ']'] rest).map fun (path, rest) => (.header path true, rest)
    | '[' :: rest => (header? [']'] rest).map fun (path, rest) => (.header path false, rest)
    | cs => (pair? (2 * cs.length + 2) cs).map fun ((path, v), rest) => (.pair path v, rest)
  (finishLine? rest).map fun rest => (s, rest)

/-- The statements of a text; the fuel bounds their number. -/
def statements? : Nat → Input → Option (List Statement)
  | 0, _ => none
  | fuel + 1, cs =>
    match skipLines (cs.length + 1) cs with
    | [] => some []
    | cs => do
      let (s, rest) ← statement? cs
      (statements? fuel rest).map (s :: ·)

/-- The statements that a text consists of. A mark of byte order at its start does not count. -/
def readText? (text : String) : Option (List Statement) :=
  let cs := text.toList
  let cs := if cs.head? = some (Char.ofNat 0xfeff) then cs.drop 1 else cs
  if isClean cs then statements? (cs.length + 1) cs else none

end TypedPerl.Toml
