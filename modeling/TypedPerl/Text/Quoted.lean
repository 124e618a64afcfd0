import TypedPerl.Text.Bytes
import TypedPerl.Text.Class

/-!
# Quoted texts

`quote` writes a text between double quotes so that it shows on one line: printable characters
stand as they are, the others become escapes. `unquote?` reads a quoted form back, as the bytes
it denotes: double quoted, single quoted (at most one character) or between back quotes (no
escapes). A byte escape can denote a byte that is part of no character, which is why the result of
reading is a list of bytes.
-/

namespace TypedPerl.Text

/-! ## Hexadecimal digits -/

/-- The lower-case digit of a value below sixteen. -/
def hexDigit (n : Nat) : Char :=
  if n < 10 then Char.ofNat (48 + n) else Char.ofNat (87 + n)

/-- The last `width` hexadecimal digits of `n`. -/
def hexFixed : Nat → Nat → List Char
  | 0, _ => []
  | width + 1, n => hexFixed width (n / 16) ++ [hexDigit (n % 16)]

/-- The value of a hexadecimal digit of either case. -/
def hexValue? (c : Char) : Option Nat :=
  if '0' ≤ c && c ≤ '9' then some (c.toNat - 48)
  else if 'a' ≤ c && c ≤ 'f' then some (c.toNat - 87)
  else if 'A' ≤ c && c ≤ 'F' then some (c.toNat - 55)
  else none

/-- The value of exactly `n` hexadecimal digits at the front, and what follows them. -/
def takeHex? : Nat → Nat → List Char → Option (Nat × List Char)
  | 0, acc, cs => some (acc, cs)
  | _ + 1, _, [] => none
  | n + 1, acc, c :: cs =>
    match hexValue? c with
    | some v => takeHex? n (acc * 16 + v) cs
    | none => none

/-! ## Writing -/

/-- The letter that names a control character in an escape. -/
def controlLetter? (c : Char) : Option Char :=
  match c.toNat with
  | 7 => some 'a'
  | 8 => some 'b'
  | 9 => some 't'
  | 10 => some 'n'
  | 11 => some 'v'
  | 12 => some 'f'
  | 13 => some 'r'
  | _ => none

/-- One character as it stands between double quotes. -/
def quoteChar (c : Char) : List Char :=
  if c = '"' || c = '\\' then ['\\', c]
  else if isPrintable .current c then [c]
  else match controlLetter? c with
    | some l => ['\\', l]
    | none =>
      if c.toNat < 0x20 || c.toNat = 0x7f then '\\' :: 'x' :: hexFixed 2 c.toNat
      else if c.toNat < 0x10000 then '\\' :: 'u' :: hexFixed 4 c.toNat
      else '\\' :: 'U' :: hexFixed 8 c.toNat

/-- The text between double quotes, with everything escaped that does not print. -/
def quote (s : String) : String :=
  String.ofList ('"' :: s.toList.flatMap quoteChar ++ ['"'])

/-! ## Reading -/

/-- The mark that a single quoted form begins and ends with. -/
def tick : Char := Char.ofNat 39

/-- The mark that a form without escapes begins and ends with. -/
def backTick : Char := Char.ofNat 96

/-- A code point that is a character: in range and no surrogate. -/
def validScalar (n : Nat) : Bool :=
  n < 0xd800 || (0xe000 ≤ n && n < 0x110000)

/-- The code point of `n` hexadecimal digits as a unit. -/
def codePoint? (n : Nat) (cs : List Char) : Option (Symbol × List Char) := do
  let (v, rest) ← takeHex? n 0 cs
  if validScalar v then some (.char (Char.ofNat v), rest) else none

/-- The value of an octal digit. -/
def octalValue? (c : Char) : Option Nat :=
  if '0' ≤ c && c ≤ '7' then some (c.toNat - 48) else none

/-- Reads what follows a backslash, inside quotes of the kind `mark`. -/
def readEscape? (mark : Char) : List Char → Option (Symbol × List Char)
  | [] => none
  | c :: cs =>
    if c = 'a' then some (.char (Char.ofNat 7), cs)
    else if c = 'b' then some (.char (Char.ofNat 8), cs)
    else if c = 'f' then some (.char (Char.ofNat 12), cs)
    else if c = 'n' then some (.char (Char.ofNat 10), cs)
    else if c = 'r' then some (.char (Char.ofNat 13), cs)
    else if c = 't' then some (.char (Char.ofNat 9), cs)
    else if c = 'v' then some (.char (Char.ofNat 11), cs)
    else if c = 'x' then do
      let (v, rest) ← takeHex? 2 0 cs
      some (.byte v.toUInt8, rest)
    else if c = 'u' then codePoint? 4 cs
    else if c = 'U' then codePoint? 8 cs
    else if c = '\\' then some (.char c, cs)
    else if c = '"' || c = tick then if c = mark then some (.char c, cs) else none
    else match octalValue? c, cs with
      | some a, d :: e :: rest => do
        let b ← octalValue? d
        let v ← octalValue? e
        let n := a * 64 + b * 8 + v
        if n < 256 then some (.byte n.toUInt8, rest) else none
      | _, _ => none

/-- Reads one character or escape of a quoted form. A line feed never stands in one. -/
def readUnit? (mark : Char) : List Char → Option (Symbol × List Char)
  | [] => none
  | c :: cs =>
    if c = mark || c = '\n' then none
    else if c = '\\' then readEscape? mark cs
    else some (.char c, cs)

/-- Reads units up to the end of the text. The fuel bounds their number. -/
def readUnits? (mark : Char) : Nat → List Char → Option (List Symbol)
  | _, [] => some []
  | 0, _ :: _ => none
  | fuel + 1, c :: cs => do
    let (u, rest) ← readUnit? mark (c :: cs)
    let us ← readUnits? mark fuel rest
    some (u :: us)

/-- The body of a form whose first and last character is the same mark. -/
def quotedBody? (s : String) : Option (Char × List Char) :=
  match s.toList with
  | q :: c :: cs => if (c :: cs).getLast? = some q then some (q, (c :: cs).dropLast) else none
  | _ => none

/-- The bytes that a quoted form denotes. A form in back quotes holds no back quote and no
escape, and loses its carriage returns; a single quoted form holds at most one unit. -/
def unquote? (s : String) : Option (List UInt8) := do
  let (q, body) ← quotedBody? s
  if q = backTick then
    if body.contains backTick then none
    else some ((body.filter (· ≠ '\r')).flatMap String.utf8EncodeChar)
  else if q = '"' || q = tick then
    let us ← readUnits? q body.length body
    if q = tick && 1 < us.length then none
    else some (us.flatMap Symbol.bytes)
  else none

end TypedPerl.Text
