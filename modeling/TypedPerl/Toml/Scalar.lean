import TypedPerl.Calendar
import TypedPerl.Numeral.Read

/-!
# Scalars of key-value files

The pieces of a text in the TOML format below its keys and tables: blanks and comments, strings in
four kinds of quotes, numbers, truth values and dates. Each reader takes the characters to come and
gives what it read with the rest, or nothing if the text breaks the rules. The readers rely on
`isClean` for what may not stand anywhere in a text.
-/

namespace TypedPerl.Toml

/-- The characters to come. -/
abbrev Input := List Char

/-- No control character stands in the text but tabs and ends of lines, and a carriage return only
in front of a line feed. -/
def isClean : Input → Bool
  | [] => true
  | c :: rest =>
    (if c = '\r' then rest.head? = some '\n'
      else c = '\t' || c = '\n' || (0x20 ≤ c.toNat && c.toNat ≠ 0x7f)) && isClean rest

/-! ## Blanks, comments and lines -/

/-- A blank inside a line. -/
def isSpace (c : Char) : Bool :=
  c = ' ' || c = '\t'

/-- A character of the end of a line. -/
def isNewline (c : Char) : Bool :=
  c = '\n' || c = '\r'

/-- The input behind the blanks of a line. -/
def skipSpaces (cs : Input) : Input :=
  cs.dropWhile isSpace

/-- The input behind the end of a line. -/
def newline? : Input → Option Input
  | '\n' :: rest => some rest
  | '\r' :: '\n' :: rest => some rest
  | _ => none

/-- The input behind blanks and a comment, at the end of the line. -/
def skipToLineEnd (cs : Input) : Input :=
  match skipSpaces cs with
  | '#' :: rest => rest.dropWhile fun c => !isNewline c
  | rest => rest

/-- The input behind the end of a line on which nothing is left but a comment. -/
def finishLine? (cs : Input) : Option Input :=
  match skipToLineEnd cs with
  | [] => some []
  | rest => newline? rest

/-- The input behind blanks, comments and ends of lines; the fuel bounds the number of lines. -/
def skipLines : Nat → Input → Input
  | 0, cs => cs
  | fuel + 1, cs =>
    let rest := skipToLineEnd cs
    match newline? rest with
    | some rest => skipLines fuel rest
    | none => rest

/-! ## Strings -/

/-- The character of an escape, behind its backslash. -/
def escape? : Input → Option (Char × Input)
  | 'b' :: rest => some ('\x08', rest)
  | 't' :: rest => some ('\t', rest)
  | 'n' :: rest => some ('\n', rest)
  | 'f' :: rest => some ('\x0c', rest)
  | 'r' :: rest => some ('\r', rest)
  | 'e' :: rest => some ('\x1b', rest)
  | '"' :: rest => some ('"', rest)
  | '\\' :: rest => some ('\\', rest)
  | c :: rest =>
    let digits := if c = 'x' then 2 else if c = 'u' then 4 else if c = 'U' then 8 else 0
    if digits = 0 then none
    else do
      let (n, rest) ← Text.takeHex? digits 0 rest
      if Text.validScalar n then some (Char.ofNat n, rest) else none
  | [] => none

/-- The rest of a string of one line in quotes of the kind `mark`. -/
def lineString? (mark : Char) : Nat → Input → Option (List Char × Input)
  | 0, _ => none
  | _, [] => none
  | fuel + 1, c :: rest =>
    if c = mark then some ([], rest)
    else if isNewline c then none
    else do
      let (c, rest) ← if c = '\\' && mark = '"' then escape? rest else some (c, rest)
      let (s, rest) ← lineString? mark fuel rest
      some (c :: s, rest)

/-- Three quotes at the front end a string of several lines, unless a fourth follows. Then the first
of them belongs to the string, which may end in two quotes but not in three. -/
inductive Closing where
  /-- The string goes on. -/
  | goesOn
  /-- The string ends. -/
  | ends
  /-- There are too many quotes. -/
  | excess
deriving DecidableEq, Repr

/-- What the quotes at the front mean, behind a text that is given with its latest character first.
Two quotes behind a backslash are one, as far as their number goes. -/
def closing (mark : Char) (before : List Char) (cs : Input) : Closing :=
  if !(List.replicate 3 mark).isPrefixOf cs then .goesOn
  else if cs[3]? ≠ some mark then .ends
  else if !(List.replicate 2 mark).isPrefixOf before then .goesOn
  else if mark = '"' && before[2]? = some '\\' then .goesOn
  else .excess

/-- The rest of a string of several lines as it is written, and what follows it. `before` is what
was read of it, latest first. -/
def blockText? (mark : Char) : Nat → List Char → Input → Option (List Char × Input)
  | 0, _, _ => none
  | _, _, [] => none
  | fuel + 1, before, c :: rest =>
    match closing mark before (c :: rest) with
    | .excess => none
    | .ends => some (before.reverse, rest.drop 2)
    | .goesOn =>
      match rest with
      | d :: tail =>
        if c = '\\' && mark = '"' then blockText? mark fuel (d :: c :: before) tail
        else blockText? mark fuel (c :: before) rest
      | [] => none

/-- The string that a text with escapes stands for. A backslash in front of blanks that a line ends
among stands for nothing, and takes the blanks away. -/
def unescape? : Nat → List Char → Option (List Char)
  | 0, _ => some []
  | _, [] => some []
  | fuel + 1, c :: rest =>
    if c ≠ '\\' then (unescape? fuel rest).map (c :: ·)
    else
      let isGap (c : Char) : Bool := isSpace c || isNewline c
      if (rest.takeWhile isGap).contains '\n' then unescape? fuel (rest.dropWhile isGap)
      else do
        let (e, rest) ← escape? rest
        (unescape? fuel rest).map (e :: ·)

/-- The rest of a string of several lines. The end of a line at its start does not count. -/
def blockString? (mark : Char) (cs : Input) : Option (List Char × Input) := do
  let (text, rest) ← blockText? mark (cs.length + 1) [] cs
  let text := (newline? text).getD text
  let s ← if mark = '"' then unescape? (text.length + 1) text else some text
  some (s, rest)

/-- A string behind its first quote, which is of the kind `mark`. -/
def quoted? (mark : Char) (cs : Input) : Option (String × Input) :=
  let result :=
    if [mark, mark].isPrefixOf cs then blockString? mark (cs.drop 2)
    else lineString? mark (cs.length + 1) cs
  result.map fun (s, rest) => (String.ofList s, rest)

/-! ## Numbers -/

/-- Digits may have single underscores between them. -/
def dropSeparators? (cs : List Char) : Option (List Char) :=
  if ((String.ofList cs).splitOn "_").all (· ≠ "") then some (cs.filter (· ≠ '_')) else none

/-- Decimal digits without a needless zero in front. -/
def plainDigits? (cs : List Char) : Option (List Char) := do
  let ds ← dropSeparators? cs
  if !ds.all Char.isDigit then none
  else if ds.head? = some '0' && 1 < ds.length then none
  else some ds

/-- A whole number of 64 bits. -/
def integer? (cs : List Char) : Option Int := do
  let (neg, rest) := Numeral.splitSign cs
  let (base, digits) := match cs with
    | '0' :: 'x' :: ds => (16, ds)
    | '0' :: 'o' :: ds => (8, ds)
    | '0' :: 'b' :: ds => (2, ds)
    | _ => (10, rest)
  let ds ← if base = 10 then plainDigits? digits else dropSeparators? digits
  let n ← Numeral.digitsValue? base ds
  Numeral.signedWord? 64 neg n

/-- Digits, with any number of zeros in front. -/
def isDigits (cs : List Char) : Bool :=
  (dropSeparators? cs).any fun ds => ds.all Char.isDigit

/-- The form of a number with a fraction or an exponent, without its sign. -/
def isDecimalForm (cs : List Char) : Bool :=
  let isDigitOrBar (c : Char) : Bool := c.isDigit || c = '_'
  let whole := cs.takeWhile isDigitOrBar
  let isExponent : List Char → Bool
    | [] => true
    | c :: tail => (c = 'e' || c = 'E') && isDigits (Numeral.splitSign tail).2
  (plainDigits? whole).isSome &&
    match cs.dropWhile isDigitOrBar with
    | [] => false
    | '.' :: tail =>
      isDigits (tail.takeWhile isDigitOrBar) && isExponent (tail.dropWhile isDigitOrBar)
    | tail => isExponent tail

/-- A number with a fraction or an exponent that is not beyond the greatest number, or a special
one. -/
def isDecimal (cs : List Char) : Bool :=
  let (_, rest) := Numeral.splitSign cs
  rest = ['i', 'n', 'f'] || rest = ['n', 'a', 'n'] ||
    (isDecimalForm rest &&
      (Numeral.readFloat? (String.ofList (rest.filter (· ≠ '_')))).isSome)

/-! ## Dates -/

/-- The text is a date, a time of day, or both with a letter between them. Seconds may be missing.
An offset may stand behind a date with a time. -/
def isDateTime (cs : List Char) : Bool :=
  let clock (cs : List Char) : Option (List Char) := do
    let rest ← Calendar.hourMinute? true cs
    if rest.head? = some ':' then Calendar.seconds? true rest else some rest
  match Calendar.date? true cs with
  | some [] => true
  | some (c :: rest) =>
    c = 'T' && (clock rest).any fun tail => tail.isEmpty || Calendar.offset? tail = some []
  | none => clock cs = some []

/-- A character of a date or a time. -/
def isDateChar (c : Char) : Bool :=
  c.isDigit || ['-', ':', 'T', 't', ' ', '.', 'Z', 'z', '+'].contains c

/-- The value starts like a date or a time: with digits and a dash or a colon behind them. -/
def startsDate (cs : Input) : Bool :=
  let rest := cs.dropWhile Char.isDigit
  cs.head?.any Char.isDigit && rest.head?.any fun c => c = '-' || c = ':'

/-- The text of a date as it is checked: letters are capital, and a blank stands for the letter
between a date and a time. -/
def dateText (cs : List Char) : List Char :=
  (cs.reverse.dropWhile (· = ' ')).reverse.map fun c =>
    if c = 't' || c = ' ' then 'T' else if c = 'z' then 'Z' else c

/-! ## Words -/

/-- A character that ends a word. -/
def endsWord (c : Char) : Bool :=
  isSpace c || isNewline c || [',', ']', '\x7d', '#'].contains c

/-- A word and what follows it. -/
def word (cs : Input) : List Char × Input :=
  (cs.takeWhile fun c => !endsWord c, cs.dropWhile fun c => !endsWord c)

end TypedPerl.Toml
