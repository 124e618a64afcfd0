import TypedPerl.Text.Quoted

/-!
# Positions in a document

A cursor is a place in the text of a document: what follows it, and its index, line and column,
counted in characters from zero. The classes of characters that the document grammar speaks about
stand here too.
-/

namespace TypedPerl.Yaml

/-- A place in a document. -/
structure Mark where
  /-- The number of characters before it. -/
  index : Nat
  /-- The number of lines before it. -/
  line : Nat
  /-- The number of characters before it in its line. -/
  column : Nat
deriving DecidableEq, Repr, Inhabited

/-- A place in a document, with the text that follows. -/
structure Cursor where
  /-- The text that follows. -/
  rest : List Char
  /-- The place. -/
  mark : Mark
deriving Repr, Inhabited

/-! ## Character classes -/

/-- A space or a tab. -/
def isBlank (c : Char) : Bool :=
  c = ' ' || c = '\t'

/-- A character that ends a line. -/
def isBreak (c : Char) : Bool :=
  c = '\n' || c = '\r' || c.toNat = 0x85 || c.toNat = 0x2028 || c.toNat = 0x2029

/-- A character of an anchor's name. -/
def isNameChar (c : Char) : Bool :=
  c.isAlphanum || c = '_' || c = '-'

/-- A bracket or a comma, which have a meaning of their own between brackets. -/
def isFlowIndicator (c : Char) : Bool :=
  c = ',' || c = '[' || c = ']' || c = '\x7b' || c = '\x7d'

/-- A character that may stand in a document at all. -/
def isAllowed (c : Char) : Bool :=
  let n := c.toNat
  n = 9 || n = 10 || n = 13 || (0x20 ≤ n && n ≤ 0x7e) || n = 0x85 || (0xa0 ≤ n && n ≤ 0xfffd) ||
    0x10000 ≤ n

namespace Cursor

/-- The start of a text. -/
def start (cs : List Char) : Cursor :=
  ⟨cs, ⟨0, 0, 0⟩⟩

/-- The column of the place. -/
def column (c : Cursor) : Nat := c.mark.column

/-- The next character. -/
def peek? (c : Cursor) : Option Char :=
  c.rest.head?

/-- The next character is `ch`. -/
def isAt (c : Cursor) (ch : Char) : Bool :=
  c.rest.head? == some ch

/-- The text has come to its end. -/
def atEnd (c : Cursor) : Bool :=
  c.rest.isEmpty

/-- The next character is a blank. -/
def atBlank (c : Cursor) : Bool :=
  c.rest.head?.any isBlank

/-- The next character ends the line. -/
def atBreak (c : Cursor) : Bool :=
  c.rest.head?.any isBreak

/-- After `n` more characters comes a blank, the end of the line or the end of the text. -/
def gapAfter (c : Cursor) (n : Nat) : Bool :=
  match c.rest[n]? with
  | some ch => isBlank ch || isBreak ch
  | none => true

/-- One character on. -/
def next (c : Cursor) : Cursor :=
  ⟨c.rest.drop 1, { c.mark with index := c.mark.index + 1, column := c.mark.column + 1 }⟩

/-- Several characters on. -/
def skip (c : Cursor) (n : Nat) : Cursor :=
  ⟨c.rest.drop n, { c.mark with index := c.mark.index + n, column := c.mark.column + n }⟩

/-- Over the end of a line, with the character that the break stands for. -/
def nextLine (c : Cursor) : Char × Cursor :=
  let past (n : Nat) : Cursor := ⟨c.rest.drop n, ⟨c.mark.index + n, c.mark.line + 1, 0⟩⟩
  match c.rest with
  | '\r' :: '\n' :: _ => ('\n', past 2)
  | ch :: _ =>
    if ch.toNat = 0x2028 || ch.toNat = 0x2029 then (ch, past 1) else ('\n', past 1)
  | [] => ('\n', c)

/-- The mark between documents, `---` or `...`, stands at the start of the line. -/
def atIndicator (c : Cursor) (ch : Char) : Bool :=
  c.column = 0 && [ch, ch, ch].isPrefixOf c.rest && c.gapAfter 3

/-- Either mark between documents stands at the start of the line. -/
def atDocumentMark (c : Cursor) : Bool :=
  c.atIndicator '-' || c.atIndicator '.'

/-- Over characters as long as they satisfy `p`; gives them too. -/
def takeWhile (p : Char → Bool) (c : Cursor) : List Char × Cursor :=
  let cs := c.rest.takeWhile p
  (cs, c.skip cs.length)

/-- At the end of the line. -/
def lineEnd (c : Cursor) : Cursor :=
  (c.takeWhile (!isBreak ·)).2

/-! ### Comments -/

/-- How far a comment is looked for. -/
def commentReach : Nat := 512

/-- A character that may stand between two lines of comment: a blank, a line feed or a carriage
return. -/
def isCommentGap (c : Char) : Bool :=
  isBlank c || c = '\n' || c = '\r'

/-- Over at most `n` blanks and ends of lines. -/
def overGap : Nat → Cursor → Cursor
  | 0, c => c
  | n + 1, c =>
    if c.atBlank then overGap n c.next
    else if c.isAt '\n' || c.isAt '\r' then overGap n c.nextLine.2
    else c

/-- Over a comment behind a token, to the end of the line. Without one the place stays. -/
def overLineComment (c : Cursor) : Cursor :=
  let blanks := (c.rest.takeWhile isBlank).length
  if blanks < commentReach && (c.skip blanks).isAt '#' then c.lineEnd else c

/-- Over a comment and the comments on the lines after it, to the end of the last one's line. Tabs
may stand before a comment on a line of its own. The fuel bounds the number of comments. -/
def overComments : Nat → Cursor → Cursor
  | 0, c => c
  | fuel + 1, c =>
    let c := c.lineEnd
    let gap := (c.rest.takeWhile isCommentGap).length
    if gap < commentReach && c.rest[gap]? = some '#' then
      overComments fuel (overGap gap c)
    else c

end Cursor

/-! ## Gaps inside scalars -/

/-- What stands between two words of a scalar: blanks, or the breaks of one or more lines. -/
structure Gap where
  /-- The blanks, when no line ends. -/
  blanks : List Char
  /-- The first break, or nothing for a break that is escaped. -/
  leading : Option (List Char)
  /-- The further breaks. -/
  trailing : List Char
deriving Repr, Inhabited

/-- A gap that holds nothing. -/
def Gap.none : Gap := ⟨[], Option.none, []⟩

/-- What a gap contributes to the value: its blanks, or one space for a single break, or the breaks
after the first. -/
def Gap.fold (g : Gap) : List Char :=
  match g.leading with
  | Option.none => g.blanks
  | some lead =>
    if lead = ['\n'] then (if g.trailing.isEmpty then [' '] else g.trailing)
    else lead ++ g.trailing

/-- Reads blanks and breaks. A tab at the start of a line, before column `indent`, is refused. -/
def readGap (indent : Option Nat) : Nat → Gap → Cursor → Option (Gap × Cursor)
  | 0, g, c => some (g, c)
  | fuel + 1, g, c =>
    match c.peek? with
    | Option.none => some (g, c)
    | some ch =>
      if isBlank ch then
        match g.leading with
        | Option.none => readGap indent fuel { g with blanks := g.blanks ++ [ch] } c.next
        | some _ =>
          if ch = '\t' && indent.any (c.column < ·) then Option.none
          else readGap indent fuel g c.next
      else if isBreak ch then
        let (b, c) := c.nextLine
        match g.leading with
        | Option.none => readGap indent fuel ⟨[], some [b], g.trailing⟩ c
        | some _ => readGap indent fuel { g with trailing := g.trailing ++ [b] } c
      else some (g, c)

end TypedPerl.Yaml
