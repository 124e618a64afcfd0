import TypedPerl.Yaml.Cursor

/-!
# Reading scalars

The four ways to write a scalar: plain, in single quotes, in double quotes, and as a block of lines
that is kept as it is or folded. Each reader takes the place where the scalar starts and gives its
text and the place after it.
-/

namespace TypedPerl.Yaml

/-! ## Plain scalars -/

/-- A character at which a plain scalar ends although no blank follows the last word. -/
def endsPlain (flow : Bool) (c : Cursor) : Bool :=
  match c.peek? with
  | some ch => (ch = ':' && c.gapAfter 1) || (flow && (isFlowIndicator ch || ch = '?'))
  | none => true

/-- The characters of one word of a plain scalar, latest first. -/
def plainWord (flow : Bool) : Nat → List Char → Cursor → List Char × Cursor
  | 0, acc, c => (acc, c)
  | fuel + 1, acc, c =>
    match c.peek? with
    | none => (acc, c)
    | some ch =>
      if isBlank ch || isBreak ch || endsPlain flow c then (acc, c)
      else plainWord flow fuel (ch :: acc) c.next

/-- A scalar that has been read. -/
structure Scanned where
  /-- Its text. -/
  text : List Char
  /-- A line ended after it. -/
  lineEnded : Bool
  /-- How many characters of the text had to be known. -/
  taken : Nat
  /-- The place after it, and after the blanks that follow it. -/
  after : Cursor
deriving Repr, Inhabited

/-- Reads a plain scalar word by word. `acc` holds its text, latest first, and `gap` what stands
between that text and the cursor. At the start of each word the next four characters are looked at,
and behind each character of a word the next two. -/
def plainFrom (flow : Bool) (indent : Nat) : Nat → List Char → Gap → Cursor → Option Scanned
  | 0, acc, gap, c => some ⟨acc.reverse, gap.leading.isSome, c.mark.index, c⟩
  | fuel + 1, acc, gap, c =>
    let seen := c.mark.index + 4
    if c.atDocumentMark || c.isAt '#' then some ⟨acc.reverse, gap.leading.isSome, seen, c⟩
    else
      let (word, after) := plainWord flow fuel [] c
      let (acc, gap) := if word.isEmpty then (acc, gap)
        else (word ++ (gap.fold.reverse ++ acc), Gap.none)
      if !(after.atBlank || after.atBreak) then
        some ⟨acc.reverse, gap.leading.isSome, max seen (after.mark.index + 2), after⟩
      else
        match readGap (some indent) (after.rest.length + 1) .none after with
        | none => none
        | some (gap, c) =>
          if !flow && c.column < indent then
            some ⟨acc.reverse, gap.leading.isSome, max seen (c.mark.index + 1), c⟩
          else plainFrom flow indent fuel acc gap c

/-- Reads a plain scalar. Outside brackets its lines stand at column `indent` or further right. -/
def readPlain (flow : Bool) (indent : Nat) (c : Cursor) : Option Scanned :=
  plainFrom flow indent (c.rest.length + 1) [] .none c

/-! ## Quoted scalars -/

/-- What an escape of a double quoted scalar stands for, and how many characters it takes after the
backslash. -/
def escape? (cs : List Char) : Option (Char × Nat) :=
  let code (n : Nat) : Option (Char × Nat) :=
    match Text.takeHex? n 0 (cs.drop 1) with
    | some (v, _) => if Text.validScalar v then some (Char.ofNat v, n + 1) else none
    | none => none
  match cs with
  | [] => none
  | c :: _ =>
    let named (n : Nat) : Option (Char × Nat) := some (Char.ofNat n, 1)
    match c with
    | '0' => named 0
    | 'a' => named 7
    | 'b' => named 8
    | 't' | '\t' => named 9
    | 'n' => named 10
    | 'v' => named 11
    | 'f' => named 12
    | 'r' => named 13
    | 'e' => named 27
    | ' ' => named 32
    | '"' => named 34
    | '/' => named 47
    | '\\' => named 92
    | 'N' => named 0x85
    | '_' => named 0xa0
    | 'L' => named 0x2028
    | 'P' => named 0x2029
    | 'x' => code 2
    | 'u' => code 4
    | 'U' => code 8
    | c => if c = Text.tick then named 39 else none

/-- The characters of one word of a quoted scalar, latest first. The flag tells that the word ended
with an escaped break. -/
def quotedWord (double : Bool) : Nat → List Char → Cursor → Option (List Char × Bool × Cursor)
  | 0, acc, c => some (acc, false, c)
  | fuel + 1, acc, c =>
    match c.peek? with
    | none => some (acc, false, c)
    | some ch =>
      if isBlank ch || isBreak ch then some (acc, false, c)
      else if !double && ch = Text.tick then
        if c.next.isAt Text.tick then quotedWord double fuel (Text.tick :: acc) (c.skip 2)
        else some (acc, false, c)
      else if double && ch = '"' then some (acc, false, c)
      else if double && ch = '\\' then
        if c.next.atBreak then some (acc, true, c.next.nextLine.2)
        else match escape? c.next.rest with
          | some (e, n) => quotedWord double fuel (e :: acc) (c.skip (n + 1))
          | none => none
      else quotedWord double fuel (ch :: acc) c.next

/-- Reads a quoted scalar from behind its opening quote, and looks at as many characters as a plain
one does. -/
def quotedFrom (double : Bool) : Nat → List Char → Cursor → Option Scanned
  | 0, _, _ => none
  | fuel + 1, acc, c =>
    let seen := c.mark.index + 4
    if c.atDocumentMark || c.atEnd then none
    else
      match quotedWord double (c.rest.length + 1) acc c with
      | none => none
      | some (acc, escaped, c) =>
        if c.isAt (if double then '"' else Text.tick) then
          some ⟨acc.reverse, false, max seen (c.mark.index + 2), c.next⟩
        else
          let gap : Gap := if escaped then ⟨[], some [], []⟩ else .none
          match readGap none (c.rest.length + 1) gap c with
          | none => none
          | some (gap, c) => quotedFrom double fuel (gap.fold.reverse ++ acc) c

/-- Reads a quoted scalar. -/
def readQuoted (double : Bool) (c : Cursor) : Option Scanned :=
  quotedFrom double (c.rest.length + 1) [] c.next

/-! ## Block scalars -/

/-- How the breaks at the end of a block scalar are kept. -/
inductive Chomping where
  /-- The last break is kept. -/
  | clip
  /-- No break is kept. -/
  | strip
  /-- All breaks are kept. -/
  | keep
deriving DecidableEq, Repr

/-- The indentation given after the indicator: a digit from 1 to 9. -/
def readIncrement (c : Cursor) : Option (Nat × Cursor) :=
  match c.peek? with
  | some ch =>
    if ch = '0' then none
    else if ch.isDigit then some (ch.toNat - 48, c.next)
    else some (0, c)
  | none => some (0, c)

/-- The chomping given after the indicator. -/
def readChomping (c : Cursor) : Option Chomping × Cursor :=
  if c.isAt '+' then (some .keep, c.next)
  else if c.isAt '-' then (some .strip, c.next)
  else (none, c)

/-- The header of a block scalar: chomping and indentation in either order, then a comment or the
end of the line. -/
def readHeader (c : Cursor) : Option (Chomping × Nat × Cursor) := do
  let (ch, c) := readChomping c
  let (inc, c) ← readIncrement c
  let (ch, c) := match ch with
    | some x => (x, c)
    | none =>
      if inc = 0 then (.clip, c)
      else let (x, c) := readChomping c; (x.getD .clip, c)
  let (_, c) := c.takeWhile isBlank
  let c := if c.isAt '#' then (c.takeWhile (!isBreak ·)).2 else c
  if c.atEnd then some (ch, inc, c)
  else if c.atBreak then some (ch, inc, c.nextLine.2)
  else none

/-- Reads empty lines and the indentation of the line after them. With `indent` zero the
indentation is not known yet, and the deepest one met is given. -/
def blockBreaks (indent : Nat) : Nat → Nat → List Char → Cursor →
    Option (Nat × List Char × Cursor)
  | 0, deepest, breaks, c => some (deepest, breaks, c)
  | fuel + 1, deepest, breaks, c =>
    let shallow (c : Cursor) : Bool := indent = 0 || c.column < indent
    if shallow c && c.isAt ' ' then blockBreaks indent fuel deepest breaks c.next
    else
      let deepest := max deepest c.column
      if shallow c && c.isAt '\t' then none
      else if c.atBreak then
        let (b, c) := c.nextLine
        blockBreaks indent fuel deepest (breaks ++ [b]) c
      else some (deepest, breaks, c)

/-- The lines of a block scalar. `acc` holds its text, latest first, `lead` the break of the last
line and `trail` the breaks of empty lines after it. -/
def blockLines (literal : Bool) (indent : Nat) : Nat → List Char → Bool → List Char → List Char →
    Cursor → Option (List Char × List Char × List Char × Cursor)
  | 0, acc, _, lead, trail, c => some (acc, lead, trail, c)
  | fuel + 1, acc, leadingBlank, lead, trail, c =>
    if c.column ≠ indent || c.atEnd then some (acc, lead, trail, c)
    else
      let blank := c.atBlank
      let folded := !literal && !leadingBlank && !blank && lead = ['\n']
      let joined := if folded then (if trail.isEmpty then [' '] else []) else lead
      let acc := (joined ++ trail).reverse ++ acc
      let (line, c) := c.takeWhile (!isBreak ·)
      let acc := line.reverse ++ acc
      let (lead, c) := if c.atEnd then ([], c) else let (b, c) := c.nextLine; ([b], c)
      match blockBreaks indent (c.rest.length + 1) 0 [] c with
      | none => none
      | some (_, trail, c) => blockLines literal indent fuel acc blank lead trail c

/-- Reads a block scalar inside a block of indentation `parent`, which is negative at the top. -/
def readBlock (literal : Bool) (parent : Int) (c : Cursor) : Option Scanned := do
  let (chomp, inc, c) ← readHeader c.next
  let given : Nat := if inc = 0 then 0 else (max parent 0).toNat + inc
  let (deepest, breaks, c) ← blockBreaks given (c.rest.length + 1) 0 [] c
  let indent : Nat := if given = 0 then max deepest (max (parent + 1) 1).toNat else given
  let (acc, lead, trail, c) ← blockLines literal indent (c.rest.length + 1) [] false [] breaks c
  let tail := match chomp with
    | .strip => []
    | .clip => lead
    | .keep => lead ++ trail
  some ⟨acc.reverse ++ tail, true, c.mark.index + 1, c⟩

end TypedPerl.Yaml
