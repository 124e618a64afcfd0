import TypedPerl.Yaml.Scalar
import TypedPerl.Yaml.Directive

/-!
# Tokens of a document

A document is cut into tokens before it is read. Blocks are marked by their indentation: tokens for
their start and end are made where the indentation changes. A key needs no mark of its own in front
of it, so the place of each possible key is remembered, and its token is put there once the colon
after it is met; this must happen on the same line.

A text is read only as far as it is needed: a token is handed on as soon as two more are known and
no key can start at it any more. What cannot be cut behind the last token that is needed does no
harm, so `scan` gives the tokens that were handed on before the cutting failed.
-/

namespace TypedPerl.Yaml

/-- The kinds of tokens. -/
inductive TokenKind where
  /-- The end of the text. -/
  | streamEnd
  /-- A directive, at the start of a line. -/
  | directive (d : Directive)
  /-- The start of a document. -/
  | documentStart
  /-- The end of a document. -/
  | documentEnd
  /-- A sequence of lines starts here. -/
  | blockSequenceStart
  /-- A mapping of lines starts here. -/
  | blockMappingStart
  /-- A sequence or mapping of lines ends. -/
  | blockEnd
  /-- An opening bracket. -/
  | flowSequenceStart
  /-- A closing bracket. -/
  | flowSequenceEnd
  /-- An opening brace. -/
  | flowMappingStart
  /-- A closing brace. -/
  | flowMappingEnd
  /-- A comma between entries. -/
  | flowEntry
  /-- The dash of an entry. -/
  | blockEntry
  /-- A key follows. -/
  | key
  /-- A value follows. -/
  | value
  /-- The name of an anchored node. -/
  | refer (name : String)
  /-- The name that a node is anchored under. -/
  | anchor (name : String)
  /-- The tag of a node. -/
  | tag (t : WrittenTag)
  /-- A scalar, plain or not. -/
  | scalar (text : String) (plain : Bool)
deriving DecidableEq, Repr, Inhabited

/-- A token and its place. -/
structure Token where
  /-- What it is. -/
  kind : TokenKind
  /-- Where it starts. -/
  start : Mark
  /-- Where it ends. -/
  stop : Mark
deriving DecidableEq, Repr, Inhabited

/-- The place where a key may have started. -/
structure KeySlot where
  /-- A key may still start there. -/
  possible : Bool := false
  /-- The line must start with a key there. -/
  required : Bool := false
  /-- The token there is held back until it is known whether a key starts at it. -/
  held : Bool := false
  /-- The number of tokens before it. -/
  number : Nat := 0
  /-- Where it is. -/
  mark : Mark := ⟨0, 0, 0⟩
deriving Repr, Inhabited

/-- A document that is being cut into tokens. -/
structure Scanner where
  /-- The place in the text. -/
  cursor : Cursor
  /-- How many characters had to be known so far. -/
  taken : Nat := 0
  /-- As long as no more than so many characters had to be known, the first character of each line
  counts as a blank. -/
  blindStarts : Nat := 0
  /-- From this index on the text cannot be taken in. -/
  limit : Option Nat := none
  /-- The tokens so far, latest first. -/
  tokens : List Token := []
  /-- Their number. -/
  count : Nat := 0
  /-- The number of tokens that were handed on. -/
  ready : Nat := 0
  /-- The text has come to its end. -/
  ended : Bool := false
  /-- The indentation of the innermost block, negative outside any. -/
  indent : Int := -1
  /-- The indentations of the blocks around it. -/
  indents : List Int := []
  /-- A key may start here. -/
  keyAllowed : Bool := true
  /-- The possible key outside all brackets. -/
  blockKey : KeySlot := {}
  /-- The possible key inside each pair of open brackets, innermost first. -/
  flowKeys : List KeySlot := []
deriving Repr, Inhabited

namespace Scanner

/-- The greatest number of blocks, and of brackets, inside one another. -/
def maxNesting : Nat := 10000

/-- The place lies between brackets. -/
def inFlow (s : Scanner) : Bool :=
  !s.flowKeys.isEmpty

/-- Takes in the text up to an index, if it can be. -/
def take? (s : Scanner) (index : Nat) : Option Scanner :=
  if s.limit.all (index ≤ ·) then some { s with taken := max s.taken index } else none

/-- Adds a token. -/
def push (s : Scanner) (kind : TokenKind) (start stop : Mark) : Scanner :=
  { s with tokens := ⟨kind, start, stop⟩ :: s.tokens, count := s.count + 1 }

/-- Puts a token in front of all but the first `number` tokens, or behind all of them if one of
those that it belongs in front of was handed on. -/
def insert (s : Scanner) (number : Nat) (kind : TokenKind) (mark : Mark) : Scanner :=
  let later := if number < s.ready then 0 else s.count - number
  { s with
    tokens := s.tokens.take later ++ ⟨kind, mark, mark⟩ :: s.tokens.drop later
    count := s.count + 1 }

/-- Adds a token for the next `n` characters. -/
def pushNext (s : Scanner) (n : Nat) (kind : TokenKind) : Scanner :=
  let after := s.cursor.skip n
  { s.push kind s.cursor.mark after.mark with cursor := after }

/-- Adds a token for the characters up to a place, for which some characters had to be known. -/
def pushTo (s : Scanner) (after : Cursor) (taken : Nat) (kind : TokenKind) : Option Scanner :=
  { s.push kind s.cursor.mark after.mark with cursor := after }.take? taken

/-! ## Possible keys -/

/-- The possible key at the present level of brackets. -/
def keySlot (s : Scanner) : KeySlot :=
  match s.flowKeys with
  | k :: _ => k
  | [] => s.blockKey

/-- Replaces the possible key at the present level of brackets. -/
def setKey (s : Scanner) (k : KeySlot) : Scanner :=
  match s.flowKeys with
  | _ :: rest => { s with flowKeys := k :: rest }
  | [] => { s with blockKey := k }

/-- Gives up the possible key; one that is required must not be given up. -/
def dropKey (s : Scanner) : Option Scanner :=
  let k := s.keySlot
  if !k.possible then some s
  else if k.required then none
  else some (s.setKey { k with possible := false, held := false })

/-- Remembers that a key may start at this place. -/
def saveKey (s : Scanner) : Option Scanner :=
  if s.keyAllowed then do
    let required := !s.inFlow && s.indent == (s.cursor.column : Int)
    let s ← s.dropKey
    return s.setKey
      { possible := true, required, held := true, number := s.count, mark := s.cursor.mark }
  else some s

/-- A possible key counts as long as it is on this line and not too far back. -/
def keyHolds (s : Scanner) (k : KeySlot) : Bool :=
  s.cursor.mark.line ≤ k.mark.line && s.cursor.mark.index ≤ k.mark.index + 1024

/-- Enters brackets, with no key in them so far. -/
def openFlow (s : Scanner) : Option Scanner :=
  if s.flowKeys.length < maxNesting then
    some { s with flowKeys := { number := s.count, mark := s.cursor.mark } :: s.flowKeys }
  else none

/-- Leaves brackets. If no key started in them, the token that opened them is no longer held back.
-/
def closeFlow (s : Scanner) : Scanner :=
  match s.flowKeys with
  | [] => s
  | k :: rest =>
    let s := { s with flowKeys := rest }
    let outer := s.keySlot
    if outer.number = k.number then s.setKey { outer with held := false } else s

/-! ## Handing tokens on -/

/-- The possible key that holds back the next token to hand on. -/
def holder? (s : Scanner) : Option KeySlot :=
  (s.blockKey :: s.flowKeys).find? fun k => k.held && k.number = s.ready

/-- No key may start at the place of a slot any more. -/
def expire (s : Scanner) (number : Nat) : Scanner :=
  let close (k : KeySlot) : KeySlot :=
    if k.held && k.number = number then { k with possible := false } else k
  { s with blockKey := close s.blockKey, flowKeys := s.flowKeys.map close }

/-- Hands on the tokens that can be. The flag tells that one of them had to start a key and does
not. The fuel bounds the number of tokens. -/
def handOn : Nat → Scanner → Scanner × Bool
  | 0, s => (s, true)
  | fuel + 1, s =>
    if s.count < s.ready + (if s.ended then 1 else 3) then (s, true)
    else
      let next : Scanner := { s with ready := s.ready + 1 }
      match s.holder? with
      | none => handOn fuel next
      | some k =>
        if !k.possible then handOn fuel next
        else if s.keyHolds k then (s, true)
        else if k.required then (s, false)
        else handOn fuel (next.expire s.ready)

/-! ## Indentation -/

/-- Ends the blocks that are indented further than `column`, at a place. -/
def unroll (column : Int) (mark : Mark) : List Int → Scanner → Scanner
  | [], s => s
  | outer :: rest, s =>
    if column < s.indent then
      unroll column mark rest { s.push .blockEnd mark mark with indent := outer, indents := rest }
    else s

/-- Ends the blocks that are indented further than `column`, outside brackets. -/
def unrollTo (s : Scanner) (column : Int) (mark : Mark) : Scanner :=
  if s.inFlow then s else unroll column mark s.indents s

/-- Ends all blocks, and gives up the possible key. -/
def unrollAll (s : Scanner) : Option Scanner :=
  (s.unrollTo (-1) s.cursor.mark).dropKey

/-- Starts a block if `column` is indented further than the present one. -/
def roll (s : Scanner) (column : Nat) (number : Nat) (kind : TokenKind) (mark : Mark) :
    Option Scanner :=
  if s.inFlow || (column : Int) ≤ s.indent then some s
  else if s.indents.length < maxNesting then
    some { s.insert number kind mark with indent := column, indents := s.indent :: s.indents }
  else none

/-! ## Blanks and comments -/

/-- Skips blanks, comments and line ends. A tab may not stand where a key may start. -/
def skipBlank : Nat → Scanner → Scanner
  | 0, s => s
  | fuel + 1, s =>
    let c := s.cursor
    let blind := c.column = 0 && max s.taken (c.mark.index + 1) ≤ s.blindStarts
    let c := if blind then c.next else c
    let tabs := s.inFlow || !s.keyAllowed
    let (_, c) := c.takeWhile fun ch => ch = ' ' || (tabs && ch = '\t')
    let c := if c.isAt '#' then c.overComments fuel else c
    if c.atBreak then
      skipBlank fuel
        { s with cursor := c.nextLine.2, keyAllowed := s.keyAllowed || !s.inFlow }
    else { s with cursor := c }

/-! ## Single tokens -/

/-- A mark between documents. -/
def fetchDocumentMark (s : Scanner) (kind : TokenKind) : Option Scanner := do
  let s ← s.unrollAll
  return { s with keyAllowed := false }.pushNext 3 kind

/-- A directive takes its line. -/
def fetchDirective (s : Scanner) : Option Scanner := do
  let s ← s.unrollAll
  let (d, after) ← readDirective? s.cursor
  pushTo { s with keyAllowed := false } after (after.mark.index + 1) (.directive d)

/-- The end of the text, which counts as the start of a line. -/
def fetchEnd (s : Scanner) : Option Scanner := do
  let m := s.cursor.mark
  let m : Mark := if m.column = 0 then m else ⟨m.index, m.line + 1, 0⟩
  let s : Scanner := { s with cursor := { s.cursor with mark := m } }
  let s ← s.unrollAll
  return { s with keyAllowed := false, ended := true }.push .streamEnd m m

/-- An opening bracket may start a key, and a key may follow it. -/
def fetchFlowStart (s : Scanner) (kind : TokenKind) : Option Scanner := do
  let s ← (← s.saveKey).openFlow
  return { s with keyAllowed := true }.pushNext 1 kind

/-- A closing bracket. -/
def fetchFlowEnd (s : Scanner) (kind : TokenKind) : Option Scanner := do
  let s ← s.dropKey
  return { s.closeFlow with keyAllowed := false }.pushNext 1 kind

/-- A comma. -/
def fetchFlowEntry (s : Scanner) : Option Scanner := do
  let s ← s.dropKey
  return { s with keyAllowed := true }.pushNext 1 .flowEntry

/-- The dash of an entry starts a sequence where it is indented further. -/
def fetchBlockEntry (s : Scanner) : Option Scanner := do
  if !s.inFlow && !s.keyAllowed then none
  let s ← s.roll s.cursor.column s.count .blockSequenceStart s.cursor.mark
  let s ← s.dropKey
  return { s with keyAllowed := true }.pushNext 1 .blockEntry

/-- The question mark of a key. -/
def fetchKey (s : Scanner) : Option Scanner := do
  if !s.inFlow && !s.keyAllowed then none
  let s ← s.roll s.cursor.column s.count .blockMappingStart s.cursor.mark
  let s ← s.dropKey
  return { s with keyAllowed := !s.inFlow }.pushNext 1 .key

/-- The colon of a value. If a key was possible on this line, its token is put in front of it. -/
def fetchValue (s : Scanner) : Option Scanner :=
  let k := s.keySlot
  if !k.possible then bare s
  else if s.keyHolds k then do
    let s := s.insert k.number .key k.mark
    let s ← s.roll k.mark.column k.number .blockMappingStart k.mark
    let s := s.setKey { k with possible := false, held := false }
    return { s with keyAllowed := false }.pushNext 1 .value
  else if k.required then none
  else bare (s.setKey { k with possible := false })
where
  /-- A colon without a key on its line. -/
  bare (s : Scanner) : Option Scanner := do
    if !s.inFlow && !s.keyAllowed then none
    let s ← s.roll s.cursor.column s.count .blockMappingStart s.cursor.mark
    return { s with keyAllowed := !s.inFlow }.pushNext 1 .value

/-- An anchor, or the name of one. -/
def fetchName (s : Scanner) (kind : String → TokenKind) : Option Scanner := do
  let s ← s.saveKey
  let (name, after) := s.cursor.next.takeWhile isNameChar
  let closed := after.gapAfter 0 ||
    after.peek?.any fun c => ['?', ':', ',', ']', '\x7d', '%', '@', Text.backTick].contains c
  if name.isEmpty || !closed then none
  else
    let token := kind (String.ofList name)
    pushTo { s with keyAllowed := false } after (after.mark.index + 1) token

/-- A tag. -/
def fetchTag (s : Scanner) : Option Scanner := do
  let s ← s.saveKey
  let (t, after) ← readTag? s.cursor
  pushTo { s with keyAllowed := false } after (after.mark.index + 1) (.tag t)

/-- A block scalar. A key may follow it. -/
def fetchBlockScalar (s : Scanner) (literal : Bool) : Option Scanner := do
  let s ← s.dropKey
  let r ← readBlock literal s.indent s.cursor
  pushTo { s with keyAllowed := true } r.after r.taken (.scalar (String.ofList r.text) false)

/-- A quoted scalar. -/
def fetchQuoted (s : Scanner) (double : Bool) : Option Scanner := do
  let s ← s.saveKey
  let r ← readQuoted double s.cursor
  pushTo { s with keyAllowed := false } r.after r.taken (.scalar (String.ofList r.text) false)

/-- A plain scalar. A key may follow it if its last line has ended. -/
def fetchPlain (s : Scanner) : Option Scanner := do
  let s ← s.saveKey
  let r ← readPlain s.inFlow (s.indent + 1).toNat s.cursor
  pushTo { s with keyAllowed := r.lineEnded } r.after r.taken (.scalar (String.ofList r.text) true)

/-- A character that has a meaning of its own at the start of a token. -/
def isIndicator (c : Char) : Bool :=
  ['-', '?', ':', ',', '[', ']', '\x7b', '\x7d', '#', '&', '*', '!', '|', '>', Text.tick, '"',
    '%', '@', Text.backTick].contains c

/-- A plain scalar may start with any character without a meaning of its own, blanks apart, or with
a dash, question mark or colon that is followed by more. -/
def startsPlain (s : Scanner) (ch : Char) : Bool :=
  !(isIndicator ch || isBlank ch) ||
    (ch = '-' && !(s.cursor.next.atBlank)) ||
    (!s.inFlow && (ch = '?' || ch = ':') && !s.cursor.gapAfter 1)

/-- A token that starts at the place, if it is neither the end of the text nor a mark that takes a
line of its own. -/
def fetchInLine (s : Scanner) (ch : Char) : Option Scanner :=
  let c := s.cursor
  if ch = '[' then s.fetchFlowStart .flowSequenceStart
  else if ch = '\x7b' then s.fetchFlowStart .flowMappingStart
  else if ch = ']' then s.fetchFlowEnd .flowSequenceEnd
  else if ch = '\x7d' then s.fetchFlowEnd .flowMappingEnd
  else if ch = ',' then s.fetchFlowEntry
  else if ch = '-' && c.gapAfter 1 then s.fetchBlockEntry
  else if ch = '?' && (s.inFlow || c.gapAfter 1) then s.fetchKey
  else if ch = ':' && (s.inFlow || c.gapAfter 1) then s.fetchValue
  else if ch = '*' then s.fetchName .refer
  else if ch = '&' then s.fetchName .anchor
  else if ch = '!' then s.fetchTag
  else if ch = '|' && !s.inFlow then s.fetchBlockScalar true
  else if ch = '>' && !s.inFlow then s.fetchBlockScalar false
  else if ch = Text.tick then s.fetchQuoted false
  else if ch = '"' then s.fetchQuoted true
  else if s.startsPlain ch then s.fetchPlain
  else none

/-- Skips a comment on the line of the latest token. There is none behind the dash of an entry, nor
behind a scalar whose line has ended. -/
def skipLineComment (s : Scanner) : Scanner :=
  match s.tokens with
  | ⟨.blockEntry, _, _⟩ :: _ => s
  | ⟨.scalar _ _, _, _⟩ :: _ =>
    if s.keyAllowed then s else { s with cursor := s.cursor.overLineComment }
  | _ => { s with cursor := s.cursor.overLineComment }

/-- The next token. -/
def fetch (s : Scanner) : Option Scanner := do
  let mark := s.cursor.mark
  let s ← s.take? (mark.index + 1)
  let s := skipBlank (s.cursor.rest.length + 1) s
  let s := s.unrollTo s.cursor.column mark
  let s ← s.take? (s.cursor.mark.index + 4)
  match s.cursor.peek? with
  | none => s.fetchEnd
  | some ch =>
    if s.cursor.column = 0 && ch = '%' then s.fetchDirective
    else if s.cursor.atIndicator '-' then s.fetchDocumentMark .documentStart
    else if s.cursor.atIndicator '.' then s.fetchDocumentMark .documentEnd
    else (s.fetchInLine ch).map skipLineComment

/-- The tokens that were handed on, and whether there could have been more. -/
def handedOn (s : Scanner) (broken : Bool) : List Token × Bool :=
  (s.tokens.reverse.take s.ready, broken)

/-- Fetches tokens up to the end of the text. -/
def run : Nat → Scanner → List Token × Bool
  | 0, s => s.handedOn true
  | fuel + 1, s =>
    match s.fetch with
    | none => s.handedOn true
    | some s =>
      let (s, fits) := handOn s.count s
      if !fits then s.handedOn true
      else if s.ended then s.handedOn false
      else run fuel s

end Scanner

/-! ## Texts -/

/-- The mark that may stand at the start of a text, and says nothing. -/
def isOrderMark (c : Char) : Bool :=
  c.toNat = 0xfeff

/-- A text is taken in in pieces of so many bytes, each of whole characters. -/
def pieceSize : Nat := 512

/-- The number of characters in the first piece of a text, which has room for some bytes. -/
def firstPiece : Nat → List Char → Nat
  | _, [] => 0
  | room, c :: cs => if c.utf8Size ≤ room then firstPiece (room - c.utf8Size) cs + 1 else 0

/-- Where the piece starts that holds the first character that may not stand in a document; a piece
with such a character cannot be taken in. `start` is the start of the present piece, which has room
for some more bytes, and `index` the present place. -/
def faultyPiece? (start room index : Nat) : List Char → Option Nat
  | [] => none
  | c :: cs =>
    let (start, room) := if c.utf8Size ≤ room then (start, room) else (index, pieceSize)
    if isAllowed c then faultyPiece? start (room - c.utf8Size) (index + 1) cs else some start

/-- The tokens of a text, and whether cutting stopped before its end. A mark at the start of the
text does not belong to it. If a second one follows, then in the first piece of the text the first
character of each line counts as a blank. -/
def scan (text : String) : List Token × Bool :=
  let cs := text.toList
  let marked := cs.head?.any isOrderMark
  let cs := if marked then cs.drop 1 else cs
  let room := if marked then pieceSize - 3 else pieceSize
  Scanner.run (2 * cs.length + 2)
    { cursor := .start cs
      blindStarts := if cs.head?.any isOrderMark then firstPiece room cs else 0
      limit := faultyPiece? 0 room 0 cs }

end TypedPerl.Yaml
