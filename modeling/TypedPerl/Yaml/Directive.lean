import TypedPerl.Yaml.Cursor
import TypedPerl.Text.Bytes

/-!
# Tags and directives as they are written

A tag is written by a handle and a suffix, or in full between angle brackets. What a handle stands
for is said by directives at the start of a document. A directive takes a line of its own: it names
the version of the format, or a handle and the text that it stands for. Each reader takes the place
where its part starts and gives the place after it.
-/

namespace TypedPerl.Yaml

/-! ## Tags -/

/-- A character of the text of a tag. -/
def isUriChar (c : Char) : Bool :=
  isNameChar c || [';', '/', '?', ':', '@', '&', '=', '+', '$', ',', '.', '%', '!', '~', '*',
    Text.tick, '(', ')', '[', ']'].contains c

/-- The byte of an escape at the front. -/
def escapedByte? (c : Cursor) : Option (Nat × Cursor) :=
  match c.rest with
  | '%' :: a :: b :: _ => do
    let n := 16 * (← Text.hexValue? a) + (← Text.hexValue? b)
    some (n, c.skip 3)
  | _ => none

/-- The number of bytes of a character whose first byte is given. -/
def byteCount? (lead : Nat) : Option Nat :=
  if lead < 0x80 then some 1
  else if 0xc0 ≤ lead && lead < 0xe0 then some 2
  else if 0xe0 ≤ lead && lead < 0xf0 then some 3
  else if 0xf0 ≤ lead && lead < 0xf8 then some 4
  else none

/-- The further bytes of a character that is written by escapes. -/
def trailingBytes? : Nat → Cursor → Option (List UInt8 × Cursor)
  | 0, c => some ([], c)
  | n + 1, c => do
    let (b, c) ← escapedByte? c
    if b / 64 ≠ 2 then none
    let (bs, c) ← trailingBytes? n c
    some (b.toUInt8 :: bs, c)

/-- A character that is written by escapes. -/
def escapedChar? (c : Cursor) : Option (List Char × Cursor) := do
  let (lead, c) ← escapedByte? c
  let count ← byteCount? lead
  let (bs, c) ← trailingBytes? (count - 1) c
  some ((Text.ofBytes (lead.toUInt8 :: bs)).toList, c)

/-- The text of a tag, which may be empty. The fuel bounds the number of characters. -/
def readUri? : Nat → Cursor → Option (List Char × Cursor)
  | 0, c => some ([], c)
  | fuel + 1, c =>
    match c.peek? with
    | none => some ([], c)
    | some ch =>
      if !isUriChar ch then some ([], c)
      else do
        let (front, c) ← if ch = '%' then escapedChar? c else some ([ch], c.next)
        let (cs, c) ← readUri? fuel c
        some (front ++ cs, c)

/-- The text of a tag, which must not be empty. -/
def readSomeUri? (c : Cursor) : Option (List Char × Cursor) := do
  let (cs, after) ← readUri? (c.rest.length + 1) c
  if after.mark.index = c.mark.index then none else some (cs, after)

/-- A handle: an exclamation mark, or a name between two of them. Without the second one the name is
part of the tag; the flag tells that it is there. -/
def readHandle? (c : Cursor) : Option (List Char × Bool × Cursor) :=
  if !c.isAt '!' then none
  else
    let (name, c) := c.next.takeWhile isNameChar
    if c.isAt '!' then some ('!' :: name ++ ['!'], true, c.next)
    else some ('!' :: name, false, c)

/-- A tag as it is written: a handle, which may be empty, and a suffix. -/
structure WrittenTag where
  /-- The handle; empty for a tag in full. -/
  handle : String
  /-- What follows the handle. -/
  suffix : String
deriving DecidableEq, Repr, Inhabited

/-- A tag in full, behind its opening bracket. -/
def readVerbatim? (c : Cursor) : Option (WrittenTag × Cursor) := do
  let (cs, c) ← readSomeUri? c
  if c.isAt '>' then some (⟨"", String.ofList cs⟩, c.next) else none

/-- A tag with a handle. A lone exclamation mark is a tag in full. -/
def readShorthand? (c : Cursor) : Option (WrittenTag × Cursor) := do
  let (handle, closed, c) ← readHandle? c
  if closed then
    let (cs, c) ← readSomeUri? c
    some (⟨String.ofList handle, String.ofList cs⟩, c)
  else
    let (cs, c) ← readUri? (c.rest.length + 1) c
    let suffix := handle.drop 1 ++ cs
    if suffix.isEmpty then some (⟨"", "!"⟩, c) else some (⟨"!", String.ofList suffix⟩, c)

/-- A tag, which a blank or the end of the line must follow. -/
def readTag? (c : Cursor) : Option (WrittenTag × Cursor) := do
  let (tag, c) ← if c.next.isAt '<' then readVerbatim? (c.skip 2) else readShorthand? c
  if c.gapAfter 0 then some (tag, c) else none

/-! ## Directives -/

/-- What a directive says. -/
inductive Directive where
  /-- The version of the format. -/
  | version (major minor : Nat)
  /-- The text that a handle stands for. -/
  | handle (name text : String)
deriving DecidableEq, Repr, Inhabited

/-- A number of one or two digits. -/
def readVersionPart? (c : Cursor) : Option (Nat × Cursor) :=
  let (ds, c) := c.takeWhile Char.isDigit
  if ds.isEmpty || 2 < ds.length then none
  else some (ds.foldl (fun n d => 10 * n + (d.toNat - 48)) 0, c)

/-- The value of a version directive. -/
def readVersion? (c : Cursor) : Option (Directive × Cursor) := do
  let (major, c) ← readVersionPart? (c.takeWhile isBlank).2
  if !c.isAt '.' then none
  let (minor, c) ← readVersionPart? c.next
  some (.version major minor, c)

/-- The value of a directive for a handle. -/
def readHandleDirective? (c : Cursor) : Option (Directive × Cursor) := do
  let (handle, closed, c) ← readHandle? (c.takeWhile isBlank).2
  if !closed && handle ≠ ['!'] then none
  if !c.atBlank then none
  let (text, c) ← readSomeUri? (c.takeWhile isBlank).2
  if !c.gapAfter 0 then none
  some (.handle (String.ofList handle) (String.ofList text), c)

/-- A directive, from its percent sign to the start of the next line. A comment may stand behind
it. -/
def readDirective? (c : Cursor) : Option (Directive × Cursor) := do
  let (name, c) := c.next.takeWhile isNameChar
  if !c.gapAfter 0 then none
  let (d, c) ←
    if name = ['Y', 'A', 'M', 'L'] then readVersion? c
    else if name = ['T', 'A', 'G'] then readHandleDirective? c
    else none
  let c := (c.takeWhile isBlank).2
  let c := if c.isAt '#' then c.lineEnd else c
  if c.atEnd then some (d, c)
  else if c.atBreak then some (d, c.nextLine.2)
  else none

end TypedPerl.Yaml
