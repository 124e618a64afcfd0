import TypedPerl.Calendar
import TypedPerl.Numeral.Read
import TypedPerl.Text.Base64
import TypedPerl.Text.Bytes

/-!
# What scalars denote

A scalar is a text with a tag that says what the text denotes. A scalar without a tag of its own
that is written plain has the tag that its text suggests: a few words denote null and the truth
values, and other texts have the form of a number or of a date. `Tag.read?` gives what a text
denotes under a tag; a text that does not have the form that its tag asks for denotes nothing.
-/

namespace TypedPerl.Yaml

/-- What a text is said to denote. -/
inductive Tag where
  /-- The text itself. -/
  | str
  /-- Nothing. -/
  | null
  /-- A truth value. -/
  | bool
  /-- A whole number. -/
  | int
  /-- A decimal number. -/
  | float
  /-- A date, or a date and a time. -/
  | timestamp
  /-- Bytes. -/
  | binary
  /-- The entries that are taken in from other mappings. -/
  | merge
  /-- Something that this format does not know. -/
  | other (name : String)
deriving DecidableEq, Repr, Inhabited

namespace Tag

/-- How the names of the tags of the format itself start in full. -/
def family : String := "tag:yaml.org,2002:"

/-- The tag of a name in the family of the format. -/
def ofName (name : String) : Tag :=
  match name with
  | "str" => str
  | "null" => null
  | "bool" => bool
  | "int" => int
  | "float" => float
  | "timestamp" => timestamp
  | "binary" => binary
  | "merge" => merge
  | _ => other name

/-- The tag of a text, which may name the family in full or by two exclamation marks. -/
def ofText (s : String) : Tag :=
  match Text.dropLeading? family s with
  | some name => ofName name
  | none =>
    match Text.dropLeading? "!!" s with
    | some name => ofName name
    | none => other s

end Tag

/-- What a scalar denotes. -/
inductive Datum where
  /-- Nothing. -/
  | null
  /-- A truth value. -/
  | bool (b : Bool)
  /-- A whole number of 64 bits, with or without a sign. -/
  | int (i : Int)
  /-- A decimal number. -/
  | float (x : Numeral.Binary)
  /-- A date, or a date and a time. -/
  | time
  /-- A text. -/
  | text (s : String)
deriving Repr, Inhabited

/-- The tag that says what kind a datum has. -/
def Datum.tag : Datum → Tag
  | null => .null
  | bool _ => .bool
  | int _ => .int
  | float _ => .float
  | time => .timestamp
  | text _ => .str

/-! ## Words -/

/-- What a word denotes. -/
def wordDatum? (s : String) : Option Datum :=
  if ["", "~", "null", "Null", "NULL"].contains s then some .null
  else if ["true", "True", "TRUE"].contains s then some (.bool true)
  else if ["false", "False", "FALSE"].contains s then some (.bool false)
  else if [".nan", ".NaN", ".NAN"].contains s then some (.float .nan)
  else if [".inf", ".Inf", ".INF", "+.inf", "+.Inf", "+.INF"].contains s then
    some (.float (.infinite false))
  else if ["-.inf", "-.Inf", "-.INF"].contains s then some (.float (.infinite true))
  else none

/-! ## Dates -/

/-- The text is a date, a date and a time with an offset, or a date and a time after spaces. -/
def isTimestamp (s : String) : Bool :=
  let clock (cs : List Char) : Option (List Char) :=
    (Calendar.hourMinute? false cs).bind (Calendar.seconds? false)
  match Calendar.date? false s.toList with
  | some [] => true
  | some (c :: rest) =>
    if c = 'T' || c = 't' then ((clock rest).bind Calendar.offset?) = some []
    else c = ' ' && clock (rest.dropWhile (· = ' ')) = some []
  | none => false

/-! ## Numbers -/

/-- The text has the form of a decimal number: digits with at most one point, and an exponent. -/
def isDecimalText (s : String) : Bool :=
  let (_, cs) := Numeral.splitSign s.toList
  let int := cs.takeWhile Char.isDigit
  let rest := cs.dropWhile Char.isDigit
  let (frac, rest) := match rest with
    | '.' :: tail => (tail.takeWhile Char.isDigit, tail.dropWhile Char.isDigit)
    | _ => ([], rest)
  let mantissa := !int.isEmpty || !frac.isEmpty
  let exponent := match rest with
    | [] => true
    | c :: tail =>
      let (_, ds) := Numeral.splitSign tail
      (c = 'e' || c = 'E') && !ds.isEmpty && ds.all Char.isDigit
  mantissa && exponent

/-- The whole number of digits in a base, with the sign that stands before the mark of the base. -/
def basedInt? (base : Nat) (neg : Bool) (digits : List Char) : Option Int := do
  let (sign, ds) := if neg then (true, digits) else Numeral.splitSign digits
  if ds.isEmpty then none
  let n ← Numeral.digitsValue? base ds
  Numeral.signedWord? 64 sign n

/-- The whole number of a text whose sign may stand behind the mark of its base. -/
def markedInt? (s : String) : Option Int :=
  match s.toList with
  | '0' :: 'b' :: ds => basedInt? 2 false ds
  | '-' :: '0' :: 'b' :: ds => basedInt? 2 true ds
  | '0' :: 'o' :: ds => basedInt? 8 false ds
  | '-' :: '0' :: 'o' :: ds => basedInt? 8 true ds
  | _ => none

/-- The whole number that a text denotes; one without a sign may take all of 64 bits. -/
def wholeNumber? (s : String) : Option Int :=
  match Numeral.readInt? s with
  | some i => some i
  | none =>
    match Numeral.readNat? s.toList with
    | some n => if n < Nat.pow 2 64 then some (n : Int) else none
    | none => none

/-- The number that a text denotes. Underscores in it do not count. -/
def number? (s : String) : Option Datum :=
  let digits := String.ofList (s.toList.filter (· ≠ '_'))
  match wholeNumber? digits with
  | some i => some (.int i)
  | none =>
    match if isDecimalText digits then Numeral.readFloat? digits else none with
    | some x => some (.float x)
    | none => (markedInt? digits).map .int

/-- What a plain text denotes. Its first character tells which forms are tried. -/
def plainDatum (s : String) : Datum :=
  match wordDatum? s with
  | some d => d
  | none =>
    match s.toList with
    | '.' :: _ => ((Numeral.readFloat? s).map Datum.float).getD (.text s)
    | c :: _ =>
      if !(c.isDigit || c = '+' || c = '-') then .text s
      else if isTimestamp s then .time
      else (number? s).getD (.text s)
    | [] => .text s

/-! ## Tags and what they ask for -/

/-- What a text denotes under a tag. A whole number counts as a decimal one where that is asked for,
if it is a number of 64 bits with a sign. -/
def Tag.read? (tag : Tag) (s : String) : Option Datum :=
  match tag with
  | str | merge | other _ => some (.text s)
  | binary => (Text.base64? s).map fun bs => .text (Text.ofBytes bs)
  | tag =>
    match plainDatum s with
    | .int i =>
      if tag = int then some (.int i)
      else if tag = float && i < (Numeral.wordLimit 64 : Int) then
        some (.float (.ofInt Numeral.binary64 i))
      else none
    | d => if d.tag = tag then some d else none

/-- The tag of a scalar: the one written in front of it, unless that is a lone exclamation mark, or
the one that its form and text suggest. -/
def Tag.ofScalar (written : Option String) (text : String) (plain : Bool) : Tag :=
  match written.filter (· ≠ "!") with
  | some t => .ofText t
  | none =>
    if !plain then .str
    else if text = "<<" then .merge
    else (plainDatum text).tag

/-! ## Conversions -/

/-- The truth value that a datum counts as. A few words are truth values, and null is false. -/
def Datum.toBool? : Datum → Option Bool
  | null => some false
  | bool b => some b
  | text s =>
    if ["y", "Y", "yes", "Yes", "YES", "on", "On", "ON"].contains s then some true
    else if ["n", "N", "no", "No", "NO", "off", "Off", "OFF"].contains s then some false
    else none
  | _ => none

/-- A decimal number without its fraction, as a number of 64 bits. Beyond the least number it is the
least number. -/
def wholePart? (x : Numeral.Binary) : Option Int :=
  let limit : Int := Numeral.wordLimit 64
  match x with
  | .infinite neg => if neg then some (-limit) else none
  | .nan => none
  | x =>
    match x.trunc? with
    | some t =>
      if t > limit then none
      else if t = limit || t < -limit then some (-limit)
      else some t
    | none => none

/-- The number of 64 bits with a sign that a datum counts as; null is zero. -/
def Datum.toInt? : Datum → Option Int
  | null => some 0
  | int i => if i < (Numeral.wordLimit 64 : Int) then some i else none
  | float x => wholePart? x
  | _ => none

end TypedPerl.Yaml
