import TypedPerl.Text.Quoted

/-!
# Dates and times of day

The pieces of written dates and times that several formats share. Each reader gives what follows the
piece, or nothing if it is none. A field is one that has two digits always (`padded`), or one that
may have a single digit.
-/

namespace TypedPerl.Calendar

/-- The number of days of a month. -/
def monthDays (year month : Nat) : Nat :=
  if month = 2 then
    if year % 4 = 0 && (year % 100 ≠ 0 || year % 400 = 0) then 29 else 28
  else if [4, 6, 9, 11].contains month then 30
  else 31

/-- The number of a row of digits. -/
def digitsValue (ds : List Char) : Nat :=
  ds.foldl (fun n c => 10 * n + (c.toNat - 48)) 0

/-- The number of exactly `n` digits, and what follows them. -/
def digits? (n : Nat) (cs : List Char) : Option (Nat × List Char) :=
  let ds := cs.take n
  if ds.length = n && ds.all Char.isDigit then some (digitsValue ds, cs.drop n) else none

/-- A field of a date or a time, and what follows it. -/
def field? (padded : Bool) (cs : List Char) : Option (Nat × List Char) :=
  match digits? 2 cs with
  | some r => some r
  | none => if padded then none else digits? 1 cs

/-- What follows a date: a year of four digits, a month and a day of that month. -/
def date? (padded : Bool) (cs : List Char) : Option (List Char) := do
  let (year, cs) ← digits? 4 cs
  let (month, cs) ← field? padded (← Text.dropChar? '-' cs)
  let (day, cs) ← field? padded (← Text.dropChar? '-' cs)
  if 1 ≤ month && month ≤ 12 && 1 ≤ day && day ≤ monthDays year month then some cs else none

/-- What follows hours and minutes. -/
def hourMinute? (padded : Bool) (cs : List Char) : Option (List Char) := do
  let (h, cs) ← field? padded cs
  let (m, cs) ← field? padded (← Text.dropChar? ':' cs)
  if h ≤ 23 && m ≤ 59 then some cs else none

/-- What follows the fraction of a second, which may be missing. -/
def fraction (cs : List Char) : List Char :=
  match cs with
  | c :: d :: rest =>
    if (c = '.' || c = ',') && d.isDigit then rest.dropWhile Char.isDigit else cs
  | cs => cs

/-- What follows seconds, with their colon. -/
def seconds? (padded : Bool) (cs : List Char) : Option (List Char) := do
  let (s, cs) ← field? padded (← Text.dropChar? ':' cs)
  if s ≤ 59 then some (fraction cs) else none

/-- What follows the offset of a time zone: the letter of no offset, or a sign with hours and
minutes, of which the greatest are 24 and 60. -/
def offset? (cs : List Char) : Option (List Char) :=
  match cs with
  | 'Z' :: rest => some rest
  | sign :: rest => do
    let (h, rest) ← digits? 2 rest
    let (m, rest) ← digits? 2 (← Text.dropChar? ':' rest)
    if (sign = '+' || sign = '-') && h ≤ 24 && m ≤ 60 then some rest else none
  | [] => none

end TypedPerl.Calendar
