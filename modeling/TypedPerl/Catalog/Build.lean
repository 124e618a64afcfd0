import TypedPerl.Catalog
import TypedPerl.Text.Quoted

/-!
# Builds

The name and the time of an opening of the catalog, from a random number and the number of seconds
since the start of 1970. The name has the form of a random identifier of 128 bits.
-/

namespace TypedPerl.Catalog

/-! ## Names -/

/-- The last `width` hexadecimal digits of a number. -/
def hexText (width n : Nat) : String :=
  String.ofList (Text.hexFixed width n)

/-- The name of a build. Six of its bits tell that it is random; the others are those of the
number. -/
def buildId (random : Nat) : String :=
  Text.join "-"
    [hexText 8 (random / Nat.pow 2 96), hexText 4 (random / Nat.pow 2 80),
      hexText 4 (0x4000 + random / Nat.pow 2 64 % 0x1000),
      hexText 4 (0x8000 + random / Nat.pow 2 48 % 0x4000), hexText 12 random]

/-! ## Times -/

/-- The year, month and day that is a number of days behind the first day of 1970. Years are counted
from March on, in cycles of 400 years, so that the day of a leap year comes last. -/
def civilDate (days : Nat) : Nat × Nat × Nat :=
  let shifted := days + 719468
  let cycle := shifted / 146097
  let day := shifted % 146097
  let year := (day - day / 1460 + day / 36524 - day / 146096) / 365
  let dayOfYear := day - (365 * year + year / 4 - year / 100)
  let monthIndex := (5 * dayOfYear + 2) / 153
  let month := if monthIndex < 10 then monthIndex + 3 else monthIndex - 9
  (cycle * 400 + year + (if month ≤ 2 then 1 else 0), month,
    dayOfYear - (153 * monthIndex + 2) / 5 + 1)

/-- A number with zeros in front up to a width. -/
def zeroPadded (width n : Nat) : String :=
  let s := toString n
  String.ofList (List.replicate (width - s.length) '0') ++ s

/-- A time as year, month, day, hour, minute and second. -/
def timeText (seconds : Nat) : String :=
  let (year, month, day) := civilDate (seconds / 86400)
  let rest := seconds % 86400
  Text.join "-" [zeroPadded 4 year, zeroPadded 2 month, zeroPadded 2 day] ++ " " ++
    Text.join ":" [zeroPadded 2 (rest / 3600), zeroPadded 2 (rest / 60 % 60),
      zeroPadded 2 (rest % 60)]

/-- A build from a random number and a time. -/
def Build.new (random seconds : Nat) : Build :=
  ⟨buildId random, timeText seconds⟩

end TypedPerl.Catalog
