/-!
# Bytes written as text

`base64?` reads bytes that are written by letters, digits and two more characters, six bits each.
Four characters write three bytes; the last four may end in one or two marks that stand for no bits.
-/

namespace TypedPerl.Text

/-- The six bits that a character stands for. -/
def base64Value? (c : Char) : Option Nat :=
  if 'A' ≤ c && c ≤ 'Z' then some (c.toNat - 65)
  else if 'a' ≤ c && c ≤ 'z' then some (c.toNat - 71)
  else if c.isDigit then some (c.toNat + 4)
  else if c = '+' then some 62
  else if c = '/' then some 63
  else none

/-- The bytes that groups of four characters write. Only the last group may have marks at its end.
-/
def base64Groups? : List Char → Option (List UInt8)
  | [] => some []
  | [a, b, '=', '='] => do
    let n := 64 * (← base64Value? a) + (← base64Value? b)
    some [(n / 16).toUInt8]
  | [a, b, c, '='] => do
    let n := 4096 * (← base64Value? a) + 64 * (← base64Value? b) + (← base64Value? c)
    some [(n / 1024).toUInt8, (n / 4).toUInt8]
  | a :: b :: c :: d :: rest => do
    let n := 262144 * (← base64Value? a) + 4096 * (← base64Value? b) + 64 * (← base64Value? c) +
      (← base64Value? d)
    let more ← base64Groups? rest
    some ((n / 65536).toUInt8 :: (n / 256).toUInt8 :: n.toUInt8 :: more)
  | _ => none

/-- The bytes that a text writes. Ends of lines in it do not count. -/
def base64? (s : String) : Option (List UInt8) :=
  base64Groups? (s.toList.filter fun c => c ≠ '\n' && c ≠ '\r')

end TypedPerl.Text
