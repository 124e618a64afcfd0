/-!
# Bytes and texts

A row of bytes is read from its front: the bytes of a character in UTF-8 are that character, and a
byte that is part of none stands alone. `symbols` gives both kinds, and `ofBytes` a text, in which
such a byte is a replacement character.
-/

namespace TypedPerl.Text

/-- What stands in a row of bytes: a whole character or one byte. -/
inductive Symbol where
  /-- A character. -/
  | char (c : Char)
  /-- A byte that is part of no character. -/
  | byte (b : UInt8)
deriving DecidableEq, Repr

/-- The bytes of characters. -/
def encode (cs : List Char) : List UInt8 :=
  cs.flatMap String.utf8EncodeChar

namespace Symbol

/-- The bytes of a symbol. -/
def bytes : Symbol → List UInt8
  | char c => String.utf8EncodeChar c
  | byte b => [b]

/-- The character that stands for a symbol in a text. -/
def shown : Symbol → Char
  | char c => c
  | byte _ => Char.ofNat 0xfffd

/-- The character that a symbol is. -/
def char? : Symbol → Option Char
  | char c => some c
  | byte _ => none

end Symbol

/-- The character at the front. It has four bytes at the most. -/
def leadingChar? (bs : List UInt8) : Option Char :=
  (bs.take 4).toByteArray.utf8DecodeChar? 0

/-- The symbols of bytes; the fuel bounds their number. -/
def symbolsUpTo : Nat → List UInt8 → List Symbol
  | 0, _ => []
  | _, [] => []
  | fuel + 1, b :: bs =>
    match leadingChar? (b :: bs) with
    | some c => .char c :: symbolsUpTo fuel ((b :: bs).drop c.utf8Size)
    | none => .byte b :: symbolsUpTo fuel bs

/-- The symbols of bytes. -/
def symbols (bs : List UInt8) : List Symbol :=
  symbolsUpTo bs.length bs

/-- The text of bytes. A byte that is part of no character becomes a replacement character. -/
def ofBytes (bs : List UInt8) : String :=
  String.ofList ((symbols bs).map Symbol.shown)

end TypedPerl.Text
