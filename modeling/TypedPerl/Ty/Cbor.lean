import TypedPerl.Ty.Tag

/-!
# Binary form of types

A type is stored as a CBOR map: key 1 holds the tag codes as a byte string, key 2 the class name
of the innermost object, left out when there is none. The reader takes any CBOR item, so the
module first reads bytes into items (`Cbor.read?`), and then picks the two fields out of a map.
The codes may also come as an array of small integers, a field may be null, unknown keys are
skipped, and of two equal keys the first counts. Tags may stand in front of whatever is read, if
they fit it.
-/

namespace TypedPerl

/-- A CBOR data item. Arguments and lengths are natural numbers; texts are kept as their bytes,
piece by piece, because each piece must be a text of its own. -/
inductive Cbor where
  /-- A natural number. -/
  | nat (n : Nat)
  /-- The negative number `-1 - n`. -/
  | neg (n : Nat)
  /-- A byte string. -/
  | bytes (b : List UInt8)
  /-- A text string, as the bytes of its pieces. -/
  | text (pieces : List (List UInt8))
  /-- An array of items. -/
  | array (items : List Cbor)
  /-- A map, as the row of its keys and values in turn. -/
  | map (entries : List Cbor)
  /-- A tagged item. -/
  | tagged (tag : Nat) (item : Cbor)
  /-- A simple value: 20 and 21 are the truth values, 22 is null, 23 is undefined. -/
  | simple (n : Nat)
  /-- A floating-point number. -/
  | float
deriving Repr, Inhabited

namespace Cbor

/-! ## Heads -/

/-- The number written by `k` bytes, the most significant first, and the bytes after them. -/
def takeNat? : Nat → Nat → List UInt8 → Option (Nat × List UInt8)
  | 0, acc, bs => some (acc, bs)
  | _ + 1, _, [] => none
  | k + 1, acc, b :: bs => takeNat? k (acc * 256 + b.toNat) bs

/-- The argument of a head. -/
inductive Arg where
  /-- A number that follows or is part of the first byte; `short` when it is in the first byte. -/
  | value (n : Nat) (width : Nat)
  /-- The mark of an item of indefinite length. -/
  | indefinite
deriving DecidableEq, Repr

/-- The major type and the argument at the front. -/
def head? : List UInt8 → Option (Nat × Arg × List UInt8)
  | [] => none
  | b :: bs =>
    let major := b.toNat / 32
    let info := b.toNat % 32
    if info < 24 then some (major, .value info 0, bs)
    else if info = 31 then some (major, .indefinite, bs)
    else
      let width? := if info = 24 then some 1 else if info = 25 then some 2
        else if info = 26 then some 4 else if info = 27 then some 8 else none
      match width? with
      | none => none
      | some w =>
        match takeNat? w 0 bs with
        | some (n, rest) => some (major, .value n w, rest)
        | none => none

/-- The break that ends an item of indefinite length. -/
def breakByte : UInt8 := 0xff

/-- Exactly `n` bytes, and the bytes after them. -/
def takeBytes? (n : Nat) (bs : List UInt8) : Option (List UInt8 × List UInt8) :=
  if n ≤ bs.length then some (bs.take n, bs.drop n) else none

/-- The pieces of a string of indefinite length, each a string of the same major type. -/
def chunks? (major : Nat) : Nat → List UInt8 → Option (List (List UInt8) × List UInt8)
  | 0, _ => none
  | fuel + 1, bs =>
    match bs with
    | [] => none
    | b :: rest =>
      if b = breakByte then some ([], rest)
      else
        match head? (b :: rest) with
        | some (m, .value n _, rest) =>
          if m ≠ major then none
          else match takeBytes? n rest with
            | some (piece, rest) =>
              match chunks? major fuel rest with
              | some (more, rest) => some (piece :: more, rest)
              | none => none
            | none => none
        | _ => none

/-! ## Items -/

/-- The greatest number of levels of arrays and maps inside one another; a tag that stands right
behind another one counts as a level too. -/
def maxNesting : Nat := 32

mutual

/-- One item at the front, at nesting level `level`; `tagged` when a tag stands in front of it. The
fuel bounds the number of items. -/
def item? (level : Nat) (tagged : Bool) : Nat → List UInt8 → Option (Cbor × List UInt8)
  | 0, _ => none
  | fuel + 1, bs =>
    match head? bs with
    | none => none
    | some (0, .value n _, rest) => some (.nat n, rest)
    | some (1, .value n _, rest) => some (.neg n, rest)
    | some (2, .value n _, rest) => (takeBytes? n rest).map fun p => (.bytes p.1, p.2)
    | some (2, .indefinite, rest) => (chunks? 2 fuel rest).map fun p => (.bytes p.1.flatten, p.2)
    | some (3, .value n _, rest) => (takeBytes? n rest).map fun p => (.text [p.1], p.2)
    | some (3, .indefinite, rest) => (chunks? 3 fuel rest).map fun p => (.text p.1, p.2)
    | some (4, .value n _, rest) =>
      if maxNesting ≤ level then none
      else (items? (level + 1) fuel n rest).map fun p => (.array p.1, p.2)
    | some (4, .indefinite, rest) =>
      if maxNesting ≤ level then none
      else (itemsToBreak? (level + 1) fuel rest).map fun p => (.array p.1, p.2)
    | some (5, .value n _, rest) =>
      if maxNesting ≤ level then none
      else (items? (level + 1) fuel (2 * n) rest).map fun p => (.map p.1, p.2)
    | some (5, .indefinite, rest) =>
      if maxNesting ≤ level then none
      else match itemsToBreak? (level + 1) fuel rest with
        | some (entries, rest) =>
          if entries.length % 2 = 0 then some (.map entries, rest) else none
        | none => none
    | some (6, .value n _, rest) =>
      let level := if tagged then level + 1 else level
      if maxNesting < level then none
      else (item? level true fuel rest).map fun p => (.tagged n p.1, p.2)
    | some (7, .value n w, rest) =>
      if w = 0 then some (.simple n, rest)
      else if w = 1 then if n < 32 then none else some (.simple n, rest)
      else some (.float, rest)
    | some _ => none

/-- Exactly `n` items. -/
def items? (level : Nat) : Nat → Nat → List UInt8 → Option (List Cbor × List UInt8)
  | _, 0, bs => some ([], bs)
  | 0, _ + 1, _ => none
  | fuel + 1, n + 1, bs =>
    match item? level false fuel bs with
    | none => none
    | some (x, rest) =>
      match items? level fuel n rest with
      | some (xs, rest) => some (x :: xs, rest)
      | none => none

/-- Items up to the break. -/
def itemsToBreak? (level : Nat) : Nat → List UInt8 → Option (List Cbor × List UInt8)
  | 0, _ => none
  | fuel + 1, bs =>
    match bs with
    | [] => none
    | b :: rest =>
      if b = breakByte then some ([], rest)
      else
        match item? level false fuel (b :: rest) with
        | none => none
        | some (x, rest) =>
          match itemsToBreak? level fuel rest with
          | some (xs, rest) => some (x :: xs, rest)
          | none => none

end

/-- The one item that the bytes are. -/
def read? (bs : List UInt8) : Option Cbor :=
  match item? 0 false (2 * bs.length + 2) bs with
  | some (x, []) => some x
  | _ => none

/-! ## Fields -/

/-- The text of several pieces, each of which must be a text. -/
def joinTexts? (pieces : List (List UInt8)) : Option String :=
  (pieces.mapM fun b => String.fromUTF8? ⟨b.toArray⟩).map String.join

/-- A tag fits the item that it marks: a date is a text, a time a number, and a great number is
written as its bytes. Other tags fit any item. -/
def fitsTag (tag : Nat) (x : Cbor) : Bool :=
  match tag, x with
  | 0, text _ => true
  | 1, nat _ | 1, neg _ | 1, float => true
  | 2, bytes _ | 3, bytes _ => true
  | _, _ => 3 < tag

/-- The item below its tags, which must fit. The tag of a great number stays with its bytes. -/
def content? : Cbor → Option Cbor
  | tagged tag x =>
    if !fitsTag tag x then none
    else if tag = 2 || tag = 3 then some (tagged tag x)
    else x.content?
  | x => some x

/-- Null and undefined leave a field as it is. -/
def isNull : Cbor → Bool
  | simple n => n = 22 || n = 23
  | _ => false

/-- The number that bytes write, the most significant first. -/
def bytesValue (b : List UInt8) : Nat :=
  b.foldl (fun n x => n * 256 + x.toNat) 0

/-- The number that an item counts as: a natural number, also a great one, or that of a simple value
without a meaning. Null counts as zero. -/
def toNat? : Cbor → Option Nat
  | nat n => some n
  | tagged 2 (bytes b) => some (bytesValue b)
  | simple n => if n = 22 || n = 23 then some 0 else if n = 20 || n = 21 then none else some n
  | _ => none

/-- A small number as a tag code. -/
def toCode? (x : Cbor) : Option UInt8 := do
  let n ← (← x.content?).toNat?
  if n < 256 then some n.toUInt8 else none

/-- The tag codes that an item holds. -/
def toCodes? (x : Cbor) : Option (List UInt8) :=
  match x.content? with
  | some (bytes b) | some (tagged _ (bytes b)) => some b
  | some (array xs) => xs.mapM toCode?
  | some y => if y.isNull then some [] else none
  | none => none

/-- The text that an item holds. -/
def toText? (x : Cbor) : Option String :=
  match x.content? with
  | some (text pieces) => joinTexts? pieces
  | some y => if y.isNull then some "" else none
  | none => none

/-- The number of the field that a key names: the number itself or its decimal text. A negative
number of more than 64 bits is no key. -/
def field? : Cbor → Option (Option Nat)
  | nat n => some (some n)
  | neg n => if n < Nat.pow 2 63 then some none else none
  | text pieces =>
    (joinTexts? pieces).map fun s => if s = "1" then some 1 else if s = "2" then some 2 else none
  | _ => none

/-- Reads the fields of a map into the codes and the name, of which each is set at most once. -/
def fields? : Option (List UInt8) → Option String → List Cbor →
    Option (List UInt8 × String)
  | codes, name, k :: v :: rest =>
    match field? k with
    | none => none
    | some (some 1) =>
      if codes.isSome then fields? codes name rest
      else match v.toCodes? with
        | some cs => fields? (some cs) name rest
        | none => none
    | some (some 2) =>
      if name.isSome then fields? codes name rest
      else match v.toText? with
        | some s => fields? codes (some s) rest
        | none => none
    | some _ => fields? codes name rest
  | codes, name, _ => some (codes.getD [], name.getD "")

/-- The codes and the name that a stored item holds. -/
def wire? (x : Cbor) : Option (List UInt8 × String) :=
  match x.content? with
  | some (map entries) => fields? none none entries
  | some y => if y.isNull then some ([], "") else none
  | none => none

/-! ## Writing -/

/-- A number as its last `k` bytes, the most significant first. -/
def natBytes : Nat → Nat → List UInt8
  | 0, _ => []
  | k + 1, n => natBytes k (n / 256) ++ [n.toUInt8]

/-- No head has an argument of this size: the first number of nine bytes. -/
def headLimit : Nat := 18446744073709551616

/-- The shortest head of a major type and an argument below `headLimit`. -/
def writeHead (major n : Nat) : List UInt8 :=
  let m := 32 * major
  if n < 24 then [(m + n).toUInt8]
  else if n < 256 then (m + 24).toUInt8 :: natBytes 1 n
  else if n < 65536 then (m + 25).toUInt8 :: natBytes 2 n
  else if n < 4294967296 then (m + 26).toUInt8 :: natBytes 4 n
  else (m + 27).toUInt8 :: natBytes 8 n

/-- A piece of a string, with its length in front. -/
def writePiece (major : Nat) (piece : List UInt8) : List UInt8 :=
  writeHead major piece.length ++ piece

/-- A string that consists of pieces. It is written as one piece, and only piece by piece when it is
too long for the head of one. -/
def writeString (major : Nat) (pieces : List (List UInt8)) : List UInt8 :=
  if pieces.flatten.length < headLimit then writePiece major pieces.flatten
  else (32 * major + 31).toUInt8 :: (pieces.flatMap (writePiece major) ++ [breakByte])

/-- A byte string item. -/
def writeBytes (b : List UInt8) : List UInt8 :=
  writeString 2 (b.map fun x => [x])

/-- A text item. -/
def writeText (s : String) : List UInt8 :=
  writeString 3 (s.toList.map fun c => (String.singleton c).toUTF8.data.toList)

end Cbor

namespace Ty

/-- Why stored bytes are no type. -/
inductive DecodeFault where
  /-- The bytes are no stored type at all. -/
  | malformed
  /-- The tags that they hold are no type. -/
  | tags (reason : TagReason)
deriving DecidableEq, Repr

/-- The stored form of a type. -/
def toCbor (t : Ty) : List UInt8 :=
  let name := t.objectName
  let codes := 1 :: Cbor.writeBytes t.tagCodes
  if name = "" then Cbor.writeHead 5 1 ++ codes
  else Cbor.writeHead 5 2 ++ codes ++ (2 :: Cbor.writeText name)

/-- The type that stored bytes hold. -/
def ofCbor (bs : List UInt8) : Except DecodeFault Ty :=
  match (Cbor.read? bs).bind Cbor.wire? with
  | none => .error .malformed
  | some (codes, name) => (ofTags codes name).mapError .tags

end Ty

end TypedPerl
