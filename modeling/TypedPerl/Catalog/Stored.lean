import TypedPerl.Catalog
import TypedPerl.Text.Quoted

/-!
# The catalog as a file

A catalog is kept as lines of words, one for each row of its tables. A line starts with what it
holds, a package, a variable or a subroutine, and the other words are the columns of the row: bytes
in hexadecimal digits, with a hyphen for none.
-/

namespace TypedPerl.Catalog

/-! ## Writing -/

/-- Bytes as a word. -/
def bytesWord (bytes : List UInt8) : String :=
  if bytes.isEmpty then "-"
  else String.ofList (bytes.flatMap fun b => Text.hexFixed 2 b.toNat)

/-- A text as a word. -/
def textWord (s : String) : String :=
  bytesWord s.toUTF8.toList

/-- A line of words. -/
def storedLine (words : List String) : String :=
  Text.join " " words ++ "\n"

/-- The line of a package. -/
def packageLine (e : String × PackageRow) : String :=
  storedLine ("package" ::
    [e.1, e.2.className, e.2.source, e.2.build.id, e.2.build.time].map textWord)

/-- The line of a variable. -/
def varLine (e : VarKey × VarRow) : String :=
  storedLine ["var", textWord e.1.package, textWord e.1.name, textWord e.1.sigil,
    textWord e.2.javaName, bytesWord e.2.type]

/-- The line of a subroutine. -/
def subLine (e : SubKey × SubRow) : String :=
  storedLine ["sub", textWord e.1.package, textWord e.1.name, textWord e.2.javaName,
    bytesWord e.2.returns]

/-- The text of a catalog. -/
def stored (c : Catalog) : String :=
  String.join (c.packages.map packageLine) ++ String.join (c.vars.map varLine) ++
    String.join (c.subs.map subLine)

/-! ## Reading -/

/-- The bytes of hexadecimal digits. -/
def hexBytes? : List Char → Option (List UInt8)
  | [] => some []
  | a :: b :: rest => do
    let hi ← Text.hexValue? a
    let lo ← Text.hexValue? b
    let bytes ← hexBytes? rest
    some ((16 * hi + lo).toUInt8 :: bytes)
  | _ => none

/-- The bytes of a word. -/
def wordBytes? (w : String) : Option (List UInt8) :=
  if w = "-" then some [] else hexBytes? w.toList

/-- The text of a word. -/
def wordText? (w : String) : Option String := do
  let bytes ← wordBytes? w
  String.fromUTF8? ⟨bytes.toArray⟩

/-- The catalog with the row of one more line. -/
def readLine? (c : Catalog) (line : String) : Option Catalog :=
  match line.splitOn " " with
  | [""] => some c
  | ["package", name, cls, source, id, time] => do
    let row : PackageRow :=
      ⟨← wordText? cls, ← wordText? source, ⟨← wordText? id, ← wordText? time⟩⟩
    let packages ← c.packages.insert? (← wordText? name) row
    some { c with packages := packages }
  | ["var", package, name, sigil, javaName, type] => do
    let key : VarKey := ⟨← wordText? package, ← wordText? name, ← wordText? sigil⟩
    let vars ← c.vars.insert? key ⟨← wordText? javaName, ← wordBytes? type⟩
    some { c with vars := vars }
  | ["sub", package, name, javaName, returns] => do
    let key : SubKey := ⟨← wordText? package, ← wordText? name⟩
    let subs ← c.subs.insert? key ⟨← wordText? javaName, ← wordBytes? returns⟩
    some { c with subs := subs }
  | _ => none

/-- The catalog of a text, opened by a build. -/
def ofStored? (text : String) (build : Build) : Option Catalog :=
  (text.splitOn "\n").foldlM readLine? { build := build }

end TypedPerl.Catalog
