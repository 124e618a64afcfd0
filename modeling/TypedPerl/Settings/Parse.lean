import TypedPerl.Settings.Basic
import TypedPerl.Diagnostic
import TypedPerl.Name.Reserved
import TypedPerl.Text.Quoted
import TypedPerl.Toml.Document
import TypedPerl.Yaml.Value

/-!
# Settings files

Reads a settings file, which is a YAML or a TOML document with one field for each setting. Fields
that are not known do not count, and an empty field is as good as none. The values must have the
type of the setting: in a YAML document every scalar is a text, in a TOML document only a string
is. The case of letters matters in the names of the fields of a YAML document only.
-/

namespace TypedPerl.Settings

open Yaml (Node Anchors)

/-! ## Fields -/

/-- How the fields of a settings file are read; a field of a wrong type gives nothing. -/
structure FieldReader where
  /-- The text of a field, empty if it is missing. -/
  text : String → Option String
  /-- The truth value of a field, false if it is missing. -/
  flag : String → Option Bool
  /-- The number of a field, zero if it is missing. -/
  number : String → Option Int

/-- The fields of a settings file, as they are written. -/
structure Written where
  /-- The directory that classes are written to. -/
  out : String
  /-- The package of the classes. -/
  package : String
  /-- The package of the runtime. -/
  runtimePackage : String
  /-- The file of the catalog. -/
  catalog : String
  /-- Expressions without effect stay statements. -/
  strictStatements : Bool
  /-- Values that may be undefined are guarded. -/
  nullChecks : Bool
  /-- Comments are kept. -/
  comments : Bool
  /-- How much is logged. -/
  verbosity : Int
  /-- When messages are coloured. -/
  color : String
deriving Repr, Inhabited

/-- The names of the fields. -/
def fieldNames : List String :=
  ["out", "package", "runtime_package", "catalog", "strict_statements", "null_checks", "comments",
    "verbosity", "color"]

/-- All fields of a settings file. -/
def Written.ofFields (r : FieldReader) : Option Written := do
  return {
    out := ← r.text "out"
    package := ← r.text "package"
    runtimePackage := ← r.text "runtime_package"
    catalog := ← r.text "catalog"
    strictStatements := ← r.flag "strict_statements"
    nullChecks := ← r.flag "null_checks"
    comments := ← r.flag "comments"
    verbosity := ← r.number "verbosity"
    color := ← r.text "color" }

/-! ## YAML documents -/

/-- Every second node of a row, from the first on: the keys of a mapping. -/
def keysOf : List Node → List Node
  | k :: _ :: rest => k :: keysOf rest
  | _ => []

/-- Two keys that count as the same: of one kind, with one text. -/
def sameKey (a b : Node) : Bool :=
  match a, b with
  | .scalar _ s _, .scalar _ t _ => s = t
  | .sequence _ _, .sequence _ _ => true
  | .mapping _ _, .mapping _ _ => true
  | .refer _ s _, .refer _ t _ => s = t
  | _, _ => false

/-- No two keys are the same. -/
def distinctKeys : List Node → Bool
  | [] => true
  | k :: rest => !rest.any (sameKey k) && distinctKeys rest

/-- The keys of a mapping have texts, and no two of them are the same. -/
def isKeyed (anchors : Anchors) (entries : List Node) : Bool :=
  distinctKeys (keysOf entries) && (keysOf entries).all fun k => (k.toText? anchors).isSome

/-- The name of the field that a key stands for. -/
def nameOf? (anchors : Anchors) (k : Node) : Option String :=
  (k.toText? anchors).join

/-- No two keys of a mapping stand for the same field. -/
def setsOnce (anchors : Anchors) (entries : List Node) : Bool :=
  let names := (keysOf entries).filterMap (nameOf? anchors)
  fieldNames.all fun name => names.count name ≤ 1

/-- The key under which a mapping takes in the entries of other mappings. -/
def isMergeKey : Node → Bool
  | .scalar _ t tag => t = "<<" && tag = .merge
  | _ => false

/-- The entries of a mapping itself, and what it takes in. -/
def splitMerge : List Node → List Node × Option Node
  | k :: v :: rest =>
    let (own, merged) := splitMerge rest
    if isMergeKey k then (own, some v) else (k :: v :: own, merged)
  | _ => ([], none)

/-- The entries of a mapping, or of the mapping that an alias stands for. -/
def entries? (anchors : Anchors) (n : Node) : Option (List Node) :=
  match n.resolve anchors with
  | .mapping _ es => some es
  | _ => none

/-- The mappings that are taken in: one, or those of a list. -/
def mergeSources? (anchors : Anchors) (n : Node) : Option (List (List Node)) :=
  match n with
  | .sequence _ items => items.mapM (entries? anchors)
  | n => (entries? anchors n).map ([·])

/-- The entries that count in a mapping: its own, and behind them those of the mappings that it
takes in. Of two entries of one key the first counts. Only a document that holds itself has more
levels than the fuel. -/
def allEntries (anchors : Anchors) : Nat → List Node → Option (List Node)
  | 0, _ => none
  | fuel + 1, entries => do
    if !isKeyed anchors entries then none
    let (own, merged) := splitMerge entries
    match merged with
    | none => some own
    | some n =>
      let sources ← mergeSources? anchors n
      let taken ← sources.mapM (allEntries anchors fuel)
      some (own ++ taken.flatten)

/-- The value of a key. -/
def valueOf? (anchors : Anchors) (key : String) : List Node → Option Node
  | k :: v :: rest =>
    if nameOf? anchors k = some key then some v else valueOf? anchors key rest
  | _ => none

/-- The fields of a mapping. -/
def yamlFields (anchors : Anchors) (entries : List Node) : FieldReader where
  text key :=
    match valueOf? anchors key entries with
    | none => some ""
    | some n => (n.toText? anchors).map (·.getD "")
  flag key :=
    match valueOf? anchors key entries with
    | none => some false
    | some n => n.toBool? anchors
  number key :=
    match valueOf? anchors key entries with
    | none => some 0
    | some n => n.toInt? anchors

/-- The fields of a YAML document. -/
def ofYaml (text : String) : Option Written :=
  match Yaml.parse text with
  | .malformed => none
  | .empty => Written.ofFields (yamlFields [] [])
  | .root root anchors =>
    match root with
    | .mapping _ entries => do
      let all ← allEntries anchors (Yaml.levels root anchors) entries
      if setsOnce anchors (splitMerge entries).1 then Written.ofFields (yamlFields anchors all)
      else none
    | root =>
      match root.toText? anchors with
      | some none => Written.ofFields (yamlFields [] [])
      | _ => none

/-! ## TOML documents -/

/-- A character as it counts in the name of a field: the case of a letter does not matter. -/
def foldChar (c : Char) : Char :=
  if c.toNat = 0x17f then 's' else if c.toNat = 0x130 then c else Text.lowerChar c

/-- The value of a field of some type. All keys that name the field must have a value of the type; a
key that is written as the name counts first. -/
def entryOf? {α : Type} (read : Toml.Item → Option α) (key : String) (es : Toml.Entries) :
    Option (Option α) := do
  let named := es.filter fun e => e.1.map foldChar = key
  let values ← named.mapM fun e => (read e.2).map fun a => (e.1, a)
  some ((Keyed.get? values key) <|> (values.head?.map (·.2)))

/-- The fields of a table. -/
def tomlFields (es : Toml.Entries) : FieldReader where
  text key := (entryOf? (fun | .text s => some s | _ => none) key es).map (·.getD "")
  flag key := (entryOf? (fun | .boolean b => some b | _ => none) key es).map (·.getD false)
  number key := (entryOf? (fun | .integer i => some i | _ => none) key es).map (·.getD 0)

/-- The fields of a TOML document. -/
def ofToml (text : String) : Option Written :=
  (Toml.parse text).bind fun es => Written.ofFields (tomlFields es)

/-! ## Settings -/

/-- A package name whose parts are all there and none of them a word of the target language. -/
def isPackageName (name : String) : Bool :=
  name = "" || (name.splitOn ".").all fun part => part ≠ "" && !Name.keywords.contains part

/-- A text, or what counts if it is empty. -/
def orDefault (s fallback : String) : String :=
  if s = "" then fallback else s

/-- Checks what is written in a file of the given path. -/
def Written.check (w : Written) (path : String) : Except Fault Settings := do
  let defaults : Settings := {}
  let color := orDefault w.color defaults.color.toText
  match ColorMode.ofText? color with
  | none =>
    throw (.plain (path ++ ": color must be auto, always or never, got " ++ Text.quote color))
  | some mode =>
    if w.verbosity < 0 || 5 < w.verbosity then
      throw (.plain (path ++ ": verbosity must be between 0 and 5, got " ++ toString w.verbosity))
    if !isPackageName w.package then
      throw (.plain (path ++ ": invalid package name " ++ Text.quote w.package))
    return {
      out := orDefault w.out defaults.out
      package := w.package
      runtimePackage := orDefault w.runtimePackage defaults.runtimePackage
      catalog := w.catalog
      strictStatements := w.strictStatements
      nullChecks := w.nullChecks
      comments := w.comments
      verbosity := w.verbosity.toNat
      color := mode }

/-- Reads the text of a settings file. Its path says which format it has. -/
def parse (text path : String) : Except Fault Settings :=
  let toml := path.endsWith ".toml"
  match if toml then ofToml text else ofYaml text with
  | some w => w.check path
  | none =>
    let format := if toml then "toml" else "yaml"
    .error (.context ("parsing " ++ path) (.context format (.plain "malformed settings")))

end TypedPerl.Settings
