import TypedPerl.Toml.Statement
import TypedPerl.Keyed

/-!
# Key-value documents

What the statements of a text in the TOML format say together: a table of keys and values. A key is
set once, with two exceptions. A path that was only met on the way to another one is *open*, and may
be set once more, which leaves it as it is. A path that an array was given to may be set again at
will.
-/

namespace TypedPerl.Toml

/-- What a key stands for. -/
inductive Item where
  /-- A string. -/
  | text (s : String)
  /-- A whole number. -/
  | integer (i : Int)
  /-- A truth value. -/
  | boolean (b : Bool)
  /-- A decimal, a date, a time or an array. -/
  | other
  /-- A table. -/
  | table (entries : List (String × Item))
  /-- An array of tables, the last first. -/
  | tables (items : List (List (String × Item)))
deriving Inhabited

/-- The keys and values of a table. -/
abbrev Entries := Keyed String Item

/-! ## Tables in tables -/

/-- The table at a path. An array of tables stands for its last one. -/
def tableAt? : Path → Entries → Option Entries
  | [], es => some es
  | k :: path, es =>
    match es.get? k with
    | some (.table sub) => tableAt? path sub
    | some (.tables (sub :: _)) => tableAt? path sub
    | _ => none

/-- Sets a key of the table at a path. -/
def putAt? (key : String) (item : Item) : Path → Entries → Option Entries
  | [], es => some (es.put key item)
  | k :: path, es =>
    match es.get? k with
    | some (.table sub) => (putAt? key item path sub).map fun sub => es.put k (.table sub)
    | some (.tables (sub :: before)) =>
      (putAt? key item path sub).map fun sub => es.put k (.tables (sub :: before))
    | _ => none

/-- Sets a key below a path of tables, of which those that are missing are made. -/
def makeAt? (key : String) (item : Item) : Path → Entries → Option Entries
  | [], es => some (es.put key item)
  | k :: path, es =>
    match es.get? k with
    | none => (makeAt? key item path []).map fun sub => es.put k (.table sub)
    | some (.table sub) => (makeAt? key item path sub).map fun sub => es.put k (.table sub)
    | some _ => none

/-! ## Documents in the making -/

/-- A document while its statements are followed. -/
structure Draft where
  /-- The table of the whole document. -/
  root : Entries := []
  /-- The paths that may be set once more. -/
  openPaths : List Path := []
  /-- The paths that an array was given to last. -/
  arrays : List Path := []
deriving Inhabited

namespace Draft

/-- A path becomes open. -/
def openPath (d : Draft) (p : Path) : Draft :=
  { d with openPaths := p :: d.openPaths }

/-- A path is no longer open. -/
def shutPath (d : Draft) (p : Path) : Draft :=
  { d with openPaths := d.openPaths.filter (· ≠ p) }

/-- Records whether an array was given to a key of the table at a path. The empty key stands for the
table itself, unless that is the whole document. -/
def record (d : Draft) (context : Path) (key : String) (isArray : Bool) : Draft :=
  let p := if key = "" && context ≠ [] then context else context ++ [key]
  let others := d.arrays.filter (· ≠ p)
  { d with arrays := if isArray then p :: others else others }

/-- Sets a key of the table at a path. -/
def set? (d : Draft) (context : Path) (key : String) (item : Item) : Option Draft := do
  let p := context ++ [key]
  let put (d : Draft) : Option Draft :=
    (putAt? key item context d.root).map fun root => { d with root }
  let es ← tableAt? context d.root
  if (es.get? key).isNone then put d
  else if d.arrays.contains p then put (d.shutPath p)
  else if d.openPaths.contains p then some (d.shutPath p)
  else none

/-- Makes the tables on the way to a path that are missing, from the one at `before` on. Each of
them is open. -/
def makeWay? (d : Draft) (before : Path) : Path → Option Draft
  | [] => some d
  | k :: rest => do
    let here := before ++ [k]
    let es ← tableAt? before d.root
    let d ← if (es.get? k).isSome then some d
      else (putAt? k (.table []) before d.root).map fun root => { d with root }.openPath here
    if (tableAt? here d.root).isNone then none
    d.makeWay? here rest

/-- Makes the table at a path, or one more table in the array of tables there. -/
def enter? (d : Draft) (path : Path) (inArray : Bool) : Option Draft := do
  let context := path.dropLast
  let key ← path.getLast?
  let d ← d.makeWay? [] context
  if !inArray then d.set? context key (.table [])
  else
    let es ← tableAt? context d.root
    let items ← match es.get? key with
      | none => some []
      | some (.tables items) => some items
      | some _ => none
    (putAt? key (.tables ([] :: items)) context d.root).map fun root => { d with root }

/-- Makes the tables that the parts of a key in front of its last one name, below the table at a
path. -/
def enterParts? (d : Draft) (context : Path) : Path → Option Draft
  | [] => some d
  | k :: rest => do
    let here := context ++ [k]
    let d ← (d.openPath here).enter? here false
    d.enterParts? here rest

end Draft

/-! ## Values -/

/-- The value is an array. -/
def Value.isArray : Value → Bool
  | array _ => true
  | _ => false

mutual

/-- Follows a value that is given to a key of the table at a path, or that stands in an array given
to it. The tables in it are made in the document. -/
def follow? (context : Path) (key : String) (inArray : Bool) : Value → Draft →
    Option (Item × Draft)
  | .text s, d => some (.text s, d)
  | .integer i, d => some (.integer i, d)
  | .boolean b, d => some (.boolean b, d)
  | .other, d => some (.other, d)
  | .array items, d =>
    (followItems? context key items (d.record context key true)).map fun d => (.other, d)
  | .table pairs, d => do
    let here := context ++ [key]
    let d ← (d.openPath here).enter? here inArray
    let (es, d) ← followPairs? here pairs [] d
    some (.table es, d)

/-- Follows the values of an array. -/
def followItems? (context : Path) (key : String) : List Value → Draft → Option Draft
  | [], d => some d
  | v :: rest, d => do
    let (_, d) ← follow? context key true v d
    followItems? context key rest d

/-- Follows pairs in the table at a path. `es` are the entries of the pairs before. -/
def followPairs? (context : Path) : List (Path × Value) → Entries → Draft →
    Option (Entries × Draft)
  | [], es, d => some (es, d)
  | (path, v) :: rest, es, d => do
    let key := path.getLastD ""
    let inner := context ++ path.dropLast
    let d ← d.enterParts? context path.dropLast
    let (item, d) ← follow? inner key false v d
    let d ← d.set? inner key item
    let es ← makeAt? key item path.dropLast es
    followPairs? context rest es (d.record inner key v.isArray)

end

/-! ## Documents -/

/-- Follows statements. `context` is the table that pairs belong to. -/
def followAll? (context : Path) (d : Draft) : List Statement → Option Draft
  | [] => some d
  | .pair path v :: rest => do
    let (_, d) ← followPairs? context [(path, v)] [] d
    followAll? context d rest
  | .header path inArray :: rest => do
    let d ← d.enter? path inArray
    followAll? path (d.record path "" false) rest

/-- The table that a text denotes. -/
def parse (text : String) : Option Entries := do
  let statements ← readText? text
  (followAll? [] {} statements).map Draft.root

end TypedPerl.Toml
