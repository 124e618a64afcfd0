import TypedPerl.PathName

/-!
# Settings

The choices of a project, as a settings file gives them.
-/

namespace TypedPerl

/-- When messages are coloured. -/
inductive ColorMode where
  /-- On a terminal. -/
  | auto
  /-- In any case. -/
  | always
  /-- In no case. -/
  | never
deriving DecidableEq, Repr, Inhabited

namespace ColorMode

/-- The word of a mode. -/
def toText : ColorMode → String
  | auto => "auto"
  | always => "always"
  | never => "never"

/-- The mode of a word. -/
def ofText? (s : String) : Option ColorMode :=
  match s with
  | "auto" => some auto
  | "always" => some always
  | "never" => some never
  | _ => none

end ColorMode

/-- The settings of a project. -/
structure Settings where
  /-- The directory that classes are written to. -/
  out : String := "."
  /-- The package of the classes; empty for none. -/
  package : String := ""
  /-- The package of the runtime, which every class imports. -/
  runtimePackage : String := "perldoop.lib"
  /-- The file of the catalog; empty for none. -/
  catalog : String := ""
  /-- Expressions without effect stay statements. -/
  strictStatements : Bool := false
  /-- Values that may be undefined are guarded where they are converted. -/
  nullChecks : Bool := false
  /-- Comments of the source are kept. -/
  comments : Bool := false
  /-- How much is logged, from 0 to 5. -/
  verbosity : Nat := 0
  /-- When messages are coloured. -/
  color : ColorMode := .auto
  /-- The directory of the settings file; empty without one. -/
  dir : String := ""
deriving DecidableEq, Repr, Inhabited

namespace Settings

/-- A path as seen from the directory of the settings file. -/
def resolve (s : Settings) (path : String) : String :=
  if PathName.isAbsolute path || s.dir = "" then path else PathName.join [s.dir, path]

/-- The directory that classes are written to. -/
def outPath (s : Settings) : String :=
  s.resolve s.out

/-- The file of the catalog; empty for none. -/
def catalogPath (s : Settings) : String :=
  if s.catalog = "" then "" else s.resolve s.catalog

end Settings

end TypedPerl
