import TypedPerl.Catalog

/-!
# Hosts

What the command line needs of the machine it runs on: files and directories, the working
directory, and a name and a time for each opening of the catalog.
-/

namespace TypedPerl

/-- What a path names. -/
inductive FileKind where
  /-- A file. -/
  | file
  /-- A directory. -/
  | directory
deriving DecidableEq, Repr, Inhabited

/-- Why a path cannot be used. -/
inductive FileReason where
  /-- Nothing is there. -/
  | missing
  /-- A part of the path is no directory. -/
  | notDirectory
  /-- A directory is there. -/
  | isDirectory
  /-- Something is there already. -/
  | present
  /-- Some other reason of the machine. -/
  | other (text : String)
deriving DecidableEq, Repr, Inhabited

/-- The words of a reason. -/
def FileReason.message : FileReason → String
  | missing => "no such file or directory"
  | notDirectory => "not a directory"
  | isDirectory => "is a directory"
  | present => "file exists"
  | other t => t

/-- An action on a path that failed. -/
structure FileFault where
  /-- The action. -/
  action : String
  /-- The path. -/
  path : String
  /-- The reason. -/
  reason : FileReason
deriving DecidableEq, Repr, Inhabited

/-- The words of a failed action. -/
def FileFault.message (f : FileFault) : String :=
  f.action ++ " " ++ f.path ++ ": " ++ f.reason.message

/-- What the command line needs of a machine. -/
class Host (m : Type → Type) where
  /-- The working directory. -/
  workingDir : m String
  /-- What a path names. -/
  kindOf : String → m (Except FileReason FileKind)
  /-- The text of a file. -/
  readText : String → m (Except FileFault String)
  /-- The names in a directory. -/
  namesIn : String → m (List String)
  /-- Makes a directory in one that is there. -/
  makeDir : String → m (Except FileFault Unit)
  /-- Writes a file, in place of any that is there. -/
  writeText : String → String → m (Except FileFault Unit)
  /-- A new opening of the catalog. -/
  newBuild : m Catalog.Build
  /-- Messages go to a terminal. -/
  onTerminal : m Bool

end TypedPerl
