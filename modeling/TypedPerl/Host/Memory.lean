import TypedPerl.Host.Basic
import TypedPerl.PathName

/-!
# Files in memory

A host whose files are kept in memory, so that the command line can be run without a machine.
-/

namespace TypedPerl

/-- Files and directories by the parts of their paths. -/
structure MemoryHost where
  /-- The working directory. -/
  cwd : String := "/"
  /-- The files. -/
  files : Keyed (List String) String := []
  /-- The directories besides the root. -/
  dirs : List (List String) := []
  /-- How each opening of the catalog is named. -/
  build : Catalog.Build := {}
deriving Inhabited

namespace MemoryHost

/-- What is at a place. -/
def kindAt? (h : MemoryHost) (place : List String) : Option FileKind :=
  if place = [] || h.dirs.contains place then some .directory
  else if (h.files.get? place).isSome then some .file
  else none

/-- Takes one step of a path from a place, which must be a directory. -/
def stepFrom (h : MemoryHost) (place : List String) (part : String) :
    Except FileReason (List String) :=
  match h.kindAt? place with
  | some .directory =>
    .ok (if part = "" || part = "." then place
      else if part = ".." then place.dropLast
      else place ++ [part])
  | some .file => .error .notDirectory
  | none => .error .missing

/-- The place that a path leads to. All but the last part must be there. -/
def placeOf (h : MemoryHost) (path : String) : Except FileReason (List String) :=
  if path = "" then .error .missing
  else
    let start := if PathName.isAbsolute path then [] else PathName.split h.cwd
    (path.splitOn "/").foldlM h.stepFrom start

/-- What a path names. -/
def find (h : MemoryHost) (path : String) : Except FileReason (List String × FileKind) := do
  let place ← h.placeOf path
  match h.kindAt? place with
  | some kind => return (place, kind)
  | none => throw .missing

/-- The text of a file. -/
def readFile (h : MemoryHost) (path : String) : Except FileFault String :=
  match h.find path with
  | .ok (place, .file) => .ok ((h.files.get? place).getD "")
  | .ok (_, .directory) => .error ⟨"read", path, .isDirectory⟩
  | .error r => .error ⟨"open", path, r⟩

/-- The names in a directory. -/
def namesOf (h : MemoryHost) (path : String) : List String :=
  match h.find path with
  | .ok (place, .directory) =>
    (h.files.keys ++ h.dirs).filterMap fun p =>
      if p.dropLast = place && p ≠ [] then p.getLast? else none
  | _ => []

/-- The files with one more directory. -/
def addDir (h : MemoryHost) (path : String) : Except FileFault MemoryHost :=
  match h.placeOf path with
  | .error r => .error ⟨"mkdir", path, r⟩
  | .ok place =>
    match h.kindAt? place.dropLast, h.kindAt? place with
    | some .directory, none => .ok { h with dirs := place :: h.dirs }
    | some .directory, some _ => .error ⟨"mkdir", path, .present⟩
    | some .file, _ => .error ⟨"mkdir", path, .notDirectory⟩
    | none, _ => .error ⟨"mkdir", path, .missing⟩

/-- The files with a text written. -/
def putFile (h : MemoryHost) (path text : String) : Except FileFault MemoryHost :=
  match h.placeOf path with
  | .error r => .error ⟨"open", path, r⟩
  | .ok place =>
    match h.kindAt? place with
    | some .directory => .error ⟨"open", path, .isDirectory⟩
    | _ => .ok { h with files := h.files.put place text }

/-- A change that may fail, as a step. -/
def changing (f : MemoryHost → Except FileFault MemoryHost) :
    StateM MemoryHost (Except FileFault Unit) := fun h =>
  match f h with
  | .ok h => (.ok (), h)
  | .error e => (.error e, h)

end MemoryHost

instance : Host (StateM MemoryHost) where
  workingDir := return (← get).cwd
  kindOf path := return ((← get).find path).map (·.2)
  readText path := return (← get).readFile path
  namesIn path := return (← get).namesOf path
  makeDir path := MemoryHost.changing (·.addDir path)
  writeText path text := MemoryHost.changing (·.putFile path text)
  newBuild := return (← get).build
  onTerminal := return false

end TypedPerl
