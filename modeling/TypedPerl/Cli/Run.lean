import TypedPerl.Catalog.Stored
import TypedPerl.Cli.Args
import TypedPerl.Compile.Unit
import TypedPerl.Host.Basic
import TypedPerl.Settings.Parse

/-!
# The command line

`run` compiles tree documents to classes, or lists the catalog, on any host. It gives what the
command prints and its exit code.
-/

namespace TypedPerl.Cli

/-- What a run of the command gives. -/
structure Outcome where
  /-- The exit code. -/
  exit : Nat
  /-- What it prints. -/
  stdout : String := ""
  /-- The messages. -/
  stderr : String := ""
deriving DecidableEq, Repr, Inhabited

/-- How the command is used. -/
def usage : String :=
  "Usage: perldoop [options] <file|dir>...\n" ++
  "       perldoop catalog [options]\n\n" ++
  "Translates parsed Perl tree documents (*.pdt.yaml) into Java classes.\n\n" ++
  "Options:\n" ++
  "  -o <dir>          output directory (overrides settings)\n" ++
  "  -v <level>        log verbosity, 0 to 5\n" ++
  "  -settings <file>  settings file (default: perldoop.yaml or perldoop.toml\n" ++
  "                    found from the working directory upwards)\n" ++
  "  -color <mode>     auto, always or never\n"

/-- A run that ends with an error. -/
def Outcome.failure (message : String) : Outcome :=
  { exit := 1, stderr := "Error: " ++ message ++ "\n" }

variable {m : Type → Type} [Monad m] [Host m]

/-! ## Settings -/

/-- The names of settings files, in the order in which they are looked for. -/
def settingsNames : List String := ["perldoop.yaml", "perldoop.yml", "perldoop.toml"]

/-- The first of some paths that names anything. -/
def firstPresent : List String → m (Option String)
  | [] => return none
  | path :: rest => do
    match ← Host.kindOf path with
    | .ok _ => return some path
    | .error _ => firstPresent rest

/-- A path and the paths of the directories above it, given its parts, the last first. -/
def ancestors : List String → List String
  | [] => ["/"]
  | part :: above => ("/" ++ Text.join "/" (part :: above).reverse) :: ancestors above

/-- The settings file that is nearest to a directory, upwards. -/
def findSettings (dir : String) : m (Option String) :=
  firstPresent ((ancestors (PathName.split dir).reverse).flatMap fun d =>
    settingsNames.map fun name => PathName.join [d, name])

/-- Reads a settings file. -/
def loadSettings (cwd path : String) : m (Except Fault Settings) := do
  match ← Host.readText path with
  | .error f => return .error (.plain ("reading settings " ++ path ++ ": " ++ f.message))
  | .ok text =>
    return (Settings.parse text path).map fun s =>
      { s with dir := PathName.absolute cwd (PathName.dir path) }

/-- The settings with what the options ask for. -/
def override (cwd : String) (o : Options) (s : Settings) : Settings :=
  { s with
    out := if o.out = "" then s.out else PathName.absolute cwd o.out
    verbosity := o.verbosity.getD s.verbosity
    color := o.color.getD s.color }

/-- The settings of a run. -/
def settingsFor (o : Options) : m (Except Fault Settings) := do
  let cwd ← Host.workingDir
  let path ← if o.settings = "" then findSettings cwd else pure (some o.settings)
  let s ← match path with
    | some path => loadSettings cwd path
    | none => pure (.ok {})
  return s.map (override cwd o)

/-! ## Files -/

/-- The tree documents in a directory and below. The fuel bounds the depth; a path of more levels
is too long to be opened. -/
def treesBelow : Nat → String → m (List String)
  | 0, _ => return []
  | fuel + 1, dir => do
    let names ← Host.namesIn dir
    let found ← names.mapM fun name => do
      let path := PathName.join [dir, name]
      match ← Host.kindOf path with
      | .ok .directory => treesBelow fuel path
      | .ok .file => return if PathName.isTree path then [path] else []
      | .error _ => return []
    return found.flatten

/-- The greatest number of levels of a path that can be opened. -/
def maxLevels : Nat := 4096

/-- The files that paths name: files themselves, and the tree documents in directories. -/
def collect : List String → m (Except FileFault (List String))
  | [] => return .ok []
  | path :: rest => do
    match ← Host.kindOf path with
    | .error r => return .error ⟨"stat", path, r⟩
    | .ok kind =>
      let here ← if kind = .directory then treesBelow maxLevels path else pure [path]
      return (← collect rest).map (here ++ ·)

/-- Why a file that stands where a directory is to be made is in the way. One in the place of the
last directory is refused as a file, and one further up as a name that is taken. -/
def inTheWay (path : String) (isLast : Bool) : FileFault :=
  if isLast then ⟨"mkdir", path, .notDirectory⟩ else ⟨"mkdir", path ++ "/", .present⟩

/-- Makes the directories of some paths, each in the one before it. -/
def makeDirsFrom : List String → m (Except FileFault Unit)
  | [] => return .ok ()
  | path :: rest => do
    match ← Host.kindOf path with
    | .ok .directory => makeDirsFrom rest
    | .ok .file => return .error (inTheWay path rest.isEmpty)
    | .error _ =>
      match ← Host.makeDir path with
      | .ok _ => makeDirsFrom rest
      | .error f => return .error f

/-- The paths that lead to a clean path, from the first part on. -/
def pathsTo (path : String) : List String :=
  let start := if PathName.isAbsolute path then "/" else ""
  let parts := PathName.split path
  (List.range parts.length).map fun i => start ++ Text.join "/" (parts.take (i + 1))

/-- Makes a directory and those above it. -/
def makeDirs (path : String) : m (Except FileFault Unit) :=
  makeDirsFrom (pathsTo path)

/-! ## The catalog -/

/-- Writes the catalog to its file. -/
def saveCatalog (path : String) (c : Catalog) : m (Except Fault Unit) := do
  match ← Host.writeText path c.stored with
  | .ok _ => return .ok ()
  | .error f => return .error (.plain ("opening catalog: " ++ f.message))

/-- Opens the catalog of the settings, if there is one. -/
def openCatalog (s : Settings) : m (Except Fault (Option Catalog)) := do
  let path := s.catalogPath
  if path = "" then return .ok none
  match ← makeDirs (PathName.dir path) with
  | .error f => return .error (.plain ("creating catalog directory: " ++ f.message))
  | .ok _ =>
    let build ← Host.newBuild
    let text ← match ← Host.readText path with
      | .ok text => pure text
      | .error _ => pure ""
    match Catalog.ofStored? text build with
    | none => return .error (.plain "opening catalog: file is not a catalog")
    | some c => return (← saveCatalog path c).map fun _ => some c

/-- A text with blanks behind it up to a width. -/
def padded (width : Nat) (s : String) : String :=
  s ++ String.ofList (List.replicate (width - s.length) ' ')

/-- The line of a package in the listing of the catalog. -/
def listingLine (e : Catalog.Entry) : String :=
  padded 24 e.name ++ " " ++ padded 20 e.className ++ " " ++ e.source ++ "  " ++ e.build.id ++
    "  " ++ e.build.time ++ "\n"

/-- Lists the catalog. -/
def listCatalog (s : Settings) : m Outcome := do
  match ← openCatalog s with
  | .error f => return .failure f.message
  | .ok none => return .failure "no catalog configured"
  | .ok (some c) =>
    return { exit := 0, stdout := String.join (c.list.map listingLine) }

/-! ## Compiling -/

/-- What the files of one run share. -/
structure Session where
  /-- What the units hand on. -/
  store : Compile.Store := {}
  /-- The file of the catalog, if there is one. -/
  catalogPath : String := ""

/-- The messages for a unit: none if it was compiled and written. -/
structure Messages where
  /-- The messages. -/
  text : String := ""
  /-- The unit failed. -/
  failed : Bool := false

/-- The messages for some faults. -/
def faultMessages (color : Bool) (faults : List Fault) : Messages :=
  { text := String.join (faults.map fun f => f.format color ++ "\n"), failed := true }

/-- Writes the class of a unit. -/
def writeClass (path : String) (r : Compile.Result) : m Messages := do
  let failure (f : FileFault) : Messages :=
    { text := path ++ ": " ++ f.message ++ "\n", failed := true }
  match ← makeDirs (PathName.dir r.path) with
  | .error f => return failure f
  | .ok _ =>
    match ← Host.writeText r.path r.text with
    | .error f => return failure f
    | .ok _ => return {}

/-- Keeps the package of a unit in the catalog. -/
def keepPackage (s : Session) (r : Compile.Result) : m (Except Fault Session) := do
  let s := { s with store := s.store.after r }
  match s.store.catalog with
  | none => return .ok s
  | some c => return (← saveCatalog s.catalogPath c).map fun _ => s

/-- Compiles one file and writes its class. -/
def compileFile (settings : Settings) (color : Bool) (s : Session) (path : String) :
    m (Messages × Session) := do
  match ← Host.readText path with
  | .error f =>
    return (faultMessages color [.plain ("reading tree " ++ path ++ ": " ++ f.message)], s)
  | .ok text =>
    let r := s.store.compile settings 1 ⟨text, path⟩
    match ← keepPackage s r with
    | .error f => return (faultMessages color (r.errors ++ [f]), s)
    | .ok s =>
      if r.errors.isEmpty then return (← writeClass path r, s)
      else return (faultMessages color r.errors, s)

/-- Compiles files in order, and gives the messages and the number of files that failed. -/
def compileFiles (settings : Settings) (color : Bool) (s : Session) :
    List String → m (String × Nat)
  | [] => return ("", 0)
  | path :: rest => do
    let (first, s) ← compileFile settings color s path
    let (text, failed) ← compileFiles settings color s rest
    return (first.text ++ text, failed + if first.failed then 1 else 0)

/-- Messages are coloured. -/
def useColor (mode : ColorMode) : m Bool :=
  match mode with
  | .always => return true
  | .never => return false
  | .auto => Host.onTerminal

/-- Compiles the files that paths name. -/
def compilePaths (settings : Settings) (paths : List String) : m Outcome := do
  match ← collect paths with
  | .error f => return .failure f.message
  | .ok files =>
    let files := files.mergeSort fun a b => a ≤ b
    match ← openCatalog settings with
    | .error f => return .failure f.message
    | .ok catalog =>
      let color ← useColor settings.color
      let session : Session :=
        { store := { catalog := catalog }, catalogPath := settings.catalogPath }
      let (text, failed) ← compileFiles settings color session files
      if failed = 0 then return { exit := 0, stderr := text }
      else
        let summary :=
          toString failed ++ " of " ++ toString files.length ++ " files failed\n"
        return { exit := 1, stderr := text ++ summary }

/-! ## The command -/

/-- Runs the command with arguments that do not ask for help. -/
def runCommand (listing : Bool) (args : List String) : m Outcome := do
  match parseArgs args with
  | .error f => return { exit := 2, stderr := "Error: " ++ f.message ++ "\n\n" ++ usage }
  | .ok o =>
    match ← settingsFor o with
    | .error f => return .failure f.message
    | .ok settings =>
      if listing then listCatalog settings
      else if o.paths.isEmpty then return { exit := 2, stderr := usage }
      else compilePaths settings o.paths

/-- Runs the command. -/
def run (args : List String) : m Outcome :=
  match args with
  | "-h" :: _ | "-help" :: _ | "--help" :: _ | "help" :: _ =>
    return { exit := 0, stdout := usage }
  | "catalog" :: rest => runCommand true rest
  | args => runCommand false args

end TypedPerl.Cli
