import TypedPerl.Cli.Run
import TypedPerl.Catalog.Build
import Std.Time.DateTime.Timestamp

/-!
# The program

Runs the command line on the machine's own files.
-/

namespace TypedPerl

/-- Why the machine refused a path. -/
def FileReason.ofError (e : IO.Error) : FileReason :=
  match e with
  | .noFileOrDirectory _ _ _ => .missing
  | .inappropriateType _ _ _ => .notDirectory
  | e => .other (toString e)

/-- Runs an action on a path of the machine. -/
def onPath {α : Type} (action path : String) (act : IO α) : IO (Except FileFault α) := do
  match ← act.toBaseIO with
  | .ok a => return .ok a
  | .error e => return .error ⟨action, path, .ofError e⟩

/-- What a path of the machine names. -/
def machineKind (path : String) : IO (Except FileReason FileKind) := do
  if path = "" then return .error .missing
  match ← ((← IO.currentDir) / path).metadata.toBaseIO with
  | .ok info => return .ok (if info.type == .dir then .directory else .file)
  | .error e => return .error (.ofError e)

/-- Runs an action on a file of the machine, which must not be a directory. -/
def onFile {α : Type} (refused action path : String) (act : IO α) : IO (Except FileFault α) := do
  match ← machineKind path with
  | .ok .directory => return .error ⟨refused, path, .isDirectory⟩
  | _ => onPath action path act

instance : Host IO where
  workingDir := return toString (← IO.currentDir)
  kindOf := machineKind
  readText path := onFile "read" "open" path (IO.FS.readFile path)
  namesIn path := do
    let entries ← ((← IO.currentDir) / path).readDir
    return entries.toList.map (·.fileName)
  makeDir path := onPath "mkdir" path (IO.FS.createDir path)
  writeText path text := onFile "open" "open" path (IO.FS.writeFile path text)
  newBuild := do
    let now ← Std.Time.Timestamp.now
    return .new (← IO.rand 0 (Nat.pow 2 128 - 1)) now.toSecondsSinceUnixEpoch.val.toNat
  onTerminal := do (← IO.getStderr).isTty

end TypedPerl

/-- Runs the command line. -/
def main (args : List String) : IO UInt32 := do
  let outcome : TypedPerl.Cli.Outcome ← TypedPerl.Cli.run args
  (← IO.getStdout).putStr outcome.stdout
  (← IO.getStderr).putStr outcome.stderr
  return outcome.exit.toUInt32
