import TypedPerl.Settings.Basic
import TypedPerl.Text.Quoted

/-!
# Arguments of the command line

Options start with hyphens and take a value, behind an equality sign or as the next argument.
Everything else is a path. A later option wins over an earlier one.
-/

namespace TypedPerl.Cli

/-- What the arguments ask for. -/
structure Options where
  /-- The directory that classes are written to; empty if the settings give it. -/
  out : String := ""
  /-- How much is logged. -/
  verbosity : Option Nat := none
  /-- The settings file; empty if it is to be found. -/
  settings : String := ""
  /-- When messages are coloured. -/
  color : Option ColorMode := none
  /-- The files and directories to compile. -/
  paths : List String := []
deriving DecidableEq, Repr, Inhabited

/-- Why arguments are refused. -/
inductive ArgFault where
  /-- An option has no value. -/
  | missingValue (arg : String)
  /-- An amount of logging is out of range, or no number. -/
  | verbosity (value : String)
  /-- A word names no way to colour. -/
  | color (value : String)
  /-- An option is not known. -/
  | unknown (arg : String)
deriving DecidableEq, Repr, Inhabited

/-- The words of a refusal. -/
def ArgFault.message : ArgFault → String
  | missingValue arg => "option " ++ arg ++ " needs a value"
  | verbosity v => "verbosity must be between 0 and 5, got " ++ Text.quote v
  | color v => "color must be auto, always or never, got " ++ Text.quote v
  | unknown arg => "unknown option " ++ arg

/-- A decimal number with an optional sign, if it lies between 0 and 5. -/
def verbosity? (s : String) : Option Nat :=
  let (neg, ds) := match s.toList with
    | '-' :: ds => (true, ds)
    | '+' :: ds => (false, ds)
    | ds => (false, ds)
  if ds.isEmpty || !ds.all Char.isDigit then none
  else
    let n := ds.foldl (fun acc c => 10 * acc + (c.toNat - 48)) 0
    if 5 < n || (neg && n ≠ 0) then none else some n

/-- The name of an option, and its value if that stands behind an equality sign. -/
def splitOption (arg : String) : String × Option String :=
  let cs := arg.toList.dropWhile (· = '-')
  let name := String.ofList (cs.takeWhile (· ≠ '='))
  match cs.dropWhile (· ≠ '=') with
  | [] => (name, none)
  | _ :: value => (name, some (String.ofList value))

/-- The options with one set to a value; `arg` is the argument that names it. -/
def setOption (o : Options) (arg name value : String) : Except ArgFault Options :=
  match name with
  | "o" => .ok { o with out := value }
  | "v" =>
    match verbosity? value with
    | some n => .ok { o with verbosity := some n }
    | none => .error (.verbosity value)
  | "settings" => .ok { o with settings := value }
  | "color" =>
    match ColorMode.ofText? value with
    | some c => .ok { o with color := some c }
    | none => .error (.color value)
  | _ => .error (.unknown arg)

/-- The argument is a path. -/
def isPath (arg : String) : Bool :=
  !arg.startsWith "-" || arg = "-"

/-- Reads arguments after those that have been read into `o`. -/
def readArgs (o : Options) : List String → Except ArgFault Options
  | [] => .ok o
  | arg :: rest =>
    if isPath arg then readArgs { o with paths := o.paths ++ [arg] } rest
    else match splitOption arg with
      | (name, some value) => do
        let o ← setOption o arg name value
        readArgs o rest
      | (name, none) =>
        if ["o", "v", "settings", "color"].contains name then
          match rest with
          | [] => .error (.missingValue arg)
          | value :: rest => do
            let o ← setOption o arg name value
            readArgs o rest
        else .error (.unknown arg)

/-- Reads the arguments of the command line. -/
def parseArgs (args : List String) : Except ArgFault Options :=
  readArgs {} args

end TypedPerl.Cli
