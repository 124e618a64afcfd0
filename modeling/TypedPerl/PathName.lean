import TypedPerl.Text.Class

/-!
# Path names

File paths as texts with `/` between their parts. `clean` gives the shortest path that names the
same file by rules of text alone: parts that are `.` go, and a part goes together with a `..` behind
it.
-/

namespace TypedPerl.PathName

/-- The path starts at the root. -/
def isAbsolute (path : String) : Bool :=
  path.startsWith "/"

/-- The parts of a path between its slashes. -/
def split (path : String) : List String :=
  (path.splitOn "/").filter (· ≠ "")

/-- Adds a part to the parts of a clean path, the last first. -/
def step (rooted : Bool) (done : List String) (part : String) : List String :=
  if part = "." then done
  else if part = ".." then
    match done with
    | [] => if rooted then [] else [".."]
    | last :: rest => if last = ".." then ".." :: done else rest
  else part :: done

/-- The shortest form of a path. -/
def clean (path : String) : String :=
  let rooted := isAbsolute path
  let parts := ((split path).foldl (step rooted) []).reverse
  let body := Text.join "/" parts
  if rooted then "/" ++ body
  else if body = "" then "." else body

/-- One path from several, cleaned. Empty ones do not count. -/
def join (paths : List String) : String :=
  match paths.filter (· ≠ "") with
  | [] => ""
  | ps => clean (Text.join "/" ps)

/-- The last part of a path. -/
def base (path : String) : String :=
  if path = "" then "."
  else (split path).getLast?.getD "/"

/-- The path of the directory that holds the file. -/
def dir (path : String) : String :=
  clean (String.ofList ((path.toList.reverse.dropWhile (· ≠ '/')).reverse))

/-- The path as seen from the root, for a working directory. -/
def absolute (cwd path : String) : String :=
  if isAbsolute path then clean path else join [cwd, path]

/-- The path of the text `s` behind the first of the endings that it has. -/
def dropEnding? (endings : List String) (s : String) : Option String :=
  endings.firstM fun e => Text.dropTrailing? e s

/-! ## Tree documents and the programs they describe -/

/-- The endings of the names of tree documents, longer ones first. -/
def treeEndings : List String := [".pdt.yaml", ".pdt.yml", ".yaml", ".yml"]

/-- The path has the name of a tree document. -/
def isTree (path : String) : Bool :=
  treeEndings.any fun e => path.endsWith e

/-- The name of the program that a tree document describes. -/
def sourceName (path : String) : String :=
  match dropEnding? treeEndings (base path) with
  | some stem => stem ++ ".pl"
  | none => base path

end TypedPerl.PathName
