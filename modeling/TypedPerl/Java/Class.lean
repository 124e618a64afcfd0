import TypedPerl.Compile.State
import TypedPerl.PathName

/-!
# Classes

The generated class: its name, its fields and methods, and the statements of its main method, and
how it is written to a file.
-/

namespace TypedPerl.Java

/-- A generated class. -/
structure Class where
  /-- The package of the class; empty for none. -/
  package : String
  /-- The package of the runtime; empty for none. -/
  runtime : String
  /-- Its name. -/
  name : String
  /-- The source file that it was generated from. -/
  source : String
  /-- Its fields. -/
  fields : List Field
  /-- Its methods. -/
  methods : List Method
  /-- The statements of its main method. -/
  main : List String
deriving Inhabited

/-! ## Text -/

/-- Blanks for a depth of indentation. -/
def margin (depth : Nat) : String :=
  String.join (List.replicate depth "    ")

/-- A line at a depth. -/
def line (depth : Nat) (text : String) : String :=
  margin depth ++ text ++ "\n"

/-- A text of several lines behind something on its first line. The other lines are moved in;
empty ones stay empty. -/
def continued (depth : Nat) (text : String) : String :=
  match text.splitOn "\n" with
  | [] => "\n"
  | first :: rest =>
    first ++ "\n" ++ String.join (rest.map fun l => if l = "" then "\n" else line depth l)

/-- A field with its first value. -/
def fieldText (f : Field) : String :=
  line 1 ((if f.isPublic then "public" else "private") ++ " static " ++ declType? f.type ++ " " ++
    f.javaName ++ " = " ++ emptyOf? f.type ++ ";")

/-- A method. -/
def methodText (m : Method) : String :=
  margin 1 ++ "public static " ++ declType? m.returns ++ " " ++ m.javaName ++ "(" ++
    declType (.listOf .box) ++ " " ++ m.param ++ ") " ++ continued 1 m.body

/-- The main method. -/
def mainText (stmts : List String) : String :=
  line 1 "public static void main(String[] args) throws Exception \x7b" ++
    String.join (stmts.map fun s => margin 2 ++ continued 2 s) ++ line 1 "\x7d"

/-- The members of a class in groups, with an empty line between two groups. -/
def memberGroups (c : Class) : List String :=
  let fields := if c.fields.isEmpty then [] else [String.join (c.fields.map fieldText)]
  let main := if c.main.isEmpty then [] else [mainText c.main]
  fields ++ (c.methods.map methodText ++ main)

/-- The text of a class. -/
def Class.render (c : Class) : String :=
  (if c.source = "" then "" else line 0 ("// Generated from " ++ c.source)) ++
  (if c.package = "" then "" else line 0 ("package " ++ c.package ++ ";") ++ "\n") ++
  (if c.runtime = "" then "" else line 0 ("import " ++ c.runtime ++ ".*;") ++ "\n") ++
  line 0 ("public class " ++ c.name ++ " \x7b") ++ Text.join "\n" (memberGroups c) ++
  line 0 "\x7d"

/-! ## Names and files -/

/-- A text with its first character as a capital letter. -/
def capitalize (s : String) : String :=
  match s.toList with
  | c :: rest => String.ofList (c.toUpper :: rest)
  | [] => ""

/-- The name of a file up to its first dot, if that is not its first character. -/
def stem (base : String) : String :=
  let cs := base.toList.takeWhile (· ≠ '.')
  if cs.isEmpty then base else String.ofList cs

/-- The class of a file that asks for none: its name in normal form with a capital letter. -/
def classForFile (file : String) : String :=
  let name := Name.normalize (stem (PathName.base file))
  if name = "" then "Main"
  else
    let name := capitalize name
    if Name.isReserved name then "pd_" ++ name else name

/-- The class of a unit: that of its package, else the one it asks for, else that of its file. -/
def classFor (file className : String) (package : Option Package) : String :=
  match package with
  | some p => p.className
  | none => if className = "" then classForFile file else className

/-- The file that a class is written to. -/
def outputPath (out javaPackage name : String) : String :=
  let dir := if javaPackage = "" then out
    else PathName.join (out :: javaPackage.splitOn ".")
  PathName.join [dir, name ++ ".java"]

end TypedPerl.Java
