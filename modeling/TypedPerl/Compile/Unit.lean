import TypedPerl.Compile.Walk
import TypedPerl.Document.SourceUnit
import TypedPerl.Java.Class
import TypedPerl.Settings.Basic

/-!
# Compilation units

From the text of a tree document to a class. The units of one run share the packages they open, and
a unit without faults is kept in the catalog for later runs.
-/

namespace TypedPerl

namespace Compile

/-- What a compiled unit gives. -/
structure Result where
  /-- The tree; none if the document was refused. -/
  tree : Option SourceUnit := none
  /-- The state behind the last statement. -/
  state : State := default
  /-- The statements of the main method. -/
  main : List String := []
  /-- The file that the class is written to; empty if there is no class. -/
  path : String := ""
  /-- The text of the class. -/
  text : String := ""
  /-- The faults in order. -/
  errors : List Fault := []
deriving Inhabited

/-- What a unit is compiled with. -/
def envOf (settings : Settings) (catalog : Option Catalog) : Env :=
  { nullChecks := settings.nullChecks, strictStatements := settings.strictStatements,
    comments := settings.comments, catalog := catalog }

/-- The state in which a pass over a unit starts: what is known of the names and nodes stays, the
class starts empty. -/
def State.restart (st : State) : State :=
  { table := st.table, pending := {}, outputs := st.outputs, bindings := st.bindings,
    subs := st.subs, made := st.made }

/-- Generates the statements of a unit, and gives the text of those that belong to the main
method. -/
def topLevel : List Stmt → Compile (List String)
  | [] => return []
  | s :: rest => do
    let ok ← statement s
    let st ← get
    let line := if ok then st.lineOf? s.id else none
    let lines ← topLevel rest
    return line.toList ++ lines

/-- One pass over a unit: opens its package, declares its subroutines, and generates its
statements. -/
def pass (stmts : List Stmt) : Compile (List String) := do
  prepare stmts
  modify State.restart
  topLevel stmts

/-- Passes over a tree until `passes` are done; each gives the class anew, and faults add up. -/
def passes (settings : Settings) (catalog : Option Catalog) (tree : SourceUnit) :
    Nat → Result → Result
  | 0, r => r
  | n + 1, r =>
    let (lines, st) := pass tree.stmts (envOf settings catalog) r.state
    let main := lines.toOption.getD []
    let cls : Java.Class :=
      { package := settings.package, runtime := settings.runtimePackage,
        name := Java.classFor tree.file tree.className st.table.own, source := tree.file,
        fields := st.fields, methods := st.methods, main := main }
    passes settings catalog tree n
      { tree := some tree, state := st, main := main,
        path := Java.outputPath settings.outPath cls.package cls.name, text := cls.render,
        errors := r.errors ++ st.errors }

/-- Compiles a tree, with the packages that the run knows. -/
def tree (settings : Settings) (catalog : Option Catalog) (registry : Registry) (count : Nat)
    (u : SourceUnit) : Result :=
  passes settings catalog u count
    { state := { table := { registry := registry }, pending := {} } }

/-- Compiles the text of a tree document. -/
def document (settings : Settings) (catalog : Option Catalog) (registry : Registry) (count : Nat)
    (text name : String) : Result :=
  match SourceUnit.decode text name with
  | .ok u => tree settings catalog registry count u
  | .error f => { state := { table := { registry := registry }, pending := {} }, errors := [f] }

/-- The catalog behind a unit: a unit without faults that has a package is kept. -/
def Result.keep (r : Result) (catalog : Catalog) : Catalog :=
  match r.errors, r.state.table.own, r.tree with
  | [], some p, some u => catalog.put p u.file
  | _, _, _ => catalog

/-! ## Runs -/

/-- A tree document with its name. -/
structure Source where
  /-- The text. -/
  text : String
  /-- The name of its file. -/
  name : String
deriving DecidableEq, Repr, Inhabited

/-- What the units of a run hand on to those behind them. -/
structure Store where
  /-- The packages that are known. -/
  registry : Registry := {}
  /-- The catalog. -/
  catalog : Option Catalog := none
deriving Inhabited

namespace Store

/-- Compiles a document with what is known. -/
def compile (s : Store) (settings : Settings) (count : Nat) (d : Source) : Result :=
  document settings s.catalog s.registry count d.text d.name

/-- What is handed on behind a unit. -/
def after (s : Store) (r : Result) : Store :=
  { registry := r.state.table.registry, catalog := s.catalog.map r.keep }

end Store

end Compile

end TypedPerl
