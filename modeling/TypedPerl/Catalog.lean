import TypedPerl.Diagnostic
import TypedPerl.Scope.Package
import TypedPerl.Text.Quoted
import TypedPerl.Ty.Cbor

/-!
# The catalog

The catalog keeps the packages of earlier runs, with their types in encoded form. A package is
spread over three tables: its own row, the rows of its variables and the rows of its subroutines,
each table with a primary key. An export replaces the row of the package, deletes its rows in the
other two tables and inserts the new ones, all in one transaction; an import selects the rows of the
package and builds it up from them. Opening the catalog anew starts a new build, and the row of a
package names the build that wrote it.
-/

namespace TypedPerl

/-! ## Tables -/

/-- An opening of the catalog. -/
structure Catalog.Build where
  /-- A name that no other opening has. -/
  id : String := ""
  /-- When it was opened. -/
  time : String := ""
deriving DecidableEq, Repr, Inhabited

/-- The row of a package, whose key is the name of the package. -/
structure Catalog.PackageRow where
  /-- Its class. -/
  className : String
  /-- The file that it was exported from. -/
  source : String
  /-- The build that wrote it. -/
  build : Catalog.Build
deriving DecidableEq, Repr, Inhabited

/-- The key of a variable. -/
structure Catalog.VarKey where
  /-- The package that it belongs to. -/
  package : String
  /-- Its name. -/
  name : String
  /-- The mark in front of its name, as a text. -/
  sigil : String
deriving DecidableEq, Repr, Inhabited

/-- The row of a variable. -/
structure Catalog.VarRow where
  /-- Its identifier in the generated class. -/
  javaName : String
  /-- Its type in encoded form. -/
  type : List UInt8
deriving DecidableEq, Repr, Inhabited

/-- The key of a subroutine. -/
structure Catalog.SubKey where
  /-- The package that it belongs to. -/
  package : String
  /-- Its name. -/
  name : String
deriving DecidableEq, Repr, Inhabited

/-- The row of a subroutine. -/
structure Catalog.SubRow where
  /-- Its identifier in the generated class. -/
  javaName : String
  /-- The type of its result in encoded form. -/
  returns : List UInt8
deriving DecidableEq, Repr, Inhabited

/-- The packages of earlier runs. -/
structure Catalog where
  /-- The table of packages. -/
  packages : Keyed String Catalog.PackageRow := []
  /-- The table of variables. -/
  vars : Keyed Catalog.VarKey Catalog.VarRow := []
  /-- The table of subroutines. -/
  subs : Keyed Catalog.SubKey Catalog.SubRow := []
  /-- The present build. -/
  build : Catalog.Build := {}
deriving Repr, Inhabited

/-- What the listing shows of a package. -/
structure Catalog.Entry where
  /-- The name of the package. -/
  name : String
  /-- Its class. -/
  className : String
  /-- The file that it was exported from. -/
  source : String
  /-- The build that wrote it. -/
  build : Catalog.Build
deriving DecidableEq, Repr, Inhabited

namespace Catalog

/-- Opens the catalog anew. -/
def reopen (c : Catalog) (build : Build) : Catalog :=
  { c with build := build }

/-! ## Exports -/

/-- Sets the row of a package. -/
def setPackage (c : Catalog) (p : Package) (source : String) : Catalog :=
  { c with packages := c.packages.put p.name ⟨p.className, source, c.build⟩ }

/-- Deletes the variables of a package. -/
def dropVars (c : Catalog) (package : String) : Catalog :=
  { c with vars := c.vars.eraseAll (·.package = package) }

/-- Deletes the subroutines of a package. -/
def dropSubs (c : Catalog) (package : String) : Catalog :=
  { c with subs := c.subs.eraseAll (·.package = package) }

/-- The rows of the variables of a package. -/
def varRows (p : Package) : Keyed VarKey VarRow :=
  p.varList.map fun b => (⟨p.name, b.name, b.sigil.toText⟩, ⟨b.javaName, b.type.toCbor⟩)

/-- The rows of the subroutines of a package. -/
def subRows (p : Package) : Keyed SubKey SubRow :=
  p.subList.map fun s => (⟨p.name, s.name⟩, ⟨s.javaName, s.returns.toCbor⟩)

/-- Inserts the variables of a package. A row whose key is taken is refused. -/
def insertVars (c : Catalog) (p : Package) : Except Fault Catalog :=
  match c.vars.insertAll? (varRows p) with
  | some vars => .ok { c with vars := vars }
  | none => .error (.plain ("UNIQUE constraint failed: package_vars.package, " ++
      "package_vars.name, package_vars.sigil"))

/-- Inserts the subroutines of a package. A row whose key is taken is refused. -/
def insertSubs (c : Catalog) (p : Package) : Except Fault Catalog :=
  match c.subs.insertAll? (subRows p) with
  | some subs => .ok { c with subs := subs }
  | none => .error (.plain ("UNIQUE constraint failed: package_subs.package, " ++
      "package_subs.name"))

/-- Replaces the rows of a package, statement by statement. -/
def replace (c : Catalog) (p : Package) (source : String) : Except Fault Catalog := do
  let c ← (((c.setPackage p source).dropVars p.name).dropSubs p.name).insertVars p
  c.insertSubs p

/-- Replaces the rows of a package in one transaction: a statement that fails takes back the ones
before it. -/
def put (c : Catalog) (p : Package) (source : String) : Catalog :=
  match c.replace p source with
  | .ok c' => c'
  | .error _ => c

/-! ## Imports -/

/-- The variables of a package. -/
def varsOf (c : Catalog) (package : String) : Keyed VarKey VarRow :=
  c.vars.select (·.package = package)

/-- The subroutines of a package. -/
def subsOf (c : Catalog) (package : String) : Keyed SubKey SubRow :=
  c.subs.select (·.package = package)

/-- The type of an encoded form. -/
def decodeType (words : String) (bytes : List UInt8) : Except Fault Ty :=
  match Ty.ofCbor bytes with
  | .ok t => .ok t
  | .error .malformed => .error (.context words (.plain "cbor: malformed type"))
  | .error (.tags r) => .error (.context words (.tag ⟨"", r⟩))

/-- A package with a variable of the table. -/
def addVar (p : Package) (v : VarKey × VarRow) : Except Fault Package :=
  match Sigil.ofText? v.1.sigil with
  | none => .error (.plain ("variable " ++ v.1.name ++ " of " ++ p.name ++ ": invalid sigil " ++
      Text.quote v.1.sigil))
  | some sigil => do
    let t ← decodeType ("variable " ++ v.1.sigil ++ v.1.name ++ " of " ++ p.name) v.2.type
    return p.addVar
      { name := v.1.name, sigil := sigil, type := t, javaName := v.2.javaName, isPublic := true,
        depth := 0 }

/-- A package with a subroutine of the table. -/
def addSub (p : Package) (s : SubKey × SubRow) : Except Fault Package := do
  let t ← decodeType ("subroutine " ++ s.1.name ++ " of " ++ p.name) s.2.returns
  return p.addSub { name := s.1.name, javaName := s.2.javaName, returns := t }

/-- The package that was last kept under a name. -/
def get (c : Catalog) (name : String) : Except Fault Package :=
  match c.packages.get? name with
  | none => .error (.context name .packageNotFound)
  | some row => do
    let p := { Package.new name with className := row.className }
    let p ← (c.varsOf name).foldlM addVar p
    (c.subsOf name).foldlM addSub p

/-- The packages in order of their names. -/
def list (c : Catalog) : List Entry :=
  (c.packages.map fun e => ⟨e.1, e.2.className, e.2.source, e.2.build⟩).mergeSort
    fun a b => a.name ≤ b.name

end Catalog

end TypedPerl
