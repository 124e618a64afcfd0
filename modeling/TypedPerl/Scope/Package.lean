import TypedPerl.Keyed
import TypedPerl.Sigil
import TypedPerl.Name.Reserved

/-!
# Packages

A package is the public side of a unit: its package variables and its subroutines, under the class
that the unit becomes. The registry holds the packages that are known in one run, by name. A unit
may open a package of a name that another unit has opened before; the registry then holds the new
edition, and what is added to the old one no longer shows in it.

None of this looks into the types of what is declared, so these are a parameter: `Ty`, where nothing
else is said, and `Option Ty` where a declaration may leave its type open.
-/

namespace TypedPerl

/-- A declared variable. -/
structure Binding (τ : Type := Ty) where
  /-- The name in the source. -/
  name : String
  /-- The mark in front of the name. -/
  sigil : Sigil
  /-- The type of its values. -/
  type : τ
  /-- The identifier in the generated class. -/
  javaName : String
  /-- Declared as a package variable. -/
  isPublic : Bool
  /-- The number of scopes that were open at the declaration. -/
  depth : Nat
  /-- The package that a package variable belongs to. -/
  package : String := ""
deriving DecidableEq, Repr, Inhabited

/-- The variable is a field of the generated class: a variable of the file level or of a package. -/
def Binding.isField {τ : Type} (b : Binding τ) : Bool :=
  b.depth = 0 || b.isPublic

/-- A declared subroutine. -/
structure Sub (τ : Type := Ty) where
  /-- The name in the source. -/
  name : String
  /-- The identifier in the generated class. -/
  javaName : String
  /-- The package that it belongs to. -/
  package : String := ""
  /-- The type of its result. -/
  returns : τ
deriving DecidableEq, Repr, Inhabited

/-- What a variable is looked up by. -/
abbrev VarKey := String × Sigil

/-- The public variables and the subroutines of a unit. -/
structure Package (τ : Type := Ty) where
  /-- The name of the package. -/
  name : String
  /-- The class that the unit becomes. -/
  className : String
  /-- The package variables. -/
  vars : Keyed VarKey (Binding τ) := []
  /-- The subroutines. -/
  subs : Keyed String (Sub τ) := []
  /-- The number of the edition in the registry. -/
  edition : Nat := 0
deriving Repr, Inhabited

namespace Package

variable {τ : Type}

/-- What follows the last pair of colons. -/
def afterColons? : List Char → Option (List Char)
  | [] => none
  | [_] => none
  | c :: d :: rest =>
    if c = ':' && d = ':' then some ((afterColons? (d :: rest)).getD rest)
    else afterColons? (d :: rest)

/-- The part of a package name after its last pair of colons, or the whole name. -/
def lastSegment (name : String) : String :=
  String.ofList ((afterColons? name.toList).getD name.toList)

/-- The class of a package: the last segment of its name, or its whole name in normal form when
that segment is reserved. -/
def classFor (name : String) : String :=
  let segment := lastSegment name
  if Name.isReserved segment then Name.normalize name else segment

/-- A package without content. -/
def new (name : String) : Package τ :=
  { name := name, className := classFor name }

/-- The package with a variable, which now belongs to it. -/
def addVar (p : Package τ) (b : Binding τ) : Package τ :=
  { p with vars := p.vars.put (b.name, b.sigil) { b with package := p.name } }

/-- The package with a subroutine, which now belongs to it. -/
def addSub (p : Package τ) (s : Sub τ) : Package τ :=
  { p with subs := p.subs.put s.name { s with package := p.name } }

/-- The variable of a name and mark. -/
def var? (p : Package τ) (name : String) (sigil : Sigil) : Option (Binding τ) :=
  p.vars.get? (name, sigil)

/-- The subroutine of a name. -/
def sub? (p : Package τ) (name : String) : Option (Sub τ) :=
  p.subs.get? name

/-- Variables are ordered by name, then by the character of their mark. -/
def varLe (a b : Binding τ) : Bool :=
  if a.name = b.name then a.sigil.rank ≤ b.sigil.rank else a.name < b.name

/-- The variables in order. -/
def varList (p : Package τ) : List (Binding τ) :=
  p.vars.values.mergeSort varLe

/-- The subroutines in order of their names. -/
def subList (p : Package τ) : List (Sub τ) :=
  p.subs.values.mergeSort fun a b => a.name ≤ b.name

end Package

/-- The packages that are known in one run. -/
structure Registry (τ : Type := Ty) where
  /-- The packages by name. -/
  packages : Keyed String (Package τ) := []
  /-- The number of the next edition. -/
  next : Nat := 1
deriving Repr, Inhabited

namespace Registry

variable {τ : Type}

/-- The package of a name. -/
def package? (r : Registry τ) (name : String) : Option (Package τ) :=
  r.packages.get? name

/-- Enters a package as a new edition, in place of any package of its name. -/
def put (r : Registry τ) (p : Package τ) : Package τ × Registry τ :=
  let p := { p with edition := r.next }
  (p, { packages := r.packages.put p.name p, next := r.next + 1 })

/-- Shows the present content of a package, unless another edition of it has been entered. -/
def refresh (r : Registry τ) (p : Package τ) : Registry τ :=
  match r.package? p.name with
  | some q => if q.edition = p.edition then { r with packages := r.packages.put p.name p } else r
  | none => r

/-- The packages in order of their names. -/
def packageList (r : Registry τ) : List (Package τ) :=
  r.packages.values.mergeSort fun a b => a.name ≤ b.name

end Registry

end TypedPerl
