import TypedPerl.Scope.Package
import TypedPerl.Name.Alias

/-!
# Symbol tables

The scopes that are open at a point of a unit, with the variables declared in each, the types that
pragmas have announced, and the package of the unit. The file-level scope is always open; the
others form a stack, innermost first.
-/

namespace TypedPerl

/-- What opened a scope. -/
inductive ScopeKind where
  /-- The file, whose variables are fields of the class. -/
  | file
  /-- The body of a subroutine. -/
  | function
  /-- A block. -/
  | block
deriving DecidableEq, Repr, Inhabited

/-- An open scope. -/
structure Scope (τ : Type := Ty) where
  /-- What opened it. -/
  kind : ScopeKind
  /-- The variables declared in it. -/
  vars : Keyed VarKey (Binding τ) := []
deriving Repr, Inhabited

/-- Some variable of the name, of any mark, is declared in the scope. -/
def Scope.hasName {τ : Type} (s : Scope τ) (name : String) : Bool :=
  s.vars.any fun e => e.1.1 == name

/-- The symbol table of one unit. -/
structure Table (τ : Type := Ty) where
  /-- The scopes above the file level, innermost first. -/
  inner : List (Scope τ) := []
  /-- The scope of the file level. -/
  fileScope : Scope τ := { kind := .file }
  /-- The aliases handed out so far. -/
  pool : Name.AliasPool := {}
  /-- The types announced for coming declarations, by mark and name. -/
  announced : Keyed String τ := []
  /-- The subroutines of a unit without a package. -/
  subs : Keyed String (Sub τ) := []
  /-- The packages of the run. -/
  registry : Registry τ := {}
  /-- The package of the unit. -/
  own : Option (Package τ) := none
  /-- Something has been declared. -/
  used : Bool := false
deriving Repr, Inhabited

namespace Table

variable {τ : Type}

/-! ## Scopes -/

/-- Opens a scope. -/
def enter (t : Table τ) (kind : ScopeKind) : Table τ :=
  { t with inner := { kind := kind } :: t.inner }

/-- Closes the innermost scope; the file level stays open. -/
def exit (t : Table τ) : Table τ :=
  { t with inner := t.inner.drop 1 }

/-- The number of scopes above the file level. -/
def depth (t : Table τ) : Nat :=
  t.inner.length

/-- Closes scopes down to a depth. -/
def restore (t : Table τ) (depth : Int) : Table τ :=
  { t with inner := t.inner.drop (t.inner.length - depth.toNat) }

/-- The scope of a subroutine is open. -/
def inFunction (t : Table τ) : Bool :=
  t.inner.any fun s => s.kind == .function

/-- All open scopes, innermost first. -/
def scopes (t : Table τ) : List (Scope τ) :=
  t.inner ++ [t.fileScope]

/-- The table with a variable in its innermost scope. -/
def putInnermost (t : Table τ) (b : Binding τ) : Table τ :=
  let key := (b.name, b.sigil)
  match t.inner with
  | s :: rest => { t with inner := { s with vars := s.vars.put key b } :: rest }
  | [] => { t with fileScope := { t.fileScope with vars := t.fileScope.vars.put key b } }

/-! ## Variables -/

/-- A variable of the name, of any mark, is visible. -/
def nameVisible (t : Table τ) (name : String) : Bool :=
  t.scopes.any (·.hasName name)

/-- The unit's package with new content, in the table and in the registry. -/
def updateOwn (t : Table τ) (p : Package τ) : Table τ :=
  { t with own := some p, registry := t.registry.refresh p }

/-- Declares a variable in the innermost scope. Its alias is its name, unless the name is reserved
or a visible variable of any mark has it. A package variable is also entered into the package. -/
def declare (t : Table τ) (name : String) (sigil : Sigil) (type : τ) (isPublic : Bool) :
    Binding τ × Table τ :=
  let (javaName, pool) := t.pool.aliasFor name (t.nameVisible name)
  let b : Binding τ :=
    { name := name, sigil := sigil, type := type, javaName := javaName, isPublic := isPublic,
      depth := t.depth }
  let t := { t with pool := pool, used := true }
  match isPublic, t.own with
  | true, some p =>
    let b := { b with package := p.name }
    (b, (t.updateOwn (p.addVar b)).putInnermost b)
  | _, _ => (b, t.putInnermost b)

/-- The innermost variable of a name and mark. -/
def lookup? (t : Table τ) (name : String) (sigil : Sigil) : Option (Binding τ) :=
  t.scopes.findSome? fun s => s.vars.get? (name, sigil)

/-- The variable of a package. -/
def lookupQualified? (t : Table τ) (pkg name : String) (sigil : Sigil) : Option (Binding τ) :=
  (t.registry.package? pkg).bind fun p => p.var? name sigil

/-- A fresh identifier for a generated variable. -/
def auxiliary (t : Table τ) (hint : String) : String × Table τ :=
  let (a, pool) := t.pool.fresh hint
  (a, { t with pool := pool })

/-! ## Announced types -/

/-- Records the type that a pragma announces for the next declaration. -/
def announce (t : Table τ) (key : String) (type : τ) : Table τ :=
  { t with announced := t.announced.put key type }

/-- Takes the type that was announced. -/
def consume (t : Table τ) (key : String) : Option τ × Table τ :=
  (t.announced.get? key, { t with announced := t.announced.erase key })

/-! ## Packages and subroutines -/

/-- Opens the package of the unit; refused once there is one or something has been declared. -/
def openPackage (t : Table τ) (name : String) : Bool × Table τ :=
  if t.own.isSome || t.used then (false, t)
  else
    let (p, registry) := t.registry.put (Package.new name)
    (true, { t with own := some p, registry := registry })

/-- Declares a subroutine of the unit. -/
def declareSub (t : Table τ) (name : String) (returns : τ) : Sub τ × Table τ :=
  let (javaName, pool) := t.pool.aliasFor name false
  let s : Sub τ := { name := name, javaName := javaName, returns := returns }
  let t := { t with pool := pool, used := true }
  match t.own with
  | some p =>
    let s := { s with package := p.name }
    (s, t.updateOwn (p.addSub s))
  | none => (s, { t with subs := t.subs.put name s })

/-- The subroutine of a name, of the unit or of a named package. -/
def lookupSub? (t : Table τ) (pkg name : String) : Option (Sub τ) :=
  if pkg = "" then
    match t.own with
    | some p => p.sub? name
    | none => t.subs.get? name
  else (t.registry.package? pkg).bind fun p => p.sub? name

end Table

end TypedPerl
