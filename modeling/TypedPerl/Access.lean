import TypedPerl.Collection
import TypedPerl.Pending
import TypedPerl.Scope.Table

/-!
# Element access

Reads, writes, deletions and tests of an element, a slice or a whole dereference, from pieces that
are generated already. A path that is read and written in one expression must not evaluate its
pieces twice: a piece that cannot be repeated is captured in an auxiliary variable, which the write
assigns and the read reuses.
-/

namespace TypedPerl

/-- An element access, a slice or a whole dereference. -/
structure Path where
  /-- The container, or the reference or dynamic value that leads to it. -/
  base : Operand
  /-- The container is reached through a reference. -/
  throughRef : Bool := false
  /-- The whole of what the base refers to. -/
  deref : Bool := false
  /-- The keys or indices. -/
  keys : List Operand := []
  /-- Keys of a map, rather than indices. -/
  brace : Bool := false
  /-- The mark at the place of access. -/
  context : Sigil := .scalar
  /-- The base may be evaluated twice. -/
  baseRepeatable : Bool := false
  /-- The keys may be evaluated twice. -/
  keysRepeatable : Bool := false
deriving Repr, Inhabited

/-- What an access changes: the table, for auxiliary names, and the queue of declarations. -/
structure AccessState where
  /-- The symbol table. -/
  table : Table
  /-- The queue of declarations. -/
  pending : Pending
deriving Inhabited

namespace Path

open Conversion (convert convertNonNull helper)

/-! ## The container -/

/-- The path may name several elements: a slice, or an access with any other number of keys than
one. -/
def isMulti (p : Path) : Bool :=
  match p.keys with
  | [k] => p.context ≠ .scalar || k.isAggregate
  | _ => true

/-- What a dynamic value is taken to refer to at the place of access. -/
def assumedReferent (p : Path) : Ty :=
  if p.deref then
    match p.context with
    | .array => .listOf .box
    | .hash => .mapOf .box
    | _ => .box
  else if p.brace then .mapOf .box
  else .listOf .box

/-- A dynamic value as a reference cell of the assumed type. -/
def boxCell (p : Path) : String :=
  Java.castTo (some p.assumedReferent.refTo) (helper "toRef" p.base.code)

/-- The reference cell that a dereference writes to, and its type. -/
def cell? (p : Path) : Option (String × Ty) :=
  match p.base.type with
  | some (.ref e) => if p.base.raw then none else some (p.base.code, .ref e)
  | some (.scalar .box) => some (p.boxCell, p.assumedReferent.refTo)
  | _ => none

/-- The container that the path leads to, before its type is checked. -/
def reached (p : Path) : Except Fault Operand :=
  if !p.throughRef && !p.deref then
    -- an element that holds a container is indexed directly
    .ok (if p.base.raw && p.base.isRef then p.base.referent else p.base)
  else match p.base.type with
    | some (.ref _) => .ok p.base.referent
    | some (.scalar .box) => .ok (.plain (p.boxCell ++ ".get()") (some p.assumedReferent))
    | t => .error (.incompatible t (some p.assumedReferent.refTo))

/-- The container, or what a dereference yields. Its type must suit the mark, or the keys. -/
def container (p : Path) : Except Fault Operand := do
  let cont ← p.reached
  if p.deref then
    if p.context.accepts cont.type then return cont
    else throw (.incompatible p.base.type (some p.assumedReferent.refTo))
  else if cont.isAggregate && p.brace == cont.type.any Ty.isMap then return cont
  else throw (.incompatible cont.type (some p.assumedReferent))

/-! ## Keys -/

/-- The one key, and its type. -/
def key (nullChecks : Bool) (p : Path) (cont : Option Ty) : Except Fault (String × Ty) :=
  let k := p.keys.headD default
  if cont.any Ty.isMap then do
    let code ← convert k (some .string)
    return (code, .string)
  else do
    let code ← convertNonNull nullChecks k (some .integer)
    return (code, .integer)

/-- All keys as an array. -/
def keyArray (p : Path) (cont : Option Ty) : Except Fault String :=
  Collection.build p.keys (some (.arrayOf (if cont.any Ty.isMap then .string else .number)))

/-! ## Rendering -/

/-- The element of a container at a key. -/
def elementCode (cont : String) (t : Option Ty) (key : String) : String :=
  if t.any Ty.isArray then cont ++ "[" ++ key ++ "]" else cont ++ ".get(" ++ key ++ ")"

/-- The store of a value in a container at a key. -/
def storeCode (cont : String) (t : Option Ty) (key value : String) : String :=
  if t.any Ty.isArray then cont ++ "[" ++ key ++ "] = " ++ value
  else if t.any Ty.isList then cont ++ ".set(" ++ key ++ ", " ++ value ++ ")"
  else cont ++ ".put(" ++ key ++ ", " ++ value ++ ")"

/-- The type of a slice: an array of an array, else a list of the elements. -/
def sliceType (cont : Option Ty) : Option Ty :=
  cont.map fun t => if t.isArray then t else .listOf t.elem

/-- The function that makes a dynamic value of an element. -/
def boxer (elem : Option Ty) : String :=
  match elem with
  | some (.agg s e) => "pd_v -> " ++ helper "box" (Java.newRef (.agg s e) "pd_v")
  | _ => "pd_v -> " ++ helper "box" "pd_v"

/-! ## Operations -/

/-- The type that a value written to the path must have. -/
def target (p : Path) : Except Fault (Option Ty) := do
  let cont ← p.container
  if p.deref then return cont.type
  else if !p.isMulti || p.context = .scalar then return cont.elemType
  else if p.context = .array then return sliceType cont.type
  else throw (.unsupported ("assignment to a hash slice of " ++
    (cont.type.map Ty.describe).getD ""))

/-- The value at the path. -/
def read (nullChecks : Bool) (p : Path) : Except Fault Operand := do
  let cont ← p.container
  if p.deref then return cont
  else if !p.isMulti then
    let (k, _) ← p.key nullChecks cont.type
    return .ofElement (elementCode cont.code cont.type k) cont.elemType
  else
    let ks ← p.keyArray cont.type
    match p.context with
    | .scalar => return .ofElement (Java.call "Pd" "sAccess" [cont.code, ks]) cont.elemType
    | .array => return .nonNull (Java.call "Pd" "aAccess" [cont.code, ks]) (sliceType cont.type)
    | _ =>
      let code := Java.call "Pd" "hAccess" [cont.code, ks, boxer cont.elemType]
      return .nonNull code (some (.mapOf .box))

/-- The fault of a dereference that has no cell to write to. -/
def nestedDeref : Fault := .unsupported "assignment through a nested element dereference"

/-- The store of a value of the target type at the path. -/
def write (nullChecks : Bool) (p : Path) (value : String) : Except Fault String :=
  if p.deref then
    match p.cell? with
    | some (cell, _) => .ok (cell ++ ".set(" ++ value ++ ")")
    | none => .error nestedDeref
  else do
    let cont ← p.container
    if !p.isMulti then
      let (k, _) ← p.key nullChecks cont.type
      return storeCode cont.code cont.type k value
    else
      let ks ← p.keyArray cont.type
      match p.context with
      | .scalar => return Java.call "Pd" "sAccess" [cont.code, ks, value]
      | .array => return Java.call "Pd" "aAccess" [cont.code, ks, value]
      | _ => throw (.unsupported "assignment to a hash slice")

/-- Declares an auxiliary variable for code; gives the code that reads the variable and the code
that assigns it. -/
def capture (t : Option Ty) (code : String) (st : AccessState) : (String × String) × AccessState :=
  let (a, table) := st.table.auxiliary ""
  ((a, Java.paren (a ++ " = " ++ code)),
    { table := table, pending := st.pending.add { type := t, javaName := a } })

/-- The code of a piece for reading and for writing, captured unless it may be repeated. -/
def pieceOnce (repeatable : Bool) (t : Option Ty) (code : String) (st : AccessState) :
    (String × String) × AccessState :=
  if repeatable then ((code, code), st) else capture t code st

/-- What a path that is read and then written renders to. -/
structure ReadWrite where
  /-- The value read. -/
  read : Operand
  /-- The code of a store, from the value. -/
  write : String → String

instance : Inhabited ReadWrite := ⟨⟨default, id⟩⟩

/-- A path that is read and then written in one expression. -/
def readWrite (nullChecks : Bool) (p : Path) (st : AccessState) :
    Except Fault (ReadWrite × AccessState) :=
  if p.deref then
    match p.cell? with
    | none => .error nestedDeref
    | some (cell, t) =>
      let ((r, w), st) := pieceOnce p.baseRepeatable (some t) cell st
      .ok (⟨.plain (r ++ ".get()") (some t.elem), fun v => w ++ ".set(" ++ v ++ ")"⟩, st)
  else if p.isMulti then .error (.unsupported "compound assignment to a slice")
  else do
    let cont ← p.container
    let (k, kt) ← p.key nullChecks cont.type
    let ((rb, wb), st) := pieceOnce p.baseRepeatable cont.type cont.code st
    let ((rk, wk), st) := pieceOnce p.keysRepeatable (some kt) k st
    return (⟨.ofElement (elementCode rb cont.type rk) cont.elemType,
      fun v => storeCode wb cont.type wk v⟩, st)

/-- The removal of what the path names; its value is what was removed. -/
def delete (nullChecks : Bool) (p : Path) : Except Fault Operand :=
  if p.deref then .error (.unsupported "delete of a whole dereference")
  else do
    let cont ← p.container
    if !p.isMulti then
      let (k, _) ← p.key nullChecks cont.type
      return .ofElement (Java.call "Pd" "delete" [cont.code, k]) cont.elemType
    else
      let ks ← p.keyArray cont.type
      if p.context ≠ .scalar then
        return .nonNull (Java.call "Pd" "delete" [cont.code, ks]) (sliceType cont.type)
      else if cont.type.any Ty.isMap then
        return .ofElement (Java.call "Pd" "delete" [cont.code, ks, "true"]) cont.elemType
      else
        let last ← convertNonNull nullChecks
          { code := ks, type := some (.arrayOf .number), notNull := true, multi := true }
          (some .integer)
        return .ofElement (Java.call "Pd" "delete" [cont.code, last]) cont.elemType

/-- The test whether an element is there. -/
def isPresent (nullChecks : Bool) (p : Path) : Except Fault Operand :=
  if p.deref || p.isMulti then .error (.unsupported "exists on a slice or dereference")
  else do
    let cont ← p.container
    let (k, _) ← p.key nullChecks cont.type
    if cont.type.any Ty.isMap then
      return .nonNull (cont.code ++ ".containsKey(" ++ k ++ ")") (some .boolean)
    else return .nonNull (Java.call "Pd" "exists" [cont.code, k]) (some .boolean)

end Path

/-- The reference to an operand; a reference stays as it is. -/
def Operand.makeRef (o : Operand) : Operand :=
  if o.isRef then o
  else
    let t := o.type.map Ty.refTo
    { code := "new " ++ Java.declType? t ++ "(" ++ o.code ++ ")", type := t, notNull := true }

end TypedPerl
