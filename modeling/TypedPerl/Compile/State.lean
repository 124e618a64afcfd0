import TypedPerl.Access
import TypedPerl.Catalog
import TypedPerl.Usage
import TypedPerl.ElementType
import TypedPerl.Java.Layout
import TypedPerl.Tree.Part

/-!
# Compilation of a unit

The state of a unit while its class is generated. What is generated for a node is kept by the
number of the node and is never replaced. Each statement opens a mark in the queue of pending
declarations; a statement that succeeds drains the queue to its mark, and one that fails truncates
the queue to it, so that a failure leaves no declaration behind.
-/

namespace TypedPerl

/-- What was generated for a node. -/
structure Output where
  /-- The code. -/
  code : String := ""
  /-- The type of its value, for expressions. -/
  type : Option Ty := none
  /-- The code gives what a reference refers to, not a cell. -/
  raw : Bool := false
deriving DecidableEq, Repr, Inhabited

/-- What is generated from an operand. -/
def Operand.toOutput (o : Operand) : Output :=
  { code := o.code, type := o.type, raw := o.raw }

/-- A field of the generated class. -/
structure Field where
  /-- The type of the field, if it is known. -/
  type : Option Ty
  /-- Its identifier. -/
  javaName : String
  /-- Other classes see it. -/
  isPublic : Bool
deriving DecidableEq, Repr, Inhabited

/-- A method of the generated class. -/
structure Method where
  /-- Its identifier. -/
  javaName : String
  /-- The type of its result, if it is known. -/
  returns : Option Ty
  /-- The name of its parameter. -/
  param : String
  /-- Its body in braces. -/
  body : String
deriving DecidableEq, Repr, Inhabited

/-- A subroutine whose body is being compiled. -/
structure Frame where
  /-- The subroutine. -/
  sub : Sub
  /-- The name of the parameter that holds its arguments. -/
  param : String
deriving DecidableEq, Repr, Inhabited

namespace Compile

/-- Choices on the generated code. -/
structure Options where
  /-- Values that may be undefined are guarded where they are converted. -/
  nullChecks : Bool := false
  /-- Expressions without effect stay statements. -/
  strictStatements : Bool := false
  /-- Comments of the source are kept. -/
  comments : Bool := false
deriving DecidableEq, Repr, Inhabited

/-- What stays the same while a unit is compiled. -/
structure Env extends Options where
  /-- Where packages of earlier runs are looked up. -/
  catalog : Option Catalog := none
deriving Inhabited

/-- What changes while a unit is compiled. -/
structure State extends AccessState where
  /-- What was generated, by node. -/
  outputs : Keyed Nat Output := []
  /-- The variables that nodes were resolved to. -/
  bindings : Keyed Nat Binding := []
  /-- The subroutines that calls and definitions were resolved to. -/
  subs : Keyed Nat Sub := []
  /-- The loop variables that were made for loops without one. -/
  made : List Nat := []
  /-- Where the queue stood at the start of each open statement, innermost first. -/
  marks : List Nat := []
  /-- The accesses that may be written to, by node. -/
  paths : Keyed Nat Path := []
  /-- The nodes whose code has an effect. -/
  effects : List Nat := []
  /-- The fields of the class. -/
  fields : List Field := []
  /-- The methods of the class. -/
  methods : List Method := []
  /-- The subroutines whose bodies are open, innermost first. -/
  frames : List Frame := []
  /-- The subroutines whose definitions are being walked, innermost first. -/
  walking : List Sub := []
  /-- The faults so far. -/
  errors : List Fault := []
deriving Inhabited

namespace State

/-! ## What was generated -/

/-- What was generated for a node; nothing if it was not. -/
def output (st : State) (id : Nat) : Output :=
  (st.outputs.get? id).getD {}

/-- The node was generated. -/
def isGenerated (st : State) (id : Nat) : Bool :=
  (st.outputs.get? id).isSome

/-- The code that was generated for a node, if it was and is not empty. -/
def lineOf? (st : State) (id : Nat) : Option String :=
  (st.outputs.get? id).bind fun o => if o.code = "" then none else some o.code

/-- What was generated for an expression, as an operand. -/
def operandOf (st : State) (e : Expr) : Operand :=
  let out := st.output e.id
  { code := out.code, type := out.type, notNull := e.isNotNull, constant := e.isConstant,
    undef := e.isUndef, multi := e.isMultiValued && out.type.any Ty.isSequence,
    raw := out.raw && out.type.any Ty.isRef }

/-- The operands of several expressions. -/
def operands (st : State) (es : List Expr) : List Operand :=
  es.map st.operandOf

/-! ## Names -/

/-- An identifier with the class of its package in front, unless that is the unit's own. -/
def inClass (st : State) (package javaName : String) : String :=
  if package = "" || (st.table.own.map (·.name)) = some package then javaName
  else match st.table.registry.package? package with
    | some p => p.className ++ "." ++ javaName
    | none => javaName

/-- A variable as it is named in the class of the unit. -/
def nameOf (st : State) (b : Binding) : String :=
  st.inClass b.package b.javaName

/-- A subroutine as it is named in the class of the unit. -/
def subName (st : State) (s : Sub) : String :=
  st.inClass s.package s.javaName

/-- The variable that a node was resolved to. -/
def binding? (st : State) (v : Variable) : Option Binding :=
  st.bindings.get? v.info.id

/-- The node declares a variable of a method. -/
def isLocalDecl (st : State) (v : Variable) : Bool :=
  v.decl = .my && (st.binding? v).any fun b => !b.isField

/-- The field of a variable is part of the class, once. -/
def addField (st : State) (b : Binding) : State :=
  if st.fields.any fun f => f.javaName == b.javaName then st
  else { st with fields := st.fields ++ [⟨some b.type, b.javaName, b.isPublic⟩] }

/-! ## Statements -/

/-- Queues a declaration for the statement. -/
def queue (st : State) (d : Declaration) : State :=
  { st with pending := st.pending.add d }

/-- A statement starts. -/
def begin (st : State) : State :=
  { st with marks := st.pending.size :: st.marks }

/-- A statement fails: what it queued is discarded. -/
def abort (st : State) : State :=
  match st.marks with
  | m :: rest => { st with pending := st.pending.truncate m, marks := rest }
  | [] => st

/-- A statement is generated: it takes what it queued. -/
def drain (st : State) : List Declaration × State :=
  match st.marks with
  | m :: rest =>
    let (ds, q) := st.pending.drain m
    (ds, { st with pending := q, marks := rest })
  | [] => ([], st)

/-- The state with another symbol table. -/
def setTable (st : State) (t : Table) : State :=
  { st with table := t }

/-! ## Subroutines -/

/-- The body of a subroutine starts; its arguments are in `param`. -/
def openSub (st : State) (s : Sub) (param : String) : State :=
  { st with frames := ⟨s, param⟩ :: st.frames, walking := s :: st.walking }

/-- The body of a subroutine ends, with its scope. -/
def closeSub (st : State) : State :=
  { st with frames := st.frames.drop 1, walking := st.walking.drop 1, table := st.table.exit }

/-- Ends bodies of subroutines until `count` definitions are being walked. -/
def closeSubs (st : State) (count : Nat) : State :=
  (st.walking.length - count).repeat closeSub st

end State

end Compile

/-- A step of the compilation of a unit. A step that fails still leaves its state. -/
abbrev Compile := ReaderT Compile.Env (ExceptT Fault (StateM Compile.State))

namespace Compile

/-- A step that changes what accesses share: the table and the queue. -/
def onAccess {α : Type} (f : AccessState → α × AccessState) : Compile α := do
  let st ← get
  let (a, acc) := f st.toAccessState
  set { st with toAccessState := acc }
  return a

/-- A step that changes the symbol table. -/
def onTable {α : Type} (f : Table → α × Table) : Compile α := do
  let st ← get
  let (a, t) := f st.table
  set (st.setTable t)
  return a

/-- Keeps what was generated for a node; once only. -/
def setOutput (id : Nat) (out : Output) : Compile Unit := do
  let st ← get
  if st.isGenerated id then throw .alreadyGenerated
  else set { st with outputs := st.outputs.put id out }

/-- The code of a node has an effect. -/
def markEffect (id : Nat) : Compile Unit :=
  modify fun st => { st with effects := id :: st.effects }

/-- Runs a step and then changes the state, also when the step fails. -/
def ensuring {α : Type} (step : Compile α) (after : State → State) : Compile α :=
  fun env st =>
    let (r, st) := step env st
    (r, after st)

/-- Runs a step; a fault in it becomes a diagnostic at a position. -/
def located {α : Type} (pos : Pos) (step : Compile α) : Compile α :=
  fun env st =>
    let (r, st) := step env st
    (r.mapError (Fault.diagnose pos), st)

/-- Runs the steps of a statement. If they fail, the declarations they queued are discarded, the
scopes and subroutines they opened are closed, and the fault is recorded. -/
def recovering (pos : Pos) (step : Compile Unit) : Compile Bool :=
  fun env st =>
    let depth := st.table.depth
    let count := st.walking.length
    match step env st.begin with
    | (.ok _, st) => (.ok true, st)
    | (.error f, st) =>
      let st := st.abort
      let st := st.setTable (st.table.restore depth)
      let st := st.closeSubs count
      (.ok false, { st with errors := st.errors ++ [f.diagnose pos] })

end Compile

end TypedPerl
