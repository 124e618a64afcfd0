import TypedPerl.Yaml.Value
import TypedPerl.Ty.Pragma
import TypedPerl.Tree.Basic
import TypedPerl.Text.Quoted

/-!
# Fields of a tree document

A tree document describes each node of a syntax tree by a mapping. This module reads the fields of
such a mapping: texts, flags, numbers, types and marks. A field that is missing or null counts as
not given, and of two fields with one name the last one counts. Every refusal is a diagnostic that
names the place in the document.
-/

namespace TypedPerl.Document

open Yaml (Node Anchors)

/-- What is known of a tree document while it is read. -/
structure Source where
  /-- The name of the document. -/
  name : String
  /-- The name of the program that it describes. -/
  file : String
  /-- The named nodes of the document. -/
  anchors : Anchors
deriving Inhabited

/-- The refusal of a document at a position. -/
def refusal (name : String) (line column : Int) (message : String) : Fault :=
  .report ⟨.invalidTree, ⟨name, line, column⟩, message⟩ none

/-- The position of a node in its document. -/
def Source.position (s : Source) (n : Node) : Pos :=
  ⟨s.name, n.mark.line + 1, n.mark.column + 1⟩

/-- Reading a part of a document: it may refuse, and it numbers the nodes of the tree. -/
abbrev Decode := ReaderT Source (StateT Nat (Except Fault))

/-- Refuses a node of the document. -/
def refuse {α : Type} (n : Node) (message : String) : Decode α := do
  throw (.report ⟨.invalidTree, (← read).position n, message⟩ none)

/-- A number that no other node of the tree has. -/
def freshId : Decode Nat := do
  let n ← get
  set (n + 1)
  return n

/-- What a node is, for messages. -/
def kindText : Node → String
  | .scalar _ _ _ => "a scalar"
  | .sequence _ _ => "a list"
  | .mapping _ _ => "a mapping"
  | .refer _ _ _ => "nothing"

/-- The fields of a mapping. -/
structure Fields where
  /-- The mapping. -/
  node : Node
  /-- Its keys and values in turn. -/
  entries : List Node
deriving Inhabited

/-- The fields of a node, which is a mapping or an alias of one. -/
def fields (n : Node) : Decode Fields := do
  match n.resolve (← read).anchors with
  | .mapping m es => return ⟨.mapping m es, es⟩
  | other => refuse other ("expected a mapping, got " ++ kindText other)

/-- The value of the last key with a text. -/
def lastValue? (key : String) : List Node → Option Node
  | k :: v :: rest =>
    match lastValue? key rest with
    | some n => some n
    | none => if k.text = key then some v else none
  | _ => none

namespace Fields

/-- The value of a field that is given. -/
def get? (f : Fields) (key : String) : Option Node :=
  (lastValue? key f.entries).filter fun n => !n.isNull

/-- The text of a field, empty if it is not given. -/
def text (f : Fields) (key : String) : Decode String :=
  match f.get? key with
  | none => return ""
  | some (.scalar _ t _) => return t
  | some n => refuse n (key ++ " must be a scalar, got " ++ kindText n)

/-- The text of a field that must be given. -/
def required (f : Fields) (key : String) : Decode String := do
  let t ← f.text key
  if t = "" then refuse f.node ("missing " ++ key)
  else return t

/-- The truth value of a field, false if it is not given. -/
def flag (f : Fields) (key : String) : Decode Bool := do
  match f.get? key with
  | none => return false
  | some n =>
    match n.toBool? (← read).anchors with
    | some b => return b
    | none => refuse n (key ++ " must be a boolean")

/-- The number of a field, zero if it is not given. -/
def number (f : Fields) (key : String) : Decode Int := do
  match f.get? key with
  | none => return 0
  | some n =>
    match n.toInt? (← read).anchors with
    | some i => return i
    | none => refuse n (key ++ " must be an integer")

/-- The type of a field, none if it is not given. -/
def type (f : Fields) (key : String) : Decode (Option Ty) := do
  let t ← f.text key
  if t = "" then return none
  match Ty.parse t with
  | .ok ty => return some ty
  | .error e =>
    let pos := (← read).position ((f.get? key).getD f.node)
    throw ((Fault.tag e).locate .invalidTree pos)

/-- The mark of a field; the mark of one value if it is not given. -/
def sigil (f : Fields) (key : String) : Decode Sigil := do
  let t ← f.text key
  if t = "" then return .scalar
  match Sigil.ofText? t with
  | some s => return s
  | none => refuse ((f.get? key).getD f.node) ("invalid sigil " ++ Text.quote t)

/-- The number and the position of the node that the fields describe. -/
def info (f : Fields) : Decode Info := do
  let line ← f.number "line"
  let column ← f.number "col"
  return ⟨← freshId, ⟨(← read).file, line, column⟩⟩

end Fields

end TypedPerl.Document
