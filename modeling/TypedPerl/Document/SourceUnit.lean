import TypedPerl.Document.Stmt
import TypedPerl.PathName

/-!
# Tree documents

`SourceUnit.decode` reads the text of a tree document into a syntax tree, or refuses it with a
diagnostic that names the document.
-/

namespace TypedPerl

open Document Yaml

namespace Document

/-- Reads the root of a document. -/
def unit (name : String) (root : Node) : Decode SourceUnit := do
  let f ← fields root
  let given ← f.text "file"
  let file := if given = "" then PathName.sourceName name else given
  let className ← f.text "class"
  -- a node may be met once in each role: as a statement, a block, a branch and an expression
  let bound := 4 * levels root (← read).anchors
  let stmts ← withReader (fun s => { s with file }) (stmtList (stmt bound) f "statements")
  return { file, className, stmts }

end Document

/-- Reads the text of a tree document with the given name. -/
def SourceUnit.decode (text name : String) : Except Fault SourceUnit :=
  match Yaml.parse text with
  | .malformed =>
    .error (Fault.locate .invalidTree ⟨name, 0, 0⟩ (.plain "yaml: malformed document"))
  | .empty => .error (refusal name 0 0 "empty tree document")
  | .root root anchors =>
    (Document.unit name root { name, file := "", anchors } 0).map (·.1)

end TypedPerl
