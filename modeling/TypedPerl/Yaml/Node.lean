import TypedPerl.Yaml.Token
import TypedPerl.Yaml.Datum
import TypedPerl.Keyed

/-!
# Documents as graphs of nodes

Tokens are read into scalars, sequences and mappings. An alias holds the number of the node that
its name stands for at that point, and the document keeps its named nodes by number. A name counts
from the start of its node, so an alias may stand inside the node that it names.
-/

namespace TypedPerl.Yaml

/-- A node of a document. -/
inductive Node where
  /-- A scalar: a text and what it is said to denote. -/
  | scalar (mark : Mark) (text : String) (tag : Tag)
  /-- A sequence of nodes. -/
  | sequence (mark : Mark) (items : List Node)
  /-- A mapping, as the row of its keys and values in turn. -/
  | mapping (mark : Mark) (entries : List Node)
  /-- A name that stands for the named node of a number. -/
  | refer (mark : Mark) (name : String) (number : Nat)
deriving Repr, Inhabited

/-- The named nodes of a document by their numbers. -/
abbrev Anchors := Keyed Nat Node

namespace Node

/-- Where a node starts. -/
def mark : Node → Mark
  | scalar m _ _ | sequence m _ | mapping m _ | refer m _ _ => m

/-- The text of a scalar, or the name of an alias; empty for other nodes. -/
def text : Node → String
  | scalar _ t _ => t
  | refer _ n _ => n
  | _ => ""

/-- The node that an alias stands for, or the node itself. -/
def resolve (anchors : Anchors) : Node → Node
  | refer m n k => (anchors.get? k).getD (refer m n k)
  | n => n

mutual

/-- The number of levels of a node, up to aliases. -/
def height : Node → Nat
  | scalar _ _ _ => 1
  | sequence _ items => heights items + 1
  | mapping _ entries => heights entries + 1
  | refer _ _ _ => 1

/-- The greatest number of levels of several nodes. -/
def heights : List Node → Nat
  | [] => 0
  | n :: rest => max n.height (heights rest)

end

end Node

/-! ## Reading nodes -/

/-- A document that is being read. -/
structure Reader where
  /-- The tokens to come. -/
  tokens : List Token
  /-- No more tokens could be cut. -/
  broken : Bool
  /-- The text that each handle of tags stands for. -/
  handles : Keyed String String := []
  /-- The number that each name stands for so far. -/
  names : Keyed String Nat := []
  /-- The named nodes that have been read. -/
  anchors : Anchors := []
  /-- The number of the next named node. -/
  count : Nat := 0
deriving Inhabited

namespace Reader

/-- The next token. -/
def peek (r : Reader) : Option Token :=
  r.tokens.head?

/-- The reader behind the next token. The end of the text stays. -/
def advance (r : Reader) : Reader :=
  match r.tokens with
  | [] => r
  | [_] => if r.broken then { r with tokens := [] } else r
  | _ :: rest => { r with tokens := rest }

/-- The text of a tag: in full, or what its handle stands for with its suffix behind it. -/
def tagText? (r : Reader) (t : WrittenTag) : Option String :=
  if t.handle = "" then some t.suffix
  else (r.handles.get? t.handle).map (· ++ t.suffix)

/-- Enters a name for a node that is being read, and gives its number. -/
def enter (r : Reader) (name : Option String) : Nat × Reader :=
  match name with
  | some n => (r.count, { r with names := r.names.put n r.count, count := r.count + 1 })
  | none => (r.count, r)

/-- Keeps a node that has a name. -/
def complete (r : Reader) (name : Option String) (number : Nat) (node : Node) : Reader :=
  if name.isSome then { r with anchors := r.anchors.put number node } else r

end Reader

/-- A node where nothing is written. -/
def emptyNode (m : Mark) : Node :=
  .scalar m "" .null

/-- What stands in front of the content of a node: a name, a tag, or both in either order. -/
structure Properties where
  /-- Where the node starts. -/
  start : Mark
  /-- The name that the node is anchored under. -/
  name : Option String := none
  /-- The text of its tag. -/
  tag : Option String := none
deriving Repr, Inhabited

/-- What a reader gives: a node, or several, and the reader behind them. -/
abbrev Read (α : Type) := Option (α × Reader)

/-- Reads what stands in front of the content of a node, up to the token of the content. A tag must
have a handle that is known. -/
def readProperties (r : Reader) : Option (Properties × Reader) := do
  let t ← r.peek
  match t.kind with
  | .anchor name =>
    let r := r.advance
    match (← r.peek).kind with
    | .tag tag => finish t.start (some name) (some tag) r.advance
    | _ => finish t.start (some name) none r
  | .tag tag =>
    let r := r.advance
    match (← r.peek).kind with
    | .anchor name => finish t.start (some name) (some tag) r.advance
    | _ => finish t.start none (some tag) r
  | _ => finish t.start none none r
where
  /-- The properties, once the token behind them is known. -/
  finish (start : Mark) (name : Option String) (tag : Option WrittenTag) (r : Reader) :
      Option (Properties × Reader) := do
    let _ ← r.peek
    match tag with
    | none => some (⟨start, name, none⟩, r)
    | some tag => (r.tagText? tag).map fun text => (⟨start, name, some text⟩, r)

/-- A name or a tag with nothing behind it belongs to an empty node. -/
def bareNode (p : Properties) (number : Nat) (r : Reader) : Read Node :=
  if p.name.isSome || p.tag.isSome then
    let n := Node.scalar p.start "" (.ofScalar p.tag "" true)
    some (n, r.complete p.name number n)
  else none

/-- Moves to the next entry between brackets: `none` behind the closing one. Entries after the
first have a comma before them. -/
def flowNext (close : TokenKind) (first : Bool) (r : Reader) :
    Option (Option Token × Reader) :=
  match r.peek with
  | none => none
  | some t =>
    if t.kind = close then some (none, r.advance)
    else if first then some (some t, r)
    else if t.kind = .flowEntry then
      let r := r.advance
      match r.peek with
      | none => none
      | some t => if t.kind = close then some (none, r.advance) else some (some t, r)
    else none

/-- Puts a node in front of the nodes that were read after it. -/
def withItem (n : Node) (rest : Read (List Node)) : Read (List Node) :=
  match rest with
  | some (ns, r) => some (n :: ns, r)
  | none => none

mutual

/-- Reads a node. In a block, sequences and mappings of lines are allowed; as the value of a key, a
sequence may stand at the indentation of the key. -/
def readNode : Nat → Bool → Bool → Reader → Read Node
  | 0, _, _, _ => none
  | fuel + 1, block, indentless, r =>
    match r.peek with
    | none => none
    | some ⟨.refer name, start, _⟩ =>
      match r.names.get? name with
      | some number => some (.refer start name number, r.advance)
      | none => none
    | some _ =>
      match readProperties r with
      | some (p, r) => readContent fuel block indentless p r
      | none => none

/-- Reads the content of a node behind its properties. -/
def readContent : Nat → Bool → Bool → Properties → Reader → Read Node
  | 0, _, _, _, _ => none
  | fuel + 1, block, indentless, p, r =>
    match r.peek with
    | none => none
    | some t =>
      let (number, r) := r.enter p.name
      let finish (result : Read (List Node)) (make : List Node → Node) : Read Node :=
        match result with
        | some (items, r) => let n := make items; some (n, r.complete p.name number n)
        | none => none
      match t.kind with
      | .blockEntry =>
        if indentless then finish (indentlessItems fuel r) (.sequence p.start)
        else bareNode p number r
      | .scalar text plain =>
        let n := Node.scalar p.start text (.ofScalar p.tag text plain)
        some (n, r.advance.complete p.name number n)
      | .flowSequenceStart => finish (flowItems fuel true r.advance) (.sequence p.start)
      | .flowMappingStart => finish (flowEntries fuel true r.advance) (.mapping p.start)
      | .blockSequenceStart =>
        if block then finish (blockItems fuel r.advance) (.sequence p.start)
        else bareNode p number r
      | .blockMappingStart =>
        if block then finish (blockEntries fuel r.advance) (.mapping p.start)
        else bareNode p number r
      | _ => bareNode p number r

/-- The entries of a sequence of lines, up to its end. -/
def blockItems : Nat → Reader → Read (List Node)
  | 0, _ => none
  | fuel + 1, r =>
    match r.peek with
    | some ⟨.blockEntry, _, stop⟩ =>
      let r := r.advance
      match r.peek with
      | none => none
      | some t =>
        if t.kind = .blockEntry || t.kind = .blockEnd then
          withItem (emptyNode stop) (blockItems fuel r)
        else match readNode fuel true false r with
          | some (n, r) => withItem n (blockItems fuel r)
          | none => none
    | some ⟨.blockEnd, _, _⟩ => some ([], r.advance)
    | _ => none

/-- The entries of a sequence at the indentation of its key. -/
def indentlessItems : Nat → Reader → Read (List Node)
  | 0, _ => none
  | fuel + 1, r =>
    match r.peek with
    | none => none
    | some ⟨.blockEntry, _, stop⟩ =>
      let r := r.advance
      match r.peek with
      | none => none
      | some t =>
        if t.kind = .blockEntry || t.kind = .key || t.kind = .value || t.kind = .blockEnd then
          withItem (emptyNode stop) (indentlessItems fuel r)
        else match readNode fuel true false r with
          | some (n, r) => withItem n (indentlessItems fuel r)
          | none => none
    | some _ => some ([], r)

/-- The keys and values of a mapping of lines, up to its end. -/
def blockEntries : Nat → Reader → Read (List Node)
  | 0, _ => none
  | fuel + 1, r =>
    match r.peek with
    | some ⟨.key, _, stop⟩ =>
      match blockPart fuel stop r.advance with
      | none => none
      | some (k, r) =>
        match r.peek with
        | none => none
        | some ⟨.value, _, stop⟩ =>
          match blockPart fuel stop r.advance with
          | some (v, r) => withItem k (withItem v (blockEntries fuel r))
          | none => none
        | some t => withItem k (withItem (emptyNode t.start) (blockEntries fuel r))
    | some ⟨.blockEnd, _, _⟩ => some ([], r.advance)
    | _ => none

/-- A key or a value of a mapping of lines, which may be empty. -/
def blockPart : Nat → Mark → Reader → Read Node
  | 0, _, _ => none
  | fuel + 1, stop, r =>
    match r.peek with
    | none => none
    | some t =>
      if t.kind = .key || t.kind = .value || t.kind = .blockEnd then some (emptyNode stop, r)
      else readNode fuel true true r

/-- The entries between brackets, up to the closing one. A key among them makes a mapping of one
pair. -/
def flowItems : Nat → Bool → Reader → Read (List Node)
  | 0, _, _ => none
  | fuel + 1, first, r =>
    match flowNext .flowSequenceEnd first r with
    | none => none
    | some (none, r) => some ([], r)
    | some (some t, r) =>
      if t.kind = .key then
        match flowPair fuel r.advance with
        | some (pair, r) => withItem (.mapping t.start pair) (flowItems fuel false r)
        | none => none
      else match readNode fuel false false r with
        | some (n, r) => withItem n (flowItems fuel false r)
        | none => none

/-- The one pair of a mapping that stands between brackets. -/
def flowPair : Nat → Reader → Read (List Node)
  | 0, _ => none
  | fuel + 1, r =>
    match r.peek with
    | none => none
    | some t =>
      let key : Read Node :=
        if t.kind = .value || t.kind = .flowEntry || t.kind = .flowSequenceEnd then
          some (emptyNode t.stop, r.advance)
        else readNode fuel false false r
      match key with
      | none => none
      | some (k, r) =>
        match flowValue fuel .flowSequenceEnd r with
        | some (v, r) => some ([k, v], r)
        | none => none

/-- The keys and values between braces, up to the closing one. -/
def flowEntries : Nat → Bool → Reader → Read (List Node)
  | 0, _, _ => none
  | fuel + 1, first, r =>
    match flowNext .flowMappingEnd first r with
    | none => none
    | some (none, r) => some ([], r)
    | some (some t, r) =>
      if t.kind = .key then
        let r := r.advance
        match r.peek with
        | none => none
        | some t =>
          let key : Read Node :=
            if t.kind = .value || t.kind = .flowEntry || t.kind = .flowMappingEnd then
              some (emptyNode t.start, r)
            else readNode fuel false false r
          match key with
          | none => none
          | some (k, r) =>
            match flowValue fuel .flowMappingEnd r with
            | some (v, r) => withItem k (withItem v (flowEntries fuel false r))
            | none => none
      else
        match readNode fuel false false r with
        | none => none
        | some (k, r) =>
          match r.peek with
          | none => none
          | some t => withItem k (withItem (emptyNode t.start) (flowEntries fuel false r))

/-- The value after a key between brackets or braces, which may be missing. -/
def flowValue : Nat → TokenKind → Reader → Read Node
  | 0, _, _ => none
  | fuel + 1, close, r =>
    match r.peek with
    | none => none
    | some t =>
      if t.kind = .value then
        let r := r.advance
        match r.peek with
        | none => none
        | some t =>
          if t.kind = .flowEntry || t.kind = close then some (emptyNode t.start, r)
          else readNode fuel false false r
      else some (emptyNode t.start, r)

end

/-! ## Documents -/

/-- What a text is as a document. -/
inductive Document where
  /-- The text breaks the rules of the format. -/
  | malformed
  /-- The text holds no document. -/
  | empty
  /-- The text holds a document: its root and its named nodes. -/
  | root (node : Node) (anchors : Anchors)
deriving Repr, Inhabited

/-- The number of levels that a document can have when it does not hold itself: no way down from
its root meets a named node twice. -/
def levels (root : Node) (anchors : Anchors) : Nat :=
  (anchors.length + 1) * (max root.height (Node.heights anchors.values) + 1)

/-- A document whose content has been read; the token behind it must be there. -/
def Document.ofRead (r : Read Node) : Document :=
  match r with
  | some (n, r) => if r.peek.isSome then .root n r.anchors else .malformed
  | none => .malformed

/-- What the directives before a document have said so far. -/
structure Preamble where
  /-- The version was given. -/
  versioned : Bool := false
  /-- The text that each handle stands for. -/
  handles : Keyed String String := []
deriving Repr, Inhabited

namespace Preamble

/-- Adds a directive. The version must be 1.1 and is given once, as is each handle. -/
def add (p : Preamble) (d : Directive) : Option Preamble :=
  match d with
  | .version major minor =>
    if p.versioned || major ≠ 1 || minor ≠ 1 then none else some { p with versioned := true }
  | .handle name text =>
    if (p.handles.get? name).isSome then none
    else some { p with handles := p.handles.put name text }

/-- All handles, with those that every document has unless it says otherwise. -/
def allHandles (p : Preamble) : Keyed String String :=
  p.handles ++ [("!", "!"), ("!!", Tag.family)]

/-- Reads the directives before a document. -/
def read : Nat → Preamble → Reader → Read Preamble
  | 0, _, _ => none
  | fuel + 1, p, r =>
    match r.peek with
    | some ⟨.directive d, _, _⟩ =>
      match p.add d with
      | some p => read fuel p r.advance
      | none => none
    | some _ => some (p, r)
    | none => none

end Preamble

/-- Reads the content of a document, behind its start. -/
def readDocument (fuel : Nat) (r : Reader) : Document :=
  match r.peek with
  | none => .malformed
  | some t =>
    match t.kind with
    | .directive _ | .documentStart | .documentEnd | .streamEnd =>
      .ofRead (some (emptyNode t.start, r))
    | _ => .ofRead (readNode fuel true false r)

/-- The first document of a text. -/
def parse (text : String) : Document :=
  let (tokens, broken) := scan text
  let r : Reader := { tokens, broken }
  let fuel := 4 * tokens.length + 4
  match r.peek with
  | none => .malformed
  | some t =>
    match t.kind with
    | .streamEnd => .empty
    | .directive _ | .documentStart =>
      match Preamble.read fuel {} r with
      | none => .malformed
      | some (p, r) =>
        match r.peek with
        | some ⟨.documentStart, _, _⟩ =>
          readDocument fuel { r.advance with handles := p.allHandles }
        | _ => .malformed
    | _ =>
      let p : Preamble := {}
      .ofRead (readNode fuel true false { r with handles := p.allHandles })

end TypedPerl.Yaml
