import TypedPerl.Yaml.Node

/-!
# Values of nodes

What a node denotes where a text, a truth value or a whole number is wanted. Only scalars denote
one, and names that stand for scalars.
-/

namespace TypedPerl.Yaml

namespace Node

/-- The node is a scalar that is said to denote nothing. -/
def isNull : Node → Bool
  | scalar _ _ tag => tag = .null
  | _ => false

/-- What a node denotes, if it is a scalar or stands for one. -/
def datum? (anchors : Anchors) (n : Node) : Option Datum :=
  match n.resolve anchors with
  | scalar _ text tag => tag.read? text
  | _ => none

/-- The text of a node as a value: of bytes it is the text that they are, of null there is none, and
anything else is taken as it is written. A node that denotes nothing has no text at all. -/
def toText? (anchors : Anchors) (n : Node) : Option (Option String) :=
  match n.datum? anchors with
  | none => none
  | some .null => some none
  | some (.text s) => some (some s)
  | some _ => some (some (n.resolve anchors).text)

/-- The truth value that a node denotes; null is false. -/
def toBool? (anchors : Anchors) (n : Node) : Option Bool :=
  (n.datum? anchors).bind Datum.toBool?

/-- The whole number that a node denotes; null is zero. -/
def toInt? (anchors : Anchors) (n : Node) : Option Int :=
  (n.datum? anchors).bind Datum.toInt?

end Node

end TypedPerl.Yaml
