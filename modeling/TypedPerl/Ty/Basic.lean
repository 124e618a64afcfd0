/-!
# Types of values

A type is a scalar kind, a named object class, an array, list or map of elements, or a reference
to a cell. Its linear form is a row of tags, outermost first, as it is written in a type pragma:
`<ref><array><integer>`. A reference stands only outermost, since nested containers are held by
reference already: `Ty.WellFormed` says so, and the smart constructors `wrap` and `refTo` keep it.
-/

namespace TypedPerl

/-! ## Kinds and shapes -/

/-- The kinds of scalar values. -/
inductive Kind where
  /-- A 32-bit integer. -/
  | integer
  /-- A 64-bit integer. -/
  | long
  /-- A single precision decimal. -/
  | float
  /-- A double precision decimal. -/
  | double
  /-- A text. -/
  | string
  /-- A number of unknown precision. -/
  | number
  /-- A truth value. -/
  | boolean
  /-- A file handle. -/
  | file
  /-- A dynamic value, used where nothing narrower is known. -/
  | box
deriving DecidableEq, Repr, Inhabited

/-- The name of a kind, as a type pragma writes it. -/
def Kind.name : Kind → String
  | .integer => "integer"
  | .long => "long"
  | .float => "float"
  | .double => "double"
  | .string => "string"
  | .number => "number"
  | .boolean => "boolean"
  | .file => "file"
  | .box => "box"

/-- The kinds of numbers. -/
def Kind.isNumeric : Kind → Bool
  | .integer | .long | .float | .double | .number => true
  | _ => false

/-- The shapes of containers. -/
inductive Shape where
  /-- An array of fixed length. -/
  | array
  /-- A list that can grow. -/
  | list
  /-- A map whose keys are texts. -/
  | map
deriving DecidableEq, Repr, Inhabited

/-- The name of a shape, as a type pragma writes it. -/
def Shape.name : Shape → String
  | .array => "array"
  | .list => "list"
  | .map => "map"

/-- Arrays and lists, whose elements stand in a row. -/
def Shape.isSequence : Shape → Bool
  | .array | .list => true
  | .map => false

/-! ## Types -/

/-- The static type of a value. -/
inductive Ty where
  /-- A scalar of the given kind. -/
  | scalar (kind : Kind)
  /-- An object of a class of the target language. -/
  | object (name : String)
  /-- A container of elements. -/
  | agg (shape : Shape) (elem : Ty)
  /-- A reference to a mutable cell. -/
  | ref (elem : Ty)
deriving Repr, Inhabited

namespace Ty

/-- Two types have the same levels, down to the same terminal. -/
def equal : Ty → Ty → Bool
  | scalar k, scalar l => l = k
  | object n, object m => m = n
  | agg s a, agg t b => t = s && a.equal b
  | ref a, ref b => a.equal b
  | _, _ => false

/-- Comparing level by level decides whether types are the same. -/
theorem equal_iff {t u : Ty} : t.equal u = true ↔ t = u := by
  -- types of different forms are never the same
  induction t generalizing u with
  | scalar k => cases u <;> simp [equal, eq_comm]
  | object n => cases u <;> simp [equal, eq_comm]
  | agg s e ih => cases u <;> simp [equal, ih, @eq_comm Shape]
  | ref e ih => cases u <;> simp [equal, ih]

instance : DecidableEq Ty :=
  fun _ _ => decidable_of_iff _ equal_iff

/-- The type of 32-bit integers. -/
abbrev integer : Ty := .scalar .integer
/-- The type of 64-bit integers. -/
abbrev long : Ty := .scalar .long
/-- The type of single precision decimals. -/
abbrev float : Ty := .scalar .float
/-- The type of double precision decimals. -/
abbrev double : Ty := .scalar .double
/-- The type of texts. -/
abbrev string : Ty := .scalar .string
/-- The type of numbers of unknown precision. -/
abbrev number : Ty := .scalar .number
/-- The type of truth values. -/
abbrev boolean : Ty := .scalar .boolean
/-- The type of file handles. -/
abbrev file : Ty := .scalar .file
/-- The type of dynamic values. -/
abbrev box : Ty := .scalar .box

/-- The pragma form of a type. -/
def toText : Ty → String
  | scalar k => "<" ++ k.name ++ ">"
  | object n => "<" ++ n ++ ">"
  | agg s e => "<" ++ s.name ++ ">" ++ e.toText
  | ref e => "<ref>" ++ e.toText

/-- The number of tags of the linear form. -/
def depth : Ty → Nat
  | scalar _ | object _ => 1
  | agg _ e | ref e => 1 + e.depth

/-- The words that describe a type to a reader: "ref to array of integer". -/
def words : Ty → List String
  | scalar k => [k.name]
  | object n => [n]
  | agg s e => (s.name ++ " of") :: e.words
  | ref e => "ref to" :: e.words

/-- The description of a type for a reader. -/
def describe (t : Ty) : String :=
  " ".intercalate t.words

/-! ## Well-formed types -/

/-- No reference stands in the type, and every object class has a name. -/
def RefFree : Ty → Prop
  | scalar _ => True
  | object n => n ≠ ""
  | agg _ e => e.RefFree
  | ref _ => False

/-- A reference stands at most once and only outermost, and every object class has a name. -/
def WellFormed : Ty → Prop
  | ref e => e.RefFree
  | t => t.RefFree

/-- The type below an outermost reference, or the type itself. -/
def unref : Ty → Ty
  | ref e => e
  | t => t

/-! ## Operations -/

/-- A container of elements of type `elem`; a reference to the elements is absorbed. -/
def wrap (s : Shape) (elem : Ty) : Ty :=
  .agg s elem.unref

/-- An array of elements of type `elem`. -/
def arrayOf (elem : Ty) : Ty := wrap .array elem

/-- A list of elements of type `elem`. -/
def listOf (elem : Ty) : Ty := wrap .list elem

/-- A map to elements of type `elem`. -/
def mapOf (elem : Ty) : Ty := wrap .map elem

/-- The reference to a type; a reference stays as it is. -/
def refTo (t : Ty) : Ty :=
  .ref t.unref

/-- Inserts a container level directly above the innermost type. -/
def append : Ty → Shape → Ty
  | agg s' e, s => agg s' (e.append s)
  | ref e, s => ref (e.append s)
  | t, s => agg s t

/-- The type one level down; a type of one tag stays as it is. -/
def elem : Ty → Ty
  | agg _ e | ref e => e
  | t => t

/-- The type `n` levels down, at most the innermost one. -/
def subtype : Nat → Ty → Ty
  | 0, t => t
  | n + 1, t => subtype n t.elem

/-- The innermost type. -/
def terminal : Ty → Ty
  | agg _ e | ref e => e.terminal
  | t => t

/-- Replaces the innermost type and keeps the levels above it. -/
def withTerminal : Ty → Ty → Ty
  | agg s e, u => agg s (e.withTerminal u)
  | ref e, u => ref (e.withTerminal u)
  | _, u => u

/-! ## Predicates -/

/-- A type of one tag. -/
def isSimple : Ty → Bool
  | scalar _ | object _ => true
  | _ => false

/-- A container type. -/
def isAggregate : Ty → Bool
  | agg _ _ => true
  | _ => false

/-- A reference type. -/
def isRef : Ty → Bool
  | ref _ => true
  | _ => false

/-- The shape of a container type. -/
def shape? : Ty → Option Shape
  | agg s _ => some s
  | _ => none

/-- The kind of a scalar type. -/
def kind? : Ty → Option Kind
  | scalar k => some k
  | _ => none

/-- An array type. -/
def isArray (t : Ty) : Bool := t.shape? == some .array
/-- A list type. -/
def isList (t : Ty) : Bool := t.shape? == some .list
/-- A map type. -/
def isMap (t : Ty) : Bool := t.shape? == some .map
/-- An array or list type. -/
def isSequence (t : Ty) : Bool := t.isArray || t.isList
/-- The type of dynamic values. -/
def isBox (t : Ty) : Bool := t.kind? == some .box
/-- The type of texts. -/
def isString (t : Ty) : Bool := t.kind? == some .string
/-- The type of truth values. -/
def isBoolean (t : Ty) : Bool := t.kind? == some .boolean
/-- The type of file handles. -/
def isFile (t : Ty) : Bool := t.kind? == some .file
/-- A type of numbers. -/
def isNumeric (t : Ty) : Bool := t.kind?.any Kind.isNumeric
/-- A type of decimals of known precision. -/
def isDecimal (t : Ty) : Bool := t.kind? == some .float || t.kind? == some .double

/-- An object type. -/
def isObject : Ty → Bool
  | object _ => true
  | _ => false

end Ty

end TypedPerl
