import TypedPerl.Ty.Basic
import TypedPerl.Text.Class

/-!
# Types in the target language

How a type is declared, created and named in the generated class. Nested containers are stored
directly, so an array of lists of integers is declared as `PerlList<Integer>[]`. Array creation
and class literals take the declaration type without its type arguments, its erasure.
-/

namespace TypedPerl.Java

/-! ## Support classes -/

/-- The class of reference cells. -/
def refClass : String := "Ref"
/-- The class of dynamic values. -/
def boxClass : String := "Box"
/-- The class of growing lists. -/
def listClass : String := "PerlList"
/-- The class of maps. -/
def mapClass : String := "PerlMap"
/-- The class of file handles. -/
def fileClass : String := "PerlFile"

/-- The class that stands for a scalar kind. -/
def kindClass : Kind → String
  | .integer => "Integer"
  | .long => "Long"
  | .float => "Float"
  | .double => "Double"
  | .string => "String"
  | .number => "Number"
  | .boolean => "Boolean"
  | .file => fileClass
  | .box => boxClass

/-! ## Declaration types -/

/-- The type with which a value is declared. -/
def declType : Ty → String
  | .scalar k => kindClass k
  | .object n => n
  | .ref e => refClass ++ "<" ++ declType e ++ ">"
  | .agg .array e => declType e ++ "[]"
  | .agg .list e => listClass ++ "<" ++ declType e ++ ">"
  | .agg .map e => mapClass ++ "<" ++ declType e ++ ">"

/-- The declaration type of a value whose type may be unknown. -/
def declType? (t : Option Ty) : String :=
  match t with
  | some t => declType t
  | none => "Object"

/-- Drops what stands between angle brackets, and the brackets, at nesting level `level`. -/
def dropTypeArgs (level : Int) : List Char → List Char
  | [] => []
  | c :: cs =>
    if c = '<' then dropTypeArgs (level + 1) cs
    else if c = '>' then dropTypeArgs (level - 1) cs
    else if level = 0 then c :: dropTypeArgs level cs
    else dropTypeArgs level cs

/-- The declaration type without its type arguments. -/
def erasure (t : Ty) : String :=
  String.ofList (dropTypeArgs 0 (declType t).toList)

/-! ## Creation -/

/-- The element type below all array levels. -/
def arrayBase : Ty → Ty
  | .agg .array e => arrayBase e
  | t => t

/-- The number of array levels at the top of a type. -/
def arrayLevels : Ty → Nat
  | .agg .array e => arrayLevels e + 1
  | _ => 0

/-- The creation of an array of `elem` with the given length. -/
def newArray (elem : Ty) (length : String) : String :=
  "new " ++ erasure (arrayBase elem) ++ "[" ++ length ++ "]" ++
    String.join (List.replicate (arrayLevels elem) "[]")

/-- The creation of an empty container with room for `size` elements; null for other types. -/
def newAggregate (t : Ty) (size : String) : String :=
  match t with
  | .agg .array e => newArray e size
  | .agg .list _ => "new " ++ listClass ++ "<>(" ++ size ++ ")"
  | .agg .map _ => "new " ++ mapClass ++ "<>(" ++ size ++ ")"
  | _ => "null"

/-- The empty container of a type; null for other types. -/
def emptyOf (t : Ty) : String :=
  newAggregate t "0"

/-- The first value of a variable whose type may be unknown. -/
def emptyOf? (t : Option Ty) : String :=
  match t with
  | some t => emptyOf t
  | none => "null"

/-- The creation of an array that holds the given items. -/
def arrayInitializer (elem : Ty) (items : List String) : String :=
  newArray elem "" ++ "\x7b" ++ Text.join ", " items ++ "\x7d"

/-- The class literal of a type. -/
def classLiteral (t : Ty) : String :=
  erasure t ++ ".class"

/-- A new reference cell that holds `code`. -/
def newRef (t : Ty) (code : String) : String :=
  "new " ++ declType t.refTo ++ "(" ++ code ++ ")"

/-! ## Expressions -/

/-- A call of a static method. -/
def call (cls method : String) (args : List String) : String :=
  cls ++ "." ++ method ++ "(" ++ Text.join ", " args ++ ")"

/-- A cast to the declaration type of `t`. -/
def castTo (t : Option Ty) (code : String) : String :=
  "((" ++ declType? t ++ ") " ++ code ++ ")"

/-- The code in parentheses. -/
def paren (code : String) : String :=
  "(" ++ code ++ ")"

end TypedPerl.Java
