import TypedPerl.Diagnostic
import TypedPerl.Operand
import TypedPerl.Java.Literal

/-!
# Conversions

How a value of one type is rendered as a value of another. Conversions between scalars are single
expressions; a constant becomes a literal of the other type when its value allows it. Containers of
different element types are converted element by element, in a lambda that the runtime applies;
the names in it carry their nesting depth, so that an inner loop hides nothing of an outer one.

The conversion to a type follows that type: `convertTo` recurses on it, and the type of the source
only decides between the rules.
-/

namespace TypedPerl.Conversion

/-! ## Runtime helpers -/

/-- A call of a conversion helper of the runtime. -/
def helper (fn code : String) : String :=
  Java.call "Casting" fn [code]

/-- The helper that converts to a kind of number. -/
def numericHelper : Kind → String
  | .integer => "toInteger"
  | .long => "toLong"
  | .float => "toFloat"
  | .double => "toDouble"
  | _ => ""

/-- The view of a number or dynamic value as a kind of number. -/
def numericView : Kind → String
  | .integer => "intValue"
  | .long => "longValue"
  | .float => "floatValue"
  | .double => "doubleValue"
  | _ => ""

/-- The primitive type of a kind of number. -/
def primitive : Kind → String
  | .integer => "int"
  | .long => "long"
  | .float => "float"
  | .double => "double"
  | _ => ""

/-- A kind of number with a primitive type. -/
def isPrimitive : Kind → Bool
  | .integer | .long | .float | .double => true
  | _ => false

/-- An integer expression as a value of a kind of number. -/
def widen (code : String) (k : Kind) : String :=
  if k = .integer then code else "((" ++ primitive k ++ ") " ++ code ++ ")"

/-! ## Scalars -/

/-- A value as a truth value. -/
def toBoolean (o : Operand) : String :=
  let x := o.code
  let other := helper "toBoolean" x
  match o.type with
  | none => other
  | some (.agg s _) =>
    if !o.notNull then other
    else if s = .array then Java.paren (x ++ ".length > 0")
    else Java.paren ("!" ++ x ++ ".isEmpty()")
  | some (.ref _) | some (.object _) => Java.paren (x ++ " != null")
  | some (.scalar k) =>
    match k with
    | .file => Java.paren (x ++ " != null")
    | .boolean => x
    | .string =>
      match (if o.constant then Java.stringTruth? x else none) with
      | some b => if b then "true" else "false"
      | none => other
    | .box => if o.notNull then x ++ ".booleanValue()" else other
    | .number => if o.notNull then Java.paren (x ++ ".doubleValue() != 0") else other
    | .integer | .long | .float | .double =>
      match (if o.constant then Java.readConstant? x else none) with
      | some n => if n.isZero then "false" else "true"
      | none => if o.notNull then Java.paren (x ++ " != 0") else other

/-- A value as a number of a primitive kind. -/
def toNumeric (o : Operand) (k : Kind) : String :=
  let x := o.code
  let one := "1" ++ Java.kindSuffix k
  let zero := "0" ++ Java.kindSuffix k
  let other := helper (numericHelper k) x
  match o.type with
  | none => other
  | some (.agg _ _) => if o.notNull then widen o.count k else other
  | some (.ref _) | some (.object _) => Java.paren (x ++ " != null ? " ++ one ++ " : " ++ zero)
  | some (.scalar src) =>
    if src = .file then Java.paren (x ++ " != null ? " ++ one ++ " : " ++ zero)
    else if src = k then x
    else match src with
      | .boolean => if o.notNull then Java.paren (x ++ " ? " ++ one ++ " : " ++ zero) else other
      | .integer | .long | .float | .double =>
        match (if o.constant then Java.numericLiteral? x k else none) with
        | some lit => lit
        | none => other
      | .box | .number => if o.notNull then x ++ "." ++ numericView k ++ "()" else other
      | _ => other

/-- A value as a text. -/
def toText (o : Operand) : String :=
  let x := o.code
  let other := helper "toString" x
  match o.type with
  | none => other
  | some (.agg _ _) =>
    if o.notNull then helper "toString" o.count else helper "toString" (helper "toInteger" x)
  | some (.ref _) | some (.object _) => Java.paren (x ++ " != null ? \"1\" : \"0\"")
  | some (.scalar k) =>
    match k with
    | .file => Java.paren (x ++ " != null ? \"1\" : \"0\"")
    | .string => x
    | .boolean => if o.notNull then Java.paren (x ++ " ? \"1\" : \"0\"") else other
    | .integer | .long =>
      match (if o.constant then Java.readConstant? x else none) with
      | some (.whole i) => Text.quote (toString i)
      | _ => other
    | .box => if o.notNull then x ++ ".stringValue()" else other
    | .number => if o.notNull then x ++ ".toString()" else other
    | _ => other

/-- A value as a dynamic value. -/
def toBox (o : Operand) : String :=
  let x := o.code
  match o.type with
  | some (.agg _ _) =>
    if o.notNull then helper "box" o.count else helper "box" (helper "toInteger" x)
  | some (.ref _) => helper "box" o.cellCode
  | some (.scalar .box) => x
  | _ => helper "box" x

/-- A value as a number of unknown precision. -/
def toNumber (o : Operand) : Except Fault String :=
  let x := o.code
  match o.type with
  | none => .error (.incompatible none (some .number))
  | some (.agg _ _) => .ok (if o.notNull then o.count else helper "toInteger" x)
  | some (.ref _) | some (.object _) => .ok (Java.paren (x ++ " != null ? 1 : 0"))
  | some (.scalar k) =>
    match k with
    | .file => .ok (Java.paren (x ++ " != null ? 1 : 0"))
    | .integer | .long | .float | .double | .number => .ok x
    | .boolean => .ok (if o.notNull then Java.paren (x ++ " ? 1 : 0") else helper "toInteger" x)
    | .string => .ok (helper "parseDouble" x)
    | .box => .ok (if o.notNull then x ++ ".numberValue()" else helper "toNumber" x)

/-- A value as a file handle. -/
def toFile (o : Operand) : Except Fault String :=
  match o.type with
  | some (.scalar .file) => .ok o.code
  | some (.scalar .box) =>
    .ok (if o.notNull then o.code ++ ".fileValue()" else helper "toFile" o.code)
  | t => .error (.incompatible t (some .file))

/-- A value as a scalar of a kind. -/
def toScalar (o : Operand) (k : Kind) : Except Fault String :=
  match k with
  | .boolean => .ok (toBoolean o)
  | .integer | .long | .float | .double => .ok (toNumeric o k)
  | .string => .ok (toText o)
  | .box => .ok (toBox o)
  | .number => toNumber o
  | .file => toFile o

/-! ## Containers -/

/-- The words of the error that an odd list raises where a map is wanted. -/
def arityMessage : String := "Odd number of elements in hash assignment"

/-- The statement that raises the error of an odd list. -/
def arityThrow : String :=
  "throw new IllegalArgumentException(" ++ Text.quote arityMessage ++ ");"

/-- The names that the loop at a nesting depth declares. -/
structure LoopNames where
  /-- The argument of the lambda. -/
  arg : String
  /-- The source container. -/
  col : String
  /-- The result container. -/
  res : String
  /-- The index. -/
  idx : String
  /-- The entry of a map. -/
  ent : String
deriving Repr

/-- The names of a depth. -/
def loopNames (depth : Nat) : LoopNames :=
  let n := toString depth
  ⟨"pd_arg" ++ n, "pd_col" ++ n, "pd_res" ++ n, "pd_i" ++ n, "pd_e" ++ n⟩

/-- The length of a source container, in elements of a flat list. -/
def flatLength (s : Shape) (col : String) : String :=
  match s with
  | .array => col ++ ".length"
  | .list => col ++ ".size()"
  | .map => col ++ ".size() * 2"

/-- The element of a source sequence at an index. -/
def elementAt (s : Shape) (col i : String) : String :=
  if s = .array then col ++ "[" ++ i ++ "]" else col ++ ".get(" ++ i ++ ")"

/-- The loop over a source map. `conv` converts to the element type of the result. -/
def mapLoop (conv : Operand → Except Fault String) (n : LoopNames) (elem : Ty) (dest : Shape) :
    Except Fault String := do
  let key := Operand.nonNull (n.ent ++ ".getKey()") (some .string)
  let counter := if dest = .array then "int " ++ n.idx ++ " = 0; " else ""
  let v ← conv (.plain (n.ent ++ ".getValue()") (some elem))
  let body ← match dest with
    | .map => pure (n.res ++ ".put(" ++ key.code ++ ", " ++ v ++ "); ")
    | .array => do
      let k ← conv key
      pure (n.res ++ "[" ++ n.idx ++ "++] = " ++ k ++ "; " ++
        n.res ++ "[" ++ n.idx ++ "++] = " ++ v ++ "; ")
    | .list => do
      let k ← conv key
      pure (n.res ++ ".add(" ++ k ++ "); " ++ n.res ++ ".add(" ++ v ++ "); ")
  return counter ++ "for (java.util.Map.Entry<String, " ++ Java.declType elem ++ "> " ++ n.ent ++
    " : " ++ n.col ++ ".entrySet()) \x7b " ++ body ++ "\x7d "

/-- The loop over a source sequence. `conv` converts to the element type of the result. -/
def sequenceLoop (conv : Operand → Except Fault String) (n : LoopNames) (src : Shape) (elem : Ty)
    (dest : Shape) : Except Fault String := do
  let read (i : String) : Operand := .plain (elementAt src n.col i) (some elem)
  let length := flatLength src n.col
  let header (step : String) : String :=
    "for (int " ++ n.idx ++ " = 0; " ++ n.idx ++ " < " ++ length ++ "; " ++ n.idx ++ step ++
      ") \x7b "
  match dest with
  | .map =>
    let k := toText (read n.idx)
    let v ← conv (read (n.idx ++ " + 1"))
    return "if (" ++ length ++ " % 2 != 0) \x7b " ++ arityThrow ++ " \x7d " ++ header " += 2" ++
      n.res ++ ".put(" ++ k ++ ", " ++ v ++ "); \x7d "
  | .array =>
    let v ← conv (read n.idx)
    return header "++" ++ n.res ++ "[" ++ n.idx ++ "] = " ++ v ++ "; \x7d "
  | .list =>
    let v ← conv (read n.idx)
    return header "++" ++ n.res ++ ".add(" ++ v ++ "); \x7d "

/-- The conversion of a container element by element, as a lambda that the runtime applies. -/
def elementwise (conv : Operand → Except Fault String) (code : String) (depth : Nat)
    (s : Shape) (selem : Ty) (d : Shape) (delem : Ty) : Except Fault String := do
  let n := loopNames depth
  let src := Ty.agg s selem
  let dest := Ty.agg d delem
  let length := flatLength s n.col
  let capacity := if d = .map then Java.paren length ++ " / 2" else length
  let srcType := Java.declType src
  let start := srcType ++ " " ++ n.col ++ " = (" ++ srcType ++ ") " ++ n.arg ++ "; " ++
    Java.declType dest ++ " " ++ n.res ++ " = " ++ Java.newAggregate dest capacity ++ "; "
  let loop ← if s = .map then mapLoop conv n selem d else sequenceLoop conv n s selem d
  let lambda := "(Object " ++ n.arg ++ ") -> \x7b " ++ start ++ loop ++
    "return " ++ n.res ++ "; \x7d"
  return Java.castTo (some dest) (Java.call "Casting" "cast" [code, lambda])

/-- A container of numbers seen as the same container of numbers of unknown precision. -/
def numberView (s : Shape) (dest : Ty) (code : String) : String :=
  match s with
  | .list => Java.castTo (some dest) ("(" ++ Java.listClass ++ ") " ++ code)
  | .map => Java.castTo (some dest) ("(" ++ Java.mapClass ++ ") " ++ code)
  | .array => Java.castTo (some dest) code

/-- A container as a container of another type. -/
def aggregateTo (conv : Operand → Except Fault String) (code : String) (depth : Nat)
    (s : Shape) (selem : Ty) (d : Shape) (delem : Ty) : Except Fault String :=
  let src := Ty.agg s selem
  let dest := Ty.agg d delem
  if src = dest then .ok code
  else if s.isSequence && d.isSequence && s ≠ d && selem = delem then
    if d = .array then .ok (code ++ ".toArray(" ++ Java.newArray delem "0" ++ ")")
    else .ok ("new " ++ Java.declType dest ++ "(" ++ code ++ ")")
  else if s = d && src.terminal.isNumeric && src.withTerminal .number = dest then
    .ok (numberView d dest code)
  else elementwise conv code depth s selem d delem

/-- What an operand of a type refers to, through all references. -/
def followRefs : Ty → Operand → Operand
  | .ref e, o => followRefs e o.referent
  | _, o => o

/-! ## All types -/

/-- An operand that is one value as a value of a type. `depth` counts the loops around it. -/
def convertTo : Ty → Operand → Nat → Except Fault String
  | .scalar k, o, _ => toScalar o k
  | .object n, o, _ =>
    if o.type = some (.object n) then .ok o.code
    else .error (.incompatible o.type (some (.object n)))
  | .ref d, o, depth =>
    match o.type with
    | some (.ref e) =>
      if e = d then .ok o.cellCode
      else match convertTo d o.referent depth with
        | .ok inner => .ok (Java.newRef (.ref d) inner)
        | .error _ => .error (.incompatible o.type (some (.ref d)))
    | some (.scalar .box) =>
      .ok (Java.castTo (some (.ref d))
        (if o.notNull then o.code ++ ".refValue()" else helper "toRef" o.code))
    | t => .error (.incompatible t (some (.ref d)))
  | .agg s d, o, depth =>
    let dest := Ty.agg s d
    let src := match o.type with
      | some t => followRefs t o
      | none => o
    let result : Except Fault String :=
      match src.type with
      | some (.scalar .box) =>
        .ok (Java.castTo (some (.ref dest)) (helper "toRef" src.code) ++ ".get()")
      | some (.agg s' e) =>
        aggregateTo (fun x => convertTo d x (depth + 1)) src.code depth s' e s d
      | t => .error (.incompatible t (some dest))
    match result with
    | .ok code => .ok code
    | .error f => .error (if o.isRef then .incompatible o.type (some dest) else f)

/-- An operand as a value of a type that may be missing. A row of values counts as its one value,
unless a container is wanted; the undefined value is null, or false. -/
def convert (o : Operand) (dest : Option Ty) : Except Fault String :=
  let o := if o.multi && !dest.any Ty.isAggregate then o.reduce else o
  if o.undef then .ok (if dest.any Ty.isBoolean then "false" else "null")
  else match dest with
    | some t => convertTo t o 0
    | none => .error (.incompatible o.type none)

/-- What the undefined value becomes where null is not taken. -/
def zeroValue? (t : Option Ty) : Option String :=
  match t with
  | some (.scalar .integer) | some (.scalar .number) => some "0"
  | some (.scalar .long) => some "0L"
  | some (.scalar .float) => some "0f"
  | some (.scalar .double) => some "0d"
  | some (.scalar .string) => some "\"\""
  | some (.scalar .boolean) => some "false"
  | _ => none

/-- An operand as a value of a type where null is not taken. With `nullChecks` the runtime checks
numbers and texts that may be null. -/
def convertNonNull (nullChecks : Bool) (o : Operand) (dest : Option Ty) : Except Fault String :=
  match (if o.undef then zeroValue? dest else none) with
  | some z => .ok z
  | none => do
    let code ← convert o dest
    if nullChecks && !o.notNull && !o.constant &&
        (dest.any Ty.isNumeric || dest.any Ty.isString) then
      return Java.call "Pd" "checkNull" [code]
    else return code

end TypedPerl.Conversion
