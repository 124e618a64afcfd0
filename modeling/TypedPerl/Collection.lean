import TypedPerl.Conversion

/-!
# Building containers

A list of elements becomes one container. Elements that are one value are grouped into literal
arrays, or into keys and values for a map; elements that are containers themselves are spliced in
where they stand; several pieces are joined by the runtime, in order.
-/

namespace TypedPerl.Collection

open Conversion (convert)

/-- A piece of the container: code of a container type. -/
structure Chunk where
  /-- The code. -/
  code : String
  /-- Its type. -/
  type : Ty
deriving DecidableEq, Repr, Inhabited

/-! ## Pieces -/

/-- Values in a row as a literal array. -/
def sequenceRun (run : List Operand) (elem : Ty) : Except Fault Chunk := do
  let items ← run.mapM fun o => convert o (some elem)
  return ⟨Java.arrayInitializer elem items, .arrayOf elem⟩

/-- Values in a row taken in pairs. The last of an odd row has no partner. -/
def pairs : List Operand → List (Operand × Operand)
  | k :: v :: rest => (k, v) :: pairs rest
  | _ => []

/-- Code of a map type that raises the error of an odd list when it runs. -/
def arityRaise (t : Ty) : String :=
  "((java.util.function.Supplier<" ++ Java.declType t ++ ">) () -> \x7b " ++
    Conversion.arityThrow ++ " \x7d).get()"

/-- Values in a row as a map of keys and values. An odd row raises an error when it runs. -/
def mapRun (run : List Operand) (elem : Ty) : Except Fault Chunk := do
  let t := Ty.mapOf elem
  if run.length % 2 ≠ 0 then return ⟨arityRaise t, t⟩
  let entries ← (pairs run).mapM fun p => do
    let k ← convert p.1 (some .string)
    let v ← convert p.2 (some elem)
    pure (k, v)
  return ⟨"new " ++ Java.declType t ++ "(" ++
    Java.arrayInitializer .string (entries.map (·.1)) ++ ", " ++
    Java.arrayInitializer elem (entries.map (·.2)) ++ ")", t⟩

/-- Values in a row as a piece of a container of the shape; no piece for an empty row. -/
def runChunk (s : Shape) (elem : Ty) (run : List Operand) : Except Fault (List Chunk) :=
  if run.isEmpty then .ok []
  else do
    let c ← if s = .map then mapRun run elem else sequenceRun run elem
    return [c]

/-- A container spliced in. A sequence of the wanted elements, or a map of the wanted type, stays
as it is; anything else is converted as a whole. -/
def splice (o : Operand) (t : Ty) (s : Shape) (elem : Ty) : Except Fault Chunk :=
  let dest := Ty.agg s elem
  let fits := if s = .map then t = dest else t.isSequence && t.elem = elem
  if fits then .ok ⟨o.code, t⟩
  else do
    let code ← convert o (some dest)
    return ⟨code, dest⟩

/-- The pieces of a list of elements, in order. `run` holds the values since the last container. -/
def chunks (s : Shape) (elem : Ty) (run : List Operand) :
    List Operand → Except Fault (List Chunk)
  | [] => runChunk s elem run
  | o :: rest =>
    match o.type with
    | some (.agg s' e') => do
      let before ← runChunk s elem run
      let c ← splice o (.agg s' e') s elem
      let after ← chunks s elem [] rest
      return before ++ c :: after
    | _ => chunks s elem (run ++ [o]) rest

/-! ## Containers -/

/-- How the runtime turns joined pieces into a container. -/
def unionEnd (s : Shape) (elem : Ty) : String :=
  match s with
  | .array => ".toArray(" ++ Java.classLiteral (.agg s elem) ++ ")"
  | .list => ".toList()"
  | .map => ".toMap()"

/-- Pieces as one container. -/
def joinChunks (s : Shape) (elem : Ty) (cs : List Chunk) : Except Fault String :=
  match cs with
  | [c] => convert (.nonNull c.code (some c.type)) (some (.agg s elem))
  | cs => .ok (Java.call "Pd" "union" [] ++
      String.join (cs.map fun c => ".append(" ++ c.code ++ ")") ++ unionEnd s elem)

/-- A list of elements as a container, piece by piece. -/
def buildFrom (elems : List Operand) (s : Shape) (elem : Ty) : Except Fault String := do
  let cs ← chunks s elem [] elems
  joinChunks s elem cs

/-- A list of elements as one container. A map from a list that splices a sequence is built from
the flat list, since a key and its value may lie on different sides of the splice. -/
def build (elems : List Operand) (dest : Option Ty) : Except Fault String :=
  match dest with
  | some (.agg s elem) =>
    if elems.isEmpty then .ok (Java.emptyOf (.agg s elem))
    else if s = .map && 1 < elems.length && elems.any Operand.isSequence then do
      let code ← buildFrom elems .list .box
      convert (.nonNull code (some (.listOf .box))) dest
    else buildFrom elems s elem
  | d => .error (.incompatible (some (.arrayOf .box)) d)

end TypedPerl.Collection
