import TypedPerl.Java.Ty

/-!
# Pending declarations

Generated variables that have to be declared before the statement that uses them. An expression
queues them; its statement remembers where the queue stood before and drains from there.
-/

namespace TypedPerl

/-- A generated variable. -/
structure Declaration where
  /-- The type of the variable. -/
  type : Option Ty
  /-- Its identifier. -/
  javaName : String
  /-- Its first value; null when empty. -/
  init : String := ""
deriving DecidableEq, Repr, Inhabited

/-- The declaration as a statement. -/
def Declaration.render (d : Declaration) : String :=
  Java.declType? d.type ++ " " ++ d.javaName ++ " = " ++
    (if d.init = "" then "null" else d.init) ++ ";"

/-- The queue of declarations, in order. -/
structure Pending where
  /-- The declarations. -/
  decls : List Declaration := []
deriving DecidableEq, Repr, Inhabited

namespace Pending

/-- Queues a declaration. -/
def add (q : Pending) (d : Declaration) : Pending :=
  ⟨q.decls ++ [d]⟩

/-- The number of declarations, which is where the queue stands. -/
def size (q : Pending) : Nat :=
  q.decls.length

/-- Takes out the declarations queued since a mark. -/
def drain (q : Pending) (mark : Nat) : List Declaration × Pending :=
  (q.decls.drop mark, ⟨q.decls.take mark⟩)

/-- Discards the declarations queued since a mark. -/
def truncate (q : Pending) (mark : Nat) : Pending :=
  ⟨q.decls.take mark⟩

end Pending

end TypedPerl
