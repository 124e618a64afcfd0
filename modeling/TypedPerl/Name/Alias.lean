import TypedPerl.Name.Reserved
import TypedPerl.Keyed

/-!
# Aliases

An alias is the identifier under which something of the source stands in the generated class. A
pool hands aliases out: a name that is free stands for itself, any other gets a numbered name that
the pool never hands out again.
-/

namespace TypedPerl.Name

/-- How many numbered names have been handed out for each name. -/
structure AliasPool where
  /-- The last number of each name. -/
  counters : Keyed String Nat := []
deriving Repr, Inhabited

namespace AliasPool

/-- The last number handed out for a name. -/
def count (p : AliasPool) (id : String) : Nat :=
  (p.counters.get? id).getD 0

/-- A numbered name. -/
def numbered (n : Nat) (id : String) : String :=
  generatedStart ++ toString n ++ id

/-- The next numbered name of `id`. -/
def fresh (p : AliasPool) (id : String) : String × AliasPool :=
  let n := p.count id + 1
  (numbered n id, ⟨p.counters.put id n⟩)

/-- The alias of a name: the name itself when it is free, else a numbered name. -/
def aliasFor (p : AliasPool) (id : String) (conflict : Bool) : String × AliasPool :=
  if !conflict && !isReserved id then (id, p) else p.fresh id

end AliasPool

end TypedPerl.Name
