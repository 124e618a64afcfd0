import TypedPerl.Proofs.Walk.ClassTexts

/-!
# Where local variables are declared

A variable of a method that the source declares is declared in the text of one statement: before the
code of the statement if its value is used where it is declared, and else in place, where the code
stores to it or names it. `Stmt.placed` says which variables a statement declares in place. Those
of its variables whose value is not used and that it does not place are lost (`Stmt.lost`): no
statement declares them, and at most a store to them stands inside of an expression, written as a
declaration where none can be.
-/

namespace TypedPerl

open Compile (State)

namespace Stmt

end Stmt

namespace Compile

end Compile

end TypedPerl
