import TypedPerl.Proofs.Walk.Along

/-!
# Paths that are kept

The path of an access is kept by the number of its node, for the assignment or the function around
it. Only generating the access itself changes what is kept, and only for its own node: `Pathless`
says that a step changes no path, and each step of an expression but that of an access is one.
-/

namespace TypedPerl.Compile

variable {α : Type}

/-- No run of the step changes a path. -/
def Pathless (x : Compile α) : Prop :=
  ∀ env st, (x env st).2.paths = st.paths

/-- Paths are not looked at by what resolving and generating other expressions changes. -/
theorem blind_paths : Blind fun st st' => st'.paths = st.paths where
  refl _ := rfl
  trans h₁ h₂ := h₂.trans h₁
  access _ _ := rfl
  outputs _ _ := rfl
  bindings _ _ := rfl
  subs _ _ _ _ := rfl
  made _ _ := rfl
  effects _ _ := rfl
  fields _ _ := rfl

theorem setOutput_pathless (id : Nat) (out : Output) : Pathless (setOutput id out) :=
  setOutput_along blind_paths id out

theorem resolveExpr_pathless (e : Expr) : Pathless (resolveExpr e) :=
  resolveExpr_along blind_paths e

/-- An access keeps its own path, whatever comes of its code. -/
theorem pathOutput_paths (id : Nat) (p : Path) (u : Usage) (env : Env) (st : State) :
    (pathOutput id p u env st).2.paths = st.paths.put id p :=
  pathOutput_along blind_paths id p u env st

/-- The path that an expression is generated with, if it is an access. -/
def accessOf? (st : State) (e : Expr) : Option Path :=
  match e with
  | .index _ throughRef target key brace context =>
    some (accessPath st throughRef target key brace context)
  | .deref _ target sigil => some (derefPath st target sigil)
  | _ => none

/-- Behind an access its path is kept, and no other path has changed. -/
theorem exprOutput_paths (e : Expr) (u : Usage) (env : Env) (st : State) :
    (exprOutput e u env st).2.paths = match accessOf? st e with
      | some p => st.paths.put e.id p
      | none => st.paths := by
  cases e with
  | index i throughRef target key brace context =>
    rw [exprOutput_index]
    exact pathOutput_paths _ _ _ _ _
  | deref i target sigil =>
    rw [exprOutput_deref]
    exact pathOutput_paths _ _ _ _ _
  | _ => exact exprOutput_along blind_paths rfl u env st

end TypedPerl.Compile
