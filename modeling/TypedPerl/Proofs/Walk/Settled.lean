import TypedPerl.Proofs.Tree.Parts
import TypedPerl.Proofs.Walk.Expr
import TypedPerl.Proofs.Walk.Paths

/-!
# What the walk over an expression settles

The walk goes through the parts of an expression in order and then finishes the expression
(`walkExpr_eq`). It leaves alone what was generated for other nodes, and their paths
(`walkExpr_local`). So when the walk over an expression has come to its end, every part of the
expression has what was generated for it from the outputs that its own parts still have: `Made`
says this of one expression that is finished (`made_of_finish`).
-/

namespace TypedPerl.Compile

variable {α : Type}

/-! ## The walk by parts -/

/-- Generates parts in order. -/
def walkParts : List (Expr × Usage) → Compile Unit
  | [] => return
  | p :: rest => do
    walkExpr p.1 p.2
    walkParts rest

theorem walkExprs_eq (es : List Expr) (usage : Nat → Usage) :
    walkExprs es usage = walkParts (es.mapIdx fun i x => (x, usage i)) := by
  induction es generalizing usage with
  | nil => rw [walkExprs, List.mapIdx_nil, walkParts]
  | cons e es ih => rw [walkExprs, List.mapIdx_cons, walkParts, ih]

theorem walkExprs_const (es : List Expr) (u : Usage) :
    walkExprs es (fun _ => u) = walkParts (es.map (·, u)) := by
  induction es with
  | nil => rw [walkExprs, List.map_nil, walkParts]
  | cons e es ih => rw [walkExprs, List.map_cons, walkParts, ih]

/-- An expression is finished after its parts. -/
theorem walkExpr_eq (e : Expr) (u : Usage) :
    walkExpr e u = walkParts (e.parts u) >>= fun _ => finishExpr e u := by
  cases e with
  | call i package name args => rw [walkExpr, walkExprs_eq, Expr.parts]
  | _ => simp only [walkExpr, Expr.parts, walkExprs_const, walkParts, bind_assoc, pure_bind]

/-! ## What the walk leaves alone -/

/-- The two states have the same output and the same path for a node. -/
structure State.SameAt (n : Nat) (st st' : State) : Prop where
  output : st'.outputs.get? n = st.outputs.get? n
  path : st'.paths.get? n = st.paths.get? n

theorem State.SameAt.trans {n : Nat} {st st₁ st₂ : State} (h₁ : st.SameAt n st₁)
    (h₂ : st₁.SameAt n st₂) : st.SameAt n st₂ :=
  ⟨h₂.output.trans h₁.output, h₂.path.trans h₁.path⟩

theorem State.SameAt.symm {n : Nat} {st st₁ : State} (h : st.SameAt n st₁) : st₁.SameAt n st :=
  ⟨h.output.symm, h.path.symm⟩

/-- Runs of the step change outputs and paths of `nodes` only. -/
def Local (nodes : List Nat) (x : Compile α) : Prop :=
  ∀ (env : Env) (st : State) (n : Nat), n ∉ nodes → st.SameAt n (x env st).2

theorem Local.seq {nodes more : List Nat} {x y : Compile Unit} (hx : Local nodes x)
    (hy : Local more y) : Local (nodes ++ more) (x >>= fun _ => y) := by
  intro env st n hn
  obtain ⟨hnodes, hmore⟩ := not_or.mp (mt List.mem_append.mpr hn)
  have hfirst := hx env st n hnodes
  rw [run_bind]
  generalize x env st = r at hfirst ⊢
  rcases r with ⟨f | a, st₁⟩
  · exact hfirst
  · exact hfirst.trans (hy env st₁ n hmore)

theorem Local.mono {nodes more : List Nat} {x : Compile α} (h : Local nodes x)
    (hsub : ∀ n ∈ nodes, n ∈ more) : Local more x :=
  fun env st n hn => h env st n fun hmem => hn (hsub n hmem)

theorem finishExpr_local (e : Expr) (u : Usage) : Local [e.id] (finishExpr e u) := by
  intro env st n hn
  refine ⟨((finishExpr_generates e u).keeps env st).only n hn, ?_⟩
  have hne : e.id ≠ n := fun h => hn (List.mem_singleton.mpr h.symm)
  have hgenerate (st : State) : ((located e.pos do
      let out ← exprOutput e u
      setOutput e.id out) env st).2.paths.get? n = st.paths.get? n := by
    -- the output is kept behind the path
    have hpaths : (exprOutput e u env st).2.paths.get? n = st.paths.get? n := by
      rw [exprOutput_paths]
      split
      · exact Keyed.get?_put_of_ne _ _ hne
      · rfl
    rw [run_located, run_bind]
    generalize exprOutput e u env st = r at hpaths ⊢
    rcases r with ⟨f | out, st₁⟩
    · exact hpaths
    · exact (congrArg (·.get? n) (setOutput_pathless e.id out env st₁)).trans hpaths
  have hresolve : (located e.pos (resolveExpr e) env st).2.paths.get? n = st.paths.get? n :=
    congrArg (·.get? n) (resolveExpr_pathless e env st)
  rw [finishExpr, run_bind]
  generalize located e.pos (resolveExpr e) env st = r at hresolve ⊢
  rcases r with ⟨f | _, st₁⟩
  · exact hresolve
  · exact (hgenerate st₁).trans hresolve

/-- The numbers of the nodes of some parts. -/
def partNodes (ps : List (Expr × Usage)) : List Nat :=
  ps.flatMap fun p => p.1.nodes

theorem walkParts_local {ps : List (Expr × Usage)}
    (h : ∀ p ∈ ps, Local p.1.nodes (walkExpr p.1 p.2)) : Local (partNodes ps) (walkParts ps) := by
  induction ps with
  | nil => exact fun env st n _ => ⟨rfl, rfl⟩
  | cons p rest ih =>
    have hrest := ih fun q hq => h q (List.mem_cons_of_mem p hq)
    exact (h p List.mem_cons_self).seq hrest

/-- The walk over an expression leaves the nodes outside of it alone. -/
theorem walkExpr_local (e : Expr) (u : Usage) : Local e.nodes (walkExpr e u) := by
  refine e.parts_induction (P := fun e u => Local e.nodes (walkExpr e u)) (fun e u ih => ?_) u
  rw [walkExpr_eq]
  refine ((walkParts_local ih).seq (finishExpr_local e u)).mono fun n hn => ?_
  rw [(e.nodes_parts u).mem_iff]
  rcases List.mem_append.mp hn with hn | hn
  · exact List.mem_cons_of_mem _ hn
  · exact List.mem_singleton.mp hn ▸ List.mem_cons_self

/-! ## Finished expressions -/

theorem run_bind_inv {β : Type} {x : Compile α} {k : α → Compile β} {env : Env} {st st' : State}
    {b : β} (h : (x >>= k) env st = (.ok b, st')) :
    ∃ a st₁, x env st = (.ok a, st₁) ∧ k a env st₁ = (.ok b, st') := by
  rw [run_bind] at h
  rcases hx : x env st with ⟨f | a, st₁⟩
  · rw [hx] at h
    cases h
  · rw [hx] at h
    exact ⟨a, st₁, rfl, h⟩

theorem run_lift_inv {x : Except Fault α} {env : Env} {st st' : State} {a : α}
    (h : (liftM x : Compile α) env st = (.ok a, st')) : x = .ok a ∧ st' = st := by
  cases x with
  | error f => cases h
  | ok b =>
    cases h
    exact ⟨rfl, rfl⟩

theorem run_located_inv {pos : Pos} {x : Compile α} {env : Env} {st st' : State} {a : α}
    (h : located pos x env st = (.ok a, st')) : x env st = (.ok a, st') := by
  rw [run_located] at h
  rcases hx : x env st with ⟨f | b, st₁⟩
  · rw [hx] at h
    cases h
  · rw [hx] at h
    cases h
    rfl

/-- A call that is resolved is one of a builtin function, or its subroutine is known. -/
def Resolved (st : State) (e : Expr) : Prop :=
  match e with
  | .call i package name _ => isBuiltin package name = true ∨ (st.subs.get? i.id).isSome = true
  | _ => True

theorem setSub_resolved {id : Nat} {s : Sub} {env : Env} {st st' : State}
    (h : setSub id s env st = (.ok (), st')) : (st'.subs.get? id).isSome = true := by
  cases h
  rw [Keyed.get?_put_self]
  rfl

theorem resolveCall_resolved {info : Info} {package name : String} {env : Env} {st st' : State}
    (h : resolveCall info package name env st = (.ok (), st')) :
    isBuiltin package name = true ∨ (st'.subs.get? info.id).isSome = true := by
  rw [resolveCall, run_get_bind] at h
  split at h
  · next hknown =>
    cases h
    rw [Bool.or_eq_true] at hknown
    exact hknown.symm
  · refine .inr ?_
    split at h
    · rcases hsub : st.table.lookupSub? "" name with _ | s
      · rw [hsub] at h
        cases h
      · rw [hsub] at h
        exact setSub_resolved h
    -- a subroutine of the package being written goes before one of a package that is read
    · rcases hown : (ownPackage? st package).bind fun p => p.sub? name with _ | s
      · rw [hown] at h
        obtain ⟨p, st₁, -, h⟩ := run_bind_inv h
        rcases hsub : p.sub? name with _ | s
        · rw [hsub] at h
          cases h
        · rw [hsub] at h
          exact setSub_resolved h
      · rw [hown] at h
        exact setSub_resolved h

theorem resolveExpr_resolved {e : Expr} {env : Env} {st st' : State}
    (h : resolveExpr e env st = (.ok (), st')) : Resolved st' e := by
  cases e with
  | call i package name args => exact resolveCall_resolved h
  | _ => trivial

/-- The expression has in `S` what is generated for it from the outputs that its parts have in
`S`. If it is an access, its path is the one from these outputs. -/
structure Made (env : Env) (S : State) (e : Expr) (u : Usage) : Prop where
  generated : ∃ st st', (∀ n ∈ partNodes (e.parts u), S.SameAt n st) ∧ Resolved st e ∧
    exprOutput e u env st = (.ok (S.output e.id), st')
  path : path? S e = accessOf? S e

/-! ## Outputs of parts -/

theorem State.SameAt.operandOf {S st : State} {x : Expr} (h : S.SameAt x.id st) :
    st.operandOf x = S.operandOf x := by
  unfold State.operandOf State.output
  rw [h.output]

theorem operands_congr {S st : State} {es : List Expr} (h : ∀ x ∈ es, S.SameAt x.id st) :
    st.operands es = S.operands es :=
  List.map_congr_left fun x hx => (h x hx).operandOf

theorem id_mem_nodes_of_mem {e x : Expr} (h : x ∈ e.preorder) : x.id ∈ e.nodes :=
  List.mem_map_of_mem h

theorem mem_preorder_of_part {e x y : Expr} {u v : Usage} (hy : (y, v) ∈ e.parts u)
    (hx : x ∈ y.preorder) : x ∈ e.preorder :=
  (Expr.mem_preorder_iff u).mpr (.inr ⟨(y, v), hy, hx⟩)

theorem id_mem_partNodes {ps : List (Expr × Usage)} {x y : Expr} {v : Usage} (hy : (y, v) ∈ ps)
    (hx : x ∈ y.preorder) : x.id ∈ partNodes ps :=
  List.mem_flatMap.mpr ⟨(y, v), hy, id_mem_nodes_of_mem hx⟩

theorem severalElements_eq {e : Expr} {es : List Expr} (h : severalElements? (some e) = some es) :
    (∃ i, e = .list i es) ∧ es.length ≠ 1 := by
  unfold severalElements? at h
  split at h
  · next i elems heq =>
    split at h
    · cases h
    · next hlength =>
      cases h
      cases heq
      exact ⟨⟨i, rfl⟩, hlength⟩
  · cases h

theorem mem_severalElements {e x : Expr} {es : List Expr}
    (h : severalElements? (some e) = some es) (hx : x ∈ es) : x ∈ e.preorder := by
  obtain ⟨⟨i, rfl⟩, -⟩ := severalElements_eq h
  exact mem_preorder_of_part (u := .list) (List.mem_map_of_mem hx) x.self_mem_preorder

theorem accessOf_congr {S st : State} {e : Expr} {u : Usage}
    (h : ∀ n ∈ partNodes (e.parts u), S.SameAt n st) : accessOf? st e = accessOf? S e := by
  cases e with
  | index i throughRef target key brace context =>
    have htarget : st.operandOf target = S.operandOf target :=
      (h _ (id_mem_partNodes List.mem_cons_self target.self_mem_preorder)).operandOf
    have hkey {x : Expr} (hx : x ∈ key.preorder) : S.SameAt x.id st :=
      h _ (id_mem_partNodes (List.mem_cons_of_mem _ List.mem_cons_self) hx)
    simp only [accessOf?, accessPath, htarget]
    -- a key is one operand or the operands of its elements
    cases hseveral : severalElements? (some key) with
    | none =>
      dsimp only
      rw [(hkey key.self_mem_preorder).operandOf]
    | some es =>
      dsimp only
      rw [operands_congr fun x hx => hkey (mem_severalElements hseveral hx)]
  | deref i target sigil =>
    have htarget : st.operandOf target = S.operandOf target :=
      (h _ (id_mem_partNodes List.mem_cons_self target.self_mem_preorder)).operandOf
    simp only [accessOf?, derefPath, htarget]
  | _ => rfl

/-! ## The walk settles its expression -/

/-- Finishing an expression gives it an output from those of its parts. Keeping the output changes
nothing else. -/
theorem finishExpr_inv {e : Expr} {u : Usage} {env : Env} {st st' : State}
    (h : finishExpr e u env st = (.ok (), st')) :
    ∃ st₁ st₂, resolveExpr e env st = (.ok (), st₁) ∧
      exprOutput e u env st₁ = (.ok (st'.output e.id), st₂) ∧
      st' = { st₂ with outputs := st'.outputs } := by
  obtain ⟨_, st₁, hresolve, h⟩ := run_bind_inv h
  obtain ⟨out, st₂, hout, hset⟩ := run_bind_inv (run_located_inv h)
  rw [run_setOutput] at hset
  split at hset
  · cases hset
  · cases hset
    refine ⟨st₁, st₂, run_located_inv hresolve, ?_, rfl⟩
    rw [hout]
    simp [State.output]

theorem resolveExpr_local (e : Expr) : Local [] (resolveExpr e) := by
  intro env st n hn
  have hsteady : Steady [] (resolveExpr e) := resolveExpr_steady e
  exact ⟨(hsteady.keeps env st).only n hn, congrArg (·.get? n) (resolveExpr_pathless e env st)⟩

/-- Where an access is generated its path is kept. -/
theorem path_of_exprOutput {e : Expr} {u : Usage} {env : Env} {st st' : State}
    {r : Except Fault Output} (h : exprOutput e u env st = (r, st')) :
    path? st' e = accessOf? st e := by
  have hpaths := exprOutput_paths e u env st
  rw [h] at hpaths
  cases e with
  | index i throughRef target key brace context =>
    exact (congrArg (·.get? i.id) hpaths).trans (Keyed.get?_put_self _ _ _)
  | deref i target sigil =>
    exact (congrArg (·.get? i.id) hpaths).trans (Keyed.get?_put_self _ _ _)
  | _ => rfl

theorem path_congr {st st' : State} {e : Expr} (h : st'.paths.get? e.id = st.paths.get? e.id) :
    path? st' e = path? st e := by
  unfold path?
  split
  · exact h
  · exact h
  · rfl

/-- A finished expression has in `S` what is generated for it from the outputs of its parts. -/
theorem finishExpr_output {e : Expr} {u : Usage} {env : Env} {st st' S : State}
    (h : finishExpr e u env st = (.ok (), st')) (hnew : e.id ∉ partNodes (e.parts u))
    (hS : ∀ n ∈ e.nodes, st'.SameAt n S) :
    ∃ st₁ st₂, resolveExpr e env st = (.ok (), st₁) ∧
      (∀ n ∈ partNodes (e.parts u), S.SameAt n st₁) ∧
      exprOutput e u env st₁ = (.ok (S.output e.id), st₂) ∧ path? S e = accessOf? S e := by
  obtain ⟨st₁, st₂, hresolve, hout, hkept⟩ := finishExpr_inv h
  have hpaths : st'.paths = st₂.paths := by rw [hkept]
  -- resolving and generating the expression leaves its parts alone
  have hparts : ∀ n ∈ partNodes (e.parts u), S.SameAt n st₁ := by
    intro n hn
    have hne : n ∉ [e.id] := fun hmem => hnew (List.mem_singleton.mp hmem ▸ hn)
    have hnode : n ∈ e.nodes := (e.nodes_parts u).mem_iff.mpr (List.mem_cons_of_mem _ hn)
    have hfinish := finishExpr_local e u env st n hne
    have hresolved := resolveExpr_local e env st n List.not_mem_nil
    rw [h] at hfinish
    rw [hresolve] at hresolved
    exact ((hS n hnode).symm.trans hfinish.symm).trans hresolved
  have hself := hS e.id (id_mem_nodes_of_mem e.self_mem_preorder)
  refine ⟨st₁, st₂, hresolve, hparts, ?_, ?_⟩
  · rw [State.output, hself.output]
    exact hout
  · rw [path_congr hself.path, ← accessOf_congr hparts, ← path_of_exprOutput hout]
    exact path_congr (congrArg (·.get? e.id) hpaths)

theorem made_of_finish {e : Expr} {u : Usage} {env : Env} {st st' S : State}
    (h : finishExpr e u env st = (.ok (), st')) (hnew : e.id ∉ partNodes (e.parts u))
    (hS : ∀ n ∈ e.nodes, st'.SameAt n S) : Made env S e u := by
  obtain ⟨st₁, st₂, hresolve, hparts, hout, hpath⟩ := finishExpr_output h hnew hS
  exact ⟨⟨st₁, st₂, hparts, resolveExpr_resolved hresolve, hout⟩, hpath⟩

end TypedPerl.Compile
