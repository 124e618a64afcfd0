import TypedPerl.Proofs.Scope.Taken
import TypedPerl.Proofs.Walk.Spelled

/-!
# Auxiliary variables are declared once

Auxiliary identifiers are drawn from the pool one by one. An auxiliary variable of an expression is
queued with the declarations of its statement. One that holds a list is declared in the code of the
assignment that draws it, and one that holds the elements of a list in the code of its loop
(`Outline.rows`). No two of these have the same identifier (`Outline.drawn_spent`).
-/

namespace TypedPerl

open Name (AliasPool)

/-! ## Drawn identifiers -/

theorem Table.drawn_append {t t₁ t₂ : Table} (h₁ : t.pool.count "" ≤ t₁.pool.count "")
    (h₂ : t₁.pool.count "" ≤ t₂.pool.count "") : t.drawn t₁ ++ t₁.drawn t₂ = t.drawn t₂ := by
  have hsplit : t.pool.count "" + 1 + (t₁.pool.count "" - t.pool.count "") =
      t₁.pool.count "" + 1 := by omega
  have hsum : t₁.pool.count "" - t.pool.count "" + (t₂.pool.count "" - t₁.pool.count "") =
      t₂.pool.count "" - t.pool.count "" := by omega
  rw [drawn, drawn, drawn, ← List.map_append, ← hsplit, List.range'_append_1, hsum]

theorem Table.drawn_auxiliary (t : Table) : t.drawn (t.auxiliary "").2 = [(t.auxiliary "").1] := by
  rw [drawn, count_auxiliary, Nat.add_sub_cancel_left]
  rfl

theorem subperm_drawn {t t' : Table} {names : List String}
    (h : Drawn (t.pool.count "") (t'.pool.count "") names) : names.Subperm (t.drawn t') := by
  obtain ⟨numbers, rfl, hordered, hrange⟩ := h
  refine List.subperm_of_subset ?_ fun a ha => ?_
  · refine List.Nodup.map (fun n m hnm => (Name.numbered_inj rfl rfl hnm).1) ?_
    exact hordered.imp fun hlt => Nat.ne_of_lt hlt
  · obtain ⟨n, hn, rfl⟩ := List.mem_map.mp ha
    exact Table.mem_drawn.mpr ⟨n, (hrange n hn).1, (hrange n hn).2, rfl⟩

namespace Compile

/-! ## Runs that draw identifiers -/

/-- The identifiers of auxiliary variables among queued declarations. -/
def auxiliaries (ds : List Declaration) : List String :=
  (ds.filter fun d => !d.isNamed).map (·.javaName)

theorem auxiliaries_append (ds es : List Declaration) :
    auxiliaries (ds ++ es) = auxiliaries ds ++ auxiliaries es := by
  rw [auxiliaries, List.filter_append, List.map_append]
  rfl

/-- Between the two states auxiliary identifiers are drawn, of which some are queued and `names` are
declared in code. -/
structure State.Spends (st st' : State) (names : List String) : Prop where
  count : st.table.pool.count "" ≤ st'.table.pool.count ""
  queue : ∃ ds, st'.pending.decls = st.pending.decls ++ ds ∧
    (auxiliaries ds ++ names).Subperm (st.table.drawn st'.table)

namespace State.Spends

variable {st st₁ st₂ : State} {names more : List String}

theorem of_queues {named : List Declaration} (h : State.Queues st st₁ named) :
    Spends st st₁ [] := by
  obtain ⟨ds, hds, -, hdrawn⟩ := h.queue
  refine ⟨h.count, ds, hds, ?_⟩
  rw [List.append_nil]
  exact subperm_drawn hdrawn

theorem append (h₁ : Spends st st₁ names) (h₂ : Spends st₁ st₂ more) :
    Spends st st₂ (names ++ more) := by
  obtain ⟨ds, hds, hdrawn⟩ := h₁.queue
  obtain ⟨es, hes, hmore⟩ := h₂.queue
  refine ⟨Nat.le_trans h₁.count h₂.count, ds ++ es, by rw [hes, hds, List.append_assoc], ?_⟩
  -- each part takes from what was drawn in it
  have hperm : (auxiliaries (ds ++ es) ++ (names ++ more)).Perm
      (auxiliaries ds ++ names ++ (auxiliaries es ++ more)) := by
    rw [auxiliaries_append, List.append_assoc, List.append_assoc]
    exact (List.perm_append_comm_assoc _ _ _).append_left _
  rw [← Table.drawn_append h₁.count h₂.count]
  exact hperm.subperm.trans (hdrawn.append hmore)

/-- What is queued and what is declared in code are drawn. -/
theorem drawn (h : Spends st st₁ names) :
    (auxiliaries (st.queuedSince st₁) ++ names).Subperm (st.table.drawn st₁.table) := by
  obtain ⟨ds, hds, hdrawn⟩ := h.queue
  rw [State.queuedSince, hds, Pending.size, List.drop_left]
  exact hdrawn

end State.Spends

/-- An assignment to several targets draws one identifier. -/
theorem assignItems_table {nullChecks : Bool} {st : State} {src : Operand} {targets : List Expr}
    {env : Env} {out : Output} {st' : State}
    (h : assignItems nullChecks st src targets env st = (.ok out, st')) :
    st' = st.setTable (st.table.auxiliary "").2 := by
  obtain ⟨row, st₁, hrow, h⟩ := run_bind_inv h
  obtain ⟨-, rfl⟩ := run_lift_inv hrow
  obtain ⟨aux, st₂, haux, h⟩ := run_bind_inv h
  cases haux
  obtain ⟨lines, st₃, hlines, h⟩ := run_bind_inv h
  obtain ⟨-, rfl⟩ := run_lift_inv hlines
  cases h
  rfl

/-- Finishing an expression draws the identifiers that it queues, and the one that it declares if it
is an assignment to several targets. -/
theorem finishExpr_spends {e : Expr} {u : Usage} {env : Env} {st st' : State}
    (h : finishExpr e u env st = (.ok (), st')) :
    State.Spends st st' ((rowAt st e u).map (·.2)) := by
  have hqueues := State.Spends.of_queues (finishExpr_queues h (State.Known.refl st'))
  unfold rowAt
  split
  · next i op j targets right =>
    split
    · next hrow =>
      simp only [Bool.and_eq_true, decide_eq_true_eq, Option.isNone_iff_eq_none] at hrow
      obtain ⟨⟨rfl, hvoid⟩, hseveral⟩ := hrow
      obtain ⟨st₁, st₂, hresolve, hout, hkept⟩ := finishExpr_inv h
      cases hresolve
      have hassign : assignList targets right u env st = (.ok (st'.output i.id), st₂) := hout
      rw [assignList_eq, run_read_bind, run_get_bind, hseveral] at hassign
      unfold assignSeveral at hassign
      rw [if_pos hvoid] at hassign
      -- the queue stays, and the one identifier is that of the list
      have htable := assignItems_table hassign
      have hst' : st'.table = (st.table.auxiliary "").2 := by rw [hkept, htable]; rfl
      have hpending : st'.pending = st.pending := by rw [hkept, htable]; rfl
      refine ⟨hqueues.count, [], by rw [hpending, List.append_nil], ?_⟩
      rw [hst', Table.drawn_auxiliary]
      exact .refl _
    · exact hqueues
  · exact hqueues

theorem finishAll_spends (ps : List (Expr × Usage)) {env : Env} :
    ∀ {st st' : State}, finishAll ps env st = (.ok (), st') →
      State.Spends st st' ((rows env ps st).map (·.2)) := by
  induction ps with
  | nil =>
    intro st st' h
    cases h
    exact .of_queues (.quiet (.refl st))
  | cons p rest ih =>
    intro st st' h
    obtain ⟨_, st₁, hfirst, hrest⟩ := run_bind_inv h
    rw [rows, hfirst, List.map_append]
    exact (finishExpr_spends hfirst).append (ih hrest)

/-- A step of a statement draws the identifiers that it queues, and those that the assignments in it
declare. -/
theorem Own.run_spends {o : Own} {env : Env} {st st' : State}
    (h : o.step.run env st = (.ok (), st')) :
    State.Spends st st' ((rows env (o.visits st) st).map (·.2)) := by
  cases o with
  | expr | exprs | value =>
    rw [Own.run_visits rfl] at h
    exact finishAll_spends _ h
  | loopVar | branch | package | use | pragma =>
    exact .of_queues (Own.run_queues h (State.Known.refl st'))

theorem foreachCode_pending (v : Variable) (list : Expr) (b : Block) (env : Env) (st : State) :
    (foreachCode v list b env st).2.pending = st.pending := by
  rw [foreachCode, run_get_bind, run_lift_bind]
  cases sequenceOf (st.operandOf list) with
  | error f => rfl
  | ok row =>
    dsimp only
    cases st.binding? v with
    | none => rfl
    | some b =>
      dsimp only
      split
      · rfl
      · -- the auxiliary variable of a loop is declared in its header
        rw [run_bind_ok (run_onTable _ _ _), run_lift_bind]
        split <;> rfl

theorem defineMethod_pending (id : Nat) (name : String) (b : Block) (env : Env) (st : State) :
    (defineMethod id name b env st).2.pending = st.pending := by
  rw [defineMethod, run_get_bind]
  rcases st.frames with _ | ⟨f, rest⟩
  · rfl
  · rcases st.subs.get? id with _ | s
    · rfl
    · rfl

/-- Generating the code of a statement queues nothing. -/
theorem stmtCode_pending (s : Stmt) (env : Env) (st : State) :
    (stmtCode s env st).2.pending = st.pending := by
  rw [stmtCode, run_read_bind, run_get_bind]
  cases s with
  | foreach i var implicit list b => exact foreachCode_pending _ list b env st
  | sub i name returns b =>
    dsimp only
    rw [run_bind]
    have hmethod := defineMethod_pending i.id name b env st
    generalize defineMethod i.id name b env st = r at hmethod ⊢
    obtain ⟨f | _, st'⟩ := r
    · exact hmethod
    · exact hmethod
  | _ => rfl

/-! ## Outlines -/

namespace Outline

/-- The auxiliary identifiers that are handed out for the statement itself. -/
def drawn (env : Env) : Outline → State → List String
  | finish s, st => st.table.drawn (finishStmt s env st).2.table
  | own o rest, st =>
    st.table.drawn (o.step.run env st).2.table ++ rest.drawn env (o.step.run env st).2
  | call inner rest, st =>
    rest.drawn env (recovering inner.toPlan.stmt.pos inner.toPlan.exec env st).2
  | inBlock rest, st => rest.drawn env (st.setTable (st.table.enter .block))
  | inSub info name returns rest, st => rest.drawn env (enterSub info name returns env st).2

/-- The auxiliary variables that the code of the statement declares, each with the node of the
assignment or loop that draws it. -/
def rows (env : Env) : Outline → State → List (Nat × String)
  | finish s, st => (st.table.drawn (finishStmt s env st).2.table).map (s.id, ·)
  | own o rest, st => Compile.rows env (o.visits st) st ++ rest.rows env (o.step.run env st).2
  | call inner rest, st =>
    rest.rows env (recovering inner.toPlan.stmt.pos inner.toPlan.exec env st).2
  | inBlock rest, st => rest.rows env (st.setTable (st.table.enter .block))
  | inSub info name returns rest, st => rest.rows env (enterSub info name returns env st).2

theorem drawn_numbered {env : Env} {a : String} (p : Outline) : ∀ {st : State},
    a ∈ p.drawn env st → ∃ n, a = AliasPool.numbered n "" := by
  have hstep {t t' : Table} (h : a ∈ t.drawn t') : ∃ n, a = AliasPool.numbered n "" := by
    obtain ⟨n, -, -, rfl⟩ := Table.mem_drawn.mp h
    exact ⟨n, rfl⟩
  induction p with
  | finish s => exact fun h => hstep h
  | own o rest ih => exact fun h => (List.mem_append.mp h).elim hstep ih
  | call inner rest _ ih => exact ih
  | inBlock rest ih => exact ih
  | inSub i name returns rest ih => exact ih

end Outline

/-- Finishing a statement changes the table as generating its code does. -/
theorem finishStmt_table (s : Stmt) (env : Env) (st : State) :
    (finishStmt s env st).2.table = (stmtCode s env st).2.table := by
  rw [run_finishStmt]
  rcases stmtCode s env st with ⟨f | code, st'⟩
  · rfl
  · have htable := st'.drain_named.1
    dsimp only
    split
    · exact htable
    · exact htable

/-- What a run queues without a name and what its code declares are auxiliary variables that it
draws, and no two of them are the same. -/
theorem Outline.drawn_spent (p : Outline) (env : Env) :
    ∀ {mark : Nat} {outer : List Nat} {st : State}, p.toPlan.Ready mark outer st →
      (p.toPlan.exec env st).1 = .ok () →
      (auxiliaries (p.toPlan.queued env st) ++ (p.rows env st).map (·.2)).Subperm
        (p.drawn env st) := by
  induction p with
  | finish s =>
    intro mark outer st _ _
    have hnone : (Plan.finish s).queued env st = [] :=
      State.queuedSince_same (stmtCode_pending s env st)
    rw [toPlan, hnone, rows, drawn, List.map_map]
    exact (List.map_id _).symm ▸ .refl _
  | own o rest ih =>
    intro mark outer st h hok
    obtain ⟨st₁, hrun, hexec⟩ := Plan.exec_step_inv hok
    have hready := h.behind_run hrun
    rw [toPlan, hexec] at hok
    rw [toPlan, Plan.queued, drawn, rows, hrun]
    dsimp only
    -- the auxiliaries of a step are drawn while it runs
    have hfirst := (Own.run_spends hrun).drawn
    have hall := hfirst.append (ih hready hok)
    refine List.Perm.subperm ?_ |>.trans hall
    rw [auxiliaries_append, List.map_append, List.append_assoc, List.append_assoc]
    exact (List.perm_append_comm_assoc _ _ _).append_left _
  | call inner rest _ ih =>
    intro mark outer st h hok
    rw [toPlan, Plan.exec_call] at hok
    -- a nested statement drains its own queue, so it adds nothing here
    exact ih (h.behind (h.calls env)) hok
  | inBlock rest ih =>
    intro mark outer st h hok
    rw [toPlan, Plan.exec_inBlock] at hok
    exact ih h.inBlock hok
  | inSub i name returns rest ih =>
    intro mark outer st h hok
    obtain ⟨st₁, henter, ho, -⟩ := Plan.enterSub_opened i name returns env st
    rw [toPlan, Plan.exec_inSub henter] at hok
    rw [toPlan, Plan.queued, drawn, rows, henter]
    dsimp only
    rw [State.queuedSince_same ho.pending, List.nil_append]
    exact ih (h.opened ho rfl) hok

end Compile

end TypedPerl
