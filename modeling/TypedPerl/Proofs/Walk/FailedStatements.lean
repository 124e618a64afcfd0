import TypedPerl.Proofs.Walk.Methods

/-!
# Statements whose generation fails

The generation of a statement fails where its code cannot be generated, or where it has been
generated before. The first kind leaves the marks, the queue and the methods as they were. The
second shows only when the queue has been drained, the mark taken off and the method of a definition
added, so that it leaves nothing as it was unless no statement is open and none is defined
(`failed_generation_iff`). Aborting the statement then takes off the mark of the statement around
it.
-/

namespace TypedPerl.Compile

/-! ## The code of a statement -/

/-- A loop over a list draws at most a name. -/
theorem foreachCode_state (v : Variable) (list : Expr) (b : Block) (env : Env) (st : State) :
    ∃ t, (foreachCode v list b env st).2 = st.setTable t := by
  rw [foreachCode, run_get_bind, run_lift_bind]
  cases sequenceOf (st.operandOf list) with
  | error f => exact ⟨st.table, rfl⟩
  | ok r =>
    obtain ⟨code, t⟩ := r
    dsimp only
    cases st.binding? v with
    | none => exact ⟨st.table, rfl⟩
    | some loop =>
      dsimp only
      split
      · exact ⟨st.table, rfl⟩
      -- drawing the auxiliary name is the only change, and it is to the table
      · rw [run_bind_ok (run_onTable _ _ _), run_lift_bind]
        cases Conversion.convert (.ofElement (st.table.auxiliary "").1 (t.map Ty.elem))
            (some loop.type) with
        | error f => exact ⟨_, rfl⟩
        | ok value => exact ⟨_, rfl⟩

/-- A definition adds its method, or fails and adds nothing. -/
theorem defineMethod_run (i : Info) (name : String) (returns : Option Ty) (b : Block) (env : Env)
    (st : State) :
    defineMethod i.id name b env st = match st.methodOf? (.sub i name returns b) with
      | some m => (.ok (), { st with methods := st.methods ++ [m] })
      | none => (.error (.unsupported ("subroutine " ++ name ++ " outside its scope")), st) := by
  rw [defineMethod, run_get_bind, State.methodOf?]
  rcases st.frames with _ | ⟨f, rest⟩
  · rfl
  · cases st.subs.get? i.id with
    | none => rfl
    | some s => rfl

/-- Between the two states the methods `ms` are added, and what statements queue and leave stays. -/
structure State.Codes (ms : List Method) (st st' : State) : Prop where
  marks : st'.marks = st.marks
  pending : st'.pending = st.pending
  outputs : st'.outputs = st.outputs
  methods : st'.methods = st.methods ++ ms

theorem State.Codes.setTable (st : State) (t : Table) : State.Codes [] st (st.setTable t) :=
  ⟨rfl, rfl, rfl, (List.append_nil _).symm⟩

/-- Generating the code of a statement adds the method of a definition. -/
theorem stmtCode_codes (s : Stmt) (env : Env) (st : State) :
    State.Codes (st.methodOf? s).toList st (stmtCode s env st).2 := by
  rw [stmtCode, run_read_bind, run_get_bind]
  -- only a subroutine adds a method, and only a loop over a row draws a name
  cases s with
  | sub i name returns b =>
    dsimp only
    rw [run_bind, defineMethod_run i name returns]
    cases st.methodOf? (.sub i name returns b) with
    | none => exact .setTable st st.table
    | some m => exact ⟨rfl, rfl, rfl, rfl⟩
  | foreach i var implicit list b =>
    obtain ⟨t, ht⟩ := foreachCode_state (var.getD (Stmt.implicitVar i implicit)) list b env st
    dsimp only
    rw [ht]
    exact .setTable st t
  | expr i e => exact .setTable st st.table
  | _ => exact .setTable st st.table

/-- A statement whose code cannot be generated defines no method. -/
theorem methodOf?_of_error {s : Stmt} {env : Env} {st : State} {f : Fault}
    (h : (stmtCode s env st).1 = .error f) : st.methodOf? s = none := by
  cases s with
  | sub i name returns b =>
    rw [stmtCode, run_read_bind, run_get_bind] at h
    dsimp only at h
    rw [run_bind, defineMethod_run i name returns] at h
    cases hm : st.methodOf? (.sub i name returns b) with
    | none => rfl
    | some m =>
      rw [hm] at h
      cases h
  | _ => rfl

/-! ## Failures -/

/-- The code of the statement cannot be generated in the state. -/
def Uncoded (s : Stmt) (env : Env) (st : State) : Prop :=
  ∃ f, (stmtCode s env st).1 = .error f

/-- The open statements, the queue and the methods are the same in both states. -/
structure State.Untouched (st st' : State) : Prop where
  marks : st'.marks = st.marks
  pending : st'.pending = st.pending
  methods : st'.methods = st.methods

/-- A statement that is aborted in one of the states leaves the same statements open, and the same
declarations queued for them, as in the other. -/
structure State.AbortsAlike (st st' : State) : Prop where
  marks : st'.abort.marks = st.abort.marks
  pending : st'.abort.pending = st.abort.pending

theorem State.drain_isGenerated (st : State) (n : Nat) :
    st.drain.2.isGenerated n = st.isGenerated n := by
  unfold State.drain
  split <;> rfl

/-- A failure leaves all as it was, or it comes when the method is added and the queue drained. -/
theorem finishStmt_error {s : Stmt} {env : Env} {st st' : State} {f : Fault}
    (h : finishStmt s env st = (.error f, st')) :
    Uncoded s env st ∧ st.Untouched st' ∨
      ¬Uncoded s env st ∧ st.isGenerated s.id = true ∧
        ∃ coded, State.Codes (st.methodOf? s).toList st coded ∧ st' = coded.drain.2 := by
  have hcodes := stmtCode_codes s env st
  rw [run_finishStmt] at h
  rcases hrun : stmtCode s env st with ⟨g | code, coded⟩
  -- no code: what is pending has not been drained
  · have herror : (stmtCode s env st).1 = .error g := congrArg Prod.fst hrun
    rw [methodOf?_of_error herror, hrun] at hcodes
    rw [hrun] at h
    cases h
    exact .inl ⟨⟨g, herror⟩, hcodes.marks, hcodes.pending,
      hcodes.methods.trans (List.append_nil _)⟩
  -- with code the one reason left is that the statement had been generated before
  · rw [hrun] at hcodes h
    dsimp only at hcodes h
    split at h
    · next hgenerated =>
      cases h
      have hbefore : st.isGenerated s.id = true := by
        rw [State.drain_isGenerated, State.isGenerated, hcodes.outputs] at hgenerated
        exact hgenerated
      refine .inr ⟨?_, hbefore, coded, hcodes, rfl⟩
      rintro ⟨g, herror⟩
      rw [hrun] at herror
      cases herror
    · cases h

theorem State.abort_of_marks {st : State} {mark : Nat} {outer : List Nat}
    (h : st.marks = mark :: outer) :
    st.abort = { st with pending := st.pending.truncate mark, marks := outer } := by
  unfold State.abort
  rw [h]

theorem State.abort_of_nil {st : State} (h : st.marks = []) : st.abort = st := by
  unfold State.abort
  rw [h]

theorem State.AbortsAlike.of_same {st st' : State} (hmarks : st'.marks = st.marks)
    (hpending : st'.pending = st.pending) : st.AbortsAlike st' := by
  rcases h : st.marks with _ | ⟨mark, outer⟩
  · rw [h] at hmarks
    constructor <;> rw [State.abort_of_nil h, State.abort_of_nil hmarks]
    · rw [hmarks, h]
    · exact hpending
  · rw [h] at hmarks
    constructor <;> rw [State.abort_of_marks h, State.abort_of_marks hmarks]
    exact congrArg (Pending.truncate · mark) hpending

namespace State.Codes

variable {st coded : State} {ms : List Method} (h : State.Codes ms st coded)

include h

theorem drain_eq {mark : Nat} {outer : List Nat} (hmarks : st.marks = mark :: outer) :
    coded.drain.2 = { coded with pending := st.pending.truncate mark, marks := outer } := by
  rw [State.drain_of_marks (h.marks.trans hmarks), h.pending]

theorem drain_of_nil (hmarks : st.marks = []) : coded.drain.2 = coded := by
  unfold State.drain
  rw [h.marks, hmarks]

/-- Draining takes off a mark, unless none is there. -/
theorem untouched_drain_iff : st.Untouched coded.drain.2 ↔ st.marks = [] ∧ ms = [] := by
  rcases hmarks : st.marks with _ | ⟨mark, outer⟩
  · rw [h.drain_of_nil hmarks]
    refine ⟨fun hsame => ⟨rfl, ?_⟩, fun ⟨_, hms⟩ => ?_⟩
    · exact List.self_eq_append_right.mp (hsame.methods.symm.trans h.methods)
    · exact ⟨h.marks, h.pending, by rw [h.methods, hms, List.append_nil]⟩
  · refine iff_of_false (fun hsame => ?_) fun hnil => List.cons_ne_nil _ _ hnil.1
    have hlost := hsame.marks
    rw [h.drain_eq hmarks, hmarks] at hlost
    exact List.cons_ne_self _ _ hlost.symm

/-- Aborting after the queue was drained takes off one mark more, if there is one. -/
theorem abortsAlike_drain_iff : st.AbortsAlike coded.drain.2 ↔ st.marks.length ≤ 1 := by
  rcases hmarks : st.marks with _ | ⟨mark, _ | ⟨around, outer⟩⟩
  · rw [h.drain_of_nil hmarks]
    exact iff_of_true (.of_same h.marks h.pending) (Nat.zero_le 1)
  · refine iff_of_true ?_ (Nat.le_refl 1)
    rw [h.drain_eq hmarks]
    constructor <;> rw [State.abort_of_marks hmarks, State.abort_of_nil rfl]
  · refine iff_of_false (fun halike => ?_) (by simp)
    have hlost := halike.marks
    rw [h.drain_eq hmarks, State.abort_of_marks hmarks, State.abort_of_marks rfl] at hlost
    exact List.cons_ne_self _ _ hlost.symm

end State.Codes

/-- A statement that fails leaves the marks, the queue and the methods as they were exactly if its
code cannot be generated, or else no statement is open and it defines no method; aborting it
discards what is its own exactly if its code cannot be generated, or else no statement is open
around it. A statement that was not generated before fails only where its code cannot be generated,
so that all this holds of it. -/
theorem failed_generation_iff {s : Stmt} {env : Env} {st st' : State} {f : Fault}
    (h : finishStmt s env st = (.error f, st')) :
    (st.Untouched st' ↔ Uncoded s env st ∨ st.marks = [] ∧ st.methodOf? s = none) ∧
      (st.AbortsAlike st' ↔ Uncoded s env st ∨ st.marks.length ≤ 1) ∧
      (st.isGenerated s.id = false → Uncoded s env st) := by
  rcases finishStmt_error h with ⟨huncoded, hsame⟩ | ⟨hcoded, hgenerated, coded, hcodes, rfl⟩
  · have halike : st.AbortsAlike st' := .of_same hsame.marks hsame.pending
    exact ⟨iff_of_true hsame (.inl huncoded), iff_of_true halike (.inl huncoded),
      fun _ => huncoded⟩
  · rw [hcodes.untouched_drain_iff, hcodes.abortsAlike_drain_iff, Option.toList_eq_nil_iff,
      or_iff_right hcoded, or_iff_right hcoded]
    refine ⟨Iff.rfl, Iff.rfl, fun hfresh => ?_⟩
    rw [hgenerated] at hfresh
    cases hfresh

/-- A jump that the target language does not have, in a block that has queued a declaration. -/
def strayJump : Stmt := .jump ⟨2, .unknown⟩ "redo"

/-- The state in which the jump is put together. -/
def aroundJump : State :=
  { (default : State) with
    pending := ⟨[⟨some .integer, "x", ""⟩]⟩
    marks := [1, 0] }

theorem strayJump_untouched :
    ∃ f st', finishStmt strayJump {} aroundJump = (.error f, st') ∧ aroundJump.Untouched st' ∧
      aroundJump.AbortsAlike st' := by
  have hrun : finishStmt strayJump {} aroundJump =
      (.error ((Fault.unsupported "loop control redo").diagnose .unknown), aroundJump) := rfl
  obtain ⟨hsame, habort, hfresh⟩ := failed_generation_iff hrun
  have huncoded := hfresh rfl
  exact ⟨_, _, hrun, hsame.mpr (.inl huncoded), habort.mpr (.inl huncoded)⟩

/-- A definition of a subroutine. -/
def smallDefinition : Stmt :=
  .sub ⟨2, .unknown⟩ "f" (some .integer) (.mk ⟨3, .unknown⟩ [])

/-- The state in which the definition is put together once more, in a block that has queued a
declaration. -/
def betweenPasses : State :=
  { (default : State) with
    pending := ⟨[⟨some .integer, "x", ""⟩]⟩
    outputs := [(2, {}), (3, { code := "\x7b\n\x7d" })]
    subs := [(2, { name := "f", javaName := "f", returns := .integer })]
    marks := [1, 0]
    frames := [⟨{ name := "f", javaName := "f", returns := .integer }, "args"⟩] }

/-- The definition fails, but its method is kept and its mark is gone, so that aborting it discards
what the block around it has queued. -/
theorem definition_again_touches :
    ∃ f st', finishStmt smallDefinition {} betweenPasses = (.error f, st') ∧
      st'.marks = [0] ∧ st'.methods.length = 1 ∧ st'.abort.marks = [] ∧ st'.abort.pending = {} ∧
      ¬betweenPasses.Untouched st' ∧ ¬betweenPasses.AbortsAlike st' := by
  refine ⟨_, _, rfl, rfl, rfl, rfl, rfl, fun hsame => ?_, fun halike => ?_⟩
  · cases hsame.marks
  · cases halike.marks

end TypedPerl.Compile
