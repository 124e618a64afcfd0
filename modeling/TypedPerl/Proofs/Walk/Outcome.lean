import TypedPerl.Proofs.Walk.Plan

/-!
# The outcome of a plan

A plan is `Ready` in a state when its nodes are all different and none of them is generated, and
the innermost mark is that of its statement. Its run then has an `Outcome`: subroutines and scopes
are as they were, and so is the queue up to the mark. A run that succeeds has drained the queue to
the mark, taken off the mark and generated the statement; one that fails has left the mark, and the
statement is not generated.

A statement that is called takes care of the rest: whatever the outcome of its plan, the call is
`Balanced`, that is, everything that is opened for statements is as it was before.
-/

namespace TypedPerl

/-! ## The queue up to a mark -/

namespace Pending

theorem truncate_size (q : Pending) : q.truncate q.size = q := by
  simp [truncate, size]

/-- The queue up to a mark stays when declarations are queued. -/
theorem truncate_of_prefix {q q' : Pending} {m : Nat} (hm : m ≤ q.size)
    (h : q.decls <+: q'.decls) : q'.truncate m = q.truncate m := by
  obtain ⟨more, hmore⟩ := h
  unfold truncate
  rw [← hmore, List.take_append_of_le_length hm]

theorem size_truncate (q : Pending) (m : Nat) : (q.truncate m).size = min m q.size := by
  simp [truncate, size]

theorem truncate_truncate (q : Pending) (m : Nat) : (q.truncate m).truncate m = q.truncate m := by
  simp [truncate, List.take_take]

/-- A queue that ends at a mark is the queue up to the mark. -/
theorem truncate_of_size_le {q : Pending} {m : Nat} (h : q.size ≤ m) : q.truncate m = q := by
  unfold truncate
  rw [List.take_of_length_le h]

/-- A mark stays in the queue as long as the queue up to it stays. -/
theorem le_size_of_truncate_eq {q q' : Pending} {m : Nat} (hm : m ≤ q.size)
    (h : q'.truncate m = q.truncate m) : m ≤ q'.size := by
  have hsize := congrArg size h
  rw [size_truncate, size_truncate] at hsize
  omega

end Pending

theorem Table.depth_exit {τ : Type} (t : Table τ) : t.exit.depth = t.depth - 1 := by
  simp [Table.exit, Table.depth]

/-- A table that is at a depth already is restored to it as it is. -/
theorem Table.restore_depth {τ : Type} {t : Table τ} {depth : Nat} (h : t.depth = depth) :
    t.restore depth = t := by
  have hdrop : t.inner.drop (t.inner.length - (depth : Int).toNat) = t.inner := by
    rw [← h]
    simp [Table.depth]
  unfold Table.restore
  rw [hdrop]

namespace Compile

open State (Adds Extends)
open Fault (Walkable)

/-! ## What stays during a statement -/

namespace State

/-- The state with other names: a table, and the subroutines that nodes mean. -/
def setNames (st : State) (t : Table) (subs : Keyed Nat Sub) : State :=
  { st.setTable t with subs := subs }

/-- Draining takes off the innermost mark and what stands behind it. -/
theorem drain_of_marks {st : State} {mark : Nat} {outer : List Nat}
    (h : st.marks = mark :: outer) :
    st.drain = (st.pending.decls.drop mark,
      { st with pending := st.pending.truncate mark, marks := outer }) := by
  unfold drain
  rw [h]
  rfl

/-- What is opened for statements is the same in two states. -/
structure Balanced (st st' : State) : Prop where
  marks : st'.marks = st.marks
  pending : st'.pending = st.pending
  frames : st'.frames = st.frames
  walking : st'.walking = st.walking
  depth : st'.table.depth = st.table.depth

theorem Balanced.trans {st st₁ st₂ : State} (h₁ : Balanced st st₁) (h₂ : Balanced st₁ st₂) :
    Balanced st st₂ where
  marks := h₂.marks.trans h₁.marks
  pending := h₂.pending.trans h₁.pending
  frames := h₂.frames.trans h₁.frames
  walking := h₂.walking.trans h₁.walking
  depth := h₂.depth.trans h₁.depth

/-- Only `nodes` may have been generated between two states; the subroutines and the number of
scopes are the same, and so is the queue up to a mark. -/
structure Within (nodes : List Nat) (mark : Nat) (st st' : State) : Prop
    extends Adds nodes st st' where
  frames : st'.frames = st.frames
  walking : st'.walking = st.walking
  depth : st'.table.depth = st.table.depth
  pending : st'.pending.truncate mark = st.pending.truncate mark

namespace Within

variable {nodes more : List Nat} {mark : Nat} {st st₁ st₂ : State}

/-- What a steady step does is within the statement that takes the step. -/
theorem of_extends (h : Extends nodes st st₁) (hm : mark ≤ st.pending.size) :
    Within nodes mark st st₁ where
  toAdds := h.toAdds
  frames := h.frames
  walking := h.walking
  depth := h.depth
  pending := Pending.truncate_of_prefix hm h.pending

/-- A balanced call is within the statement that makes the call. -/
theorem of_balanced (h : Balanced st st₁) (hadds : Adds nodes st st₁) :
    Within nodes mark st st₁ where
  toAdds := hadds
  frames := h.frames
  walking := h.walking
  depth := h.depth
  pending := congrArg (·.truncate mark) h.pending

theorem append (h₁ : Within nodes mark st st₁) (h₂ : Within more mark st₁ st₂) :
    Within (nodes ++ more) mark st st₂ where
  toAdds := h₁.toAdds.append h₂.toAdds
  frames := h₂.frames.trans h₁.frames
  walking := h₂.walking.trans h₁.walking
  depth := h₂.depth.trans h₁.depth
  pending := h₂.pending.trans h₁.pending

theorem mono (h : Within nodes mark st st₁) (hsub : ∀ n ∈ nodes, n ∈ more) :
    Within more mark st st₁ :=
  { h with toAdds := h.toAdds.mono hsub }

end Within

end State

open State (Within Balanced)

/-! ## Plans that are ready -/

namespace Plan

/-- The plan can run: its nodes are different from one another and not generated yet, and `mark` is
the innermost mark, in front of the marks `outer`. -/
structure Ready (p : Plan) (mark : Nat) (outer : List Nat) (st : State) : Prop where
  distinct : p.nodes.Nodup
  fresh : ∀ n ∈ p.nodes, st.isGenerated n = false
  marks : st.marks = mark :: outer
  bounded : mark ≤ st.pending.size

/-- What comes of a run of the plan from `st`. -/
structure Outcome (p : Plan) (mark : Nat) (outer : List Nat) (st : State)
    (r : Except Fault Unit × State) : Prop where
  within : Within p.nodes mark st r.2
  raises : Raises Walkable r.1
  done : r.1 = .ok () →
    r.2.marks = outer ∧ r.2.pending.size ≤ mark ∧ r.2.isGenerated p.stmt.id = true
  failed : ∀ f, r.1 = .error f → r.2.marks = mark :: outer ∧ r.2.isGenerated p.stmt.id = false

variable {p rest inner : Plan} {mark : Nat} {outer nodes : List Nat} {st st₁ : State}

/-- What remains of a plan is ready when the nodes generated so far are others. -/
theorem Ready.after (h : p.Ready mark outer st) (hnodes : p.nodes = nodes ++ rest.nodes)
    (hw : Within nodes mark st st₁) (hmarks : st₁.marks = st.marks) :
    rest.Ready mark outer st₁ := by
  have hdistinct := h.distinct
  rw [hnodes, List.nodup_append] at hdistinct
  obtain ⟨-, hrest, hapart⟩ := hdistinct
  refine ⟨hrest, fun n hn => ?_, hmarks.trans h.marks,
    Pending.le_size_of_truncate_eq h.bounded hw.pending⟩
  -- the nodes that were generated since are not among those that are left
  have hother : n ∉ nodes := fun hmem => hapart n hmem n hn rfl
  have hmem : n ∈ p.nodes := by
    rw [hnodes]
    exact List.mem_append_right _ hn
  rw [hw.toAdds.isGenerated_eq hother]
  exact h.fresh n hmem

/-- What remains behind a step of the statement itself is ready. -/
theorem Ready.behindStep {own : OwnStep} (h : (Plan.step own rest).Ready mark outer st)
    (env : Env) : rest.Ready mark outer (own.run env st).2 := by
  have hkeeps := own.generates.keeps env st
  exact h.after rfl (.of_extends hkeeps h.bounded) hkeeps.marks

theorem Ready.behind_run {own : OwnStep} (h : (Plan.step own rest).Ready mark outer st)
    {env : Env} {st₁ : State} (hrun : own.run env st = (.ok (), st₁)) :
    rest.Ready mark outer st₁ := by
  have hrest := h.behindStep env
  rw [hrun] at hrest
  exact hrest

/-- A called plan is ready in the state that the call begins with. -/
theorem Ready.called (h : (Plan.call inner rest).Ready mark outer st) :
    inner.Ready st.pending.size st.marks st.begin where
  distinct := (List.nodup_append.mp h.distinct).1
  fresh n hn := h.fresh n (List.mem_append_left _ hn)
  marks := rfl
  bounded := Nat.le_refl _

/-- What the rest of a plan comes to, the plan comes to. -/
theorem Outcome.after {r : Except Fault Unit × State} (hr : rest.Outcome mark outer st₁ r)
    (hw : Within nodes mark st st₁) (hnodes : p.nodes = nodes ++ rest.nodes)
    (hstmt : p.stmt = rest.stmt) : p.Outcome mark outer st r where
  within := by
    rw [hnodes]
    exact hw.append hr.within
  raises := hr.raises
  done := by
    rw [hstmt]
    exact hr.done
  failed := by
    rw [hstmt]
    exact hr.failed

/-! ## Finishing a statement -/

/-- The last step of a plan. -/
theorem finish_outcome (s : Stmt) (env : Env) (h : (Plan.finish s).Ready mark outer st) :
    (Plan.finish s).Outcome mark outer st (finishStmt s env st) := by
  have hsteady : Steady [] (stmtCode s) := stmtCode_steady s
  have hcode := hsteady.keeps env st
  have hraises := hsteady.raises env st
  have hfresh : st.isGenerated s.id = false := h.fresh _ (List.mem_singleton_self _)
  rw [run_finishStmt]
  rcases hrun : stmtCode s env st with ⟨f | code, st'⟩
  · -- the code cannot be generated: the mark stays, and so does the queue in front of it
    rw [hrun] at hcode hraises
    constructor
    · exact (Within.of_extends hcode h.bounded).mono fun n hn => absurd hn List.not_mem_nil
    · obtain ⟨r, cause, heq, hr⟩ := (hraises f rfl).diagnose s.pos
      refine .error ?_
      rw [heq]
      exact Fault.walkable_report hr
    · intro hok
      cases hok
    · intro g _
      exact ⟨hcode.marks.trans h.marks,
        (hcode.toAdds.isGenerated_eq List.not_mem_nil).trans hfresh⟩
  · -- the queue is drained to the mark, and the node is generated
    rw [hrun] at hcode
    have hdrain := congrArg Prod.snd (State.drain_of_marks (hcode.marks.trans h.marks))
    dsimp only at hdrain
    have hnew : st'.drain.2.isGenerated s.id = false := by
      rw [hdrain]
      exact (hcode.toAdds.isGenerated_eq List.not_mem_nil).trans hfresh
    have hadds := (Extends.output s.id (stmtText st'.drain.1 code) hnew).toAdds
    have hbefore : Adds [s.id] st st'.drain.2 := by
      have hkept : Adds [] st' st'.drain.2 := by
        rw [hdrain]
        exact .of_eq rfl
      exact (hcode.toAdds.trans hkept).mono fun n hn => absurd hn List.not_mem_nil
    -- the node is fresh, so that its output is kept and no second one is refused
    simp only [hnew, Bool.false_eq_true, if_false]
    constructor
    · refine ⟨hbefore.trans hadds, ?_, ?_, ?_, ?_⟩
      · rw [hdrain]
        exact hcode.frames
      · rw [hdrain]
        exact hcode.walking
      · rw [hdrain]
        exact hcode.depth
      · rw [hdrain]
        exact (Pending.truncate_truncate _ _).trans
          (Pending.truncate_of_prefix h.bounded hcode.pending)
    · exact .ok ()
    · intro _
      refine ⟨?_, ?_, ?_⟩
      · rw [hdrain]
      · rw [hdrain]
        exact Nat.le_trans (Nat.le_of_eq (Pending.size_truncate _ _)) (Nat.min_le_left _ _)
      · simp [State.isGenerated, Plan.stmt]
    · intro f hf
      cases hf

/-! ## Calls -/

/-- A call whose plan succeeds leaves the state of the plan. -/
theorem recovering_done {pos : Pos} {x : Compile Unit} {env : Env}
    (hrun : x env st.begin = (.ok (), st₁)) : recovering pos x env st = (.ok true, st₁) := by
  unfold recovering
  rw [hrun]

/-- A call whose plan fails puts back the queue and the marks and records the fault. There is
nothing else to put back: the plan has closed its scopes and subroutines itself. -/
theorem recovering_failed {pos : Pos} {env : Env} {f : Fault}
    (h : p.Outcome st.pending.size st.marks st.begin (p.exec env st.begin))
    (hrun : p.exec env st.begin = (.error f, st₁)) :
    recovering pos p.exec env st = (.ok false,
      { st₁ with
        pending := st.pending, marks := st.marks, errors := st₁.errors ++ [f.diagnose pos] }) := by
  rw [hrun] at h
  obtain ⟨hmarks, -⟩ := h.failed f rfl
  have hpending : st₁.pending.truncate st.pending.size = st.pending :=
    h.within.pending.trans (Pending.truncate_size _)
  have habort : st₁.abort = { st₁ with pending := st.pending, marks := st.marks } := by
    unfold State.abort
    rw [hmarks]
    show ({ st₁ with
      pending := st₁.pending.truncate st.pending.size, marks := st.marks } : State) = _
    rw [hpending]
  -- putting back the scopes and the subroutines changes nothing
  have htable : st₁.table.restore st.table.depth = st₁.table := Table.restore_depth h.within.depth
  have hsubs (q : Pending) (ms : List Nat) :
      State.closeSubs { st₁ with pending := q, marks := ms } st.walking.length =
        { st₁ with pending := q, marks := ms } := by
    have hwalking : st₁.walking = st.walking := h.within.walking
    unfold State.closeSubs
    simp only [hwalking, Nat.sub_self]
    rfl
  unfold recovering
  rw [hrun]
  dsimp only
  rw [habort]
  simp only [State.setTable, htable]
  rw [hsubs]

/-- Everything about a call of a plan that is ready. -/
structure Called (p : Plan) (st : State) (r : Except Fault Bool × State) : Prop where
  balanced : Balanced st r.2
  adds : Adds p.nodes st r.2
  generated : r.1 = .ok (r.2.isGenerated p.stmt.id)

/-- What remains behind a call is ready. -/
theorem Ready.behind {r : Except Fault Bool × State}
    (h : (Plan.call inner rest).Ready mark outer st) (hcalled : inner.Called st r) :
    rest.Ready mark outer r.2 :=
  h.after rfl (.of_balanced hcalled.balanced hcalled.adds) hcalled.balanced.marks

/-- A call is balanced, and its answer says whether its statement was generated. -/
theorem Outcome.called {env : Env}
    (h : p.Outcome st.pending.size st.marks st.begin (p.exec env st.begin)) (pos : Pos) :
    p.Called st (recovering pos p.exec env st) := by
  have hbegin : Adds p.nodes st st.begin := .of_eq rfl
  rcases hrun : p.exec env st.begin with ⟨f | _, st'⟩
  · -- the queue and the marks are put back by the call, the rest was left as it was by the plan
    rw [recovering_failed h hrun]
    rw [hrun] at h
    refine ⟨⟨rfl, rfl, h.within.frames, h.within.walking, h.within.depth⟩, ?_, ?_⟩
    · have hplan : Adds p.nodes st st' := hbegin.trans h.within.toAdds
      exact hplan.trans (.of_eq rfl)
    · have hnot : st'.isGenerated p.stmt.id = false := (h.failed f rfl).2
      exact congrArg Except.ok hnot.symm
  · rw [recovering_done hrun]
    rw [hrun] at h
    obtain ⟨hmarks, hsize, hgenerated⟩ := h.done rfl
    -- nothing stands behind the mark of the call any more
    have hpending : st'.pending = st.pending := by
      rw [← Pending.truncate_of_size_le hsize]
      exact h.within.pending.trans (Pending.truncate_size _)
    refine ⟨⟨hmarks, hpending, h.within.frames, h.within.walking, h.within.depth⟩, ?_, ?_⟩
    · exact hbegin.trans h.within.toAdds
    · exact congrArg Except.ok hgenerated.symm

/-! ## Scopes and subroutines -/

/-- A scope, and with it maybe a subroutine, is open in the second state and not in the first. -/
structure Opened (st st' : State) : Prop where
  outputs : st'.outputs = st.outputs
  marks : st'.marks = st.marks
  pending : st'.pending = st.pending
  errors : st'.errors = st.errors
  depth : st'.table.depth = st.table.depth + 1

theorem opened_enter (st : State) (kind : ScopeKind) :
    Opened st (st.setTable (st.table.enter kind)) :=
  ⟨rfl, rfl, rfl, rfl, rfl⟩

/-- Declaring a subroutine never fails, and changes names only. -/
theorem declareSub_ok (i : Info) (name : String) (returns : Option Ty) (env : Env) (st : State) :
    ∃ s t subs, declareSub i name returns env st = (.ok s, st.setNames t subs) ∧
      t.depth = st.table.depth := by
  cases hsub : st.subs.get? i.id with
  | none =>
    -- the subroutine is declared now, and its node means it from here on
    have hdepth := Table.depth_declareSub st.table name (returns.getD defaultReturns)
    rcases hdecl : st.table.declareSub name (returns.getD defaultReturns) with ⟨s, t⟩
    rw [hdecl] at hdepth
    refine ⟨s, t, st.subs.put i.id s, ?_, hdepth⟩
    rw [declareSub, run_get_bind, hsub]
    dsimp only
    rw [run_bind_ok (run_onTable _ env st), hdecl]
    rfl
  | some s =>
    refine ⟨s, st.table, st.subs, ?_, rfl⟩
    rw [declareSub, run_get_bind, hsub]
    rfl

/-- Once a subroutine is declared, a scope is opened for its body, and its arguments are declared in
it. -/
theorem enterSub_run {i : Info} {name : String} {returns : Option Ty} {env : Env} {st st₁ : State}
    {s : Sub} (h : declareSub i name returns env st = (.ok s, st₁)) :
    enterSub i name returns env st = (.ok (), State.openSub
      (st₁.setTable ((st₁.table.enter .function).declare "_" .array argsType false).2) s
      ((st₁.table.enter .function).declare "_" .array argsType false).1.javaName) := by
  rw [enterSub, run_bind_ok h]
  rfl

/-- The body of a subroutine is always opened, and its frame is the innermost one. -/
theorem enterSub_opened (i : Info) (name : String) (returns : Option Ty) (env : Env) (st : State) :
    ∃ st₁, enterSub i name returns env st = (.ok (), st₁) ∧ Opened st st₁ ∧
      st₁.frames.drop 1 = st.frames ∧ st₁.walking.drop 1 = st.walking := by
  obtain ⟨s, t, subs, hdeclare, hdepth⟩ := declareSub_ok i name returns env st
  refine ⟨_, enterSub_run hdeclare, ⟨rfl, rfl, rfl, rfl, ?_⟩, rfl, rfl⟩
  have hopen := Table.depth_declare (t.enter .function) "_" .array argsType false
  exact hopen.trans (congrArg (· + 1) hdepth)

/-- A plan is ready in a scope if it is outside. -/
theorem Ready.opened (h : p.Ready mark outer st) (ho : Opened st st₁)
    (hnodes : rest.nodes = p.nodes) : rest.Ready mark outer st₁ where
  distinct := by
    rw [hnodes]
    exact h.distinct
  fresh n hn := by
    unfold State.isGenerated
    rw [ho.outputs]
    exact h.fresh n (hnodes ▸ hn)
  marks := ho.marks.trans h.marks
  bounded := by
    rw [ho.pending]
    exact h.bounded

theorem Ready.inBlock (h : (Plan.inBlock rest).Ready mark outer st) :
    rest.Ready mark outer (st.setTable (st.table.enter .block)) :=
  h.opened (opened_enter st .block) rfl

/-- A plan that runs in a scope has the outcome of the rest, once the scope is closed. -/
theorem Outcome.closed {r : Except Fault Unit × State} (close : State → State)
    (hr : rest.Outcome mark outer st₁ r) (ho : Opened st st₁) (hnodes : rest.nodes = p.nodes)
    (hstmt : rest.stmt = p.stmt) (houtputs : (close r.2).outputs = r.2.outputs)
    (hmarks : (close r.2).marks = r.2.marks) (hpending : (close r.2).pending = r.2.pending)
    (hframes : (close r.2).frames = st.frames) (hwalking : (close r.2).walking = st.walking)
    (hdepth : (close r.2).table.depth = r.2.table.depth - 1) :
    p.Outcome mark outer st (r.1, close r.2) := by
  have hsame (n : Nat) : (close r.2).isGenerated n = r.2.isGenerated n := by
    unfold State.isGenerated
    rw [houtputs]
  -- opening and closing touch no outputs, so what was added is what the rest added
  have hadds : Adds p.nodes st (close r.2) := by
    have hin : Adds p.nodes st st₁ := .of_eq ho.outputs
    have hout : Adds p.nodes r.2 (close r.2) := .of_eq houtputs
    exact (hin.trans (hnodes ▸ hr.within.toAdds)).trans hout
  refine ⟨⟨hadds, hframes, hwalking, ?_, ?_⟩, hr.raises, fun hok => ?_, fun f hf => ?_⟩
  · rw [hdepth, hr.within.depth, ho.depth]
    rfl
  · rw [hpending, hr.within.pending, ho.pending]
  · rw [hmarks, hpending, hsame, ← hstmt]
    exact hr.done hok
  · rw [hmarks, hsame, ← hstmt]
    exact hr.failed f hf

/-! ## Whole plans -/

/-- Every run of a plan that is ready has the outcome of the plan. -/
theorem exec_outcome (p : Plan) (env : Env) : ∀ {mark : Nat} {outer : List Nat} {st : State},
    p.Ready mark outer st → p.Outcome mark outer st (p.exec env st) := by
  induction p with
  | finish s =>
    intro mark outer st h
    exact finish_outcome s env h
  | step own rest ih =>
    intro mark outer st h
    have hkeeps := own.generates.keeps env st
    have hraises := own.generates.raises env st
    rw [exec, run_bind]
    rcases hrun : own.run env st with ⟨f | _, st₁⟩
    · -- the rest is not run: its nodes are not generated, that of the statement among them
      rw [hrun] at hkeeps hraises
      have hw := Within.of_extends hkeeps h.bounded
      have hleft : (Plan.step own rest).stmt.id ∉ own.nodes := fun hmem =>
        (List.nodup_append.mp h.distinct).2.2 _ hmem _ rest.stmt_mem_nodes rfl
      refine ⟨hw.mono fun n => List.mem_append_left _, .error (hraises f rfl), ?_,
        fun g _ => ⟨hkeeps.marks.trans h.marks, ?_⟩⟩
      · intro hok
        cases hok
      · exact (hkeeps.toAdds.isGenerated_eq hleft).trans (h.fresh _ (stmt_mem_nodes _))
    · have hrest := h.behindStep env
      rw [hrun] at hkeeps hrest
      exact (ih hrest).after (.of_extends hkeeps h.bounded) rfl rfl
  | call inner rest ihInner ihRest =>
    intro mark outer st h
    -- whether the called plan succeeds or fails, its call is balanced
    have hcalled := (ihInner h.called).called inner.stmt.pos
    rw [exec_call]
    exact (ihRest (h.behind hcalled)).after (.of_balanced hcalled.balanced hcalled.adds) rfl rfl
  | inBlock rest ih =>
    intro mark outer st h
    -- the scope is closed in both cases, since closing it is not part of what may fail
    have ho := opened_enter st .block
    have hr := ih (h.opened ho rfl)
    rw [exec_inBlock]
    exact hr.closed (fun s => s.setTable s.table.exit) ho rfl rfl rfl rfl rfl
      hr.within.frames hr.within.walking (Table.depth_exit _)
  | inSub i name returns rest ih =>
    intro mark outer st h
    obtain ⟨st₁, henter, ho, hframes, hwalking⟩ := enterSub_opened i name returns env st
    have hr := ih (h.opened ho rfl)
    -- opening the body does not fail, so that it is closed exactly when it was opened
    rw [exec_inSub henter]
    refine hr.closed State.closeSub ho rfl rfl rfl rfl rfl ?_ ?_ (Table.depth_exit _)
    · show List.drop 1 _ = _
      rw [hr.within.frames, hframes]
    · show List.drop 1 _ = _
      rw [hr.within.walking, hwalking]

/-- The calls of a plan that is ready are balanced. -/
theorem Ready.calls (h : (Plan.call inner rest).Ready mark outer st) (env : Env) :
    inner.Called st (recovering inner.stmt.pos inner.exec env st) :=
  (inner.exec_outcome env h.called).called inner.stmt.pos

end Plan

end Compile

end TypedPerl
