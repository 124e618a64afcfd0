import TypedPerl.Compile.Walk
import TypedPerl.Proofs.Fault.Raised

/-!
# Steady steps

Most steps of the walk over a unit change little of its state: they generate some nodes, queue
declarations and enter names, and leave alone the marks, the open subroutines, the number of open
scopes and the faults recorded so far. `Extends nodes st st'` says so of two states, where `nodes`
are the nodes that may have been generated in between. `Steady nodes x` says it of every run of a
step, also of one that fails, and that the step fails only with faults of the walk.

`Generates nodes x` says in addition that all of `nodes` are generated when the step succeeds.
-/

namespace TypedPerl.Compile

variable {α β : Type}

/-! ## Running steps -/

/-- A sequence of two steps stops at the first fault, in the state that the fault leaves. -/
theorem run_bind (x : Compile α) (k : α → Compile β) (env : Env) (st : State) :
    (x >>= k) env st = match x env st with
      | (.ok a, st') => k a env st'
      | (.error f, st') => (.error f, st') := by
  show (ExceptT.bindCont (fun a => k a env) (x env st).1) (x env st).2 = _
  rcases x env st with ⟨_ | a, st'⟩ <;> rfl

theorem run_bind_ok {x : Compile α} {k : α → Compile β} {env : Env} {st st' : State} {a : α}
    (h : x env st = (.ok a, st')) : (x >>= k) env st = k a env st' := by
  rw [run_bind, h]

/-- A computation without a state of its own runs in any state. -/
theorem run_lift_bind (x : Except Fault α) (k : α → Compile β) (env : Env) (st : State) :
    (liftM x >>= k : Compile β) env st = match x with
      | .ok a => k a env st
      | .error f => (.error f, st) := by
  cases x with
  | error f => rfl
  | ok a => rfl

theorem run_get_bind (k : State → Compile α) (env : Env) (st : State) :
    (get >>= k) env st = k st env st := rfl

theorem run_read_bind (k : Env → Compile α) (env : Env) (st : State) :
    (read >>= k) env st = k env env st := rfl

theorem run_ensuring (x : Compile α) (after : State → State) (env : Env) (st : State) :
    ensuring x after env st = ((x env st).1, after (x env st).2) := rfl

theorem run_located (pos : Pos) (x : Compile α) (env : Env) (st : State) :
    located pos x env st = ((x env st).1.mapError (Fault.diagnose pos), (x env st).2) := rfl

theorem run_onTable (f : Table → α × Table) (env : Env) (st : State) :
    onTable f env st = (.ok (f st.table).1, st.setTable (f st.table).2) := rfl

theorem run_setOutput (id : Nat) (out : Output) (env : Env) (st : State) :
    setOutput id out env st =
      if st.isGenerated id then (.error .alreadyGenerated, st)
      else (.ok (), { st with outputs := st.outputs.put id out }) := by
  show (if st.isGenerated id = true then _ else _ : Compile Unit) env st = _
  split <;> rfl

/-! ## States that extend one another -/

namespace State

/-- What was generated in `st` stays, and only `nodes` may have been generated since. -/
structure Adds (nodes : List Nat) (st st' : State) : Prop where
  kept : ∀ n out, st.outputs.get? n = some out → st'.outputs.get? n = some out
  only : ∀ n, n ∉ nodes → st'.outputs.get? n = st.outputs.get? n

namespace Adds

variable {nodes more : List Nat} {st st₁ st₂ : State}

/-- States with the same outputs. -/
theorem of_eq (h : st₁.outputs = st.outputs) : Adds nodes st st₁ := by
  constructor
  · intro n out hn
    rw [h]
    exact hn
  · intro n _
    rw [h]

theorem trans (h₁ : Adds nodes st st₁) (h₂ : Adds nodes st₁ st₂) : Adds nodes st st₂ where
  kept n out h := h₂.kept n out (h₁.kept n out h)
  only n h := (h₂.only n h).trans (h₁.only n h)

theorem mono (h : Adds nodes st st₁) (hsub : ∀ n ∈ nodes, n ∈ more) : Adds more st st₁ where
  kept := h.kept
  only n hn := h.only n fun hmem => hn (hsub n hmem)

/-- First some nodes, then others. -/
theorem append (h₁ : Adds nodes st st₁) (h₂ : Adds more st₁ st₂) : Adds (nodes ++ more) st st₂ :=
  (h₁.mono fun _ => List.mem_append_left _).trans (h₂.mono fun _ => List.mem_append_right _)

/-- A node that was generated stays so. -/
theorem isGenerated (h : Adds nodes st st₁) {n : Nat} (hn : st.isGenerated n = true) :
    st₁.isGenerated n = true := by
  unfold State.isGenerated at hn ⊢
  obtain ⟨out, hout⟩ := Option.isSome_iff_exists.mp hn
  rw [h.kept n out hout]
  rfl

/-- Any other node than the given ones is generated only if it was before. -/
theorem isGenerated_eq (h : Adds nodes st st₁) {n : Nat} (hn : n ∉ nodes) :
    st₁.isGenerated n = st.isGenerated n := by
  unfold State.isGenerated
  rw [h.only n hn]

end Adds

/-- Nothing but names, queued declarations and the outputs of `nodes` is new in `st'`. -/
structure Extends (nodes : List Nat) (st st' : State) : Prop extends Adds nodes st st' where
  marks : st'.marks = st.marks
  frames : st'.frames = st.frames
  walking : st'.walking = st.walking
  depth : st'.table.depth = st.table.depth
  errors : st'.errors = st.errors
  pending : st.pending.decls <+: st'.pending.decls

namespace Extends

variable {nodes more : List Nat} {st st₁ st₂ : State}

/-- States that differ in nothing that belongs to statements. -/
theorem of_same (hacc : st₁.toAccessState = st.toAccessState)
    (hrest : (st₁.outputs, st₁.marks, st₁.frames, st₁.walking, st₁.errors) =
      (st.outputs, st.marks, st.frames, st.walking, st.errors)) : Extends nodes st st₁ := by
  simp only [Prod.mk.injEq] at hrest
  obtain ⟨houtputs, hmarks, hframes, hwalking, herrors⟩ := hrest
  have hdepth : st₁.table.depth = st.table.depth := congrArg (·.table.depth) hacc
  have hpending : st.pending = st₁.pending := congrArg (·.pending) hacc.symm
  exact ⟨.of_eq houtputs, hmarks, hframes, hwalking, hdepth, herrors,
    hpending ▸ List.prefix_refl _⟩

theorem refl (nodes : List Nat) (st : State) : Extends nodes st st :=
  of_same rfl rfl

theorem trans (h₁ : Extends nodes st st₁) (h₂ : Extends nodes st₁ st₂) : Extends nodes st st₂ where
  toAdds := h₁.toAdds.trans h₂.toAdds
  marks := h₂.marks.trans h₁.marks
  frames := h₂.frames.trans h₁.frames
  walking := h₂.walking.trans h₁.walking
  depth := h₂.depth.trans h₁.depth
  errors := h₂.errors.trans h₁.errors
  pending := h₁.pending.trans h₂.pending

theorem mono (h : Extends nodes st st₁) (hsub : ∀ n ∈ nodes, n ∈ more) : Extends more st st₁ :=
  { h with toAdds := h.toAdds.mono hsub }

/-- Another table with as many open scopes. -/
theorem setTable {t : Table} (ht : t.depth = st.table.depth) :
    Extends nodes st (st.setTable t) :=
  ⟨.of_eq rfl, rfl, rfl, rfl, ht, rfl, List.prefix_refl _⟩

/-- Another table with as many open scopes, and a longer queue. -/
theorem access {acc : AccessState} (ht : acc.table.depth = st.table.depth)
    (hp : st.pending.decls <+: acc.pending.decls) :
    Extends nodes st { st with toAccessState := acc } :=
  ⟨.of_eq rfl, rfl, rfl, rfl, ht, rfl, hp⟩

/-- One more declaration in the queue. -/
theorem queue (d : Declaration) : Extends nodes st (st.queue d) :=
  ⟨.of_eq rfl, rfl, rfl, rfl, rfl, rfl, List.prefix_append _ _⟩

/-- What is generated for a node that had no output. -/
theorem output (id : Nat) (out : Output) (hid : st.isGenerated id = false) :
    Extends [id] st { st with outputs := st.outputs.put id out } := by
  refine ⟨⟨fun n o hn => ?_, fun n hn => ?_⟩, rfl, rfl, rfl, rfl, rfl, List.prefix_refl _⟩
  · -- a node with an output is another one
    have hne : id ≠ n := by
      rintro rfl
      rw [State.isGenerated, hn] at hid
      cases hid
    exact (Keyed.get?_put_of_ne _ _ hne).trans hn
  · exact Keyed.get?_put_of_ne _ _ fun h => hn (h ▸ List.mem_singleton_self _)

theorem addField (b : Binding) : Extends nodes st (st.addField b) := by
  unfold State.addField
  split
  · exact refl _ _
  · exact of_same rfl rfl

end Extends

end State

open State (Extends)

/-! ## Steady steps -/

/-- Every run of the step extends its state, and fails only with faults of the walk. -/
structure Steady (nodes : List Nat) (x : Compile α) : Prop where
  keeps : ∀ env st, Extends nodes st (x env st).2
  raises : ∀ env st, Raises Fault.Walkable (x env st).1

/-- The run of the step from one state extends that state, and fails only with faults of the
walk. -/
structure SteadyAt (nodes : List Nat) (x : Compile α) (env : Env) (st : State) : Prop where
  keeps : Extends nodes st (x env st).2
  raises : Raises Fault.Walkable (x env st).1

/-- A computation without a state of its own, before the rest of a step. -/
theorem SteadyAt.lift_bind {nodes : List Nat} {x : Except Fault α} {k : α → Compile β} {env : Env}
    {st : State} (hx : Raises Fault.Bare x)
    (hk : ∀ a, x = .ok a → SteadyAt nodes (k a) env st) :
    SteadyAt nodes (liftM x >>= k : Compile β) env st := by
  cases x with
  | error f => exact ⟨.refl _ _, .error (hx f rfl).walkable⟩
  | ok a => exact ⟨(hk a rfl).keeps, (hk a rfl).raises⟩

theorem SteadyAt.read_bind {nodes : List Nat} {k : Env → Compile α} {env : Env} {st : State}
    (h : SteadyAt nodes (k env) env st) : SteadyAt nodes (read >>= k) env st := ⟨h.keeps, h.raises⟩

namespace Steady

variable {nodes more : List Nat}

theorem pure (a : α) : Steady nodes (Pure.pure a : Compile α) where
  keeps _ st := .refl _ st
  raises _ _ := .ok a

theorem throw {f : Fault} (h : f.Walkable) : Steady nodes (MonadExcept.throw f : Compile α) where
  keeps _ st := .refl _ st
  raises _ _ := .error h

theorem lift {x : Except Fault α} (h : Raises Fault.Bare x) :
    Steady nodes (liftM x : Compile α) where
  keeps _ st := .refl _ st
  raises _ _ := h.mono fun _ => Fault.Bare.walkable

theorem get : Steady nodes (MonadState.get : Compile State) where
  keeps _ st := .refl _ st
  raises _ st := .ok st

theorem read : Steady nodes (MonadReader.read : Compile Env) where
  keeps _ st := .refl _ st
  raises env _ := .ok env

theorem change {f : State → State} (h : ∀ st, Extends nodes st (f st)) :
    Steady nodes (modify f : Compile Unit) where
  keeps _ st := h st
  raises _ _ := .ok ()

theorem onTable {f : Table → α × Table} (h : ∀ t, (f t).2.depth = t.depth) :
    Steady nodes (Compile.onTable f) where
  keeps _ st := .setTable (h st.table)
  raises _ _ := .ok _

theorem onAccess {f : AccessState → α × AccessState}
    (ht : ∀ acc, (f acc).2.table.depth = acc.table.depth)
    (hp : ∀ acc, acc.pending.decls <+: (f acc).2.pending.decls) :
    Steady nodes (Compile.onAccess f) where
  keeps _ st := .access (ht st.toAccessState) (hp st.toAccessState)
  raises _ _ := .ok _

theorem bind {x : Compile α} {k : α → Compile β} (hx : Steady nodes x)
    (hk : ∀ a, Steady nodes (k a)) : Steady nodes (x >>= k) := by
  constructor
  · intro env st
    rw [run_bind]
    have hfirst := hx.keeps env st
    generalize x env st = r at hfirst ⊢
    -- a fault leaves the state of the first step, and nothing else is run
    rcases r with ⟨f | a, st'⟩
    · exact hfirst
    · exact hfirst.trans ((hk a).keeps env st')
  · intro env st
    rw [run_bind]
    have hfirst := hx.raises env st
    generalize x env st = r at hfirst ⊢
    rcases r with ⟨f | a, st'⟩
    · exact .error (hfirst f rfl)
    · exact (hk a).raises env st'

/-- A step that reads its state may put back a state made from it. -/
theorem get_bind {k : State → Compile α} (h : ∀ env st, SteadyAt nodes (k st) env st) :
    Steady nodes (MonadState.get >>= k) where
  keeps env st := (h env st).keeps
  raises env st := (h env st).raises

theorem mono {x : Compile α} (h : Steady nodes x) (hsub : ∀ n ∈ nodes, n ∈ more) :
    Steady more x where
  keeps env st := (h.keeps env st).mono hsub
  raises := h.raises

/-- A fault that becomes a diagnostic of the walk is a fault of the walk. -/
theorem located {x : Compile α} (h : Steady nodes x) (pos : Pos) :
    Steady nodes (Compile.located pos x) := by
  refine ⟨fun env st => h.keeps env st, fun env st f hf => ?_⟩
  rw [run_located] at hf
  have hraises := h.raises env st
  rcases hx : (x env st).1 with g | a
  · rw [hx] at hf hraises
    cases hf
    -- the diagnostic keeps the code of `g` if it has one, and takes that of its class otherwise
    obtain ⟨r, cause, heq, hcode⟩ := (hraises g rfl).diagnose pos
    rw [heq]
    exact Fault.walkable_report hcode
  · rw [hx] at hf
    cases hf

end Steady

/-! ## Steps that generate nodes -/

/-- The step is steady, and when it succeeds all of `nodes` are generated. -/
structure Generates (nodes : List Nat) (x : Compile Unit) : Prop extends Steady nodes x where
  complete : ∀ env st st', x env st = (.ok (), st') → ∀ n ∈ nodes, st'.isGenerated n = true

namespace Generates

variable {nodes more : List Nat}

/-- A step that generates nothing. -/
theorem of_steady {x : Compile Unit} (h : Steady [] x) : Generates [] x :=
  { h with complete := fun _ _ _ _ _ hn => absurd hn List.not_mem_nil }

/-- One step after the other generates the nodes of both. -/
theorem seq {x y : Compile Unit} (hx : Generates nodes x) (hy : Generates more y) :
    Generates (nodes ++ more) (x >>= fun _ => y) := by
  have hsteady : Steady (nodes ++ more) (x >>= fun _ => y) :=
    .bind (hx.toSteady.mono fun _ => List.mem_append_left _)
      fun _ => hy.toSteady.mono fun _ => List.mem_append_right _
  refine { hsteady with complete := fun env st st' hrun n hn => ?_ }
  rw [run_bind] at hrun
  have hfirst := hx.complete env st
  generalize x env st = r at hrun hfirst
  rcases r with ⟨f | a, st₁⟩
  · cases hrun
  · change y env st₁ = (.ok (), st') at hrun
    -- what the first step has generated stays generated
    rcases List.mem_append.mp hn with h | h
    · have hkeeps := hy.keeps env st₁
      rw [hrun] at hkeeps
      exact hkeeps.toAdds.isGenerated (hfirst st₁ rfl n h)
    · exact hy.complete env st₁ st' hrun n h

/-- The nodes may be named in any order. -/
theorem congr {x : Compile Unit} (h : Generates nodes x) (hiff : ∀ n, n ∈ nodes ↔ n ∈ more) :
    Generates more x where
  toSteady := h.toSteady.mono fun n => (hiff n).mp
  complete env st st' hrun n hn := h.complete env st st' hrun n ((hiff n).mpr hn)

theorem located {x : Compile Unit} (h : Generates nodes x) (pos : Pos) :
    Generates nodes (Compile.located pos x) := by
  refine { h.toSteady.located pos with complete := fun env st st' hrun => ?_ }
  rw [run_located] at hrun
  apply h.complete env st st'
  rcases hx : x env st with ⟨f | a, st₁⟩
  · rw [hx] at hrun
    cases hrun
  · rw [hx] at hrun
    cases hrun
    rfl

end Generates

/-- Keeping an output generates its node and no other. A node that has an output keeps it. -/
theorem setOutput_generates (id : Nat) (out : Output) : Generates [id] (setOutput id out) := by
  -- an output is added once, and a second one is refused
  refine { keeps := fun env st => ?_, raises := fun env st => ?_, complete := ?_ }
  · rw [run_setOutput]
    split
    · exact .refl _ _
    · rename_i hid
      exact .output id out ((Bool.not_eq_true _).mp hid)
  · rw [run_setOutput]
    split
    · exact .error (Fault.Bare.walkable rfl)
    · exact .ok ()
  · intro env st st' h n hn
    rw [run_setOutput] at h
    split at h
    · cases h
    · cases h
      cases List.mem_singleton.mp hn
      simp [State.isGenerated]

/-- What a steady step computes for a node is kept for it. -/
theorem Generates.keep {x : Compile Output} (hx : ∀ {nodes : List Nat}, Steady nodes x) (id : Nat) :
    Generates [id] (x >>= setOutput id) := by
  refine { toSteady := .bind hx fun out => (setOutput_generates id out).toSteady,
           complete := fun env st st' hrun => ?_ }
  rw [run_bind] at hrun
  generalize x env st = r at hrun
  rcases r with ⟨f | out, st₁⟩
  · cases hrun
  · exact (setOutput_generates id out).complete env st₁ st' hrun

end TypedPerl.Compile
