import TypedPerl.Proofs.Twin.State

/-!
# Steps of two runs

The rules by which a step of a compilation keeps twin states twins, one for each way to build a
step, and the small steps of which the others are built.
-/

namespace TypedPerl.Compile

variable {α β γ δ : Type} {c : Comparison} {s t : State}

/-! ## Steps that keep twins -/

/-- From these states, both steps leave twins, and fail with the same fault or give results that
`S` relates in the states they leave. -/
structure TwinAt (c : Comparison) (S : α → β → State → State → Prop) (x : Compile α)
    (y : Compile β) (s t : State) : Prop where
  states : Twins c (x c.left s).2 (y c.right t).2
  results : Agree (fun a b => S a b (x c.left s).2 (y c.right t).2) (x c.left s).1 (y c.right t).1

/-- From all twin states, both steps leave twins, and fail with the same fault or give results that
`S` relates. -/
def Twin (c : Comparison) (S : α → β → Prop) (x : Compile α) (y : Compile β) : Prop :=
  ∀ s t, Twins c s t → TwinAt c (fun a b _ _ => S a b) x y s t

/-- A step without a result to compare. -/
abbrev TwinStep (c : Comparison) (x : Compile Unit) : Prop :=
  Twin c (fun _ _ => True) x x

namespace TwinAt

variable {S : α → β → State → State → Prop} {U : γ → δ → State → State → Prop}
  {x : Compile α} {y : Compile β} {k : α → Compile γ} {l : β → Compile δ}

theorem pure (h : Twins c s t) {a : α} {b : β} (hab : S a b s t) :
    TwinAt c S (Pure.pure a) (Pure.pure b) s t :=
  ⟨h, .ok hab⟩

theorem throw (h : Twins c s t) (f : Fault) :
    TwinAt c S (MonadExcept.throw f) (MonadExcept.throw f) s t :=
  ⟨h, .error f⟩

/-- First one step, then another that takes its result. -/
theorem bind (h : TwinAt c S x y s t)
    (hk : ∀ a b s t, Twins c s t → S a b s t → TwinAt c U (k a) (l b) s t) :
    TwinAt c U (x >>= k) (y >>= l) s t := by
  obtain ⟨hstates, hresults⟩ := h
  have hrun := run_bind x k c.left s
  have hrun' := run_bind y l c.right t
  generalize x c.left s = p at hstates hresults hrun
  generalize y c.right t = q at hstates hresults hrun'
  obtain ⟨r, s'⟩ := p
  obtain ⟨r', t'⟩ := q
  -- both runs go on, or both stop with the same fault
  cases hresults with
  | ok hab =>
    have hnext := hk _ _ s' t' hstates hab
    exact ⟨by rw [hrun, hrun']; exact hnext.states, by rw [hrun, hrun']; exact hnext.results⟩
  | error f =>
    exact ⟨by rw [hrun, hrun']; exact hstates, by rw [hrun, hrun']; exact .error f⟩

theorem get_bind {k : State → Compile γ} {l : State → Compile δ}
    (h : TwinAt c U (k s) (l t) s t) : TwinAt c U (get >>= k) (get >>= l) s t :=
  ⟨h.states, h.results⟩

theorem read_bind {k : Env → Compile γ} {l : Env → Compile δ}
    (h : TwinAt c U (k c.left) (l c.right) s t) : TwinAt c U (read >>= k) (read >>= l) s t :=
  ⟨h.states, h.results⟩

/-- A computation without a state of its own comes first. -/
theorem lift_bind {R : α → β → Prop} {x : Except Fault α} {y : Except Fault β}
    (hx : Agree R x y) (h : Twins c s t)
    (hk : ∀ a b, R a b → TwinAt c U (k a) (l b) s t) :
    TwinAt c U (liftM x >>= k) (liftM y >>= l) s t := by
  cases hx with
  | ok hab => exact hk _ _ hab
  | error f => exact ⟨h, .error f⟩

theorem lift {R : α → β → Prop} {x : Except Fault α} {y : Except Fault β} (hx : Agree R x y)
    (h : Twins c s t) : TwinAt c (fun a b _ _ => R a b) (liftM x) (liftM y) s t :=
  ⟨h, hx⟩

/-- A change of the state comes first. -/
theorem change_bind {f g : State → State} {k : PUnit → Compile γ} {l : PUnit → Compile δ}
    (h : TwinAt c U (k ⟨⟩) (l ⟨⟩) (f s) (g t)) :
    TwinAt c U (modify f >>= k) (modify g >>= l) s t :=
  ⟨h.states, h.results⟩

theorem change {f g : State → State} (h : Twins c (f s) (g t)) :
    TwinAt c (fun _ _ _ _ => True) (modify f) (modify g) s t :=
  ⟨h, .ok trivial⟩

theorem set {s' t' : State} (h : Twins c s' t') :
    TwinAt c (fun _ _ _ _ => True) (MonadState.set s') (MonadState.set t') s t :=
  ⟨h, .ok trivial⟩

end TwinAt

namespace Twin

variable {S : α → β → Prop} {x : Compile α} {y : Compile β}

theorem pure {a : α} {b : β} (hab : S a b) : Twin c S (Pure.pure a) (Pure.pure b) :=
  fun _ _ h => .pure h hab

theorem bind {U : γ → δ → Prop} {k : α → Compile γ} {l : β → Compile δ} (hx : Twin c S x y)
    (hk : ∀ a b, S a b → Twin c U (k a) (l b)) : Twin c U (x >>= k) (y >>= l) :=
  fun s t h => (hx s t h).bind fun a b s t h hab => hk a b hab s t h

/-- One step after another. -/
theorem seq {x y : Compile Unit} (hx : TwinStep c x) (hy : TwinStep c y) :
    TwinStep c (x >>= fun _ => y) :=
  hx.bind fun _ _ _ => hy

theorem change {f : State → State} (h : ∀ s t, Twins c s t → Twins c (f s) (f t)) :
    TwinStep c (modify f) :=
  fun s t hst => .change (h s t hst)

theorem located (pos : Pos) (h : Twin c S x y) :
    Twin c S (Compile.located pos x) (Compile.located pos y) := by
  intro s t hst
  obtain ⟨hstates, hresults⟩ := h s t hst
  refine ⟨hstates, ?_⟩
  rw [run_located, run_located]
  generalize (x c.left s).1 = r at hresults ⊢
  generalize (y c.right t).1 = r' at hresults ⊢
  cases hresults with
  | ok hab => exact .ok hab
  | error f => exact .error _

theorem ensuring (h : Twin c S x y) {after : State → State}
    (hafter : ∀ s t, Twins c s t → Twins c (after s) (after t)) :
    Twin c S (Compile.ensuring x after) (Compile.ensuring y after) := by
  intro s t hst
  obtain ⟨hstates, hresults⟩ := h s t hst
  exact ⟨hafter _ _ hstates, hresults⟩

end Twin

/-! ## Changes of the table -/

namespace Twins

/-- A change of the tables that leaves the packages alone. -/
theorem setScopes (h : Twins c s t) {f : Table → Table}
    (hunit : ∀ a b : Table, a.ofUnit = b.ofUnit → (f a).ofUnit = (f b).ofUnit)
    (htidy : ∀ (means : String → Option (Except Fault Package)) (catalog : Option Catalog)
      (a : Table), a.Tidy means catalog → (f a).Tidy means catalog)
    (hown : ∀ a, (f a).own = a.own) (hregistry : ∀ a, (f a).registry = a.registry) :
    Twins c (s.setTable (f s.table)) (t.setTable (f t.table)) :=
  h.setTable (hunit _ _ h.table) (htidy _ _ _ h.left) (htidy _ _ _ h.right)
    (.of_eq (hown _) (hregistry _)) (.of_eq (hown _) (hregistry _))

theorem enter (h : Twins c s t) (kind : ScopeKind) :
    Twins c (s.setTable (s.table.enter kind)) (t.setTable (t.table.enter kind)) :=
  h.setScopes (f := (·.enter kind)) (fun _ _ hab => congrArg (·.enter kind) hab)
    (fun _ _ _ ha => ha.enter kind) (fun _ => rfl) (fun _ => rfl)

theorem exit (h : Twins c s t) :
    Twins c (s.setTable s.table.exit) (t.setTable t.table.exit) :=
  h.setScopes (f := (·.exit)) (fun _ _ hab => congrArg (·.exit) hab)
    (fun _ _ _ ha => ha.exit) (fun _ => rfl) (fun _ => rfl)

theorem restore (h : Twins c s t) (depth : Int) :
    Twins c (s.setTable (s.table.restore depth)) (t.setTable (t.table.restore depth)) :=
  h.setScopes (f := (·.restore depth)) (fun _ _ hab => congrArg (·.restore depth) hab)
    (fun _ _ _ ha => ha.restore depth) (fun _ => rfl) (fun _ => rfl)

theorem depth_eq (h : Twins c s t) : s.table.depth = t.table.depth :=
  congrArg (·.depth) h.table

/-! ## Statements -/

theorem begin (h : Twins c s t) : Twins c s.begin t.begin :=
  h.of_shared rfl rfl
    (congrArg (fun r : State => { r with marks := r.pending.size :: r.marks }) h.shared)

theorem abort (h : Twins c s t) : Twins c s.abort t.abort := by
  have hcompared (st : State) : st.abort.compared = st.compared := by
    unfold State.abort
    split <;> rfl
  have hshared (st : State) : st.abort.shared = st.shared.abort := by
    obtain ⟨acc, outputs, bindings, subs, made, marks, paths, effects, fields, methods, frames,
      walking, errors⟩ := st
    cases marks <;> rfl
  refine h.of_shared (hcompared s) (hcompared t) ?_
  rw [hshared, hshared, h.shared]

/-- Statements take the same declarations. -/
theorem drain (h : Twins c s t) : s.drain.1 = t.drain.1 ∧ Twins c s.drain.2 t.drain.2 := by
  have hcompared (st : State) : st.drain.2.compared = st.compared := by
    unfold State.drain
    split <;> rfl
  have hshared (st : State) : st.drain.1 = st.shared.drain.1 ∧
      st.drain.2.shared = st.shared.drain.2 := by
    obtain ⟨acc, outputs, bindings, subs, made, marks, paths, effects, fields, methods, frames,
      walking, errors⟩ := st
    cases marks <;> exact ⟨rfl, rfl⟩
  refine ⟨?_, h.of_shared (hcompared s) (hcompared t) ?_⟩
  · rw [(hshared s).1, (hshared t).1, h.shared]
  · rw [(hshared s).2, (hshared t).2, h.shared]

theorem closeSub (h : Twins c s t) : Twins c s.closeSub t.closeSub :=
  h.exit.of_shared rfl rfl (congrArg (fun r : State =>
    { r with frames := r.frames.drop 1, walking := r.walking.drop 1 }) h.shared)

theorem closeSubs (h : Twins c s t) (count : Nat) :
    Twins c (s.closeSubs count) (t.closeSubs count) := by
  unfold State.closeSubs
  rw [h.walking]
  induction t.walking.length - count with
  | zero => exact h
  | succ n ih => exact ih.closeSub

theorem openSub (h : Twins c s t) (x : Sub) (param : String) :
    Twins c (s.openSub x param) (t.openSub x param) :=
  h.of_shared rfl rfl (congrArg (fun r : State => r.openSub x param) h.shared)

theorem addError (h : Twins c s t) (f : Fault) :
    Twins c { s with errors := s.errors ++ [f] } { t with errors := t.errors ++ [f] } :=
  h.of_shared rfl rfl (congrArg (fun r : State => { r with errors := r.errors ++ [f] }) h.shared)

theorem queue (h : Twins c s t) (d : Declaration) : Twins c (s.queue d) (t.queue d) :=
  h.of_shared rfl rfl (congrArg (·.queue d) h.shared)

theorem addField (h : Twins c s t) {b b' : Binding} (hb : b.Like b') :
    Twins c (s.addField b) (t.addField b') := by
  have hcompared (st : State) (b : Binding) : (st.addField b).compared = st.compared := by
    unfold State.addField
    split <;> rfl
  have hshared (st : State) (b : Binding) : (st.addField b).shared = st.shared.addField b := by
    unfold State.addField
    change (if st.fields.any _ then _ else _ : State).shared = if st.fields.any _ then _ else _
    split <;> rfl
  refine h.of_shared (hcompared s b) (hcompared t b') ?_
  rw [hshared, hshared, h.shared]
  unfold State.addField
  rw [hb.type, hb.javaName, hb.isPublic]

end Twins

/-! ## Small steps -/

theorem setOutput_twin (id : Nat) {out out' : Output} (hout : c.Also Output.Like out out') :
    Twin c (fun _ _ => True) (setOutput id out) (setOutput id out') := by
  intro s t h
  constructor
  · rw [run_setOutput, run_setOutput, h.isGenerated id]
    split
    · exact h
    · exact h.putOutput id hout
  · rw [run_setOutput, run_setOutput, h.isGenerated id]
    split
    · exact .error _
    · exact .ok trivial

theorem markEffect_twin (id : Nat) : TwinStep c (markEffect id) :=
  .change fun _ _ h => h.of_shared rfl rfl
    (congrArg (fun r : State => { r with effects := id :: r.effects }) h.shared)

/-- A fresh identifier is the same in both runs. -/
theorem auxiliary_twin (hint : String) :
    Twin c Eq (onTable (·.auxiliary hint)) (onTable (·.auxiliary hint)) := by
  intro s t h
  obtain ⟨hname, htable⟩ := (Table.apart_auxiliary hint).eq h.table
  refine ⟨?_, .ok hname⟩
  exact h.setTable htable (h.left.auxiliary hint) (h.right.auxiliary hint) (.of_eq rfl rfl)
    (.of_eq rfl rfl)

/-- A statement that fails in one run fails in the other, and both recover. -/
theorem recovering_twin (pos : Pos) {x : Compile Unit} (h : TwinStep c x) :
    Twin c Eq (recovering pos x) (recovering pos x) := by
  intro s t hst
  obtain ⟨hstates, hresults⟩ := h s.begin t.begin hst.begin
  -- what a failed step leaves behind is undone alike on both sides
  have hfailed (f : Fault) {s' t' : State} (hst' : Twins c s' t') :
      Twins c
        { (s'.abort.setTable (s'.abort.table.restore s.table.depth)).closeSubs s.walking.length with
          errors := ((s'.abort.setTable (s'.abort.table.restore s.table.depth)).closeSubs
            s.walking.length).errors ++ [f.diagnose pos] }
        { (t'.abort.setTable (t'.abort.table.restore t.table.depth)).closeSubs t.walking.length with
          errors := ((t'.abort.setTable (t'.abort.table.restore t.table.depth)).closeSubs
            t.walking.length).errors ++ [f.diagnose pos] } := by
    rw [hst.depth_eq, hst.walking]
    exact ((hst'.abort.restore _).closeSubs _).addError _
  unfold recovering
  constructor
  · generalize x c.left s.begin = p at hstates hresults ⊢
    generalize x c.right t.begin = q at hstates hresults ⊢
    obtain ⟨r, s'⟩ := p
    obtain ⟨r', t'⟩ := q
    cases hresults with
    | ok _ => exact hstates
    | error f => exact hfailed f hstates
  · generalize x c.left s.begin = p at hstates hresults ⊢
    generalize x c.right t.begin = q at hstates hresults ⊢
    obtain ⟨r, s'⟩ := p
    obtain ⟨r', t'⟩ := q
    cases hresults with
    | ok _ => exact .ok rfl
    | error f => exact .ok rfl

end TypedPerl.Compile
