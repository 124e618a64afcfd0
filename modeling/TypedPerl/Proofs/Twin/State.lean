import TypedPerl.Proofs.Twin.Table
import TypedPerl.Proofs.Twin.Value
import TypedPerl.Proofs.Walk.Steady

/-!
# Two runs side by side

A unit is compiled twice, with other choices on the generated code or with another knowledge of the
packages of earlier units. `Twins c s t` relates the states of the two runs: all but the code of
what was generated is the same, and the code is the same too if the runs make the same choices.
`TwinAt c S x y s t` says that a step keeps the relation: run from twin states, `x` and `y` leave
twin states, and fail with the same fault or give results that `S` relates.

The relation carries with it what other units see of the unit: every type is well formed, and a
name of another package means what `Comparison.means` says.
-/

namespace TypedPerl

/-- What a method shows to its callers. -/
def Method.signature (m : Method) : String × Option Ty × String :=
  (m.javaName, m.returns, m.param)

namespace Compile

open Table (Placed Tidy)

/-! ## Twin states -/

/-- Two runs over one unit. -/
structure Comparison where
  /-- What the one run is compiled with. -/
  left : Env
  /-- What the other run is compiled with. -/
  right : Env
  /-- The code is compared too. -/
  same : Prop
  /-- What the names of other packages mean in both runs. -/
  means : String → Option (Except Fault Package)
  /-- Runs whose code is compared make the same choices. -/
  options : same → left.toOptions = right.toOptions
  /-- Names mean sound packages of their own. -/
  sound : ∀ name p, means name = some (.ok p) → p.Sound ∧ p.name = name

/-- The results are related, and are the same if the code is compared. -/
def Comparison.Also (c : Comparison) {α : Type} (S : α → α → Prop) (a b : α) : Prop :=
  S a b ∧ (c.same → a = b)

/-- Pieces of code; they are the same if the code is compared. -/
def Comparison.Code (c : Comparison) (a b : String) : Prop :=
  c.same → a = b

/-- The part of the state that the two runs share as it is. -/
def State.shared (st : State) : State :=
  { st with table := {}, outputs := [], bindings := [], paths := [], methods := [] }

/-- The part of the state that may differ between the runs, and the subroutines that nodes mean. -/
def State.compared (st : State) :=
  (st.table, st.outputs, st.bindings, st.subs, st.paths, st.methods)

/-- The states of the two runs at the same point of the unit. -/
structure Twins (c : Comparison) (s t : State) : Prop where
  /-- A node is generated in both runs or in none, with the same type. -/
  outputs : ∀ id, Option.Rel (c.Also Output.Like) (s.outputs.get? id) (t.outputs.get? id)
  paths : ∀ id, Option.Rel (c.Also Path.Like) (s.paths.get? id) (t.paths.get? id)
  methods : List.Forall₂ (c.Also fun m n => m.signature = n.signature) s.methods t.methods
  /-- A node means the same variable. -/
  bindings : ∀ id, Option.Rel Binding.Like (s.bindings.get? id) (t.bindings.get? id)
  /-- The packages of variables and subroutines can be named in both runs. -/
  bound : ∀ id b, s.bindings.get? id = some b →
    b.type.WellFormed ∧ Placed s.table t.table b.package
  called : ∀ id x, s.subs.get? id = some x →
    x.returns.WellFormed ∧ Placed s.table t.table x.package
  /-- The unit declares the same, and names of other packages mean the same. -/
  table : s.table.ofUnit = t.table.ofUnit
  left : s.table.Tidy c.means c.left.catalog
  right : t.table.Tidy c.means c.right.catalog
  shared : s.shared = t.shared

theorem Comparison.Also.refl (c : Comparison) {α : Type} {S : α → α → Prop} {a : α} (h : S a a) :
    c.Also S a a :=
  ⟨h, fun _ => rfl⟩

/-- A generator that depends on its operands only. -/
theorem Comparison.also (c : Comparison) {α : Type} {S : α → α → Prop} {x y : Except Fault α}
    (h : Agree S x y) (heq : c.same → x = y) : Agree (c.Also S) x y :=
  h.and_eq heq

theorem Comparison.code (c : Comparison) {x y : Except Fault String} (h : Alike x y)
    (heq : c.same → x = y) : Agree c.Code x y :=
  (h.and_eq heq).mono fun _ _ hab => hab.2

theorem Comparison.nullChecks (c : Comparison) (h : c.same) :
    c.left.nullChecks = c.right.nullChecks :=
  congrArg (·.nullChecks) (c.options h)

/-- Variables of the two runs that stand for each other. -/
structure Bound (s t : State) (b b' : Binding) : Prop where
  like : b.Like b'
  type : b.type.WellFormed
  name : s.nameOf b = t.nameOf b'

theorem rel_put {α : Type} {R : α → α → Prop} {m n : Keyed Nat α}
    (h : ∀ id, Option.Rel R (m.get? id) (n.get? id)) {k : Nat} {a b : α} (hab : R a b) (id : Nat) :
    Option.Rel R ((m.put k a).get? id) ((n.put k b).get? id) := by
  by_cases hk : k = id
  · rw [hk, Keyed.get?_put_self, Keyed.get?_put_self]
    exact .some hab
  · rw [Keyed.get?_put_of_ne _ _ hk, Keyed.get?_put_of_ne _ _ hk]
    exact h id

namespace Twins

variable {c : Comparison} {s t : State}

/-! ## What twin states have in common -/

section

variable (h : Twins c s t)

include h

theorem subs : s.subs = t.subs :=
  congrArg (·.subs) h.shared

theorem frames : s.frames = t.frames :=
  congrArg (·.frames) h.shared

theorem effects : s.effects = t.effects :=
  congrArg (·.effects) h.shared

theorem walking : s.walking = t.walking :=
  congrArg (·.walking) h.shared

theorem isGenerated (id : Nat) : s.isGenerated id = t.isGenerated id := by
  unfold State.isGenerated
  rcases rel_cases (h.outputs id) with ⟨a, b, hs, ht, -⟩ | ⟨hs, ht⟩
  · rw [hs, ht]
    rfl
  · rw [hs, ht]

theorem output (id : Nat) : c.Also Output.Like (s.output id) (t.output id) := by
  unfold State.output
  rcases rel_cases (h.outputs id) with ⟨a, b, hs, ht, hout⟩ | ⟨hs, ht⟩
  · rw [hs, ht]
    exact hout
  · rw [hs, ht]
    exact .refl c ⟨rfl, rfl, Ty.fine_none⟩

theorem lineOf? (hs : c.same) (id : Nat) : s.lineOf? id = t.lineOf? id := by
  unfold State.lineOf?
  rcases rel_cases (h.outputs id) with ⟨a, b, hleft, hright, hout⟩ | ⟨hleft, hright⟩
  · rw [hleft, hright, hout.2 hs]
  · rw [hleft, hright]

theorem operandOf (e : Expr) : c.Also Operand.Like (s.operandOf e) (t.operandOf e) := by
  obtain ⟨hlike, heq⟩ := h.output e.id
  refine ⟨⟨?_, hlike.fine⟩, fun hs => ?_⟩
  · simp only [State.operandOf, Operand.shape, hlike.type, hlike.raw]
  · simp only [State.operandOf, heq hs]

theorem operands (es : List Expr) : c.Also Operand.Row (s.operands es) (t.operands es) := by
  constructor
  · induction es with
    | nil => exact .nil
    | cons e es ih => exact .cons (h.operandOf e).1 ih
  · intro hs
    exact List.map_congr_left fun e _ => (h.operandOf e).2 hs

theorem path? (e : Expr) :
    Option.Rel (c.Also Path.Like) (Compile.path? s e) (Compile.path? t e) := by
  unfold Compile.path?
  split
  · exact h.paths _
  · exact h.paths _
  · exact .none

/-- The name of another package is that of another package in both runs. -/
theorem other {name : String} (hs : ∀ p, s.table.own = some p → p.name ≠ name) :
    ∀ p, t.table.own = some p → p.name ≠ name := by
  intro q hq
  obtain ⟨p, hp, hqp⟩ := Table.own_some h.table.symm hq
  exact (Package.Like.of_unnumbered hqp).name ▸ hs p hp

/-- Another package that both runs know has the same class in both. -/
theorem known_like {package : String} (hown : ∀ p, s.table.own = some p → p.name ≠ package)
    {p q : Package} (hp : s.table.registry.package? package = some p)
    (hq : t.table.registry.package? package = some q) : p.Like q := by
  have hleft := h.left.knows package hown
  have hright := h.right.knows package (h.other hown)
  rw [Registry.answer, hp] at hleft
  rw [Registry.answer, hq] at hright
  have hboth := hleft.trans hright.symm
  cases hboth with
  | some hpq =>
    cases hpq with
    | ok hpq => exact hpq

theorem inClass {package : String} (hplaced : Placed s.table t.table package) (name : String) :
    s.inClass package name = t.inClass package name := by
  have hname : s.table.own.map (·.name) = t.table.own.map (·.name) := by
    rcases rel_cases (Table.own_rel h.table) with ⟨p, q, hp, hq, hpq⟩ | ⟨hp, hq⟩
    · rw [hp, hq]
      exact congrArg some (Package.Like.of_unnumbered hpq).name
    · rw [hp, hq]
  unfold State.inClass
  rw [← hname]
  split
  · rfl
  · -- a package that is not the unit's own is known to both runs, with the same class
    rename_i hother
    simp only [Bool.or_eq_true, decide_eq_true_eq, not_or] at hother
    rcases hplaced with (hempty | ⟨p, hp, hpname⟩) | ⟨hknown, hknown'⟩
    · exact absurd hempty hother.1
    · rw [hp] at hother
      exact absurd (congrArg some hpname) hother.2
    · obtain ⟨p, hp⟩ := Option.isSome_iff_exists.1 hknown
      obtain ⟨q, hq⟩ := Option.isSome_iff_exists.1 hknown'
      have hown (r : Package) (hr : s.table.own = some r) : r.name ≠ package := by
        intro hname
        rw [hr] at hother
        exact hother.2 (congrArg some hname)
      have hlike := h.known_like hown hp hq
      rw [hp, hq]
      exact congrArg (fun x => x ++ "." ++ name) hlike.className

theorem binding? (v : Variable) :
    Option.Rel (Bound s t) (s.binding? v) (t.binding? v) := by
  unfold State.binding?
  rcases rel_cases (h.bindings v.info.id) with ⟨a, b, hleft, hright, hab⟩ | ⟨hleft, hright⟩
  · rw [hleft, hright]
    obtain ⟨hty, hplaced⟩ := h.bound _ _ hleft
    refine .some ⟨hab, hty, ?_⟩
    unfold State.nameOf
    rw [← hab.package, ← hab.javaName]
    exact h.inClass hplaced _
  · rw [hleft, hright]
    exact .none

theorem isLocalDecl (v : Variable) : s.isLocalDecl v = t.isLocalDecl v := by
  unfold State.isLocalDecl
  rcases rel_cases (h.binding? v) with ⟨a, b, hleft, hright, hab⟩ | ⟨hleft, hright⟩
  · rw [hleft, hright, Option.any_some, Option.any_some, hab.like.isField]
  · rw [hleft, hright]

theorem bindingOf (v : Variable) :
    Agree (Bound s t) (Compile.bindingOf s v) (Compile.bindingOf t v) := by
  unfold Compile.bindingOf
  rcases rel_cases (h.binding? v) with ⟨a, b, hleft, hright, hab⟩ | ⟨hleft, hright⟩
  · rw [hleft, hright]
    exact .ok hab
  · rw [hleft, hright]
    exact .error _

theorem pathOf (e : Expr) :
    Agree (c.Also Path.Like) (Compile.pathOf s e) (Compile.pathOf t e) := by
  unfold Compile.pathOf
  rcases rel_cases (h.path? e) with ⟨a, b, hleft, hright, hab⟩ | ⟨hleft, hright⟩
  · rw [hleft, hright]
    exact .ok hab
  · rw [hleft, hright]
    exact .error _

/-! ## Changes that keep states twins -/

/-- A change of what the states share. -/
theorem of_shared {s' t' : State} (hs : s'.compared = s.compared) (ht : t'.compared = t.compared)
    (hshared : s'.shared = t'.shared) : Twins c s' t' := by
  simp only [State.compared, Prod.mk.injEq] at hs ht
  obtain ⟨htable, houtputs, hbindings, hsubs, hpaths, hmethods⟩ := hs
  obtain ⟨htable', houtputs', hbindings', -, hpaths', hmethods'⟩ := ht
  -- each field of the relation is about a compared field or the shared rest
  constructor
  · rw [houtputs, houtputs']
    exact h.outputs
  · rw [hpaths, hpaths']
    exact h.paths
  · rw [hmethods, hmethods']
    exact h.methods
  · rw [hbindings, hbindings']
    exact h.bindings
  · rw [hbindings, htable, htable']
    exact h.bound
  · rw [hsubs, htable, htable']
    exact h.called
  · rw [htable, htable']
    exact h.table
  · rw [htable]
    exact h.left
  · rw [htable']
    exact h.right
  · exact hshared

/-- A change of the tables in which known names stay known. -/
theorem setTable {a b : Table} (htable : a.ofUnit = b.ofUnit)
    (hleft : a.Tidy c.means c.left.catalog) (hright : b.Tidy c.means c.right.catalog)
    (hs : s.table.Grows a) (ht : t.table.Grows b) : Twins c (s.setTable a) (t.setTable b) :=
  { h with
    bound := fun id x hx => ⟨(h.bound id x hx).1, (h.bound id x hx).2.grows hs ht⟩
    called := fun id x hx => ⟨(h.called id x hx).1, (h.called id x hx).2.grows hs ht⟩
    table := htable
    left := hleft
    right := hright }

theorem putOutput (id : Nat) {out out' : Output} (hout : c.Also Output.Like out out') :
    Twins c { s with outputs := s.outputs.put id out }
      { t with outputs := t.outputs.put id out' } :=
  { h with outputs := rel_put h.outputs hout }

theorem putPath (id : Nat) {p q : Path} (hp : c.Also Path.Like p q) :
    Twins c { s with paths := s.paths.put id p } { t with paths := t.paths.put id q } :=
  { h with paths := rel_put h.paths hp }

theorem addMethod {m n : Method} (hm : c.Also (fun m n => m.signature = n.signature) m n) :
    Twins c { s with methods := s.methods ++ [m] } { t with methods := t.methods ++ [n] } :=
  { h with methods := List.rel_append h.methods (.cons hm .nil) }

theorem putBinding (id : Nat) {b b' : Binding} (hb : b.Like b') (hty : b.type.WellFormed)
    (hplaced : Placed s.table t.table b.package) :
    Twins c { s with bindings := s.bindings.put id b }
      { t with bindings := t.bindings.put id b' } :=
  { h with
    bindings := rel_put h.bindings hb
    bound := by
      intro n x hx
      by_cases hn : id = n
      · rw [hn, Keyed.get?_put_self] at hx
        cases hx
        exact ⟨hty, hplaced⟩
      · rw [Keyed.get?_put_of_ne _ _ hn] at hx
        exact h.bound n x hx }

theorem putSub (id : Nat) {x : Sub} (hty : x.returns.WellFormed)
    (hplaced : Placed s.table t.table x.package) :
    Twins c { s with subs := s.subs.put id x } { t with subs := t.subs.put id x } :=
  { h with
    called := by
      intro n y hy
      by_cases hn : id = n
      · rw [hn, Keyed.get?_put_self] at hy
        cases hy
        exact ⟨hty, hplaced⟩
      · rw [Keyed.get?_put_of_ne _ _ hn] at hy
        exact h.called n y hy
    shared := congrArg (fun r : State => { r with subs := r.subs.put id x }) h.shared }

end

end Twins

end Compile

end TypedPerl
