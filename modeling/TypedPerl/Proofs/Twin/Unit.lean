import TypedPerl.Proofs.Document.Places
import TypedPerl.Proofs.Twin.Walk

/-!
# Units in two runs

A document is compiled in two runs that may choose other options and know packages from elsewhere.
When names mean the same in both, the results are twins (`document_twin`). Behind the unit names
mean what they meant before, but for the package of the unit (`Table.Tidy.behind`), so that the next
unit can be compared in the same way.
-/

namespace TypedPerl

/-- The settings with other choices on the generated code. -/
def Settings.withOptions (s : Settings) (o : Compile.Options) : Settings :=
  { s with
    nullChecks := o.nullChecks, strictStatements := o.strictStatements, comments := o.comments }

namespace Compile

variable {c : Comparison}

/-! ## Results -/

/-- What the two runs give for a unit. -/
structure TwinResults (c : Comparison) (r r' : Result) : Prop where
  tree : r.tree = r'.tree
  state : Twins c r.state r'.state
  path : r.path = r'.path
  errors : r.errors = r'.errors
  text : c.same → r.text = r'.text

theorem classFor_eq (file className : String) {a b : Table} (h : a.ofUnit = b.ofUnit) :
    Java.classFor file className a.own = Java.classFor file className b.own := by
  rcases rel_cases (Table.own_rel h) with ⟨p, q, hp, hq, hpq⟩ | ⟨hp, hq⟩
  · rw [hp, hq]
    exact (Package.Like.of_unnumbered hpq).className
  · rw [hp, hq]

theorem methods_eq {s t : State} (h : Twins c s t) (hs : c.same) : s.methods = t.methods :=
  List.forall₂_eq_eq_eq ▸ h.methods.imp fun _ _ hmethod => hmethod.2 hs

section

variable {a b : Settings} {k l : Option Catalog}

/-- Passes over a tree give twin results: only the options and the catalogs differ. -/
theorem passes_twin (hleft : c.left = envOf a k) (hright : c.right = envOf b l)
    (hab : a.withOptions {} = b.withOptions {}) {u : SourceUnit} (hu : u.Typed) (count : Nat)
    {r r' : Result} (h : TwinResults c r r') :
    TwinResults c (passes a k u count r) (passes b l u count r') := by
  induction count generalizing r r' with
  | zero => exact h
  | succ n ih =>
    -- the settings agree on all that a class takes from them
    have hpackage : a.package = b.package := congrArg (·.package) hab
    have hruntime : a.runtimePackage = b.runtimePackage := congrArg (·.runtimePackage) hab
    have hout : a.outPath = b.outPath := congrArg (·.outPath) hab
    obtain ⟨hstates, hlines⟩ := pass_twin hu r.state r'.state h.state
    rw [passes, passes, ← hleft, ← hright]
    generalize pass u.stmts c.left r.state = p at hstates hlines ⊢
    generalize pass u.stmts c.right r'.state = q at hstates hlines ⊢
    obtain ⟨lines, st⟩ := p
    obtain ⟨lines', st'⟩ := q
    have hname := classFor_eq u.file u.className hstates.table
    have hmain : c.same → lines.toOption.getD [] = lines'.toOption.getD [] := by
      intro hs
      cases hlines with
      | ok hab => exact hab hs
      | error f => rfl
    have hfields : st.fields = st'.fields := congrArg (·.fields) hstates.shared
    refine ih ⟨rfl, hstates, ?_, ?_, fun hs => ?_⟩
    · dsimp only at hname ⊢
      rw [hname, hpackage, hout]
    · exact congrArg₂ (· ++ ·) h.errors (congrArg (·.errors) hstates.shared)
    · dsimp only at hname hmain ⊢
      rw [hname, hpackage, hruntime, hmain hs, hfields, methods_eq hstates hs]

/-- The run gives names the meaning that the comparison says. -/
theorem twins_start {x y : Registry}
    (hx : ∀ name, SameAnswer (x.answer c.left.catalog name) (c.means name))
    (hy : ∀ name, SameAnswer (y.answer c.right.catalog name) (c.means name)) :
    Twins c { table := { registry := x }, pending := {} }
      { table := { registry := y }, pending := {} } := by
  -- nothing is known at the start, so only the registries can differ
  have htidy {z : Registry} {catalog : Option Catalog}
      (hz : ∀ name, SameAnswer (z.answer catalog name) (c.means name)) :
      ({ registry := z } : Table).Tidy c.means catalog := by
    constructor
    · exact fun p hp => nomatch hp
    · exact fun name _ => hz name
    · intro s hs key b hb
      obtain rfl := List.mem_singleton.1 hs
      cases hb
    · exact fun key u hu => nomatch hu
    · exact fun key s hs => nomatch hs
  constructor
  · exact fun _ => .none
  · exact fun _ => .none
  · exact .nil
  · exact fun _ => .none
  · exact fun id b hb => nomatch hb
  · exact fun id x hx => nomatch hx
  · rfl
  · exact htidy hx
  · exact htidy hy
  · rfl

/-- A document gives twin results when names mean the same in both runs. -/
theorem document_twin (hleft : c.left = envOf a k) (hright : c.right = envOf b l)
    (hab : a.withOptions {} = b.withOptions {}) {x y : Registry}
    (hx : ∀ name, SameAnswer (x.answer k name) (c.means name))
    (hy : ∀ name, SameAnswer (y.answer l name) (c.means name)) (count : Nat)
    (text name : String) :
    TwinResults c (document a k x count text name) (document b l y count text name) := by
  have hstart := twins_start (c := c) (x := x) (y := y) (by rw [hleft]; exact hx)
    (by rw [hright]; exact hy)
  unfold document
  cases hdecode : SourceUnit.decode text name with
  | error f => exact ⟨rfl, hstart, rfl, rfl, fun _ => rfl⟩
  | ok u =>
    exact passes_twin hleft hright hab (SourceUnit.typed_of_decode hdecode) count
      ⟨rfl, hstart, rfl, rfl, fun _ => rfl⟩

end

/-! ## Behind a unit -/

end Compile

/-- What names mean behind a unit: the package of the unit is what the unit made of it. -/
def Table.behind (t : Table) (means : String → Option (Except Fault Package)) (name : String) :
    Option (Except Fault Package) :=
  match t.own with
  | some p => if p.name = name then some (.ok p) else means name
  | none => means name

namespace Table

variable {means : String → Option (Except Fault Package)} {t : Table}

theorem behind_own {p : Package} (h : t.own = some p) : t.behind means p.name = some (.ok p) := by
  unfold behind
  rw [h]
  exact if_pos rfl

theorem behind_other {name : String} (h : ∀ p, t.own = some p → p.name ≠ name) :
    t.behind means name = means name := by
  unfold behind
  split
  · rename_i p hp
    exact if_neg (h p hp)
  · rfl

namespace Tidy

variable {catalog : Option Catalog}

theorem behind_sound (h : t.Tidy means catalog)
    (hmeans : ∀ name p, means name = some (.ok p) → p.Sound ∧ p.name = name) (name : String)
    (p : Package) (hp : t.behind means name = some (.ok p)) : p.Sound ∧ p.name = name := by
  rcases t.own_or_other name with ⟨q, hq, rfl⟩ | hother
  · rw [behind_own hq] at hp
    cases hp
    exact ⟨(h.live p hq).1, rfl⟩
  · rw [behind_other hother] at hp
    exact hmeans name p hp

/-- Behind a unit the run knows the unit's package, and of other packages what it knew, when the
catalog still gives them. -/
theorem behind (h : t.Tidy means catalog) {catalog' : Option Catalog}
    (hkept : ∀ name, (∀ p, t.own = some p → p.name ≠ name) →
      catalog'.map (·.get name) = catalog.map (·.get name)) (name : String) :
    SameAnswer (t.registry.answer catalog' name) (t.behind means name) := by
  rcases t.own_or_other name with ⟨p, hp, rfl⟩ | hother
  · rw [behind_own hp, Registry.answer, (h.live p hp).2]
    exact .refl _
  · have hanswer : t.registry.answer catalog' name = t.registry.answer catalog name := by
      unfold Registry.answer
      rw [hkept name hother]
    rw [behind_other hother, hanswer]
    exact h.knows name hother

end Tidy

end Table

namespace Compile

/-- A unit is kept under the name of its package only. -/
theorem Result.get_keep (r : Result) (catalog : Catalog) {name : String}
    (h : ∀ p, r.state.table.own = some p → p.name ≠ name) :
    (r.keep catalog).get name = catalog.get name := by
  unfold Result.keep
  split
  · rename_i p u _ hown _
    exact catalog.get_put_of_ne u.file (h p hown)
  · rfl

/-! ## Runs -/

namespace Store

/-- What a later run starts with: the catalog is opened anew, and no package is known. -/
def reopen (s : Store) (build : Catalog.Build) : Store :=
  { catalog := s.catalog.map (·.reopen build) }

/-- Names of packages mean in the run what `means` says. -/
def Means (s : Store) (means : String → Option (Except Fault Package)) : Prop :=
  ∀ name, SameAnswer (s.registry.answer s.catalog name) (means name)

/-- A document gives twin results when names mean the same in both runs. -/
theorem compile_twin {c : Comparison} {a b : Settings} {s t : Store}
    (hleft : c.left = envOf a s.catalog) (hright : c.right = envOf b t.catalog)
    (hab : a.withOptions {} = b.withOptions {}) (hs : s.Means c.means) (ht : t.Means c.means)
    (count : Nat) (d : Source) : TwinResults c (s.compile a count d) (t.compile b count d) :=
  document_twin hleft hright hab hs ht count d.text d.name

/-- A run that starts asks the catalog for every name. -/
theorem means_start (catalog : Option Catalog) :
    ({ catalog := catalog } : Store).Means fun name => catalog.map (·.get name) :=
  fun _ => .refl _

/-- The catalog gives sound packages of their own names. -/
theorem sound_start (catalog : Option Catalog) (name : String) (p : Package)
    (h : catalog.map (·.get name) = some (.ok p)) : p.Sound ∧ p.name = name := by
  obtain ⟨c, -, hget⟩ := Option.map_eq_some_iff.1 h
  exact Catalog.get_sound hget

theorem means_after {s : Store} {r : Result} {means : String → Option (Except Fault Package)}
    (h : r.state.table.Tidy means s.catalog) : (s.after r).Means (r.state.table.behind means) := by
  refine h.behind fun name hname => ?_
  rw [after, Option.map_map]
  exact congrArg (s.catalog.map ·) (funext fun c => r.get_keep c hname)

end Store

end Compile

end TypedPerl
