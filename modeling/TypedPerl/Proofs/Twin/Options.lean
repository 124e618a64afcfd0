import TypedPerl.Proofs.Twin.Unit

/-!
# Options on the generated code

The options say how the code is written: whether values are guarded against being undefined, whether
statements without effect stay, whether comments are kept. Two runs over the same documents that
differ in their options only find the same (`SameAnalysis`): one unit keeps what the runs hand on
alike (`TwinStores.unit`), and so does a run of any length (`TwinStores.compileAll`).
-/

namespace TypedPerl

/-- Behind a unit that left the same in both runs, names mean the same. -/
theorem Table.behind_like {s t : Table} (h : s.ofUnit = t.ofUnit)
    (means : String → Option (Except Fault Package)) (name : String) :
    SameAnswer (t.behind means name) (s.behind means name) := by
  unfold behind
  rcases rel_cases (own_rel h) with ⟨p, q, hp, hq, hpq⟩ | ⟨hp, hq⟩
  · have hlike := Package.Like.of_unnumbered hpq
    rw [hp, hq]
    dsimp only
    rw [hlike.name]
    split
    · exact .some (.ok hlike.symm)
    · exact .refl _
  · rw [hp, hq]
    exact .refl _

namespace Compile

/-! ## What the options leave alone -/

/-- What the two results have in common when only options differ. -/
structure SameAnalysis (r r' : Result) : Prop where
  /-- The tree. -/
  tree : r.tree = r'.tree
  /-- The faults in their order. -/
  errors : r.errors = r'.errors
  /-- The fields of the class. -/
  fields : r.state.fields = r'.state.fields
  /-- The methods, but for their bodies. -/
  signatures : r.state.methods.map Method.signature = r'.state.methods.map Method.signature
  /-- The nodes that were generated, each with its type and whether it is raw. -/
  nodes : ∀ id, (r.state.outputs.get? id).map (fun o => (o.type, o.raw)) =
    (r'.state.outputs.get? id).map fun o => (o.type, o.raw)
  /-- The numbered identifiers that were handed out. -/
  pool : r.state.table.pool = r'.state.table.pool
  /-- The identifier of the variable that a node means. -/
  bindings : ∀ id, (r.state.bindings.get? id).map (·.javaName) =
    (r'.state.bindings.get? id).map (·.javaName)
  /-- The subroutines that nodes mean, with their identifiers. -/
  subs : r.state.subs = r'.state.subs

section

variable {c : Comparison} {r r' : Result} (h : TwinResults c r r')

include h

theorem TwinResults.sameAnalysis : SameAnalysis r r' where
  tree := h.tree
  errors := h.errors
  fields := congrArg (·.fields) h.state.shared
  signatures := by
    rw [← List.forall₂_eq_eq_eq, List.forall₂_map_left_iff, List.forall₂_map_right_iff]
    exact h.state.methods.imp fun _ _ hmethod => hmethod.1
  nodes id := by
    rcases rel_cases (h.state.outputs id) with ⟨o, o', ho, ho', hlike⟩ | ⟨ho, ho'⟩
    · simp only [ho, ho', Option.map_some, hlike.1.type, hlike.1.raw]
    · rw [ho, ho']
  pool := congrArg (·.pool) h.state.table
  bindings id := by
    rcases rel_cases (h.state.bindings id) with ⟨b, b', hb, hb', hlike⟩ | ⟨hb, hb'⟩
    · simp only [hb, hb', Option.map_some, hlike.javaName]
    · rw [hb, hb']
  subs := h.state.subs

/-- The same goes into the catalog. -/
theorem TwinResults.keep_eq : r.keep = r'.keep := by
  funext catalog
  unfold Result.keep
  rw [h.errors, h.tree]
  rcases rel_cases (Table.own_rel h.state.table) with ⟨p, q, hp, hq, hpq⟩ | ⟨hp, hq⟩
  · -- the number of the edition is not kept
    have hput (source : String) : catalog.put p source = catalog.put q source := by
      change catalog.put p.unnumbered source = catalog.put q.unnumbered source
      rw [hpq]
    rw [hp, hq]
    cases r'.errors with
    | cons f rest => rfl
    | nil =>
      cases r'.tree with
      | none => rfl
      | some u => exact hput u.file
  · rw [hp, hq]

end

/-! ## Runs of several units -/

/-- What two runs hand on when only options differ. -/
structure TwinStores (means : String → Option (Except Fault Package)) (s t : Store) : Prop where
  catalog : s.catalog = t.catalog
  left : s.Means means
  right : t.Means means
  sound : ∀ name p, means name = some (.ok p) → p.Sound ∧ p.name = name

theorem twinStores_start (catalog : Option Catalog) :
    TwinStores (fun name => catalog.map (·.get name)) { catalog := catalog }
      { catalog := catalog } :=
  ⟨rfl, Store.means_start catalog, Store.means_start catalog, Store.sound_start catalog⟩

/-- One unit: the runs find the same, and hand on the same. -/
theorem TwinStores.unit {means : String → Option (Except Fault Package)} {s t : Store}
    (h : TwinStores means s t) (settings : Settings) (x y : Options) (count : Nat) (d : Source) :
    SameAnalysis (s.compile (settings.withOptions x) count d)
      (t.compile (settings.withOptions y) count d) ∧
    ∃ means', TwinStores means' (s.after (s.compile (settings.withOptions x) count d))
      (t.after (t.compile (settings.withOptions y) count d)) := by
  -- the runs may differ in their options, so nothing is said of the codes
  let c : Comparison :=
    { left := envOf (settings.withOptions x) s.catalog,
      right := envOf (settings.withOptions y) t.catalog, same := False, means := means,
      options := False.elim, sound := h.sound }
  have hresults : TwinResults c (s.compile (settings.withOptions x) count d)
      (t.compile (settings.withOptions y) count d) :=
    Store.compile_twin rfl rfl (by rfl) h.left h.right count d
  refine ⟨hresults.sameAnalysis, _, ?_, Store.means_after hresults.state.left, fun name => ?_,
    hresults.state.left.behind_sound h.sound⟩
  · exact congrArg₂ Option.map hresults.keep_eq h.catalog
  · exact (Store.means_after hresults.state.right name).trans
      (Table.behind_like hresults.state.table means name)

/-- Compiles documents in order: the result of each, and what is handed on in the end. -/
def Store.compileAll (s : Store) (settings : Settings) (count : Nat) :
    List Source → List Result × Store
  | [] => ([], s)
  | d :: rest =>
    let r := s.compile settings count d
    let (rs, s') := (s.after r).compileAll settings count rest
    (r :: rs, s')

theorem TwinStores.compileAll {means : String → Option (Except Fault Package)} {s t : Store}
    (h : TwinStores means s t) (settings : Settings) (x y : Options) (count : Nat)
    (ds : List Source) :
    List.Forall₂ SameAnalysis (s.compileAll (settings.withOptions x) count ds).1
      (t.compileAll (settings.withOptions y) count ds).1 ∧
    (s.compileAll (settings.withOptions x) count ds).2.catalog =
      (t.compileAll (settings.withOptions y) count ds).2.catalog := by
  induction ds generalizing means s t with
  | nil => exact ⟨.nil, h.catalog⟩
  | cons d rest ih =>
    obtain ⟨hunit, means', hafter⟩ := h.unit settings x y count d
    obtain ⟨hrest, hcatalog⟩ := ih hafter
    exact ⟨.cons hunit hrest, hcatalog⟩

/-- The options decide nothing but the code: two runs over the same documents, with the same catalog
at the start, find the same in every unit and leave the same catalog. -/
theorem compileAll_options (settings : Settings) (x y : Options) (catalog : Option Catalog)
    (count : Nat) (ds : List Source) :
    let one := ({ catalog := catalog } : Store).compileAll (settings.withOptions x) count ds
    let other := ({ catalog := catalog } : Store).compileAll (settings.withOptions y) count ds
    List.Forall₂ SameAnalysis one.1 other.1 ∧ one.2.catalog = other.2.catalog :=
  (twinStores_start catalog).compileAll settings x y count ds

end Compile

end TypedPerl
