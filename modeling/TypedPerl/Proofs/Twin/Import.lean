import TypedPerl.Proofs.Twin.Unit

/-!
# Packages of the same run and of earlier runs

A unit may use a package that an earlier unit of its run has opened, or one that an earlier run has
left in the catalog. Both ways give the same class: a unit is compiled behind another one, once in
the same run and once in a run of its own that knows the catalog only, and the results agree in all
that is written or reported (`SameClass`).
-/

namespace TypedPerl.Compile

/-- The two results are the same for whoever reads the class and the messages. -/
structure SameClass (r r' : Result) : Prop where
  /-- The tree. -/
  tree : r.tree = r'.tree
  /-- The faults in their order. -/
  errors : r.errors = r'.errors
  /-- The text of the class. -/
  text : r.text = r'.text
  /-- The file that it is written to. -/
  path : r.path = r'.path
  /-- What was generated for each node. -/
  outputs : ∀ id, r.state.outputs.get? id = r'.state.outputs.get? id
  /-- The loop variables that were made. -/
  made : r.state.made = r'.state.made

theorem TwinResults.sameClass {c : Comparison} {r r' : Result} (h : TwinResults c r r')
    (hs : c.same) : SameClass r r' where
  tree := h.tree
  errors := h.errors
  text := h.text hs
  path := h.path
  outputs id := by
    rcases rel_cases (h.state.outputs id) with ⟨o, o', ho, ho', hout⟩ | ⟨ho, ho'⟩
    · rw [ho, ho', hout.2 hs]
    · rw [ho, ho']
  made := congrArg (·.made) h.state.shared

/-! ## What a unit leaves in the catalog -/

theorem passes_tree (settings : Settings) (catalog : Option Catalog) (u : SourceUnit) (count : Nat)
    {r : Result} (h : r.tree = some u) : (passes settings catalog u count r).tree = some u := by
  induction count generalizing r with
  | zero => exact h
  | succ n ih => exact ih rfl

/-- A unit that has a package has a tree. -/
theorem document_tree {settings : Settings} {catalog : Option Catalog} {registry : Registry}
    {count : Nat} {text name : String} {p : Package}
    (h : (document settings catalog registry count text name).state.table.own = some p) :
    ∃ u, (document settings catalog registry count text name).tree = some u := by
  unfold document at h ⊢
  split at h
  · rename_i u _
    cases count with
    | zero => cases h
    | succ n => exact ⟨u, passes_tree settings catalog u n rfl⟩
  · cases h

/-- The package of a unit without faults comes back from the catalog. -/
theorem get_keep_own {r : Result} (catalog : Catalog) {p : Package} (herrors : r.errors = [])
    (hown : r.state.table.own = some p) (htree : ∃ u, r.tree = some u) (hp : p.Sound) :
    ∃ q, (r.keep catalog).get p.name = .ok q ∧ p.Like q := by
  obtain ⟨u, hu⟩ := htree
  have hkeep : r.keep catalog = catalog.put p u.file := by
    unfold Result.keep
    rw [herrors, hown, hu]
  obtain ⟨q, hq, hrestored⟩ := Catalog.get_ofPackage (c := r.keep catalog) hp
    (by rw [hkeep, Catalog.records_put catalog hp]; exact Keyed.get?_put_self _ _ _)
  exact ⟨q, hq, .of_restored hrestored⟩

/-! ## The same run and a later one -/

/-- A unit that is compiled behind a unit without faults gives the same in the same run, where the
packages of that unit are known, and in a later run, where only the catalog knows them. -/
theorem compile_across_runs (settings : Settings) (catalog : Catalog) (build : Catalog.Build)
    (count : Nat) (d e : Source) :
    let start : Store := { catalog := some catalog }
    let first := start.compile settings count d
    first.errors = [] →
    SameClass ((start.after first).compile settings count e)
      (((start.after first).reopen build).compile settings count e) := by
  intro start first herrors
  have hsound := Store.sound_start start.catalog
  let alone : Comparison :=
    { left := envOf settings start.catalog, right := envOf settings start.catalog, same := True,
      means := fun name => start.catalog.map (·.get name), options := fun _ => rfl,
      sound := hsound }
  have hfirst : TwinResults alone first first :=
    Store.compile_twin rfl rfl rfl (Store.means_start _) (Store.means_start _) count d
  have htidy := hfirst.state.left
  let means := first.state.table.behind alone.means
  -- the catalog alone gives names the meaning that they have behind the unit
  have hlater : ((start.after first).reopen build).Means means := by
    intro name
    change SameAnswer (some ((first.keep catalog).get name)) (means name)
    rcases first.state.table.own_or_other name with ⟨p, hp, rfl⟩ | hother
    · obtain ⟨q, hq, hlike⟩ := get_keep_own catalog herrors hp (document_tree hp)
        (htidy.live p hp).1
      rw [hq, show means p.name = _ from Table.behind_own hp]
      exact .some (.ok hlike.symm)
    · rw [first.get_keep catalog hother, show means name = _ from Table.behind_other hother]
      exact .refl _
  let both : Comparison :=
    { left := envOf settings (start.after first).catalog,
      right := envOf settings ((start.after first).reopen build).catalog, same := True,
      means := means, options := fun _ => rfl, sound := htidy.behind_sound hsound }
  have hsecond : TwinResults both ((start.after first).compile settings count e)
      (((start.after first).reopen build).compile settings count e) :=
    Store.compile_twin rfl rfl rfl (Store.means_after (s := start) htidy) hlater count e
  exact hsecond.sameClass trivial

/-- A package with a variable. -/
def palette : Source where
  text := "statements:\n- kind: package\n  name: Palette\n- kind: var\n  sigil: $\n" ++
    "  name: red\n  decl: our\n  type: <integer>\n"
  name := "palette.pdt.yaml"

/-- A unit that counts the variable of the package up. -/
def painter : Source where
  text := "statements:\n- kind: incdec\n  op: ++\n  target:\n    kind: var\n    sigil: $\n" ++
    "    name: red\n    package: Palette\n"
  name := "painter.pdt.yaml"

/-- The package goes through the catalog, and the unit that uses it has no faults. -/
theorem painter_across_runs :
    let start : Store := { catalog := some {} }
    let first := start.compile {} 1 palette
    let later := (start.after first).reopen { id := "second" }
    first.errors = [] ∧ first.state.table.own.isSome = true ∧
      (later.compile {} 1 painter).errors = [] ∧
      SameClass ((start.after first).compile {} 1 painter) (later.compile {} 1 painter) := by
  intro start first later
  -- all the runs are evaluated together, as each is a long one
  have hcompiled : (first.errors.isEmpty && first.state.table.own.isSome &&
      (later.compile {} 1 painter).errors.isEmpty) = true := by
    decide +kernel
  simp only [Bool.and_eq_true, List.isEmpty_iff] at hcompiled
  obtain ⟨⟨herrors, hown⟩, hlater⟩ := hcompiled
  exact ⟨herrors, hown, hlater,
    compile_across_runs {} {} { id := "second" } 1 palette painter herrors⟩

end TypedPerl.Compile
