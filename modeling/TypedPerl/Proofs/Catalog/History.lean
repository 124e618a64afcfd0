import TypedPerl.Proofs.Catalog.Tables

/-!
# The last export counts

What a catalog holds after any row of exports, imports and reopenings. One step decides what its
name gives (`Catalog.Holds.step`), and by induction a whole row leaves, for every name, the package
of its last export and in the tables no row of the ones before (`Catalog.holds_run`). The listing
shows every exported name once, in the order of its bytes.
-/

namespace TypedPerl.Catalog

/-! ## Rows of operations -/

/-- What can be done with a catalog. -/
inductive Operation where
  /-- Exports a package from a file. -/
  | put (p : Package) (source : String)
  /-- Imports the package of a name. -/
  | get (name : String)
  /-- Opens the catalog anew. -/
  | reopen (build : Build)

/-- The catalog after an operation. An import leaves it as it is. -/
def step (c : Catalog) : Operation → Catalog
  | .put p source => c.put p source
  | .get _ => c
  | .reopen build => c.reopen build

/-- The catalog after a row of operations, which starts out empty. -/
def run (ops : List Operation) : Catalog :=
  ops.foldl step {}

/-- The package and the file of an operation that exports a name. -/
def Operation.exported? (n : String) : Operation → Option (Package × String)
  | .put p source => if p.name = n then some (p, source) else none
  | .get _ | .reopen _ => none

/-- The package and the file of the last export of a name. -/
def lastPut (n : String) (ops : List Operation) : Option (Package × String) :=
  ops.reverse.findSome? (·.exported? n)

theorem Operation.exported?_eq_some_iff {n : String} {op : Operation} {p : Package}
    {source : String} : op.exported? n = some (p, source) ↔ op = .put p source ∧ p.name = n := by
  cases op with
  | put q s =>
    simp only [exported?, Option.ite_none_right_eq_some, Option.some.injEq, Prod.mk.injEq,
      Operation.put.injEq]
    grind
  | get | reopen => simp [exported?]

theorem lastPut_append (n : String) (ops : List Operation) (op : Operation) :
    lastPut n (ops ++ [op]) = (op.exported? n).or (lastPut n ops) := by
  rw [lastPut, lastPut, List.reverse_append, List.reverse_singleton, List.singleton_append,
    List.findSome?_cons]
  cases op.exported? n <;> rfl

/-- What exports nothing is not the last export of a name. -/
theorem lastPut_eq_of_not_exported (ops : List Operation) (op : Operation)
    (h : ∀ n, op.exported? n = none) (n : String) : lastPut n (ops ++ [op]) = lastPut n ops := by
  rw [lastPut_append, h n, Option.none_or]

theorem mem_of_lastPut {n : String} {ops : List Operation} {p : Package} {source : String}
    (h : lastPut n ops = some (p, source)) : .put p source ∈ ops ∧ p.name = n := by
  obtain ⟨op, hmem, hop⟩ := List.exists_of_findSome?_eq_some h
  obtain ⟨rfl, hname⟩ := Operation.exported?_eq_some_iff.1 hop
  exact ⟨List.mem_reverse.1 hmem, hname⟩

/-- A name has a last export unless it was never exported. -/
theorem lastPut_eq_none_iff (n : String) (ops : List Operation) :
    lastPut n ops = none ↔ ∀ p source, .put p source ∈ ops → p.name ≠ n := by
  rw [lastPut, List.findSome?_eq_none_iff]
  constructor
  · intro h p source hmem hname
    have := h _ (List.mem_reverse.2 hmem)
    rw [Operation.exported?_eq_some_iff.2 ⟨rfl, hname⟩] at this
    cases this
  · intro h op hop
    cases hput : op.exported? n with
    | none => rfl
    | some e =>
      obtain ⟨rfl, hname⟩ := Operation.exported?_eq_some_iff.1 hput
      exact absurd hname (h _ _ (List.mem_reverse.1 hop))

/-! ## What a catalog holds -/

/-- The catalog holds the last exports of a row of operations, each once and under its name, and its
tables hold no other row. -/
structure Holds (c : Catalog) (ops : List Operation) : Prop where
  /-- No entry is shadowed. -/
  distinct : c.records.Distinct
  /-- A name that was not exported gives nothing. -/
  absent : ∀ n, lastPut n ops = none → c.records.get? n = none
  /-- A name gives the entry of its last export. -/
  present : ∀ n p source, lastPut n ops = some (p, source) →
    ∃ build, c.records.get? n = some (.ofPackage p source build)
  /-- A variable in the table is one of the last export of its package. -/
  vars : ∀ e ∈ c.vars, ∃ p source, lastPut e.1.package ops = some (p, source) ∧ e ∈ varRows p
  /-- A subroutine in the table is one of the last export of its package. -/
  subs : ∀ e ∈ c.subs, ∃ p source, lastPut e.1.package ops = some (p, source) ∧ e ∈ subRows p

theorem holds_empty : Holds {} [] where
  distinct := Keyed.distinct_nil
  absent := fun _ _ => rfl
  present := by simp [lastPut]
  vars := by simp
  subs := by simp

/-- The same tables hold the last exports of another row of operations with the same exports. -/
theorem Holds.of_same {c c' : Catalog} {ops ops' : List Operation} (h : c.Holds ops)
    (hrecords : c'.records = c.records) (hvars : c'.vars = c.vars) (hsubs : c'.subs = c.subs)
    (hlast : ∀ n, lastPut n ops' = lastPut n ops) : c'.Holds ops' := by
  constructor
  · rw [hrecords]
    exact h.distinct
  · intro n hn
    rw [hrecords]
    exact h.absent n (hlast n ▸ hn)
  · intro n p source hn
    rw [hrecords]
    exact h.present n p source (hlast n ▸ hn)
  · intro e he
    rw [hlast]
    exact h.vars e (hvars ▸ he)
  · intro e he
    rw [hlast]
    exact h.subs e (hsubs ▸ he)

/-- Rows of the last exports stay so when those of a package are replaced. -/
theorem last_rows_replaced {κ α : Type} (owner : κ → String) {rows : Package → Keyed κ α}
    {table : Keyed κ α} {ops : List Operation} (p : Package) (source : String)
    (h : ∀ e ∈ table, ∃ q s, lastPut (owner e.1) ops = some (q, s) ∧ e ∈ rows q)
    (hrows : ∀ e ∈ rows p, owner e.1 = p.name) :
    ∀ e ∈ table.eraseAll (owner · = p.name) ++ rows p,
      ∃ q s, lastPut (owner e.1) (ops ++ [.put p source]) = some (q, s) ∧ e ∈ rows q := by
  intro e he
  rw [lastPut_append, Operation.exported?]
  rcases List.mem_append.mp he with he | he
  · -- what was not deleted belongs to another package
    obtain ⟨hmem, hother⟩ := Keyed.mem_eraseAll.mp he
    have hne : p.name ≠ owner e.1 := by simpa [ne_comm] using hother
    rw [if_neg hne, Option.none_or]
    exact h e hmem
  · rw [if_pos (hrows e he).symm, Option.some_or]
    exact ⟨p, source, rfl, he⟩

/-- One operation. -/
theorem Holds.step {c : Catalog} {ops : List Operation} (h : c.Holds ops) (op : Operation)
    (hsound : ∀ p source, op = .put p source → p.Sound) : (c.step op).Holds (ops ++ [op]) := by
  -- only an export changes the catalog
  cases op with
  | put p source =>
    have hp := hsound p source rfl
    have hrecords := records_put c hp source
    have hvars := last_rows_replaced VarKey.package p source h.vars package_of_varRows
    have hsubs := last_rows_replaced SubKey.package p source h.subs package_of_subRows
    have hput : c.step (.put p source) = c.replaced p source := put_sound c hp source
    refine ⟨?_, ?_, ?_, by rwa [hput], by rwa [hput]⟩
    · exact hrecords ▸ h.distinct.put _ _
    · intro n hn
      obtain ⟨hother, hn⟩ := Option.or_eq_none_iff.1 ((lastPut_append _ _ _).symm.trans hn)
      have hname : p.name ≠ n := by
        intro h
        simp [Operation.exported?, h] at hother
      rw [Catalog.step, hrecords, Keyed.get?_put_of_ne _ _ hname]
      exact h.absent n hn
    · intro n q s hn
      rw [lastPut_append] at hn
      rw [Catalog.step, hrecords]
      by_cases hname : p.name = n
      · simp only [Operation.exported?, if_pos hname, Option.some_or] at hn
        cases hn
        exact ⟨c.build, hname ▸ Keyed.get?_put_self _ _ _⟩
      · simp only [Operation.exported?, if_neg hname, Option.none_or] at hn
        obtain ⟨build, hbuild⟩ := h.present n q s hn
        exact ⟨build, (Keyed.get?_put_of_ne _ _ hname).trans hbuild⟩
  | get n => exact h.of_same rfl rfl rfl (lastPut_eq_of_not_exported ops (.get n) fun _ => rfl)
  | reopen build =>
    exact h.of_same rfl rfl rfl (lastPut_eq_of_not_exported ops (.reopen build) fun _ => rfl)

/-- A whole row of operations. -/
theorem Holds.steps {c : Catalog} {before : List Operation} (h : c.Holds before)
    (ops : List Operation) (hsound : ∀ p source, .put p source ∈ ops → p.Sound) :
    (ops.foldl Catalog.step c).Holds (before ++ ops) := by
  induction ops generalizing c before with
  | nil => simpa using h
  | cons op ops ih =>
    have hfirst := h.step op fun p source hop => hsound p source (hop ▸ List.mem_cons_self)
    simpa using ih hfirst fun p source hmem => hsound p source (List.mem_cons_of_mem _ hmem)

theorem holds_run (ops : List Operation) (hsound : ∀ p source, .put p source ∈ ops → p.Sound) :
    (run ops).Holds ops :=
  holds_empty.steps ops hsound

/-! ## Rows -/

/-- The variables in the table are those of the last exports. -/
theorem Holds.mem_vars_iff {c : Catalog} {ops : List Operation} (h : c.Holds ops)
    (e : VarKey × VarRow) :
    e ∈ c.vars ↔ ∃ p source, lastPut e.1.package ops = some (p, source) ∧ e ∈ varRows p := by
  refine ⟨h.vars e, ?_⟩
  rintro ⟨p, source, hlast, he⟩
  obtain ⟨build, hentry⟩ := h.present _ p source hlast
  obtain ⟨row, -, hrecord⟩ := Option.map_eq_some_iff.mp ((records_get? c _).symm.trans hentry)
  have hrows : c.varsOf e.1.package = varRows p := congrArg Record.vars hrecord
  exact (Keyed.mem_select.mp (hrows ▸ he)).1

/-- The subroutines in the table are those of the last exports. -/
theorem Holds.mem_subs_iff {c : Catalog} {ops : List Operation} (h : c.Holds ops)
    (e : SubKey × SubRow) :
    e ∈ c.subs ↔ ∃ p source, lastPut e.1.package ops = some (p, source) ∧ e ∈ subRows p := by
  refine ⟨h.subs e, ?_⟩
  rintro ⟨p, source, hlast, he⟩
  obtain ⟨build, hentry⟩ := h.present _ p source hlast
  obtain ⟨row, -, hrecord⟩ := Option.map_eq_some_iff.mp ((records_get? c _).symm.trans hentry)
  have hrows : c.subsOf e.1.package = subRows p := congrArg Record.subs hrecord
  exact (Keyed.mem_select.mp (hrows ▸ he)).1

/-! ## Imports -/

theorem Holds.get_last {c : Catalog} {ops : List Operation} (h : c.Holds ops)
    (hsound : ∀ p source, .put p source ∈ ops → p.Sound) {n : String} {p : Package}
    {source : String} (hlast : lastPut n ops = some (p, source)) :
    ∃ q, c.get n = .ok q ∧ Restored p q := by
  obtain ⟨hmem, rfl⟩ := mem_of_lastPut hlast
  obtain ⟨build, hentry⟩ := h.present _ p source hlast
  exact get_ofPackage (hsound p source hmem) hentry

theorem Holds.notFound_iff {c : Catalog} {ops : List Operation} (h : c.Holds ops)
    (hsound : ∀ p source, .put p source ∈ ops → p.Sound) (n : String) :
    c.get n = .error (.context n .packageNotFound) ↔ lastPut n ops = none := by
  constructor
  · intro hget
    cases hlast : lastPut n ops with
    | none => rfl
    | some last =>
      obtain ⟨q, hq, -⟩ := h.get_last hsound hlast
      cases hget.symm.trans hq
  · intro hlast
    rw [get_eq, h.absent n hlast]

/-! ## The listing -/

/-- A listed entry is what its name gives. -/
theorem Holds.mem_list_iff {c : Catalog} {ops : List Operation} (h : c.Holds ops) {e : Entry} :
    e ∈ c.list ↔ ∃ r, c.records.get? e.name = some r ∧ r.entry e.name = e := by
  rw [list_eq, (List.mergeSort_perm _ _).mem_iff, List.mem_map]
  constructor
  · rintro ⟨⟨n, r⟩, hmem, rfl⟩
    exact ⟨r, h.distinct.get?_iff.mpr hmem, rfl⟩
  · rintro ⟨r, hr, he⟩
    exact ⟨(e.name, r), Keyed.mem_of_get? hr, he⟩

/-- The listing goes up strictly, so no name stands in it twice. -/
theorem Holds.list_sorted {c : Catalog} {ops : List Operation} (h : c.Holds ops) :
    (c.list.map (·.name)).Pairwise (· < ·) := by
  -- in order, and without repetition as names are keys
  have hle : (c.list.map (·.name)).Pairwise (· ≤ ·) := by
    rw [List.pairwise_map]
    have hsorted := @List.pairwise_mergeSort Entry (fun a b => decide (a.name ≤ b.name))
      (fun a b c hab hbc => by
        simp only [decide_eq_true_eq] at *
        exact String.le_trans hab hbc)
      (fun a b => by
        simp only [Bool.or_eq_true, decide_eq_true_eq]
        exact String.le_total _ _)
      (c.records.map fun e => e.2.entry e.1)
    rw [list_eq]
    exact hsorted.imp fun h => by simpa using h
  have hnodup : (c.list.map (·.name)).Nodup := by
    have hkeys : (c.records.map fun e => e.2.entry e.1).map (·.name) = c.records.keys := by
      rw [List.map_map]
      rfl
    rw [list_eq]
    exact ((List.mergeSort_perm _ _).map _).nodup_iff.2 (hkeys ▸ h.distinct)
  exact (hle.and hnodup).imp fun h => Std.lt_of_le_of_ne h.1 h.2

/-- A listed entry is that of a last export. -/
theorem Holds.listed {c : Catalog} {ops : List Operation} (h : c.Holds ops) {e : Entry}
    (he : e ∈ c.list) :
    ∃ p, lastPut e.name ops = some (p, e.source) ∧ e.className = p.className := by
  obtain ⟨r, hentry, hr⟩ := h.mem_list_iff.1 he
  cases hlast : lastPut e.name ops with
  | none =>
    rw [h.absent _ hlast] at hentry
    cases hentry
  | some last =>
    obtain ⟨p, source⟩ := last
    obtain ⟨build, hbuild⟩ := h.present _ p source hlast
    cases hentry.symm.trans hbuild
    rw [← hr]
    exact ⟨p, rfl, rfl⟩

theorem Holds.mem_names_iff {c : Catalog} {ops : List Operation} (h : c.Holds ops) (n : String) :
    n ∈ c.list.map (·.name) ↔ ∃ p source, .put p source ∈ ops ∧ p.name = n := by
  constructor
  · intro hn
    obtain ⟨e, he, rfl⟩ := List.mem_map.1 hn
    obtain ⟨p, hlast, -⟩ := h.listed he
    obtain ⟨hmem, hname⟩ := mem_of_lastPut hlast
    exact ⟨p, e.source, hmem, hname⟩
  · rintro ⟨p, source, hmem, hp⟩
    -- a name that was exported has a last export
    cases hlast : lastPut n ops with
    | none => exact absurd hp ((lastPut_eq_none_iff n ops).1 hlast p source hmem)
    | some last =>
      obtain ⟨q, s⟩ := last
      obtain ⟨build, hbuild⟩ := h.present n q s hlast
      exact List.mem_map.2 ⟨Record.entry n (.ofPackage q s build),
        h.mem_list_iff.2 ⟨_, hbuild, rfl⟩, rfl⟩

/-! ## The last export of every name -/

/-- After any row of exports, imports and reopenings, an import gives the package of the last export
of its name, and it fails just when the name was never exported. The listing shows the exported
names once, in the order of their bytes, each with the class and the file of its last export. The
tables of variables and subroutines hold the rows of the last exports and no other row. -/
theorem last_export_counts (ops : List Operation)
    (hsound : ∀ p source, .put p source ∈ ops → p.Sound) :
    (∀ n p source, lastPut n ops = some (p, source) →
      ∃ q, (run ops).get n = .ok q ∧ Restored p q)
    ∧ (∀ n, (run ops).get n = .error (.context n .packageNotFound)
        ↔ ∀ p source, .put p source ∈ ops → p.name ≠ n)
    ∧ ((run ops).list.map (·.name)).Pairwise
        (fun m n => m.toUTF8.data.toList < n.toUTF8.data.toList)
    ∧ (∀ n, n ∈ (run ops).list.map (·.name) ↔ ∃ p source, .put p source ∈ ops ∧ p.name = n)
    ∧ (∀ e ∈ (run ops).list,
        ∃ p, lastPut e.name ops = some (p, e.source) ∧ e.className = p.className)
    ∧ (∀ e, e ∈ (run ops).vars ↔
        ∃ p source, lastPut e.1.package ops = some (p, source) ∧ e ∈ varRows p)
    ∧ ∀ e, e ∈ (run ops).subs ↔
        ∃ p source, lastPut e.1.package ops = some (p, source) ∧ e ∈ subRows p := by
  -- each part is an invariant of the catalog, taken at the end of the history
  have h := holds_run ops hsound
  refine ⟨?_, ?_, h.list_sorted.imp Text.utf8_lt, h.mem_names_iff, fun e he => h.listed he,
    h.mem_vars_iff, h.mem_subs_iff⟩
  · intro n p source hlast
    exact h.get_last hsound hlast
  · intro n
    rw [← lastPut_eq_none_iff]
    exact h.notFound_iff hsound n

/-- A package that is exported twice, with another one and a reopening in between. The second export
drops a variable, changes the type of another and adds a subroutine. -/
def shrinkingExports : List Operation :=
  [.put ((((Package.new "Store").addVar
      { name := "x", sigil := .scalar, type := .integer, javaName := "x", isPublic := true,
        depth := 2 }).addVar
      { name := "y", sigil := .hash, type := .agg .map .string, javaName := "y",
        isPublic := true, depth := 0 })) "a.pl",
    .put (Package.new "Shop::Store") "b.pl",
    .reopen ⟨"second", "later"⟩,
    .get "Store",
    .put (((Package.new "Store").addVar
      { name := "x", sigil := .scalar, type := .ref (.agg .list (.object "Point")),
        javaName := "pd_1x", isPublic := true, depth := 0 }).addSub
      { name := "total", javaName := "total", returns := .long }) "c.pl"]

/-- Imports after `shrinkingExports` give the second package alone, with its new type. -/
theorem shrinkingExports_store :
    (∀ p source, .put p source ∈ shrinkingExports → p.Sound)
    ∧ ∃ q, (run shrinkingExports).get "Store" = .ok q
      ∧ (q.var? "x" .scalar).map (·.type) = some (.ref (.agg .list (.object "Point")))
      ∧ q.var? "y" .hash = none ∧ (q.sub? "total").isSome = true := by
  have hsound : ∀ p source, .put p source ∈ shrinkingExports → p.Sound := by
    intro p source hmem
    simp only [shrinkingExports, List.mem_cons, Operation.put.injEq, reduceCtorEq, List.not_mem_nil,
      or_false, false_or] at hmem
    rcases hmem with ⟨rfl, -⟩ | ⟨rfl, -⟩ | ⟨rfl, -⟩
    · refine .addVar (.addVar (Package.sound_empty _ _ _) rfl ?_) rfl ?_
      · exact trivial
      · exact trivial
    · exact Package.sound_empty _ _ _
    · refine .addSub (.addVar (Package.sound_empty _ _ _) rfl ?_) ?_
      · exact (show "Point" ≠ "" by decide)
      · exact trivial
  obtain ⟨q, hget, hq⟩ := (last_export_counts shrinkingExports hsound).1 "Store" _ _ rfl
  refine ⟨hsound, q, hget, ?_⟩
  -- what comes back is looked up in the last export
  rw [hq.var, hq.var, hq.sub]
  exact ⟨rfl, rfl, rfl⟩

end TypedPerl.Catalog
