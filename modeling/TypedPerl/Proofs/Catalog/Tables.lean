import Mathlib.Data.List.Nodup
import TypedPerl.Proofs.Catalog.Packages

/-!
# Three tables and one entry

A package is spread over three tables, in which an export replaces its rows by deleting and
inserting (`Catalog.replace`). `Catalog.records` brings the rows of each package together, so that
the catalog is a map from names to entries. The tables refine this map: an export of a sound package
is never refused and puts one entry (`Catalog.records_put`), whatever rows the tables held before,
and an import and the listing read the entries only (`Catalog.get_eq`, `Catalog.list_eq`).

`Catalog.get_ofPackage`: a sound package comes back from its entry with all that it shows to other
units. The rows of an entry are sorted while the package lists the latest declaration first, so the
two are compared by what they give for a name and not as lists.
-/

namespace TypedPerl

/-! ## Rows of tables -/

namespace Keyed

variable {κ α : Type}

theorem mem_select {m : Keyed κ α} {test : κ → Bool} {e : κ × α} :
    e ∈ m.select test ↔ e ∈ m ∧ test e.1 = true :=
  List.mem_filter

theorem mem_eraseAll {m : Keyed κ α} {test : κ → Bool} {e : κ × α} :
    e ∈ m.eraseAll test ↔ e ∈ m ∧ test e.1 = false := by
  simp [eraseAll]

theorem select_append (m n : Keyed κ α) (test : κ → Bool) :
    select (m ++ n) test = m.select test ++ n.select test :=
  List.filter_append m n

/-- Rows that belong to `n` in place of those that a table held: of `n` the table then holds these,
and of others what it held. -/
theorem select_replace (owner : κ → String) (table rows : Keyed κ α) {n : String}
    (h : ∀ e ∈ rows, owner e.1 = n) (other : String) :
    select (table.eraseAll (owner · = n) ++ rows) (owner · = other) =
      if n = other then rows else table.select (owner · = other) := by
  rw [select_append]
  split
  · next heq =>
    subst heq
    have hleft : (table.eraseAll (owner · = n)).select (owner · = n) = [] :=
      List.filter_eq_nil_iff.mpr fun e he => by simp [(mem_eraseAll.mp he).2]
    have hnew : rows.select (owner · = n) = rows :=
      List.filter_eq_self.mpr fun e he => decide_eq_true (h e he)
    rw [hleft, hnew, List.nil_append]
  · next hne =>
    -- what was deleted belongs to `n`, and so does what is new
    have hleft : (table.eraseAll (owner · = n)).select (owner · = other) =
        table.select (owner · = other) := by
      rw [select, eraseAll, List.filter_filter]
      refine List.filter_congr fun e _ => ?_
      by_cases howner : owner e.1 = other
      · simp [howner, Ne.symm hne]
      · simp [howner]
    have hnew : rows.select (owner · = other) = [] :=
      List.filter_eq_nil_iff.mpr fun e he => by simp [h e he, hne]
    rw [hleft, hnew, List.append_nil]

variable [DecidableEq κ]

theorem get?_eq_none_iff {m : Keyed κ α} {k : κ} : m.get? k = none ↔ ∀ a, (k, a) ∉ m := by
  induction m with
  | nil => simp [get?]
  | cons e m ih =>
    obtain ⟨k', b⟩ := e
    rw [get?_cons]
    by_cases hk : k' = k
    · rw [if_pos hk]
      exact iff_of_false (by simp) fun h => h b (hk ▸ List.mem_cons_self)
    · simp [hk, ih, Ne.symm hk]

/-- Rows go in if their keys are free and not among them twice; they then stand behind the
others. -/
theorem insertAll?_eq_some_iff {m rows n : Keyed κ α} :
    m.insertAll? rows = some n ↔
      rows.Distinct ∧ (∀ k a b, (k, a) ∈ rows → (k, b) ∉ m) ∧ n = m ++ rows := by
  induction rows generalizing m with
  | nil => simp [insertAll?, distinct_nil, eq_comm]
  | cons e rows ih =>
    obtain ⟨k, a⟩ := e
    have hstep : m.insertAll? ((k, a) :: rows) =
        (m.insert? k a).bind fun m' => m'.insertAll? rows := rfl
    rw [hstep, insert?, distinct_cons]
    split
    · next htaken =>
      -- the first key is taken
      obtain ⟨b, hb⟩ := Option.isSome_iff_exists.mp htaken
      refine iff_of_false (by simp) ?_
      rintro ⟨-, hfree, -⟩
      exact hfree k a b List.mem_cons_self (mem_of_get? hb)
    · next hfree =>
      have hfirst : ∀ b, (k, b) ∉ m := by
        rw [← get?_eq_none_iff]
        simpa using hfree
      rw [Option.bind_some, ih, List.append_assoc, List.singleton_append]
      constructor
      · rintro ⟨hrows, hothers, hn⟩
        refine ⟨⟨fun b hb => ?_, hrows⟩, fun k' a' b hmem hb => ?_, hn⟩
        · exact hothers k b a hb (List.mem_append_right _ List.mem_cons_self)
        · rcases List.mem_cons.mp hmem with heq | hmem
          · cases heq
            exact hfirst b hb
          · exact hothers k' a' b hmem (List.mem_append_left _ hb)
      · rintro ⟨⟨hnot, hrows⟩, hothers, hn⟩
        refine ⟨hrows, fun k' a' b hmem hb => ?_, hn⟩
        rcases List.mem_append.mp hb with hb | hb
        · exact hothers k' a' b (List.mem_cons_of_mem _ hmem) hb
        · cases List.mem_singleton.mp hb
          exact hnot a' hmem

end Keyed

theorem Sigil.ofText?_toText (s : Sigil) : Sigil.ofText? s.toText = some s := by
  cases s <;> rfl

namespace Catalog

/-! ## The rows of a package -/

theorem package_of_varRows {p : Package} : ∀ e ∈ varRows p, e.1.package = p.name :=
  List.forall_mem_map.mpr fun _ _ => rfl

theorem package_of_subRows {p : Package} : ∀ e ∈ subRows p, e.1.package = p.name :=
  List.forall_mem_map.mpr fun _ _ => rfl

/-- The variables of a sound package are those that it lists. -/
theorem perm_vars {p : Package} (h : p.Sound) :
    (p.varList.map fun b => ((b.name, b.sigil), b)).Perm p.vars :=
  Package.perm_rows h.vars_key (List.mergeSort_perm _ _)

/-- The subroutines of a sound package are those that it lists. -/
theorem perm_subs {p : Package} (h : p.Sound) : (p.subList.map fun s => (s.name, s)).Perm p.subs :=
  Package.perm_rows h.subs_key (List.mergeSort_perm _ _)

/-- No two variables of a sound package have the same key. -/
theorem varRows_distinct {p : Package} (h : p.Sound) : (varRows p).Distinct := by
  have hlisted := h.vars_distinct.perm (perm_vars h)
  have hkeys : (varRows p).keys = (Keyed.keys (p.varList.map fun b => ((b.name, b.sigil), b))).map
      fun k => ⟨p.name, k.1, k.2.toText⟩ := by
    simp [varRows, Keyed.keys]
  rw [Keyed.Distinct, hkeys]
  refine List.Nodup.map (fun k k' heq => ?_) hlisted
  -- a mark is read back from its text
  injection heq with _ hname hsigil
  have hmark := congrArg Sigil.ofText? hsigil
  rw [Sigil.ofText?_toText, Sigil.ofText?_toText] at hmark
  exact Prod.ext hname (Option.some.inj hmark)

/-- No two subroutines of a sound package have the same key. -/
theorem subRows_distinct {p : Package} (h : p.Sound) : (subRows p).Distinct := by
  have hlisted := h.subs_distinct.perm (perm_subs h)
  have hkeys : (subRows p).keys = (Keyed.keys (p.subList.map fun s => (s.name, s))).map
      fun k => ⟨p.name, k⟩ := by
    simp [subRows, Keyed.keys]
  rw [Keyed.Distinct, hkeys]
  exact List.Nodup.map (fun k k' heq => (SubKey.mk.inj heq).2) hlisted

/-! ## Exports -/

/-- The tables with the rows of a package in place of those that they held of it. -/
def replaced (c : Catalog) (p : Package) (source : String) : Catalog where
  packages := c.packages.put p.name ⟨p.className, source, c.build⟩
  vars := c.vars.eraseAll (·.package = p.name) ++ varRows p
  subs := c.subs.eraseAll (·.package = p.name) ++ subRows p
  build := c.build

/-- Rows of a package go into a table from which those of the package were deleted. -/
theorem insertAll?_erased {κ α : Type} [DecidableEq κ] (table rows : Keyed κ α) (test : κ → Bool)
    (h : ∀ e ∈ rows, test e.1 = true) {n : Keyed κ α} :
    (table.eraseAll test).insertAll? rows = some n ↔
      rows.Distinct ∧ n = table.eraseAll test ++ rows := by
  rw [Keyed.insertAll?_eq_some_iff]
  have hfree : ∀ k a b, (k, a) ∈ rows → (k, b) ∉ table.eraseAll test := by
    intro k a b hmem hleft
    have hkept := (Keyed.mem_eraseAll.mp hleft).2
    rw [h (k, a) hmem] at hkept
    cases hkept
  exact ⟨fun hin => ⟨hin.1, hin.2.2⟩, fun hin => ⟨hin.1, hfree, hin.2⟩⟩

/-- An export succeeds if no row of the package has the key of another one, and then replaces the
rows of the package. -/
theorem replace_eq_ok_iff {c c' : Catalog} {p : Package} {source : String} :
    c.replace p source = .ok c' ↔
      (varRows p).Distinct ∧ (subRows p).Distinct ∧ c' = c.replaced p source := by
  have hvars {n : Keyed VarKey VarRow} :=
    insertAll?_erased c.vars (varRows p) (·.package = p.name)
      (fun e he => by simpa using package_of_varRows e he) (n := n)
  have hsubs {n : Keyed SubKey SubRow} :=
    insertAll?_erased c.subs (subRows p) (·.package = p.name)
      (fun e he => by simpa using package_of_subRows e he) (n := n)
  unfold replace insertVars insertSubs dropSubs dropVars setPackage
  dsimp only
  cases hv : (c.vars.eraseAll (·.package = p.name)).insertAll? (varRows p) with
  | none =>
    refine iff_of_false (fun h => nomatch h) fun h => ?_
    rw [hvars.mpr ⟨h.1, rfl⟩] at hv
    cases hv
  | some vars =>
    obtain ⟨hdistinct, rfl⟩ := hvars.mp hv
    dsimp only [bind, Except.bind]
    cases hs : (c.subs.eraseAll (·.package = p.name)).insertAll? (subRows p) with
    | none =>
      refine iff_of_false (fun h => nomatch h) fun h => ?_
      rw [hsubs.mpr ⟨h.2.1, rfl⟩] at hs
      cases hs
    | some subs =>
      obtain ⟨hdistinct', rfl⟩ := hsubs.mp hs
      simp [hdistinct, hdistinct', replaced, eq_comm]

/-- An export of a sound package is never refused. -/
theorem replace_sound (c : Catalog) {p : Package} (h : p.Sound) (source : String) :
    c.replace p source = .ok (c.replaced p source) :=
  replace_eq_ok_iff.mpr ⟨varRows_distinct h, subRows_distinct h, rfl⟩

theorem put_sound (c : Catalog) {p : Package} (h : p.Sound) (source : String) :
    c.put p source = c.replaced p source := by
  rw [put, replace_sound c h source]

/-- An export replaces the rows of the package, or none. -/
theorem put_cases (c : Catalog) (p : Package) (source : String) :
    c.put p source = c.replaced p source ∨ c.put p source = c := by
  unfold put
  split
  · next c' h => exact .inl (replace_eq_ok_iff.mp h).2.2
  · exact .inr rfl

/-! ## One entry for each package -/

/-- What the tables hold of a package. -/
structure Record where
  /-- Its own row. -/
  row : PackageRow
  /-- The rows of its variables. -/
  vars : Keyed VarKey VarRow
  /-- The rows of its subroutines. -/
  subs : Keyed SubKey SubRow

/-- The entry of a package that is exported from a file by a build. -/
def Record.ofPackage (p : Package) (source : String) (build : Build) : Record where
  row := ⟨p.className, source, build⟩
  vars := varRows p
  subs := subRows p

/-- The catalog as a map from names to entries. -/
def records (c : Catalog) : Keyed String Record :=
  c.packages.map fun e => (e.1, ⟨e.2, c.varsOf e.1, c.subsOf e.1⟩)

theorem records_get? (c : Catalog) (n : String) :
    c.records.get? n = (c.packages.get? n).map fun row => ⟨row, c.varsOf n, c.subsOf n⟩ := by
  unfold records
  induction c.packages with
  | nil => rfl
  | cons e rest ih =>
    obtain ⟨k, row⟩ := e
    rw [List.map_cons, Keyed.get?_cons, Keyed.get?_cons, ih]
    split
    · next h => rw [h, Option.map_some]
    · rfl

theorem varsOf_replaced (c : Catalog) (p : Package) (source n : String) :
    (c.replaced p source).varsOf n = if p.name = n then varRows p else c.varsOf n :=
  Keyed.select_replace VarKey.package c.vars (varRows p) package_of_varRows n

theorem subsOf_replaced (c : Catalog) (p : Package) (source n : String) :
    (c.replaced p source).subsOf n = if p.name = n then subRows p else c.subsOf n :=
  Keyed.select_replace SubKey.package c.subs (subRows p) package_of_subRows n

/-- To replace the rows of a package is to put one entry, whatever the tables held before. -/
theorem records_replaced (c : Catalog) (p : Package) (source : String) :
    (c.replaced p source).records = c.records.put p.name (.ofPackage p source c.build) := by
  have hfront : (⟨⟨p.className, source, c.build⟩, (c.replaced p source).varsOf p.name,
      (c.replaced p source).subsOf p.name⟩ : Record) = .ofPackage p source c.build := by
    rw [varsOf_replaced, subsOf_replaced, if_pos rfl, if_pos rfl]
    rfl
  -- the entries of other packages hold the rows that they held
  have hothers : (c.packages.erase p.name).map (fun e =>
      (e.1, (⟨e.2, (c.replaced p source).varsOf e.1, (c.replaced p source).subsOf e.1⟩ : Record))) =
      c.records.erase p.name := by
    rw [records, Keyed.erase, Keyed.erase, List.filter_map]
    refine List.map_congr_left fun e he => ?_
    have hne : e.1 ≠ p.name := by simpa using (List.mem_filter.mp he).2
    rw [varsOf_replaced, subsOf_replaced, if_neg hne.symm, if_neg hne.symm]
  rw [records, Keyed.put, ← hfront, ← hothers]
  rfl

/-- An export of a sound package puts one entry. -/
theorem records_put (c : Catalog) {p : Package} (h : p.Sound) (source : String) :
    (c.put p source).records = c.records.put p.name (.ofPackage p source c.build) := by
  rw [put_sound c h, records_replaced]

/-- The package of an entry, built up row by row. -/
def Record.load (n : String) (r : Record) : Except Fault Package := do
  let p ← r.vars.foldlM addVar { Package.new n with className := r.row.className }
  r.subs.foldlM addSub p

/-- An import reads one entry. -/
theorem get_eq (c : Catalog) (n : String) :
    c.get n = match c.records.get? n with
      | none => .error (.context n .packageNotFound)
      | some r => r.load n := by
  rw [get, records_get?]
  cases c.packages.get? n <;> rfl

/-- The line of an entry in the listing. -/
def Record.entry (n : String) (r : Record) : Entry :=
  ⟨n, r.row.className, r.row.source, r.row.build⟩

/-- The listing shows the entries. -/
theorem list_eq (c : Catalog) :
    c.list = (c.records.map fun e => e.2.entry e.1).mergeSort fun a b => a.name ≤ b.name := by
  rw [list, records, List.map_map]
  rfl

/-- An export of a package leaves the other ones as they are, also when it is refused. -/
theorem get_put_of_ne (c : Catalog) {p : Package} (source : String) {n : String}
    (h : p.name ≠ n) : (c.put p source).get n = c.get n := by
  rcases put_cases c p source with hput | hput
  · rw [hput, get_eq, get_eq, records_replaced, Keyed.get?_put_of_ne _ _ h]
  · rw [hput]

/-! ## What comes back -/

theorem decodeType_toCbor (words : String) {t : Ty} (h : t.WellFormed) :
    decodeType words t.toCbor = .ok t := by
  rw [decodeType, Ty.ofCbor_toCbor h]

/-- A variable of a package as an importing unit sees it: the depth of its declaration is not
kept. -/
def atFile (b : Binding) : Binding :=
  { b with depth := 0 }

/-- The rows of public variables of a package enter the variables themselves. -/
theorem foldlM_addVar (bs : List Binding) (p : Package) (n : String)
    (hown : ∀ b ∈ bs, b.isPublic = true ∧ b.package = p.name)
    (hty : ∀ b ∈ bs, b.type.WellFormed) :
    (bs.map fun b => ((⟨n, b.name, b.sigil.toText⟩ : VarKey),
        (⟨b.javaName, b.type.toCbor⟩ : VarRow))).foldlM addVar p
      = .ok { p with vars :=
          (bs.map fun b => ((b.name, b.sigil), atFile b)).foldl (fun m e => m.put e.1 e.2) p.vars }
          := by
  induction bs generalizing p with
  | nil => rfl
  | cons b bs ih =>
    obtain ⟨hpub, hpkg⟩ := hown b List.mem_cons_self
    -- a type that is well formed is read back from its bytes
    have hadd : addVar p (⟨n, b.name, b.sigil.toText⟩, ⟨b.javaName, b.type.toCbor⟩)
        = .ok { p with vars := p.vars.put (b.name, b.sigil) (atFile b) } := by
      simp only [addVar, Sigil.ofText?_toText, decodeType_toCbor _ (hty b List.mem_cons_self),
        Package.addVar, atFile]
      rw [← hpkg, ← hpub]
      rfl
    rw [List.map_cons, List.foldlM_cons, hadd]
    exact ih _ (fun c hc => hown c (List.mem_cons_of_mem _ hc))
      (fun c hc => hty c (List.mem_cons_of_mem _ hc))

/-- The rows of subroutines of a package enter the subroutines themselves. -/
theorem foldlM_addSub (ss : List Sub) (p : Package) (n : String)
    (hown : ∀ s ∈ ss, s.package = p.name) (hty : ∀ s ∈ ss, s.returns.WellFormed) :
    (ss.map fun s => ((⟨n, s.name⟩ : SubKey),
        (⟨s.javaName, s.returns.toCbor⟩ : SubRow))).foldlM addSub p
      = .ok { p with subs :=
          (ss.map fun s => (s.name, s)).foldl (fun m e => m.put e.1 e.2) p.subs } := by
  induction ss generalizing p with
  | nil => rfl
  | cons s ss ih =>
    -- a type that is well formed is read back from its bytes
    have hadd : addSub p (⟨n, s.name⟩, ⟨s.javaName, s.returns.toCbor⟩)
        = .ok { p with subs := p.subs.put s.name s } := by
      simp only [addSub, decodeType_toCbor _ (hty s List.mem_cons_self), Package.addSub]
      rw [← hown s List.mem_cons_self]
      rfl
    rw [List.map_cons, List.foldlM_cons, hadd]
    exact ih _ (fun c hc => hown c (List.mem_cons_of_mem _ hc))
      (fun c hc => hty c (List.mem_cons_of_mem _ hc))

/-- The package `q` that an import gives for the exported package `p`: it has the class, every
variable by name and mark and every subroutine by name, and nothing else. -/
structure Restored (p q : Package) : Prop where
  /-- It is a sound package. -/
  sound : q.Sound
  /-- It has the name. -/
  name : q.name = p.name
  /-- It has the class. -/
  className : q.className = p.className
  /-- It has the variables. -/
  var : ∀ x sigil, q.var? x sigil = (p.var? x sigil).map atFile
  /-- They are public variables of the package. -/
  own : ∀ x sigil b, q.var? x sigil = some b → b.isPublic = true ∧ b.package = p.name
  /-- It has the subroutines. -/
  sub : ∀ x, q.sub? x = p.sub? x

theorem Restored.of_sound {p q : Package} (hq : q.Sound) (hname : q.name = p.name)
    (hclass : q.className = p.className)
    (hvar : ∀ x sigil, q.var? x sigil = (p.var? x sigil).map atFile)
    (hsub : ∀ x, q.sub? x = p.sub? x) : Restored p q where
  sound := hq
  name := hname
  className := hclass
  var := hvar
  own := fun _ _ b hb => hname ▸ hq.vars_own _ b (Keyed.mem_of_get? hb)
  sub := hsub

/-- A sound package comes back from its entry. -/
theorem get_ofPackage {c : Catalog} {p : Package} (h : p.Sound) {source : String} {build : Build}
    (hc : c.records.get? p.name = some (.ofPackage p source build)) :
    ∃ q, c.get p.name = .ok q ∧ Restored p q := by
  have hvars := perm_vars h
  have hsubs := perm_subs h
  have hvar {b : Binding} (hb : b ∈ p.varList) : ((b.name, b.sigil), b) ∈ p.vars :=
    hvars.mem_iff.1 (List.mem_map_of_mem hb)
  have hsub {s : Sub} (hs : s ∈ p.subList) : (s.name, s) ∈ p.subs :=
    hsubs.mem_iff.1 (List.mem_map_of_mem hs)
  -- the rows are sorted, but they are the ones of the package
  have hrebuild := foldlM_addVar p.varList { Package.new p.name with className := p.className }
    p.name (fun b hb => h.vars_own _ b (hvar hb)) (fun b hb => h.vars_type _ b (hvar hb))
  have hget : c.get p.name = Record.load p.name (.ofPackage p source build) := by
    rw [get_eq, hc]
  rw [Record.load, Record.ofPackage, varRows, subRows, hrebuild] at hget
  replace hget := hget.trans (foldlM_addSub _ _ p.name (fun s hs => h.subs_own _ s (hsub hs))
    (fun s hs => h.subs_type _ s (hsub hs)))
  refine ⟨_, hget, .of_sound (get_sound hget).1 rfl rfl ?_ ?_⟩
  · intro x sigil
    have hrows : (p.varList.map fun b => ((b.name, b.sigil), atFile b))
        = (p.varList.map fun b => ((b.name, b.sigil), b)).map fun e => (e.1, atFile e.2) := by
      simp
    simp only [Package.var?, Package.new]
    rw [hrows, Keyed.get?_foldl_put ((h.vars_distinct.perm hvars).map_values atFile),
      Keyed.get?_map_values, h.vars_distinct.get?_perm hvars]
    simp [Keyed.get?]
  · intro x
    simp only [Package.sub?, Package.new]
    rw [Keyed.get?_foldl_put (h.subs_distinct.perm hsubs), h.subs_distinct.get?_perm hsubs]
    simp [Keyed.get?]

end Catalog

end TypedPerl
