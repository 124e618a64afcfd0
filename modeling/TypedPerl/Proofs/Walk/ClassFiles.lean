import TypedPerl.Proofs.Catalog.Tables
import TypedPerl.Proofs.Scope.ClassNames
import TypedPerl.Proofs.Walk.Lexical

/-!
# Units and their class files

Wherever a package comes from, from a unit of the run or from the catalog, its class is the one that
follows from its name (`Table.Classed`): every step of the walk keeps this, so that the file of a
unit and the qualified names in its text follow from names of packages too.
-/

namespace TypedPerl

/-! ## Packages with the classes of their names -/

/-- Packages stand under their names, and have the classes of these. -/
def Registry.Classed (r : Registry) : Prop :=
  ∀ name p, r.package? name = some p → p.name = name ∧ p.className = Package.classFor name

/-- All packages of a table have the classes of their names. -/
structure Table.Classed (t : Table) : Prop where
  own : ∀ p, t.own = some p → p.className = Package.classFor p.name
  registry : t.registry.Classed

/-- Packages are kept with the classes of their names. -/
def Catalog.Classed (c : Catalog) : Prop :=
  ∀ name row, c.packages.get? name = some row → row.className = Package.classFor name

namespace Registry

theorem package?_put (r : Registry) (p : Package) (name : String) :
    (r.put p).2.package? name =
      if p.name = name then some { p with edition := r.next } else r.package? name := by
  show (r.packages.put p.name _).get? name = _
  split
  · next h => rw [← h, Keyed.get?_put_self]
  · next h =>
    rw [Keyed.get?_put_of_ne _ _ h]
    rfl

theorem Classed.put {r : Registry} (h : r.Classed) {p : Package}
    (hp : p.className = Package.classFor p.name) : (r.put p).2.Classed := by
  intro name q hq
  rw [package?_put] at hq
  split at hq
  · next hname =>
    cases hq
    exact ⟨hname, hname ▸ hp⟩
  · exact h name q hq

theorem Classed.refresh {r : Registry} (h : r.Classed) {p : Package}
    (hp : p.className = Package.classFor p.name) : (r.refresh p).Classed := by
  unfold Registry.refresh
  split
  · split
    -- the package put back is classed by hypothesis, every other one as before
    · intro name q hq
      have hget : (r.packages.put p.name p).get? name = some q := hq
      by_cases hname : p.name = name
      · rw [← hname, Keyed.get?_put_self] at hget
        cases hget
        exact ⟨hname, hname ▸ hp⟩
      · rw [Keyed.get?_put_of_ne _ _ hname] at hget
        exact h name q hget
    · exact h
  · exact h

end Registry

/-- What is taken from the catalog has the name that was asked for, and the class of its row. -/
theorem Catalog.get_class {c : Catalog} {name : String} {p : Package} (h : c.get name = .ok p) :
    ∃ row, c.packages.get? name = some row ∧ p.name = name ∧ p.className = row.className := by
  -- what is added to a package changes neither
  refine get_keeps h (fun p => ∃ row, c.packages.get? name = some row ∧
    p.name = name ∧ p.className = row.className) ?_ ?_ ?_
  · exact fun row hrow => ⟨row, hrow, rfl, rfl⟩
  · exact fun _ _ _ _ hp => hp
  · exact fun _ _ _ hp => hp

namespace Table.Classed

variable {t t' : Table}

theorem of_same (h : t.Classed) (hown : t'.own = t.own) (hreg : t'.registry = t.registry) :
    t'.Classed := by
  constructor
  · rw [hown]
    exact h.own
  · rw [hreg]
    exact h.registry

theorem enter (h : t.Classed) (kind : ScopeKind) : (t.enter kind).Classed :=
  h.of_same rfl rfl

theorem updateOwn (h : t.Classed) {p : Package} (hp : p.className = Package.classFor p.name) :
    (t.updateOwn p).Classed where
  own q hq := by
    cases hq
    exact hp
  registry := h.registry.refresh hp

theorem putInnermost (h : t.Classed) (b : Binding) : (t.putInnermost b).Classed := by
  unfold Table.putInnermost
  dsimp only
  split
  · exact h.of_same rfl rfl
  · exact h.of_same rfl rfl

theorem declare (h : t.Classed) (name : String) (sigil : Sigil) (type : Ty) (isPublic : Bool) :
    (t.declare name sigil type isPublic).2.Classed := by
  have hpool (pool : Name.AliasPool) : ({ t with pool := pool, used := true } : Table).Classed :=
    h.of_same rfl rfl
  unfold Table.declare
  dsimp only
  split
  · next p hown =>
    have hvar (b : Binding) : (p.addVar b).className = Package.classFor (p.addVar b).name :=
      h.own p hown
    exact ((hpool _).updateOwn (hvar _)).putInnermost _
  · exact (hpool _).putInnermost _

theorem declareSub (h : t.Classed) (name : String) (returns : Ty) :
    (t.declareSub name returns).2.Classed := by
  have hpool (pool : Name.AliasPool) : ({ t with pool := pool, used := true } : Table).Classed :=
    h.of_same rfl rfl
  unfold Table.declareSub
  dsimp only
  split
  · next p hown =>
    have hsub (s : Sub) : (p.addSub s).className = Package.classFor (p.addSub s).name :=
      h.own p hown
    exact (hpool _).updateOwn (hsub _)
  · exact h.of_same rfl rfl

theorem openPackage (h : t.Classed) (name : String) : (t.openPackage name).2.Classed := by
  unfold Table.openPackage
  split
  · exact h
  · refine ⟨fun p hp => ?_, h.registry.put rfl⟩
    cases hp
    rfl

end Table.Classed

namespace Compile

variable {α β : Type}

/-! ## Steps -/

/-- Every run of the step keeps the classes of packages, if the catalog has them. -/
def Classing (x : Compile α) : Prop :=
  ∀ env st, (∀ c, env.catalog = some c → c.Classed) → st.table.Classed →
    (x env st).2.table.Classed

namespace Classing

theorem pure (a : α) : Classing (Pure.pure a : Compile α) := fun _ _ _ h => h

theorem throw (f : Fault) : Classing (MonadExcept.throw f : Compile α) := fun _ _ _ h => h

theorem change {f : State → State} (h : ∀ st, (f st).table = st.table) :
    Classing (modify f : Compile Unit) := by
  intro env st _ hst
  show (f st).table.Classed
  rw [h]
  exact hst

theorem onTable {f : Table → α × Table} (h : ∀ t : Table, t.Classed → (f t).2.Classed) :
    Classing (Compile.onTable f) := fun _ st _ hst => h st.table hst

theorem bind {x : Compile α} {k : α → Compile β} (hx : Classing x) (hk : ∀ a, Classing (k a)) :
    Classing (x >>= k) := by
  intro env st henv hst
  rw [run_bind]
  have hfirst := hx env st henv hst
  generalize x env st = r at hfirst ⊢
  rcases r with ⟨f | a, st'⟩
  · exact hfirst
  · exact hk a env st' henv hfirst

theorem get_bind {k : State → Compile α} (h : ∀ st, Classing (k st)) :
    Classing (get >>= k) := fun env st => h st env st

theorem located {x : Compile α} (h : Classing x) (pos : Pos) : Classing (Compile.located pos x) := h

end Classing

theorem Drawing.classing {x : Compile α} (h : Drawing x) : Classing x := by
  intro env st _ hst
  obtain ⟨pool, hpool⟩ := (h env st).table
  rw [hpool]
  exact hst.of_same rfl rfl

theorem resolvePackage_classing (name : String) (pos : Pos) :
    Classing (resolvePackage name pos) := by
  refine .get_bind fun st => ?_
  split
  · exact .pure _
  · intro env st henv hst
    rw [run_read_bind]
    rcases hcat : env.catalog with _ | c
    · exact hst
    · dsimp only
      rcases hget : c.get name with f | p
      · exact hst
      -- a package of the catalog is classed by the entry it is read from
      · obtain ⟨e, hentry, hname, hclass⟩ := Catalog.get_class hget
        refine ⟨hst.own, hst.registry.put ?_⟩
        rw [hclass, hname]
        exact henv c hcat name e hentry

theorem lookupVariable_classing (v : Variable) : Classing (lookupVariable v) := by
  refine .get_bind fun st => ?_
  split
  · split
    · exact .pure _
    · exact .throw _
  · split
    · exact .pure _
    · refine .bind (resolvePackage_classing _ _) fun p => ?_
      split
      · exact .pure _
      · exact .throw _

theorem resolveVariableWith_classing (v : Variable) (fallback : Option Ty) :
    Classing (resolveVariableWith v fallback) := by
  have hbind (b : Binding) : Classing (setBinding v.info.id b) := .change fun _ => rfl
  have htype : Classing (declaredType v fallback) := by
    refine .bind (.onTable fun t h => ?_) fun announced => ?_
    · exact h.of_same rfl rfl
    · dsimp only
      split
      · exact .throw _
      · split
        · exact .pure _
        · exact .throw _
  have hdeclare (t : Ty) : Classing (declareVariable v t) := by
    intro env st _ hst
    rcases declareVariable_run v t env st with ⟨f, hrun⟩ | hrun
    · rw [hrun]
      exact hst
    · rw [hrun]
      exact hst.declare _ _ _ _
  -- known, declared or looked up: only a declaration changes the table
  rw [resolveVariableWith_eq]
  refine .get_bind fun st => ?_
  split
  · exact .pure _
  · split
    · exact htype.bind hdeclare
    · exact (lookupVariable_classing v).bind hbind

theorem resolveCall_classing (info : Info) (package name : String) :
    Classing (resolveCall info package name) := by
  have hset (s : Sub) : Classing (setSub info.id s) := .change fun _ => rfl
  -- a call only ever loads a package and notes the subroutine it means
  refine .get_bind fun st => ?_
  split
  · exact .pure _
  · split
    · split
      · exact hset _
      · exact .throw _
    · split
      · exact hset _
      · refine .bind (resolvePackage_classing _ _) fun p => ?_
        split
        · exact hset _
        · exact .throw _

theorem variableOutput_classing (v : Variable) (u : Usage) : Classing (variableOutput v u) := by
  intro env st _ hst
  rcases h : st.binding? v with _ | b
  · rw [run_variableOutput_unbound h]
    exact hst
  · obtain ⟨fields, hrun⟩ := run_variableOutput h u env
    rw [hrun]
    exact hst

theorem setOutput_classing (id : Nat) (out : Output) : Classing (setOutput id out) :=
  (setOutput_drawing id out).classing

theorem finishExpr_classing (e : Expr) (u : Usage) : Classing (finishExpr e u) := by
  have hresolve : Classing (resolveExpr e) := by
    cases e with
    | var v => exact resolveVariableWith_classing v none
    | call i package name args => exact resolveCall_classing i package name
    | _ => exact .pure _
  have hgenerate : Classing (exprOutput e u) := by
    cases e with
    | var v => exact variableOutput_classing v u
    | _ => exact (exprOutput_drawing rfl u).classing
  exact .bind (hresolve.located _) fun _ =>
    (hgenerate.bind fun out => setOutput_classing e.id out).located _

theorem finishAll_classing (ps : List (Expr × Usage)) : Classing (finishAll ps) := by
  induction ps with
  | nil => exact .pure _
  | cons p rest ih => exact .bind (finishExpr_classing p.1 p.2) fun _ => ih

theorem resolvePackageDecl_classing (pos : Pos) (name : String) :
    Classing (resolvePackageDecl pos name) := by
  refine .get_bind fun st => ?_
  split
  · exact .pure _
  · refine .bind (.onTable fun t h => h.openPackage name) fun opened => ?_
    split
    · exact .throw _
    · exact .pure _

theorem resolveUse_classing (pos : Pos) (name : String) : Classing (resolveUse pos name) := by
  unfold resolveUse
  split
  · exact .pure _
  · exact .bind (resolvePackage_classing name pos) fun _ => .pure _

theorem Own.run_classing (o : Own) : Classing o.step.run := by
  cases o with
  | expr | exprs | value =>
    intro env st
    rw [Own.run_visits rfl]
    exact finishAll_classing _ env st
  | loopVar i var implicit list =>
    have hfind : Classing (loopVariable i var implicit) := by
      cases var with
      | some v => exact .pure v
      | none =>
        refine .bind (.change fun st => ?_) fun _ => .pure _
        split
        · rfl
        · rfl
    refine hfind.bind fun v => .get_bind fun st => ?_
    refine (resolveVariableWith_classing v _).bind fun _ => ?_
    exact ((variableOutput_classing v .void).bind fun out =>
      setOutput_classing v.info.id out).located _
  | branch i => exact (setOutput_classing i.id {}).located i.pos
  | package i name => exact (resolvePackageDecl_classing i.pos name).located i.pos
  | use i name => exact (resolveUse_classing i.pos name).located i.pos
  | pragma targets type =>
    intro env st _ hst
    -- announced types are no packages, so any number of them leaves the classes
    have hfold (t : Table) (h : t.Classed) :
        (targets.foldl (fun t x => t.announce (announceKey x.sigil x.name) type) t).Classed := by
      induction targets generalizing t with
      | nil => exact h
      | cons x rest ih => exact ih _ (h.of_same rfl rfl)
    exact hfold st.table hst

theorem declareSub_classing (i : Info) (name : String) (returns : Option Ty) :
    Classing (declareSub i name returns) := by
  refine .get_bind fun st => ?_
  split
  · exact .pure _
  · exact .bind (.onTable fun t h => h.declareSub _ _) fun s =>
      .bind (.change fun _ => rfl) fun _ => .pure _

/-! ## Runs -/

theorem finishStmt_classing (s : Stmt) : Classing (finishStmt s) := by
  intro env st henv hst
  have hcode := (stmtCode_drawing s).classing env st henv hst
  rw [run_finishStmt]
  rcases hrun : stmtCode s env st with ⟨f | code, st'⟩
  · rw [hrun] at hcode
    exact hcode
  · rw [hrun] at hcode
    rw [← st'.drain_named.1] at hcode
    dsimp only
    split
    · exact hcode
    · exact hcode

/-- A run keeps the classes of packages. -/
theorem Outline.exec_classed (p : Outline) {env : Env}
    (henv : ∀ c, env.catalog = some c → c.Classed) :
    ∀ {mark : Nat} {outer : List Nat} {st : State}, p.toPlan.Ready mark outer st →
      st.table.Classed → (p.toPlan.exec env st).2.table.Classed := by
  induction p with
  | finish s =>
    intro mark outer st _ hst
    exact finishStmt_classing s env st henv hst
  | own o rest ih =>
    intro mark outer st h hst
    have hown := o.run_classing env st henv hst
    have hrest := h.behindStep env
    rw [toPlan, Plan.exec, run_bind]
    generalize o.step.run env st = r at hown hrest ⊢
    -- behind a step that failed nothing of the statement is walked
    rcases r with ⟨f | _, st₁⟩
    · exact hown
    · exact ih hrest hown
  | call inner rest ihInner ihRest =>
    intro mark outer st h hst
    obtain ⟨htable, -⟩ := h.called.recovering_named inner.toPlan.stmt.pos env
    have hcalled := ihInner h.called hst
    -- what a nested call ends with, an error included, leaves the table as it is
    rw [← htable] at hcalled
    rw [toPlan, Plan.exec_call]
    exact ihRest (h.behind (h.calls env)) hcalled
  | inBlock rest ih =>
    intro mark outer st h hst
    have hrest : rest.toPlan.Ready mark outer _ := h.inBlock
    rw [toPlan, Plan.exec_inBlock]
    exact (ih hrest (hst.of_same rfl rfl)).of_same rfl rfl
  | inSub i name returns rest ih =>
    intro mark outer st h hst
    obtain ⟨st₁, henter, ho, -⟩ := Plan.enterSub_opened i name returns env st
    have hrest : rest.toPlan.Ready mark outer st₁ := h.opened ho rfl
    -- entering a subroutine declares its name and its parameter
    have hentered : Classing (enterSub i name returns) :=
      (declareSub_classing i name returns).bind fun s =>
        .bind (.onTable fun t ht => (ht.enter .function).declare _ _ _ _) fun param =>
          .change fun _ => rfl
    have hst₁ := hentered env st henv hst
    rw [henter] at hst₁
    rw [toPlan, Plan.exec_inSub henter]
    exact (ih hrest hst₁).of_same rfl rfl

theorem Call.Ready.classed {c : Call} (h : c.Ready) {env : Env}
    (henv : ∀ c, env.catalog = some c → c.Classed) (hbefore : c.before.table.Classed) :
    (c.after env).table.Classed := by
  rw [(h.names_after env).1]
  exact c.stmt.outline.exec_classed henv h.outline hbefore

theorem statements_classed (ss : List Stmt) {env : Env}
    (henv : ∀ c, env.catalog = some c → c.Classed) :
    ∀ {st : State}, Fresh ss st → st.table.Classed →
      (statements ss env st).2.table.Classed := by
  induction ss with
  | nil =>
    intro st _ hst
    rw [statements]
    exact hst
  | cons s rest ih =>
    intro st h hst
    rw [run_statements_cons]
    refine ih (h.tail (h.statement env).2) ?_
    -- a statement that is absent is not walked at all
    by_cases hs : s.isPresent = true
    · exact (h.ready hs).classed henv hst
    · rw [statement_absent hs]
      exact hst

theorem prepare_classing (ss : List Stmt) : Classing (prepare ss) := by
  have hsubs : ∀ ss : List Stmt, Classing (declareSubs ss) := by
    intro ss
    induction ss with
    | nil => exact .pure _
    | cons s rest ih =>
      cases s with
      | sub i name returns b => exact (declareSub_classing i name returns).bind fun _ => ih
      | _ => exact ih
  unfold prepare
  split
  · exact .bind (.onTable fun t h => h.openPackage _) fun _ => hsubs ss
  · exact hsubs ss

/-! ## Units of a run -/

/-- What is known at the beginning of a unit has the classes of its names. -/
structure Store.Classed (s : Store) : Prop where
  registry : s.registry.Classed
  catalog : ∀ c, s.catalog = some c → c.Classed

/-- The results of units that are compiled one after the other. -/
def Store.results (settings : Settings) : Store → List SourceUnit → List Result
  | _, [] => []
  | s, u :: rest =>
    let r := tree settings s.catalog s.registry 1 u
    r :: (s.after r).results settings rest

theorem tree_classed {s : Store} (h : s.Classed) (settings : Settings) {u : SourceUnit}
    (hu : u.Numbered) :
    (tree settings s.catalog s.registry 1 u).state.table.Classed := by
  rw [tree_state]
  refine statements_classed u.stmts h.catalog (fresh_startState _ _ _ u hu) ?_
  have hempty : ({ registry := s.registry } : Table).Classed := by
    refine ⟨fun p hp => ?_, h.registry⟩
    cases hp
  exact prepare_classing u.stmts (envOf settings s.catalog)
    { table := { registry := s.registry }, pending := {} } h.catalog hempty

/-- The file of a unit with a package is that of the class of the package. -/
theorem tree_path {s : Store} (h : s.Classed) (settings : Settings) {u : SourceUnit}
    (hu : u.Numbered) {p : Package}
    (hp : (tree settings s.catalog s.registry 1 u).state.table.own = some p) :
    (tree settings s.catalog s.registry 1 u).path =
      Java.outputPath settings.outPath settings.package (Package.classFor p.name) := by
  have hclass := (tree_classed h settings hu).own p hp
  have hpath : (tree settings s.catalog s.registry 1 u).path =
      Java.outputPath settings.outPath settings.package (Java.classFor u.file u.className
        (tree settings s.catalog s.registry 1 u).state.table.own) := rfl
  rw [hpath, hp, Java.classFor, hclass]

/-- What a unit hands on has the classes of its names. -/
theorem Store.Classed.after {s : Store} (h : s.Classed) {r : Result}
    (hr : r.state.table.Classed) : (s.after r).Classed where
  registry := hr.registry
  catalog c hc := by
    obtain ⟨c₀, hc₀, rfl⟩ := Option.map_eq_some_iff.mp hc
    unfold Result.keep
    split
    -- the catalog gains the row of the unit, whose class was shown with its tree
    · next p u _ hown _ =>
      rcases Catalog.put_cases c₀ p u.file with hput | hput
      · intro name row hrow
        rw [hput] at hrow
        have hget : (c₀.packages.put p.name _).get? name = some row := hrow
        by_cases hname : p.name = name
        · rw [← hname, Keyed.get?_put_self] at hget
          cases hget
          exact hname ▸ hr.own p hown
        · rw [Keyed.get?_put_of_ne _ _ hname] at hget
          exact h.catalog c₀ hc₀ name row hget
      · rw [hput]
        exact h.catalog c₀ hc₀
    · exact h.catalog c₀ hc₀

/-- Every unit of a run is compiled with what has the classes of its names. -/
theorem Store.Classed.mem_results {s : Store} (h : s.Classed) (settings : Settings)
    (us : List SourceUnit) (hus : ∀ u ∈ us, u.Numbered) {r : Result}
    (hr : r ∈ s.results settings us) :
    ∃ s' : Store, s'.Classed ∧ ∃ u ∈ us, r = tree settings s'.catalog s'.registry 1 u := by
  induction us generalizing s with
  | nil => cases hr
  | cons u rest ih =>
    have hu := hus u List.mem_cons_self
    rcases List.mem_cons.mp hr with rfl | hr
    · exact ⟨s, h, u, List.mem_cons_self, rfl⟩
    · obtain ⟨s', hs', u', hu', heq⟩ := ih (h.after (tree_classed h settings hu))
        (fun v hv => hus v (List.mem_cons_of_mem _ hv)) hr
      exact ⟨s', hs', u', List.mem_cons_of_mem _ hu', heq⟩

/-- The package is known in the unit, and not the one of the unit. -/
structure State.Refers (st : State) (package : String) : Prop where
  ne_empty : package ≠ ""
  foreign : st.table.own.map (·.name) ≠ some package
  known : (st.table.registry.package? package).isSome = true

/-- A qualified name is written with the class of its package. -/
theorem State.Refers.inClass_eq {st : State} {package : String} (h : st.Refers package)
    (hst : st.table.Classed) (javaName : String) :
    st.inClass package javaName = Package.classFor package ++ "." ++ javaName := by
  obtain ⟨p, hp⟩ := Option.isSome_iff_exists.mp h.known
  unfold State.inClass
  rw [if_neg (by simp [h.ne_empty, h.foreign]), hp]
  dsimp only
  rw [(hst.registry package p hp).2]

/-- In a run over numbered units, as all decoded ones are, the class of a unit with a package is
that of the name of the package, and so is its file. Two units whose packages have names without
slashes are written to the same file exactly if the names share a class. A qualified name in the
text of a unit stands for one package, unless the names of two of them share a class. -/
theorem run_class_files {s : Store} (hs : s.Classed) (settings : Settings)
    (us : List SourceUnit) (hus : ∀ u ∈ us, u.Numbered) :
    (∀ r ∈ s.results settings us, ∀ p, r.state.table.own = some p →
      p.className = Package.classFor p.name ∧
      r.path = Java.outputPath settings.outPath settings.package (Package.classFor p.name)) ∧
    (∀ r ∈ s.results settings us, ∀ r' ∈ s.results settings us, ∀ p p',
      r.state.table.own = some p → r'.state.table.own = some p' →
      (p.className = p'.className ↔ Package.SharesClass p.name p'.name) ∧
      ('/' ∉ p.name.toList → '/' ∉ p'.name.toList →
        (r.path = r'.path ↔ Package.SharesClass p.name p'.name))) ∧
    (∀ r ∈ s.results settings us, ∀ a b x y, ¬Package.SharesClass a b →
      r.state.Refers a → r.state.Refers b → '.' ∉ a.toList → '.' ∉ b.toList →
      r.state.inClass a x ≠ r.state.inClass b y) := by
  -- every result is the tree of a unit walked with a store that is classed
  have hunit (r : Result) (hr : r ∈ s.results settings us) (p : Package)
      (hp : r.state.table.own = some p) : p.className = Package.classFor p.name ∧
        r.path = Java.outputPath settings.outPath settings.package
          (Package.classFor p.name) := by
    obtain ⟨s', hs', u, hu, rfl⟩ := hs.mem_results settings us hus hr
    exact ⟨(tree_classed hs' settings (hus u hu)).own p hp, tree_path hs' settings (hus u hu) hp⟩
  refine ⟨hunit, fun r hr r' hr' p p' hp hp' => ?_, fun r hr a b x y hapart ha hb hdot hdot' => ?_⟩
  · obtain ⟨hclass, hpath⟩ := hunit r hr p hp
    obtain ⟨hclass', hpath'⟩ := hunit r' hr' p' hp'
    rw [← Package.classFor_eq_iff, hclass, hclass', hpath, hpath']
    refine ⟨Iff.rfl, fun hslash hslash' => ⟨fun h => ?_, fun h => by rw [h]⟩⟩
    -- equal paths have equal last parts, as no class holds the separator
    exact Java.outputPath_inj (Package.classFor_plain (.inl rfl) hslash)
      (Package.classFor_plain (.inl rfl) hslash') h
  · obtain ⟨s', hs', u, hu, rfl⟩ := hs.mem_results settings us hus hr
    -- a member is referred to by the class alone, so equal references are equal classes
    have hclassed := tree_classed hs' settings (hus u hu)
    rw [ha.inClass_eq hclassed, hb.inClass_eq hclassed]
    intro h
    obtain ⟨heq, -⟩ := Package.reference_inj (Package.classFor_plain (.inr rfl) hdot)
      (Package.classFor_plain (.inr rfl) hdot') h
    exact hapart ((Package.classFor_eq_iff a b).mp heq)

/-- A unit of a package and nothing else. -/
def packageUnit (file name : String) : SourceUnit where
  file := file
  className := ""
  stmts := [.package ⟨1, default⟩ name]

theorem Store.classed_empty : ({} : Store).Classed := by
  constructor
  · intro name p hp
    cases hp
  · intro c hc
    cases hc

/-- Two packages with different names whose last segments are the same become one class in one
file. -/
theorem sameSegment_one_file :
    let rs := ({} : Store).results {} [packageUnit "a.pl" "A::Util", packageUnit "b.pl" "B::Util"]
    rs.map (fun r => r.state.table.own.map (·.name)) = [some "A::Util", some "B::Util"] ∧
    rs.map (fun r => r.state.table.own.map (·.className)) = [some "Util", some "Util"] ∧
    rs.map (·.path) = List.replicate 2
      (Java.outputPath ({} : Settings).outPath ({} : Settings).package "Util") ∧
    rs.map (fun r => r.errors.length) = [0, 0] := by
  have hclass : Package.classFor "A::Util" = "Util" := by decide +kernel
  have hclass' : Package.classFor "B::Util" = "Util" := by decide +kernel
  let u := packageUnit "a.pl" "A::Util"
  let r := tree {} none {} 1 u
  have hr : r.state.table.Classed := tree_classed Store.classed_empty {} (u := u) (by decide)
  -- the paths are taken from the general theorem: the text of a path is too long to compute
  have hpath : r.path = Java.outputPath ({} : Settings).outPath ({} : Settings).package
      (Package.classFor "A::Util") := by
    have h := tree_path Store.classed_empty {} (u := u) (by decide) rfl
    exact h
  have hpath' : (tree {} none r.state.table.registry 1 (packageUnit "b.pl" "B::Util")).path =
      Java.outputPath ({} : Settings).outPath ({} : Settings).package
        (Package.classFor "B::Util") := by
    have h := tree_path (Store.classed_empty.after hr) {} (u := packageUnit "b.pl" "B::Util")
      (by decide) rfl
    exact h
  rw [hclass] at hpath
  rw [hclass'] at hpath'
  exact ⟨by decide +kernel, by decide +kernel, congrArg₂ (fun a b => [a, b]) hpath hpath',
    by decide +kernel⟩

/-- Two packages whose last segments are different become two classes in two files. -/
theorem otherSegment_two_files :
    let rs := ({} : Store).results {} [packageUnit "a.pl" "A::Util", packageUnit "b.pl" "A::List"]
    ∃ r ∈ rs, ∃ r' ∈ rs, r.path ≠ r'.path := by
  intro rs
  have hnumbered : ∀ u ∈ [packageUnit "a.pl" "A::Util", packageUnit "b.pl" "A::List"],
      u.Numbered := by decide
  have howns : ∃ r ∈ rs, ∃ r' ∈ rs, ∃ p p', r.state.table.own = some p ∧
      r'.state.table.own = some p' ∧ p.name = "A::Util" ∧ p'.name = "A::List" := by
    refine ⟨_, List.mem_cons_self, _, List.mem_cons_of_mem _ List.mem_cons_self, _, _, rfl, rfl,
      rfl, rfl⟩
  obtain ⟨r, hr, r', hr', p, p', hp, hp', hname, hname'⟩ := howns
  -- one path for both would be one class for both
  obtain ⟨-, hfiles, -⟩ := run_class_files Store.classed_empty {} _ hnumbered
  obtain ⟨-, hpaths⟩ := hfiles r hr r' hr' p p' hp hp'
  rw [hname, hname'] at hpaths
  refine ⟨r, hr, r', hr', fun heq => ?_⟩
  have hshared := (hpaths (by decide) (by decide)).mp heq
  rw [← Package.classFor_eq_iff] at hshared
  exact absurd hshared (by decide +kernel)

end Compile

end TypedPerl
