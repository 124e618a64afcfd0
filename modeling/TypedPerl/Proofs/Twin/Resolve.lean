import TypedPerl.Compile.Resolve
import TypedPerl.Proofs.Twin.Step

/-!
# Names in two runs

Names are resolved alike in both runs. A name of the unit itself is looked up in the part of the
table that the runs share. A name of another package means the same package in both, although one
run may know the package already and the other may have to ask the catalog for it.
-/

namespace TypedPerl

namespace Package

/-- What a package shows, told by a sound package that shows the same. -/
theorem Like.var_spec {p q : Package} (h : p.Like q) (hq : q.Sound) {x : String} {sigil : Sigil}
    {b : Binding} (hb : p.var? x sigil = some b) :
    b.isPublic = true ∧ b.type.WellFormed ∧ b.package = q.name := by
  have hvar := h.var x sigil
  rw [hb] at hvar
  obtain ⟨b', hb', heq⟩ := Option.map_eq_some_iff.1 hvar.symm
  have hmem := Keyed.mem_of_get? hb'
  obtain ⟨hpub, hpkg⟩ := hq.vars_own _ _ hmem
  have hlike : b'.Like b := .of_public heq hpub
  exact ⟨hlike.isPublic ▸ hpub, hlike.type ▸ hq.vars_type _ _ hmem, hlike.package ▸ hpkg⟩

theorem Like.sub_spec {p q : Package} (h : p.Like q) (hq : q.Sound) {x : String} {y : Sub}
    (hy : p.sub? x = some y) : y.returns.WellFormed ∧ y.package = q.name := by
  have hmem := Keyed.mem_of_get? ((h.sub x).symm.trans hy)
  exact ⟨hq.subs_type _ _ hmem, hq.subs_own _ _ hmem⟩

end Package

namespace Compile

open Table (Placed Belongs)

variable {c : Comparison} {s t : State}

/-! ## Packages -/

/-- A name of another package gives what it means, and is known to the run from then on. -/
theorem run_resolvePackage {means : String → Option (Except Fault Package)} {env : Env}
    {st : State} (h : st.table.Tidy means env.catalog) {name : String}
    (hother : ∀ p, st.table.own = some p → p.name ≠ name) (pos : Pos) :
    match means name with
    | none => resolvePackage name pos env st =
        (.error (.report ⟨.unknownPackage, pos, "unknown package " ++ name⟩ none), st)
    | some (.error f) => resolvePackage name pos env st =
        (.error (f.locate .unknownPackage pos), st)
    | some (.ok q) => ∃ p table, resolvePackage name pos env st = (.ok p, st.setTable table) ∧
        p.Like q ∧ table.ofUnit = st.table.ofUnit ∧ table.Tidy means env.catalog ∧
        st.table.Grows table ∧ (table.registry.package? name).isSome := by
  -- the run knows the package, or there is no catalog, or the catalog is asked
  have hmeans := h.knows name hother
  unfold Registry.answer at hmeans
  rw [resolvePackage, run_get_bind]
  cases hknown : st.table.registry.package? name with
  | some p =>
    rw [hknown] at hmeans
    generalize means name = m at hmeans ⊢
    cases hmeans with
    | some hp =>
      cases hp with
      | ok hp => exact ⟨p, st.table, rfl, hp, rfl, h, .of_eq rfl rfl, by rw [hknown]; rfl⟩
  | none =>
    rw [hknown] at hmeans
    dsimp only at hmeans ⊢
    rw [run_read_bind]
    cases hcatalog : env.catalog with
    | none =>
      rw [hcatalog] at hmeans
      generalize means name = m at hmeans ⊢
      cases hmeans with
      | none => rfl
    | some catalog =>
      rw [hcatalog] at hmeans
      dsimp only [Option.map] at hmeans ⊢
      cases hget : catalog.get name with
      | error f =>
        rw [hget] at hmeans
        generalize means name = m at hmeans ⊢
        cases hmeans with
        | some hp =>
          cases hp with
          | error f => rfl
      | ok p =>
        rw [hget] at hmeans
        have hlearn := h.learn hknown hcatalog hget
        have hname := (Catalog.get_sound hget).2
        generalize hm : means name = m at hmeans ⊢
        cases hmeans with
        | some hp =>
          cases hp with
          | ok hp =>
            refine ⟨_, { st.table with registry := (st.table.registry.put p).2 }, rfl, ?_, rfl,
              ?_, st.table.grows_put p (.inr rfl), ?_⟩
            · have hnew : Package.Like (st.table.registry.put p).1 p := .of_unnumbered rfl
              exact hnew.trans hp
            · exact hcatalog ▸ hlearn
            · rw [← hname, Registry.package?_put_self]
              rfl

/-- Packages that both runs found under a name. -/
structure Found (name : String) (p q : Package) (s t : State) : Prop where
  like : p.Like q
  /-- They show what a sound package of the name shows. -/
  model : ∃ r : Package, p.Like r ∧ r.Sound ∧ r.name = name
  placed : Placed s.table t.table name

/-- The package of the unit. -/
theorem Found.of_own {p q : Package} (h : Twins c s t) (hp : s.table.own = some p)
    (hpq : p.unnumbered = q.unnumbered) : Found p.name p q s t :=
  ⟨.of_unnumbered hpq, ⟨p, .refl p, (h.left.live p hp).1, rfl⟩, .inl (.inr ⟨p, hp, rfl⟩)⟩

theorem resolvePackage_twin (name : String) (pos : Pos) (h : Twins c s t) :
    TwinAt c (Found name) (resolvePackage name pos) (resolvePackage name pos) s t := by
  rcases s.table.own_or_other name with ⟨p, hp, rfl⟩ | hother
  · -- the unit's own package, which both registries show as it is
    obtain ⟨q, hq, hpq⟩ := Table.own_some h.table hp
    have hname : p.name = q.name := congrArg (·.name) hpq
    have hlive := (h.left.live p hp).2
    have hlive' : t.table.registry.package? p.name = some q := hname ▸ (h.right.live q hq).2
    have hrun : resolvePackage p.name pos c.left s = (.ok p, s) := by
      rw [resolvePackage, run_get_bind, hlive]
      rfl
    have hrun' : resolvePackage p.name pos c.right t = (.ok q, t) := by
      rw [resolvePackage, run_get_bind, hlive']
      rfl
    constructor
    · rw [hrun, hrun']
      exact h
    · rw [hrun, hrun']
      exact .ok (.of_own h hp hpq)
  · have hleft := run_resolvePackage h.left hother pos
    have hright := run_resolvePackage h.right (h.other hother) pos
    cases hmeans : c.means name with
    | none =>
      rw [hmeans] at hleft hright
      exact ⟨by rw [hleft, hright]; exact h, by rw [hleft, hright]; exact .error _⟩
    | some answer =>
      cases answer with
      | error f =>
        rw [hmeans] at hleft hright
        exact ⟨by rw [hleft, hright]; exact h, by rw [hleft, hright]; exact .error _⟩
      | ok r =>
        rw [hmeans] at hleft hright
        obtain ⟨p, a, hrun, hpr, haunit, hatidy, hagrows, haknown⟩ := hleft
        obtain ⟨q, b, hrun', hqr, hbunit, hbtidy, hbgrows, hbknown⟩ := hright
        obtain ⟨hsound, hname⟩ := c.sound name r hmeans
        have hunit : a.ofUnit = b.ofUnit := haunit.trans (h.table.trans hbunit.symm)
        constructor
        · rw [hrun, hrun']
          exact h.setTable hunit hatidy hbtidy hagrows hbgrows
        · rw [hrun, hrun']
          exact .ok ⟨hpr.trans hqr.symm, ⟨r, hpr, hsound, hname⟩, .inr ⟨haknown, hbknown⟩⟩

theorem resolveUse_twin (pos : Pos) (name : String) : TwinStep c (resolveUse pos name) := by
  intro s t h
  unfold resolveUse
  split
  · exact .pure h trivial
  · exact (resolvePackage_twin name pos h).bind fun _ _ _ _ h _ => .pure h trivial

/-- Both runs have a package of their own under the name, or neither has. -/
theorem ownPackage?_rel (h : Twins c s t) (name : String) :
    Option.Rel (fun p q => p.unnumbered = q.unnumbered ∧ s.table.own = some p ∧ p.name = name)
      (ownPackage? s name) (ownPackage? t name) := by
  unfold ownPackage?
  rcases rel_cases (Table.own_rel h.table) with ⟨p, q, hp, hq, hpq⟩ | ⟨hp, hq⟩
  · have hname : p.name = q.name := congrArg (·.name) hpq
    rw [hp, hq]
    simp only [Option.filter_some, ← hname]
    split
    · rename_i heq
      exact .some ⟨hpq, rfl, by simpa using heq⟩
    · exact .none
  · rw [hp, hq]
    exact .none

theorem openPackage_twin (name : String) :
    Twin c Eq (onTable (·.openPackage name)) (onTable (·.openPackage name)) := by
  intro s t h
  obtain ⟨hopened, htable⟩ := (Table.apart_openPackage name).eq h.table
  exact ⟨h.setTable htable (h.left.openPackage name) (h.right.openPackage name)
    (s.table.grows_openPackage name) (t.table.grows_openPackage name), .ok hopened⟩

theorem resolvePackageDecl_twin (pos : Pos) (name : String) :
    TwinStep c (resolvePackageDecl pos name) := by
  intro s t h
  refine .get_bind ?_
  -- both sides know the package already or neither does
  have hown : (ownPackage? s name).isSome = (ownPackage? t name).isSome := by
    rcases rel_cases (ownPackage?_rel h name) with ⟨p, q, hp, hq, -⟩ | ⟨hp, hq⟩
    · rw [hp, hq]
      rfl
    · rw [hp, hq]
  rw [hown]
  split
  · exact .pure h trivial
  · refine (openPackage_twin name s t h).bind fun a b s t h hab => ?_
    cases hab
    dsimp only
    split
    · exact .throw h _
    · exact .pure h trivial

/-! ## Variables -/

/-- A variable that both runs found. -/
structure FoundVar (b b' : Binding) (s t : State) : Prop where
  like : b.Like b'
  type : b.type.WellFormed
  placed : Placed s.table t.table b.package

theorem setBinding_twin (id : Nat) {b b' : Binding} (h : Twins c s t) (hb : FoundVar b b' s t) :
    TwinAt c (fun _ _ _ _ => True) (setBinding id b) (setBinding id b') s t :=
  .change (h.putBinding id hb.like hb.type hb.placed)

/-- A variable of the unit is found in the scopes, which the runs share. -/
theorem lookup?_found (h : Twins c s t) {name : String} {sigil : Sigil} {b : Binding}
    (hb : s.table.lookup? name sigil = some b) : FoundVar b b s t := by
  obtain ⟨scope, hscope, hb⟩ := List.exists_of_findSome?_eq_some hb
  obtain ⟨hty, hpkg⟩ := h.left.vars scope hscope _ b (Keyed.mem_of_get? hb)
  exact ⟨.refl b, hty, .inl hpkg⟩

/-- A variable that is named with its package. -/
theorem Found.var {name : String} {p q : Package} (h : Found name p q s t) (x : String)
    (sigil : Sigil) :
    Option.Rel (fun b b' => FoundVar b b' s t) (p.var? x sigil) (q.var? x sigil) := by
  -- what is found is judged by the model of the package, which is sound
  obtain ⟨r, hpr, hsound, hname⟩ := h.model
  have hvar := h.like.var x sigil
  cases hb : p.var? x sigil with
  | none =>
    rw [hb] at hvar
    rw [Option.map_eq_none_iff.1 hvar.symm]
    exact .none
  | some b =>
    rw [hb] at hvar
    obtain ⟨b', hb', heq⟩ := Option.map_eq_some_iff.1 hvar.symm
    obtain ⟨hpub, hty, hpkg⟩ := hpr.var_spec hsound hb
    rw [hb']
    exact .some ⟨.of_public heq.symm hpub, hty, (hpkg.trans hname) ▸ h.placed⟩

/-- A variable that is named with the package of the unit. -/
theorem ownVariable_rel (h : Twins c s t) (package x : String) (sigil : Sigil) :
    Option.Rel (fun b b' => FoundVar b b' s t)
      ((ownPackage? s package).bind fun p => p.var? x sigil)
      ((ownPackage? t package).bind fun p => p.var? x sigil) := by
  rcases rel_cases (ownPackage?_rel h package) with ⟨p, q, hp, hq, hpq, hown, -⟩ | ⟨hp, hq⟩
  · rw [hp, hq]
    exact (Found.of_own h hown hpq).var x sigil
  · rw [hp, hq]
    exact .none

theorem lookupVariable_twin (v : Variable) (h : Twins c s t) :
    TwinAt c FoundVar (lookupVariable v) (lookupVariable v) s t := by
  refine .get_bind ?_
  -- an unqualified variable is looked up in the scopes, a qualified one in its package
  split
  · have hlookup : s.table.lookup? v.name v.sigil = t.table.lookup? v.name v.sigil :=
      congrArg (·.lookup? v.name v.sigil) h.table
    rw [← hlookup]
    cases hb : s.table.lookup? v.name v.sigil with
    | none => exact .throw h _
    | some b => exact .pure h (lookup?_found h hb)
  · rcases rel_cases (ownVariable_rel h v.package v.name v.sigil) with
      ⟨b, b', hb, hb', hbb'⟩ | ⟨hb, hb'⟩
    · rw [hb, hb']
      exact .pure h hbb'
    · rw [hb, hb']
      refine (resolvePackage_twin v.package v.info.pos h).bind fun p q s t h hpq => ?_
      rcases rel_cases (hpq.var v.name v.sigil) with ⟨b, b', hb, hb', hbb'⟩ | ⟨hb, hb'⟩
      · rw [hb, hb']
        exact .pure h hbb'
      · rw [hb, hb']
        exact .throw h _

/-- A declared type is the same in both runs. -/
theorem declaredType_twin (v : Variable) {fallback : Option Ty} (hv : Ty.Fine v.type)
    (hfallback : Ty.Fine fallback) :
    Twin c (fun a b => a = b ∧ a.WellFormed) (declaredType v fallback)
      (declaredType v fallback) := by
  intro s t h
  -- the announced type is consumed on both sides
  have hconsume : TwinAt c (fun a b _ _ => a = b ∧ Ty.Fine a)
      (onTable (·.consume (announceKey v.sigil v.name)))
      (onTable (·.consume (announceKey v.sigil v.name))) s t := by
    obtain ⟨htype, htable⟩ := (Table.apart_consume (announceKey v.sigil v.name)).eq h.table
    refine ⟨h.setTable htable (h.left.consume _) (h.right.consume _) (.of_eq rfl rfl)
      (.of_eq rfl rfl), .ok ⟨htype, ?_⟩⟩
    intro u hu
    exact h.left.announced _ u (Keyed.mem_of_get? hu)
  refine hconsume.bind fun a b s t h hab => ?_
  obtain ⟨rfl, ha⟩ := hab
  -- the first type that is given counts, and each of the three is fine
  have hfine : Ty.Fine (v.type <|> a <|> fallback) := by
    cases hvt : v.type with
    | some u =>
      rw [hvt] at hv
      exact hv
    | none =>
      cases a with
      | some u => exact ha
      | none => exact hfallback
  dsimp only
  generalize (v.type <|> a <|> fallback) = written at hfine ⊢
  cases written with
  | none => exact .throw h _
  | some u =>
    dsimp only
    split
    · exact .pure h ⟨rfl, hfine u rfl⟩
    · exact .throw h _

theorem declare_twin (name : String) (sigil : Sigil) {type : Ty} (ht : type.WellFormed)
    (isPublic : Bool) (h : Twins c s t) :
    TwinAt c FoundVar (onTable (·.declare name sigil type isPublic))
      (onTable (·.declare name sigil type isPublic)) s t := by
  obtain ⟨hb, htable⟩ := (Table.apart_declare name sigil type isPublic).eq h.table
  obtain ⟨htidy, htype, hbelongs⟩ := h.left.declare name sigil ht isPublic
  have hlike : (s.table.declare name sigil type isPublic).1.Like
      (t.table.declare name sigil type isPublic).1 := hb ▸ .refl _
  exact ⟨h.setTable htable htidy (h.right.declare name sigil ht isPublic).1
    (s.table.grows_declare _ _ _ _) (t.table.grows_declare _ _ _ _),
    .ok ⟨hlike, htype, .inl hbelongs⟩⟩

theorem enterVariable_twin (v : Variable) {type : Ty} (ht : type.WellFormed) :
    TwinStep c (enterVariable v type) := fun _ _ h =>
  (declare_twin v.name v.sigil ht _ h).bind fun _ _ _ _ h hb => setBinding_twin _ h hb

theorem declareVariable_twin (v : Variable) {type : Ty} (ht : type.WellFormed) :
    TwinStep c (declareVariable v type) := by
  intro s t h
  -- both runs have a package of their own or neither has
  have hown : s.table.own.isNone = t.table.own.isNone := by
    rcases rel_cases (Table.own_rel h.table) with ⟨p, q, hp, hq, -⟩ | ⟨hp, hq⟩
    · rw [hp, hq]
      rfl
    · rw [hp, hq]
  rw [declareVariable_eq]
  refine .get_bind ?_
  rw [hown]
  split
  · exact .throw h _
  split
  · exact .throw h _
  · exact enterVariable_twin v ht s t h

theorem resolveDeclared_twin (v : Variable) {fallback : Option Ty} (hv : Ty.Fine v.type)
    (hfallback : Ty.Fine fallback) : TwinStep c (resolveDeclared v fallback) := by
  intro s t h
  refine (declaredType_twin v hv hfallback s t h).bind fun a b s t h hab => ?_
  obtain ⟨rfl, ha⟩ := hab
  exact declareVariable_twin v ha s t h

theorem resolveUsed_twin (v : Variable) : TwinStep c (resolveUsed v) := fun _ _ h =>
  (lookupVariable_twin v h).bind fun _ _ _ _ h hb => setBinding_twin _ h hb

/-- A variable is resolved alike. -/
theorem resolveVariableWith_twin (v : Variable) {fallback : Option Ty} (hv : Ty.Fine v.type)
    (hfallback : Ty.Fine fallback) : TwinStep c (resolveVariableWith v fallback) := by
  intro s t h
  -- a variable that is bound already is left alone on both sides
  have hbound : (s.binding? v).isSome = (t.binding? v).isSome := by
    rcases rel_cases (h.binding? v) with ⟨b, b', hb, hb', -⟩ | ⟨hb, hb'⟩
    · rw [hb, hb']
      rfl
    · rw [hb, hb']
  rw [resolveVariableWith_eq]
  refine .get_bind ?_
  rw [hbound]
  split
  · exact .pure h trivial
  split
  · exact resolveDeclared_twin v hv hfallback s t h
  · exact resolveUsed_twin v s t h

theorem resolveLoopVariable_twin (v : Variable) {list : Option Ty} (hv : Ty.Fine v.type)
    (hlist : Ty.Fine list) : TwinStep c (resolveLoopVariable v list) := by
  refine resolveVariableWith_twin v hv (hlist.map fun {u} hu => ?_)
  split
  · exact hu.elem.refTo
  · exact hu.elem

theorem announce_twins (h : Twins c s t) (key : String) {type : Ty} (ht : type.WellFormed) :
    Twins c (s.setTable (s.table.announce key type)) (t.setTable (t.table.announce key type)) :=
  h.setScopes (f := (·.announce key type)) (fun _ _ hab => congrArg (·.announce key type) hab)
    (fun _ _ _ ha => ha.announce key ht) (fun _ => rfl) (fun _ => rfl)

theorem resolvePragma_twin (targets : List PragmaTarget) {type : Ty} (ht : type.WellFormed) :
    TwinStep c (resolvePragma targets type) := by
  refine .change fun s t h => ?_
  induction targets generalizing s t with
  | nil => exact h
  | cons x rest ih => exact ih _ _ (announce_twins h (announceKey x.sigil x.name) ht)

/-! ## Subroutines -/

/-- A subroutine that both runs found. -/
structure FoundSub (x : Sub) (s t : State) : Prop where
  type : x.returns.WellFormed
  placed : Placed s.table t.table x.package

theorem setSub_twin (id : Nat) {x : Sub} (h : Twins c s t) (hx : FoundSub x s t) :
    TwinAt c (fun _ _ _ _ => True) (setSub id x) (setSub id x) s t :=
  .change (h.putSub id hx.type hx.placed)

theorem Found.sub {name : String} {p q : Package} (h : Found name p q s t) {x : String} {y : Sub}
    (hy : p.sub? x = some y) : FoundSub y s t := by
  obtain ⟨r, hpr, hsound, hname⟩ := h.model
  obtain ⟨hty, hpkg⟩ := hpr.sub_spec hsound hy
  exact ⟨hty, (hpkg.trans hname) ▸ h.placed⟩

/-- A subroutine of the unit is the same in both runs. -/
theorem lookupSub?_eq (h : Twins c s t) (name : String) :
    s.table.lookupSub? "" name = t.table.lookupSub? "" name := by
  have hsubs : s.table.subs = t.table.subs := congrArg (·.subs) h.table
  unfold Table.lookupSub?
  simp only [if_true]
  rcases rel_cases (Table.own_rel h.table) with ⟨p, q, hp, hq, hpq⟩ | ⟨hp, hq⟩
  · rw [hp, hq]
    exact (Package.Like.of_unnumbered hpq).sub name
  · rw [hp, hq, hsubs]

theorem lookupSub?_found (h : Twins c s t) {name : String} {x : Sub}
    (hx : s.table.lookupSub? "" name = some x) : FoundSub x s t := by
  unfold Table.lookupSub? at hx
  simp only [if_true] at hx
  cases hp : s.table.own with
  | none =>
    rw [hp] at hx
    obtain ⟨hty, hpkg⟩ := h.left.subs _ x (Keyed.mem_of_get? hx)
    exact ⟨hty, .inl (.inl hpkg)⟩
  | some p =>
    rw [hp] at hx
    exact (Found.of_own h hp rfl).sub hx

/-- A subroutine that is named with the package of the unit. -/
theorem ownSub_eq (h : Twins c s t) (package name : String) :
    ((ownPackage? s package).bind fun p => p.sub? name) =
      (ownPackage? t package).bind fun p => p.sub? name := by
  rcases rel_cases (ownPackage?_rel h package) with ⟨p, q, hp, hq, hpq, -, -⟩ | ⟨hp, hq⟩
  · rw [hp, hq]
    exact (Package.Like.of_unnumbered hpq).sub name
  · rw [hp, hq]

theorem ownSub_found (h : Twins c s t) {package name : String} {x : Sub}
    (hx : ((ownPackage? s package).bind fun p => p.sub? name) = some x) : FoundSub x s t := by
  rcases rel_cases (ownPackage?_rel h package) with ⟨p, q, hp, hq, hpq, hown, -⟩ | ⟨hp, hq⟩
  · rw [hp] at hx
    exact (Found.of_own h hown hpq).sub hx
  · rw [hp] at hx
    cases hx

theorem resolveCall_twin (info : Info) (package name : String) :
    TwinStep c (resolveCall info package name) := by
  intro s t h
  refine .get_bind ?_
  rw [h.subs]
  split
  · exact .pure h trivial
  -- an unqualified name is looked up in the scopes, a qualified one in its package
  split
  · rw [← lookupSub?_eq h name]
    cases hx : s.table.lookupSub? "" name with
    | none => exact .throw h _
    | some x => exact setSub_twin _ h (lookupSub?_found h hx)
  · rw [← ownSub_eq h package name]
    -- the package of the unit is asked before the others
    cases hx : (ownPackage? s package).bind fun p => p.sub? name with
    | some x => exact setSub_twin _ h (ownSub_found h hx)
    | none =>
      refine (resolvePackage_twin package info.pos h).bind fun p q s t h hpq => ?_
      rw [← hpq.like.sub name]
      cases hx : p.sub? name with
      | none => exact .throw h _
      | some x => exact setSub_twin _ h (hpq.sub hx)

theorem declareSub_twin (info : Info) (name : String) {returns : Option Ty}
    (ht : Ty.Fine returns) : Twin c Eq (declareSub info name returns)
      (declareSub info name returns) := by
  intro s t h
  have hdefault : (returns.getD defaultReturns).WellFormed := by
    cases returns with
    | none => trivial
    | some u => exact ht u rfl
  -- the new subroutine is well typed and belongs to the package of the unit
  have hdeclare : TwinAt c (fun x y s t => x = y ∧ FoundSub x s t)
      (onTable (·.declareSub name (returns.getD defaultReturns)))
      (onTable (·.declareSub name (returns.getD defaultReturns))) s t := by
    obtain ⟨hx, htable⟩ := (Table.apart_declareSub name _).eq h.table
    obtain ⟨htidy, htype, hbelongs⟩ := h.left.declareSub name hdefault
    exact ⟨h.setTable htable htidy (h.right.declareSub name hdefault).1
      (s.table.grows_declareSub _ _) (t.table.grows_declareSub _ _),
      .ok ⟨hx, htype, .inl hbelongs⟩⟩
  refine .get_bind ?_
  rw [h.subs]
  split
  · exact .pure h rfl
  · refine hdeclare.bind fun x y s t h hxy => ?_
    obtain ⟨rfl, hx⟩ := hxy
    exact (setSub_twin info.id h hx).bind fun _ _ _ _ h _ => .pure h rfl

theorem argsType_wellFormed : argsType.WellFormed :=
  trivial

theorem enterSub_twin (info : Info) (name : String) {returns : Option Ty} (ht : Ty.Fine returns) :
    TwinStep c (enterSub info name returns) := by
  intro s t h
  refine (declareSub_twin info name ht s t h).bind fun x y s t h hxy => ?_
  cases hxy
  have hparam : TwinAt c FoundVar
      (onTable fun t => (t.enter .function).declare "_" .array argsType false)
      (onTable fun t => (t.enter .function).declare "_" .array argsType false) s t := by
    obtain ⟨hstates, hresults⟩ :=
      declare_twin "_" .array argsType_wellFormed false (h.enter .function)
    exact ⟨hstates, hresults⟩
  refine hparam.bind fun b b' s t h hb => ?_
  rw [hb.like.javaName]
  exact .change (h.openSub x _)

/-- The subroutines among the statements have well-formed types. -/
def SubsTyped (stmts : List Stmt) : Prop :=
  ∀ info name returns body, .sub info name returns body ∈ stmts → Ty.Fine returns

theorem declareSubs_twin {stmts : List Stmt} (h : SubsTyped stmts) :
    TwinStep c (declareSubs stmts) := by
  induction stmts using declareSubs.induct with
  | case1 => exact .pure trivial
  | case2 info name returns body rest ih =>
    have hrest := ih fun i n r b hmem => h i n r b (List.mem_cons_of_mem _ hmem)
    rw [declareSubs]
    exact (declareSub_twin info name (h _ _ _ _ List.mem_cons_self)).bind fun _ _ _ => hrest
  | case3 s rest hother ih =>
    rw [declareSubs]
    · exact ih fun i n r b hmem => h i n r b (List.mem_cons_of_mem _ hmem)
    · exact hother

theorem prepare_twin {stmts : List Stmt} (h : SubsTyped stmts) : TwinStep c (prepare stmts) := by
  unfold prepare
  split
  · exact (openPackage_twin _).bind fun _ _ _ => declareSubs_twin h
  · exact declareSubs_twin h

end Compile

end TypedPerl
