import TypedPerl.Proofs.Catalog.Tables
import TypedPerl.Proofs.Twin.Agree
import TypedPerl.Scope.Table

/-!
# What a unit knows of names

The symbol table of a unit holds what the unit declares itself, and the packages that the run knows.
The first part does not depend on the second: every change of the table gives the same names and
the same declarations whatever else the run knows (`Table.Apart`). And through the whole unit a name
of another package means the same, whether the run knows the package already or the catalog is asked
for it (`Table.Tidy`).
-/

namespace TypedPerl

/-! ## Packages that show the same -/

/-- The variables differ at most in the depth at which they were declared, and that does not
matter for what they become in the class. -/
structure Binding.Like (b c : Binding) : Prop where
  atFile : Catalog.atFile b = Catalog.atFile c
  isField : b.isField = c.isField

theorem Binding.Like.refl (b : Binding) : b.Like b :=
  ⟨rfl, rfl⟩

section

variable {b c : Binding} (h : b.Like c)

include h

theorem Binding.Like.type : b.type = c.type :=
  congrArg (·.type) h.atFile

theorem Binding.Like.javaName : b.javaName = c.javaName :=
  congrArg (·.javaName) h.atFile

theorem Binding.Like.isPublic : b.isPublic = c.isPublic :=
  congrArg (·.isPublic) h.atFile

theorem Binding.Like.package : b.package = c.package :=
  congrArg (·.package) h.atFile

end

theorem Binding.Like.of_public {b c : Binding} (h : Catalog.atFile b = Catalog.atFile c)
    (hpub : b.isPublic = true) : b.Like c := by
  have hpub' : c.isPublic = true := (congrArg (·.isPublic) h).symm.trans hpub
  exact ⟨h, by simp [Binding.isField, hpub, hpub']⟩

namespace Package

/-- Other units cannot tell the packages apart. -/
structure Like (p q : Package) : Prop where
  name : p.name = q.name
  className : p.className = q.className
  var : ∀ x sigil, (p.var? x sigil).map Catalog.atFile = (q.var? x sigil).map Catalog.atFile
  sub : ∀ x, p.sub? x = q.sub? x

theorem Like.refl (p : Package) : p.Like p :=
  ⟨rfl, rfl, fun _ _ => rfl, fun _ => rfl⟩

theorem Like.symm {p q : Package} (h : p.Like q) : q.Like p :=
  ⟨h.name.symm, h.className.symm, fun x sigil => (h.var x sigil).symm, fun x => (h.sub x).symm⟩

theorem Like.trans {p q r : Package} (h : p.Like q) (h' : q.Like r) : p.Like r :=
  ⟨h.name.trans h'.name, h.className.trans h'.className,
    fun x sigil => (h.var x sigil).trans (h'.var x sigil), fun x => (h.sub x).trans (h'.sub x)⟩

/-- What the catalog gives back shows the same. -/
theorem Like.of_restored {p q : Package} (h : Catalog.Restored p q) : p.Like q where
  name := h.name.symm
  className := h.className.symm
  var x sigil := by
    rw [h.var, Option.map_map]
    rfl
  sub x := (h.sub x).symm

/-- A package with the number of its edition left out. -/
def unnumbered (p : Package) : Package :=
  { p with edition := 0 }

theorem Like.of_unnumbered {p q : Package} (h : p.unnumbered = q.unnumbered) : p.Like q where
  name := congrArg (·.name) h
  className := congrArg (·.className) h
  var x sigil := by
    have hvars : p.vars = q.vars := congrArg (·.vars) h
    rw [var?, var?, hvars]
  sub x := by
    have hsubs : p.subs = q.subs := congrArg (·.subs) h
    rw [sub?, sub?, hsubs]

end Package

/-! ## What a name of a package means -/

/-- The package of a name, if the run knows it or there is a catalog to ask. -/
def Registry.answer (catalog : Option Catalog) (r : Registry) (name : String) :
    Option (Except Fault Package) :=
  match r.package? name with
  | some p => some (.ok p)
  | none => catalog.map (·.get name)

/-- The same answer: none, the same fault, or packages that show the same. -/
abbrev SameAnswer : Option (Except Fault Package) → Option (Except Fault Package) → Prop :=
  Option.Rel (Agree Package.Like)

theorem SameAnswer.symm {x y : Option (Except Fault Package)} (h : SameAnswer x y) :
    SameAnswer y x := by
  rcases h with ⟨⟨h⟩ | f⟩ | _
  · exact .some (.ok h.symm)
  · exact .some (.error f)
  · exact .none

theorem SameAnswer.trans {x y z : Option (Except Fault Package)} (h : SameAnswer x y)
    (h' : SameAnswer y z) : SameAnswer x z := by
  rcases h with ⟨⟨h⟩ | f⟩ | _
  · rcases h' with ⟨⟨h'⟩⟩
    exact .some (.ok (h.trans h'))
  · exact h'
  · exact h'

theorem SameAnswer.refl (x : Option (Except Fault Package)) : SameAnswer x x := by
  rcases x with _ | f | p
  · exact .none
  · exact .some (.error f)
  · exact .some (.ok (.refl p))

namespace Registry

theorem package?_put_self (r : Registry) (p : Package) :
    (r.put p).2.package? p.name = some { p with edition := r.next } :=
  Keyed.get?_put_self _ _ _

theorem package?_put_of_ne (r : Registry) {p : Package} {name : String} (h : p.name ≠ name) :
    (r.put p).2.package? name = r.package? name :=
  Keyed.get?_put_of_ne _ _ h

/-- The present edition of a package takes the new content. -/
theorem refresh_live {r : Registry} {p q : Package} (h : r.package? q.name = some q)
    (hname : p.name = q.name) (hedition : p.edition = q.edition) :
    r.refresh p = { r with packages := r.packages.put p.name p } := by
  unfold refresh
  rw [hname, h]
  simp [hedition]

end Registry

namespace Table

/-! ## The part of the unit -/

/-- What the table holds of the unit itself, without the other packages of the run. -/
def ofUnit (t : Table) : Table :=
  { t with registry := {}, own := t.own.map Package.unnumbered }

/-- What the change gives, and what it leaves of the unit itself, does not depend on the other
packages of the run. -/
def Apart {α : Type} (f : Table → α × Table) : Prop :=
  ∀ t, (f t).1 = (f t.ofUnit).1 ∧ (f t).2.ofUnit = (f t.ofUnit).2.ofUnit

theorem Apart.eq {α : Type} {f : Table → α × Table} (h : Apart f) {a b : Table}
    (hab : a.ofUnit = b.ofUnit) : (f a).1 = (f b).1 ∧ (f a).2.ofUnit = (f b).2.ofUnit := by
  rw [(h a).1, (h b).1, (h a).2, (h b).2, hab]
  exact ⟨rfl, rfl⟩

/-- Both tables have a package of the unit, or neither has. -/
theorem own_rel {a b : Table} (h : a.ofUnit = b.ofUnit) :
    Option.Rel (fun p q => p.unnumbered = q.unnumbered) a.own b.own := by
  have hown : a.own.map Package.unnumbered = b.own.map Package.unnumbered := congrArg (·.own) h
  generalize a.own = x at hown ⊢
  generalize b.own = y at hown ⊢
  cases x with
  | none =>
    rw [Option.map_eq_none_iff.1 hown.symm]
    exact .none
  | some p =>
    obtain ⟨q, rfl, hqp⟩ := Option.map_eq_some_iff.1 hown.symm
    exact .some hqp.symm

theorem own_some {a b : Table} (h : a.ofUnit = b.ofUnit) {p : Package} (hp : a.own = some p) :
    ∃ q, b.own = some q ∧ p.unnumbered = q.unnumbered := by
  have hown := own_rel h
  rw [hp] at hown
  rcases rel_cases hown with ⟨_, q, ha, hq, hpq⟩ | ⟨ha, -⟩
  · cases ha
    exact ⟨q, hq, hpq⟩
  · cases ha

theorem apart_declare (name : String) (sigil : Sigil) (type : Ty) (isPublic : Bool) :
    Apart (·.declare name sigil type isPublic) := by
  intro t
  obtain ⟨inner, fileScope, pool, announced, subs, registry, own, used⟩ := t
  cases isPublic with
  | false => cases own <;> cases inner <;> exact ⟨rfl, rfl⟩
  | true =>
    cases own with
    | none => cases inner <;> exact ⟨rfl, rfl⟩
    | some p => cases inner <;> exact ⟨rfl, rfl⟩

theorem apart_declareSub (name : String) (returns : Ty) : Apart (·.declareSub name returns) := by
  intro t
  obtain ⟨inner, fileScope, pool, announced, subs, registry, own, used⟩ := t
  cases own with
  | none => exact ⟨rfl, rfl⟩
  | some p => exact ⟨rfl, rfl⟩

theorem apart_openPackage (name : String) : Apart (·.openPackage name) := by
  intro t
  obtain ⟨inner, fileScope, pool, announced, subs, registry, own, used⟩ := t
  cases own with
  | none => cases used <;> exact ⟨rfl, rfl⟩
  | some p => exact ⟨rfl, rfl⟩

theorem apart_consume (key : String) : Apart (·.consume key) := by
  intro t
  obtain ⟨inner, fileScope, pool, announced, subs, registry, own, used⟩ := t
  cases own <;> exact ⟨rfl, rfl⟩

theorem apart_auxiliary (hint : String) : Apart (·.auxiliary hint) := by
  intro t
  obtain ⟨inner, fileScope, pool, announced, subs, registry, own, used⟩ := t
  cases own <;> exact ⟨rfl, rfl⟩

/-! ## Tables of a unit -/

/-- A name is that of the unit's package, or of another. -/
theorem own_or_other (t : Table) (name : String) :
    (∃ p, t.own = some p ∧ p.name = name) ∨ ∀ p, t.own = some p → p.name ≠ name := by
  by_cases h : ∃ p, t.own = some p ∧ p.name = name
  · exact .inl h
  · exact .inr fun p hp hname => h ⟨p, hp, hname⟩

/-- A package of the unit, or none. -/
def Belongs (own : Option Package) (package : String) : Prop :=
  package = "" ∨ ∃ p, own = some p ∧ p.name = package

/-- A table as it stands in a unit for which names of other packages mean what `means` says, with a
catalog to ask. All types that are declared are well formed. -/
structure Tidy (means : String → Option (Except Fault Package)) (catalog : Option Catalog)
    (t : Table) : Prop where
  /-- The registry shows the package of the unit as it is. -/
  live : ∀ p, t.own = some p → p.Sound ∧ t.registry.package? p.name = some p
  /-- Other packages are what they are meant to be. -/
  knows : ∀ name, (∀ p, t.own = some p → p.name ≠ name) →
    SameAnswer (t.registry.answer catalog name) (means name)
  vars : ∀ s ∈ t.scopes, ∀ k b, (k, b) ∈ s.vars → b.type.WellFormed ∧ Belongs t.own b.package
  announced : ∀ k u, (k, u) ∈ t.announced → u.WellFormed
  subs : ∀ k s, (k, s) ∈ t.subs → s.returns.WellFormed ∧ s.package = ""

namespace Tidy

variable {means : String → Option (Except Fault Package)} {catalog : Option Catalog} {t : Table}

theorem enter (h : t.Tidy means catalog) (kind : ScopeKind) : (t.enter kind).Tidy means catalog :=
  { h with
    vars := by
      intro s hs k b hb
      rcases List.mem_cons.1 hs with rfl | hs
      · cases hb
      · exact h.vars s hs k b hb }

theorem drop (h : t.Tidy means catalog) (n : Nat) :
    Tidy means catalog { t with inner := t.inner.drop n } :=
  { h with
    vars := by
      intro s hs k b hb
      refine h.vars s ?_ k b hb
      rcases List.mem_append.1 hs with hs | hs
      · exact List.mem_append_left _ (List.mem_of_mem_drop hs)
      · exact List.mem_append_right _ hs }

theorem exit (h : t.Tidy means catalog) : t.exit.Tidy means catalog :=
  h.drop 1

theorem restore (h : t.Tidy means catalog) (depth : Int) : (t.restore depth).Tidy means catalog :=
  h.drop _

theorem setPool (h : t.Tidy means catalog) (pool : Name.AliasPool) (used : Bool) :
    Tidy means catalog { t with pool := pool, used := used } :=
  { h with }

theorem auxiliary (h : t.Tidy means catalog) (hint : String) :
    (t.auxiliary hint).2.Tidy means catalog :=
  { h with }

theorem announce (h : t.Tidy means catalog) (key : String) {type : Ty} (ht : type.WellFormed) :
    (t.announce key type).Tidy means catalog :=
  { h with
    announced := Keyed.forall_put h.announced ht }

theorem consume (h : t.Tidy means catalog) (key : String) :
    (t.consume key).2.Tidy means catalog :=
  { h with announced := fun k u hu => h.announced k u (Keyed.mem_erase.1 hu).1 }

theorem putInnermost (h : t.Tidy means catalog) {b : Binding} (hty : b.type.WellFormed)
    (hpkg : Belongs t.own b.package) : (t.putInnermost b).Tidy means catalog := by
  have hput {s : Scope} (hs : s ∈ t.scopes) : ∀ k c, (k, c) ∈ s.vars.put (b.name, b.sigil) b →
      c.type.WellFormed ∧ Belongs t.own c.package :=
    Keyed.forall_put (h.vars s hs) ⟨hty, hpkg⟩
  obtain ⟨inner, fileScope, pool, announced, subs, registry, own, used⟩ := t
  -- with no inner scope the binding goes to the scope of the file
  cases inner with
  | nil =>
    refine { h with vars := ?_ }
    intro s hs k c hc
    obtain rfl := List.mem_singleton.1 hs
    exact hput (List.mem_singleton.2 rfl) k c hc
  | cons first rest =>
    refine { h with vars := ?_ }
    intro s hs k c hc
    rcases List.mem_cons.1 hs with rfl | hs
    · exact hput List.mem_cons_self k c hc
    · exact h.vars s (List.mem_cons_of_mem _ hs) k c hc

/-- New content of the package of the unit. -/
theorem updateOwn (h : t.Tidy means catalog) {p q : Package} (hown : t.own = some p)
    (hq : q.Sound) (hname : q.name = p.name) (hedition : q.edition = p.edition) :
    (t.updateOwn q).Tidy means catalog := by
  have hregistry := Registry.refresh_live (h.live p hown).2 hname hedition
  constructor
  · intro r hr
    cases hr
    refine ⟨hq, ?_⟩
    change (t.registry.refresh q).package? q.name = some q
    rw [hregistry]
    exact Keyed.get?_put_self _ _ _
  -- the packages of other names are answered for as before
  · intro name hne
    have hne : q.name ≠ name := hne q rfl
    have hanswer : (t.updateOwn q).registry.answer catalog name
        = t.registry.answer catalog name := by
      change (t.registry.refresh q).answer catalog name = _
      rw [hregistry]
      unfold Registry.answer Registry.package?
      rw [Keyed.get?_put_of_ne _ _ hne]
    rw [hanswer]
    refine h.knows name ?_
    intro r hr
    cases hown.symm.trans hr
    exact hname ▸ hne
  · intro s hs k b hb
    obtain ⟨hty, hpkg⟩ := h.vars s hs k b hb
    refine ⟨hty, hpkg.imp id ?_⟩
    rintro ⟨r, hr, hrname⟩
    cases hown.symm.trans hr
    exact ⟨q, rfl, hname.trans hrname⟩
  · exact h.announced
  · exact h.subs

theorem own_putInnermost (t : Table) (b : Binding) : (t.putInnermost b).own = t.own := by
  unfold Table.putInnermost
  split
  · rfl
  · rfl

/-- A declared variable has a well-formed type, and belongs to the unit. -/
theorem declare (h : t.Tidy means catalog) (name : String) (sigil : Sigil) {type : Ty}
    (ht : type.WellFormed) (isPublic : Bool) :
    (t.declare name sigil type isPublic).2.Tidy means catalog ∧
      (t.declare name sigil type isPublic).1.type.WellFormed ∧
      Belongs (t.declare name sigil type isPublic).2.own
        (t.declare name sigil type isPublic).1.package := by
  have hpool := h.setPool (t.pool.aliasFor name (t.nameVisible name)).2 true
  unfold Table.declare
  dsimp only
  -- a package of the unit takes the variable too
  split
  · rename_i p hown
    have hsound := (h.live p hown).1
    refine ⟨(hpool.updateOwn hown (hsound.addVar rfl ht) rfl rfl).putInnermost ht ?_, ht, ?_⟩
    · exact .inr ⟨_, rfl, rfl⟩
    · rw [own_putInnermost]
      exact .inr ⟨_, rfl, rfl⟩
  · exact ⟨hpool.putInnermost ht (.inl rfl), ht, .inl rfl⟩

/-- A declared subroutine has a well-formed type, and belongs to the unit. -/
theorem declareSub (h : t.Tidy means catalog) (name : String) {returns : Ty}
    (ht : returns.WellFormed) :
    (t.declareSub name returns).2.Tidy means catalog ∧
      (t.declareSub name returns).1.returns.WellFormed ∧
      Belongs (t.declareSub name returns).2.own (t.declareSub name returns).1.package := by
  have hpool := h.setPool (t.pool.aliasFor name false).2 true
  unfold Table.declareSub
  dsimp only
  -- without a package of its own, the unit keeps its subroutines in the table
  split
  · rename_i p hown
    exact ⟨hpool.updateOwn hown ((h.live p hown).1.addSub ht) rfl rfl, ht, .inr ⟨_, rfl, rfl⟩⟩
  · exact ⟨{ hpool with subs := Keyed.forall_put h.subs ⟨ht, rfl⟩ }, ht, .inl rfl⟩

theorem answer_put_of_ne (r : Registry) {p : Package} {name : String} (h : p.name ≠ name) :
    (r.put p).2.answer catalog name = r.answer catalog name := by
  unfold Registry.answer
  rw [Registry.package?_put_of_ne r h]

theorem openPackage (h : t.Tidy means catalog) (name : String) :
    (t.openPackage name).2.Tidy means catalog := by
  unfold Table.openPackage
  split
  · exact h
  rename_i hnew
  -- a package is opened only where none is
  have hown : t.own = none := by
    cases ht : t.own with
    | none => rfl
    | some p => simp [ht] at hnew
  refine { h with live := ?_, knows := ?_, vars := ?_ }
  · intro p hp
    cases hp
    exact ⟨Package.sound_empty _ _ _, Registry.package?_put_self _ _⟩
  · intro other hother
    have hne : (Package.new name : Package).name ≠ other :=
      hother { (Package.new name : Package) with edition := t.registry.next } rfl
    refine Eq.mpr (congrArg (SameAnswer · _) (answer_put_of_ne t.registry hne)) ?_
    exact h.knows other fun p hp => by rw [hown] at hp; cases hp
  · intro s hs k b hb
    obtain ⟨hty, hpkg⟩ := h.vars s hs k b hb
    refine ⟨hty, .inl (hpkg.resolve_right ?_)⟩
    rintro ⟨p, hp, -⟩
    rw [hown] at hp
    cases hp

/-- A package of the catalog becomes known to the run. -/
theorem learn (h : t.Tidy means catalog) {c : Catalog} {p : Package} {name : String}
    (hnew : t.registry.package? name = none) (hc : catalog = some c) (hp : c.get name = .ok p) :
    Tidy means catalog { t with registry := (t.registry.put p).2 } := by
  have hname := (Catalog.get_sound hp).2
  refine { h with live := ?_, knows := ?_ }
  · -- the name was not known, so that it is not that of the unit
    intro q hq
    obtain ⟨hsound, hlive⟩ := h.live q hq
    refine ⟨hsound, (Registry.package?_put_of_ne t.registry ?_).trans hlive⟩
    intro heq
    rw [hname] at heq
    rw [← heq, hnew] at hlive
    cases hlive
  · intro other hother
    by_cases heq : p.name = other
    · -- what the catalog gave is what the name means
      have hbefore := h.knows other hother
      have hother : t.registry.answer catalog other = some (.ok p) := by
        rw [← heq, hname, Registry.answer, hnew, hc, ← hp]
        rfl
      rw [hother] at hbefore
      refine SameAnswer.trans ?_ hbefore
      change SameAnswer ((t.registry.put p).2.answer catalog other) _
      rw [Registry.answer, ← heq, Registry.package?_put_self]
      exact .some (.ok (.of_unnumbered rfl))
    · exact Eq.mpr (congrArg (SameAnswer · _) (answer_put_of_ne t.registry heq))
        (h.knows other hother)

end Tidy

/-! ## Known names stay known -/

/-- The unit keeps its package, and the run the names that it knows. -/
structure Grows (t t' : Table) : Prop where
  own : ∀ p, t.own = some p → ∃ q, t'.own = some q ∧ q.name = p.name
  known : ∀ name, (t.registry.package? name).isSome → (t'.registry.package? name).isSome

theorem Grows.of_eq {t t' : Table} (hown : t'.own = t.own) (hregistry : t'.registry = t.registry) :
    t.Grows t' :=
  ⟨fun p hp => ⟨p, hown.trans hp, rfl⟩, fun _ h => hregistry ▸ h⟩

theorem Grows.trans {t t₁ t₂ : Table} (h : t.Grows t₁) (h' : t₁.Grows t₂) : t.Grows t₂ where
  own p hp := by
    obtain ⟨q, hq, hname⟩ := h.own p hp
    obtain ⟨r, hr, hname'⟩ := h'.own q hq
    exact ⟨r, hr, hname'.trans hname⟩
  known name hname := h'.known name (h.known name hname)

theorem known_put {m : Keyed String Package} (k : String) (p : Package) {name : String}
    (h : (m.get? name).isSome) : ((m.put k p).get? name).isSome := by
  by_cases hk : k = name
  · rw [hk, Keyed.get?_put_self]
    rfl
  · rwa [Keyed.get?_put_of_ne _ _ hk]

theorem grows_put (t : Table) (p : Package) {own : Option Package}
    (hown : t.own = none ∨ own = t.own) :
    t.Grows { t with registry := (t.registry.put p).2, own := own } where
  own q hq := by
    rcases hown with hnone | hown
    · rw [hnone] at hq
      cases hq
    · exact ⟨q, hown.trans hq, rfl⟩
  known _ hname := known_put _ _ hname

theorem grows_updateOwn {t : Table} {p q : Package} (hown : t.own = some p)
    (hname : q.name = p.name) : t.Grows (t.updateOwn q) where
  own r hr := by
    cases hown.symm.trans hr
    exact ⟨q, rfl, hname⟩
  known name h := by
    change ((t.registry.refresh q).package? name).isSome
    unfold Registry.refresh
    split
    · split
      · exact known_put _ _ h
      · exact h
    · exact h

theorem grows_setPool (t : Table) (pool : Name.AliasPool) (used : Bool) :
    t.Grows { t with pool := pool, used := used } :=
  .of_eq rfl rfl

theorem grows_putInnermost (t : Table) (b : Binding) : t.Grows (t.putInnermost b) := by
  unfold putInnermost
  split
  · exact .of_eq rfl rfl
  · exact .of_eq rfl rfl

theorem grows_declare (t : Table) (name : String) (sigil : Sigil) (type : Ty) (isPublic : Bool) :
    t.Grows (t.declare name sigil type isPublic).2 := by
  have hpool := grows_setPool t (t.pool.aliasFor name (t.nameVisible name)).2 true
  unfold declare
  dsimp only
  split
  · rename_i p hown
    refine (hpool.trans ?_).trans (grows_putInnermost _ _)
    exact grows_updateOwn hown rfl
  · exact hpool.trans (grows_putInnermost _ _)

theorem grows_declareSub (t : Table) (name : String) (returns : Ty) :
    t.Grows (t.declareSub name returns).2 := by
  have hpool := grows_setPool t (t.pool.aliasFor name false).2 true
  unfold declareSub
  dsimp only
  split
  · rename_i p hown
    exact hpool.trans (grows_updateOwn hown rfl)
  · exact .of_eq rfl rfl

theorem grows_openPackage (t : Table) (name : String) : t.Grows (t.openPackage name).2 := by
  unfold openPackage
  split
  · exact .of_eq rfl rfl
  · rename_i hnew
    refine grows_put t _ (.inl ?_)
    cases hown : t.own with
    | none => rfl
    | some p => simp [hown] at hnew

/-- A package that both tables know how to name, or none. -/
def Placed (s t : Table) (package : String) : Prop :=
  Belongs s.own package ∨
    (s.registry.package? package).isSome ∧ (t.registry.package? package).isSome

theorem Belongs.grows {s s' : Table} {package : String} (h : Belongs s.own package)
    (hs : s.Grows s') : Belongs s'.own package := by
  rcases h with h | ⟨p, hp, hname⟩
  · exact .inl h
  · obtain ⟨q, hq, hqname⟩ := hs.own p hp
    exact .inr ⟨q, hq, hqname.trans hname⟩

theorem Placed.grows {s t s' t' : Table} {package : String} (h : Placed s t package)
    (hs : s.Grows s') (ht : t.Grows t') : Placed s' t' package := by
  rcases h with h | ⟨h, h'⟩
  · exact .inl (h.grows hs)
  · exact .inr ⟨hs.known _ h, ht.known _ h'⟩

end Table

end TypedPerl
