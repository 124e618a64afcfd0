import Mathlib.Data.List.Nodup
import Mathlib.Tactic.Tauto
import TypedPerl.Proofs.Scope.Visible

/-!
# Identifiers that are taken

An identifier is taken in a symbol table if it stands for a visible name as it is, or is a numbered
one that the pool has handed out. What a table hands out was not taken before and is taken
afterwards, for as long as the scope is open that it was handed out in (`Table.Issues`).

`Locals` are the declarations of local variables in a text, in order and in the blocks in which
they stand. They are apart if none declares an identifier again that is declared before it in the
same block or around it. `Table.Declares` relates the declarations that a run makes to the tables
before and behind it, and says so much about them that runs can be put together: one behind the
other, in a block and in a method.
-/

namespace TypedPerl

open Name (AliasPool leadingDigit isReserved isReserved_numbered numbered_inj)

/-! ## Declarations in a text -/

/-- Declarations of local variables, in the order of the text. -/
inductive Locals where
  /-- Nothing more is declared. -/
  | done
  /-- A declaration, then the rest of its block. -/
  | decl (name : String) (rest : Locals)
  /-- A block, then the rest of the block around it. -/
  | block (inner rest : Locals)
  /-- A method of its own, then the rest. -/
  | method (inner rest : Locals)
deriving Repr, DecidableEq

namespace Locals

/-- Declarations followed by others in the same block. -/
def append : Locals → Locals → Locals
  | done, more => more
  | decl name rest, more => decl name (rest.append more)
  | block inner rest, more => block inner (rest.append more)
  | method inner rest, more => method inner (rest.append more)

/-- Some identifiers are declared before others. -/
def declare (names : List String) (rest : Locals) : Locals :=
  names.foldr decl rest

/-- The identifiers that are declared in the block itself. -/
def names : Locals → List String
  | done => []
  | decl name rest => name :: rest.names
  | block _ rest | method _ rest => rest.names

/-- No identifier is declared that is in scope: one of `scope`, or one that is declared before in
the same block or around it in the same method. -/
def Apart (scope : List String) : Locals → Prop
  | done => True
  | decl name rest => name ∉ scope ∧ rest.Apart (name :: scope)
  | block inner rest => inner.Apart scope ∧ rest.Apart scope
  | method inner rest => inner.Apart [] ∧ rest.Apart scope

instance decidableApart : ∀ (scope : List String) (l : Locals), Decidable (l.Apart scope)
  | _, done => inferInstanceAs (Decidable True)
  | scope, decl name rest =>
    have := decidableApart (name :: scope) rest
    inferInstanceAs (Decidable (_ ∧ _))
  | scope, block inner rest =>
    have := decidableApart scope inner
    have := decidableApart scope rest
    inferInstanceAs (Decidable (_ ∧ _))
  | scope, method inner rest =>
    have := decidableApart [] inner
    have := decidableApart scope rest
    inferInstanceAs (Decidable (_ ∧ _))

theorem append_done (l : Locals) : l.append .done = l := by
  induction l with
  | done => rfl
  | decl name rest ih => rw [append, ih]
  | block inner rest _ ih => rw [append, ih]
  | method inner rest _ ih => rw [append, ih]

theorem append_assoc (l more last : Locals) :
    (l.append more).append last = l.append (more.append last) := by
  induction l with
  | done => rfl
  | decl name rest ih => rw [append, append, ih, append]
  | block inner rest _ ih => rw [append, append, ih, append]
  | method inner rest _ ih => rw [append, append, ih, append]

theorem declare_append (ns : List String) (l more : Locals) :
    (declare ns l).append more = declare ns (l.append more) := by
  induction ns with
  | nil => rfl
  | cons n rest ih => exact congrArg (decl n) ih

theorem names_append (l more : Locals) : (l.append more).names = l.names ++ more.names := by
  induction l with
  | done => rfl
  | decl name rest ih => rw [append, names, names, ih, List.cons_append]
  | block inner rest _ ih => exact ih
  | method inner rest _ ih => exact ih

theorem names_declare (ns : List String) (l : Locals) : (declare ns l).names = ns ++ l.names := by
  induction ns with
  | nil => rfl
  | cons n rest ih => exact congrArg (n :: ·) ih

/-- With less in scope there is less to repeat. -/
theorem Apart.mono {l : Locals} : ∀ {scope scope' : List String}, l.Apart scope →
    (∀ a ∈ scope', a ∈ scope) → l.Apart scope' := by
  -- a method sees nothing of the scope around it
  induction l with
  | done => exact fun _ _ => trivial
  | decl name rest ih =>
    intro scope scope' h hsub
    refine ⟨fun hmem => h.1 (hsub name hmem), ih h.2 fun a ha => ?_⟩
    rcases List.mem_cons.mp ha with rfl | ha
    · exact List.mem_cons_self
    · exact List.mem_cons_of_mem _ (hsub a ha)
  | block inner rest ihInner ih =>
    intro scope scope' h hsub
    exact ⟨ihInner h.1 hsub, ih h.2 hsub⟩
  | method inner rest _ ih =>
    intro scope scope' h hsub
    exact ⟨h.1, ih h.2 hsub⟩

theorem Apart.append {l more : Locals} : ∀ {scope : List String}, l.Apart scope →
    more.Apart (l.names ++ scope) → (l.append more).Apart scope := by
  -- names are added on the way along the first part, and are in scope behind it
  induction l with
  | done => exact fun _ hmore => hmore
  | decl name rest ih =>
    intro scope h hmore
    refine ⟨h.1, ih h.2 (hmore.mono fun a ha => ?_)⟩
    simp only [names, List.mem_append, List.mem_cons] at ha ⊢
    tauto
  | block inner rest _ ih =>
    intro scope h hmore
    exact ⟨h.1, ih h.2 hmore⟩
  | method inner rest _ ih =>
    intro scope h hmore
    exact ⟨h.1, ih h.2 hmore⟩

theorem Apart.declare {ns : List String} {l : Locals} : ∀ {scope : List String}, ns.Nodup →
    (∀ n ∈ ns, n ∉ scope) → l.Apart (ns ++ scope) → (declare ns l).Apart scope := by
  induction ns with
  | nil => exact fun _ _ h => h
  | cons n rest ih =>
    intro scope hnodup hnew h
    obtain ⟨hn, hrest⟩ := List.nodup_cons.mp hnodup
    refine ⟨hnew n List.mem_cons_self, ih hrest (fun m hm hmem => ?_) (h.mono fun a ha => ?_)⟩
    · rcases List.mem_cons.mp hmem with rfl | hmem
      · exact hn hm
      · exact hnew m (List.mem_cons_of_mem _ hm) hmem
    · simp only [List.mem_append, List.mem_cons] at ha ⊢
      tauto

theorem Apart.of_append {l more : Locals} : ∀ {scope : List String},
    (l.append more).Apart scope → l.Apart scope ∧ more.Apart (l.names ++ scope) := by
  induction l with
  | done => exact fun h => ⟨trivial, h⟩
  | decl name rest ih =>
    rintro scope ⟨hname, h⟩
    obtain ⟨hrest, hmore⟩ := ih h
    refine ⟨⟨hname, hrest⟩, hmore.mono fun a ha => ?_⟩
    simp only [names, List.cons_append, List.mem_append, List.mem_cons] at ha ⊢
    tauto
  | block inner rest _ ih =>
    rintro scope ⟨hinner, h⟩
    obtain ⟨hrest, hmore⟩ := ih h
    exact ⟨⟨hinner, hrest⟩, hmore⟩
  | method inner rest _ ih =>
    rintro scope ⟨hinner, h⟩
    obtain ⟨hrest, hmore⟩ := ih h
    exact ⟨⟨hinner, hrest⟩, hmore⟩

theorem Apart.of_declare {ns : List String} {l : Locals} : ∀ {scope : List String},
    (Locals.declare ns l).Apart scope →
      ns.Nodup ∧ (∀ n ∈ ns, n ∉ scope) ∧ l.Apart (ns ++ scope) := by
  induction ns with
  | nil => exact fun h => ⟨List.nodup_nil, fun _ hn => absurd hn List.not_mem_nil, h⟩
  | cons n rest ih =>
    rintro scope ⟨hn, h⟩
    obtain ⟨hnodup, hnew, hl⟩ := ih h
    refine ⟨List.nodup_cons.mpr ⟨fun hmem => hnew n hmem List.mem_cons_self, hnodup⟩, ?_, ?_⟩
    · refine List.forall_mem_cons.mpr ⟨hn, fun m hm hscope => ?_⟩
      exact hnew m hm (List.mem_cons_of_mem _ hscope)
    · refine hl.mono fun a ha => ?_
      simp only [List.cons_append, List.mem_append, List.mem_cons] at ha ⊢
      tauto

/-- Wherever the first declarations are apart the second ones are, and these introduce no other
identifiers in their own block. -/
structure Covers (l l' : Locals) : Prop where
  apart : ∀ scope, l.Apart scope → l'.Apart scope
  names : ∀ a ∈ l'.names, a ∈ l.names

theorem Covers.refl (l : Locals) : l.Covers l :=
  ⟨fun _ h => h, fun _ h => h⟩

theorem Covers.append {l l' more more' : Locals} (h : l.Covers l') (hmore : more.Covers more') :
    (l.append more).Covers (l'.append more') where
  apart scope happart := by
    obtain ⟨hl, hrest⟩ := happart.of_append
    refine (h.apart scope hl).append ((hmore.apart _ hrest).mono fun a ha => ?_)
    simp only [List.mem_append] at ha ⊢
    exact ha.imp_left (h.names a)
  names a ha := by
    rw [names_append, List.mem_append] at ha ⊢
    exact ha.imp (h.names a) (hmore.names a)

/-- A block behind declarations stands for the block alone. -/
theorem Covers.block {ns : List String} {l l' : Locals} (h : l.Covers l') :
    (declare ns (.block l .done)).Covers (.block l' .done) where
  apart scope happart := by
    obtain ⟨-, -, hblock, -⟩ := happart.of_declare
    exact ⟨(h.apart _ hblock).mono fun a ha => List.mem_append_right _ ha, trivial⟩
  names a ha := absurd ha List.not_mem_nil

end Locals

/-! ## Visible names -/

/-- A variable of the name, of any mark, is in one of the scopes. -/
def visibleIn (scopes : List (Keyed VarKey Binding)) (name : String) : Bool :=
  scopes.any fun s => s.any fun e => e.1.1 == name

theorem Table.nameVisible_scopeVars (t : Table) (name : String) :
    t.nameVisible name = visibleIn t.scopeVars name := by
  rw [visibleIn, Table.scopeVars, List.any_map]
  rfl

/-- A declaration hides variables of its own name only. -/
theorem visibleIn_declared {scopes : List (Keyed VarKey Binding)} {name : String}
    (h : visibleIn scopes name = true) (node : Option Variable) (b : Binding) :
    visibleIn ((Event.declared node b).step scopes) name = true := by
  cases scopes with
  | nil => exact h
  | cons s rest =>
    rw [visibleIn, List.any_cons, Bool.or_eq_true] at h
    rw [Event.step, visibleIn, List.any_cons, Bool.or_eq_true]
    refine h.imp_left fun hs => ?_
    obtain ⟨e, he, hname⟩ := List.any_eq_true.mp hs
    refine List.any_eq_true.mpr ?_
    -- a declaration with the same key replaces the one that was visible
    by_cases hkey : e.1 = (b.name, b.sigil)
    · rw [hkey] at hname
      exact ⟨_, List.mem_cons_self, hname⟩
    · exact ⟨e, List.mem_cons_of_mem _ (List.mem_filter.mpr ⟨he, by simpa using hkey⟩), hname⟩

theorem visibleIn_step_self {scopes : List (Keyed VarKey Binding)} (h : scopes ≠ [])
    (node : Option Variable) (b : Binding) :
    visibleIn ((Event.declared node b).step scopes) b.name = true := by
  cases scopes with
  | nil => exact absurd rfl h
  | cons s rest => simp [visibleIn, Event.step, Keyed.put]

/-- What is visible before well nested events is visible behind them. -/
theorem WellNested.visibleIn_replay {log : List Event} (h : WellNested log) {name : String} :
    ∀ {scopes : List (Keyed VarKey Binding)}, visibleIn scopes name = true →
      visibleIn (replay log scopes) name = true := by
  -- what a scope declares is gone behind it, and what is around it stays
  induction h with
  | nil => exact fun h => h
  | declared node b => exact fun h => visibleIn_declared h node b
  | used v answer => exact fun h => h
  | scope hlog _ =>
    intro scopes h
    rw [hlog.replay_scope]
    exact h
  | append _ _ ih ih' =>
    intro scopes h
    rw [replay_append]
    exact ih' (ih h)

/-! ## Taken identifiers -/

namespace Table

/-- The identifier is taken: it is a name as it is that is visible, or a numbered name that was
handed out. -/
def Taken (t : Table) (a : String) : Prop :=
  (isReserved a = false ∧ t.nameVisible a = true) ∨
    ∃ n id, leadingDigit id = false ∧ n ≤ t.pool.count id ∧ a = AliasPool.numbered n id

/-- The identifier is one of an auxiliary variable that is not handed out yet. -/
def Ahead (t : Table) (a : String) : Prop :=
  ∃ n, t.pool.count "" < n ∧ a = AliasPool.numbered n ""

/-- What is visible or counted in the first table is so in the second. -/
structure Retains (t t' : Table) : Prop where
  visible : ∀ name, t.nameVisible name = true → t'.nameVisible name = true
  count : ∀ id, t.pool.count id ≤ t'.pool.count id

/-- The identifier is handed out between the two tables. -/
structure Issues (t t' : Table) (a : String) : Prop where
  free : ¬t.Taken a
  taken : t'.Taken a

/-- The identifier is handed out before the first table, or behind the second. -/
def Clear (t t' : Table) (a : String) : Prop :=
  t.Taken a ∨ t'.Ahead a

/-- The auxiliary identifiers that are handed out between the two tables. -/
def drawn (t t' : Table) : List String :=
  (List.range' (t.pool.count "" + 1) (t'.pool.count "" - t.pool.count "")).map
    (AliasPool.numbered · "")

section

variable {t t₁ t₂ : Table} {a : String}

theorem Retains.refl (t : Table) : t.Retains t :=
  ⟨fun _ h => h, fun _ => Nat.le_refl _⟩

theorem Retains.trans (h₁ : t.Retains t₁) (h₂ : t₁.Retains t₂) : t.Retains t₂ :=
  ⟨fun name h => h₂.visible name (h₁.visible name h),
    fun id => Nat.le_trans (h₁.count id) (h₂.count id)⟩

theorem Taken.mono (h : t.Taken a) (hr : t.Retains t₁) : t₁.Taken a := by
  rcases h with ⟨hfree, hvisible⟩ | ⟨n, id, hid, hn, rfl⟩
  · exact .inl ⟨hfree, hr.visible a hvisible⟩
  · exact .inr ⟨n, id, hid, Nat.le_trans hn (hr.count id), rfl⟩

theorem Ahead.mono (h : t₁.Ahead a) (hr : t.Retains t₁) : t.Ahead a := by
  obtain ⟨n, hn, rfl⟩ := h
  exact ⟨n, Nat.lt_of_le_of_lt (hr.count "") hn, rfl⟩

/-- What is not handed out yet is not taken. -/
theorem Ahead.not_taken (h : t.Ahead a) : ¬t.Taken a := by
  obtain ⟨n, hn, rfl⟩ := h
  rintro (⟨hfree, -⟩ | ⟨m, id, hid, hm, heq⟩)
  · rw [isReserved_numbered] at hfree
    cases hfree
  · obtain ⟨rfl, rfl⟩ := numbered_inj rfl hid heq
    omega

/-- An auxiliary identifier that is not taken is not handed out yet. -/
theorem ahead_of_free {n : Nat} (h : ¬t.Taken (AliasPool.numbered n "")) :
    t.Ahead (AliasPool.numbered n "") := by
  refine ⟨n, Nat.lt_of_not_le fun hn => h ?_, rfl⟩
  exact .inr ⟨n, "", rfl, hn, rfl⟩

/-- What is handed out in between differs from all that is not. -/
theorem Issues.not_clear (h : t.Issues t₁ a) : ¬t.Clear t₁ a := by
  rintro (htaken | hahead)
  · exact h.free htaken
  · exact hahead.not_taken h.taken

theorem Issues.behind (h : t.Issues t₁ a) (hr : t₁.Retains t₂) : t.Issues t₂ a :=
  ⟨h.free, h.taken.mono hr⟩

theorem Issues.before (h : t₁.Issues t₂ a) (hr : t.Retains t₁) : t.Issues t₂ a :=
  ⟨fun htaken => h.free (htaken.mono hr), h.taken⟩

/-! ## Auxiliary identifiers -/

theorem mem_drawn : a ∈ t.drawn t₁ ↔
    ∃ n, t.pool.count "" < n ∧ n ≤ t₁.pool.count "" ∧ a = AliasPool.numbered n "" := by
  simp only [drawn, List.mem_map, List.mem_range'_1]
  constructor
  · rintro ⟨n, hn, rfl⟩
    exact ⟨n, by omega, by omega, rfl⟩
  · rintro ⟨n, hlo, hhi, rfl⟩
    exact ⟨n, by omega, rfl⟩

theorem drawn_ahead (h : a ∈ t.drawn t₁) : t.Ahead a := by
  obtain ⟨n, hn, -, rfl⟩ := mem_drawn.mp h
  exact ⟨n, hn, rfl⟩

theorem drawn_taken (h : a ∈ t.drawn t₁) : t₁.Taken a := by
  obtain ⟨n, -, hn, rfl⟩ := mem_drawn.mp h
  exact .inr ⟨n, "", rfl, hn, rfl⟩

theorem drawn_issues (h : a ∈ t.drawn t₁) : t.Issues t₁ a :=
  ⟨(drawn_ahead h).not_taken, drawn_taken h⟩

theorem drawn_nodup (t t₁ : Table) : (t.drawn t₁).Nodup := by
  refine List.Nodup.map (fun n m h => ?_) List.nodup_range'
  exact (numbered_inj rfl rfl h).1

/-! ## Declared variables -/

/-- A declaration hands out an identifier for its name, which is no auxiliary one. -/
theorem declare_issues (t : Table) {name : String} (hdigit : leadingDigit name = false)
    (hname : name ≠ "") (sigil : Sigil) (type : Ty) (isPublic : Bool) :
    t.Issues (t.declare name sigil type isPublic).2
        (t.declare name sigil type isPublic).1.javaName ∧
      ∀ n, (t.declare name sigil type isPublic).1.javaName ≠ AliasPool.numbered n "" := by
  have hspec := t.declare_spec name sigil type isPublic
  have hscopes := t.scopeVars_declare none name sigil type isPublic
  generalize t.declare name sigil type isPublic = r at hspec hscopes ⊢
  obtain ⟨b, t'⟩ := r
  obtain ⟨rfl, -, -, -, -, halias, -⟩ := hspec
  rcases t.pool.aliasFor_cases b.name (t.nameVisible b.name) with
    ⟨heq, hhidden, hfree⟩ | ⟨heq, -⟩
  · -- the name as it is, which is visible from now on
    rw [heq, Prod.mk.injEq] at halias
    dsimp only at hscopes ⊢
    rw [halias.1]
    refine ⟨⟨?_, .inl ⟨hfree, ?_⟩⟩, fun n hn => ?_⟩
    · rintro (⟨-, hvisible⟩ | ⟨n, id, -, -, hn⟩)
      · rw [hhidden] at hvisible
        cases hvisible
      · rw [hn, isReserved_numbered] at hfree
        cases hfree
    · rw [nameVisible_scopeVars, hscopes]
      refine visibleIn_step_self ?_ none b
      simp [scopeVars, scopes]
    · rw [hn, isReserved_numbered] at hfree
      cases hfree
  · -- the next number of the name
    rw [heq, Prod.mk.injEq] at halias
    dsimp only
    rw [halias.1]
    refine ⟨⟨?_, .inr ⟨_, b.name, hdigit, ?_, rfl⟩⟩, fun n hn => ?_⟩
    · rintro (⟨hfree, -⟩ | ⟨n, id, hid, hn, hnumbered⟩)
      · rw [isReserved_numbered] at hfree
        cases hfree
      · obtain ⟨rfl, rfl⟩ := numbered_inj hdigit hid hnumbered
        omega
    · exact Nat.le_of_eq (by rw [halias.2, AliasPool.count_fresh_self])
    · exact hname (numbered_inj hdigit rfl hn).2

theorem retains_declare (t : Table) (name : String) (sigil : Sigil) (type : Ty)
    (isPublic : Bool) : t.Retains (t.declare name sigil type isPublic).2 where
  visible other h := by
    rw [nameVisible_scopeVars] at h ⊢
    rw [t.scopeVars_declare none]
    exact visibleIn_declared h _ _
  count := t.count_declare name sigil type isPublic

end

/-! ## Runs that declare -/

/-- What a run between two tables declares: identifiers in front of its text, and `locals` in it.
Together with identifiers that are not handed out in the meantime, they are apart. -/
structure Declares (t t' : Table) (front : List String) (l : Locals) : Prop where
  retains : t.Retains t'
  issues : ∀ a ∈ front ++ l.names, t.Issues t' a
  distinct : front.Nodup
  apart : ∀ scope : List String, (∀ a ∈ scope, t.Clear t' a) → l.Apart (front ++ scope)

namespace Declares

variable {t t₁ t₂ : Table} {front more : List String} {l l' : Locals}

theorem perm (h : t.Declares t₁ front l) (hperm : front.Perm more) : t.Declares t₁ more l where
  retains := h.retains
  issues a ha := h.issues a (by simpa [hperm.mem_iff] using ha)
  distinct := hperm.nodup_iff.mp h.distinct
  apart scope hscope := (h.apart scope hscope).mono fun a ha => by
    simpa [hperm.mem_iff] using ha

theorem nil (t : Table) : t.Declares t [] .done where
  retains := .refl t
  issues _ ha := absurd ha List.not_mem_nil
  distinct := List.nodup_nil
  apart _ _ := trivial

/-- Only auxiliary variables are declared. -/
theorem auxiliary (h : t.Retains t₁) : t.Declares t₁ (t.drawn t₁) .done where
  retains := h
  issues a ha := drawn_issues (by simpa [Locals.names] using ha)
  distinct := drawn_nodup t t₁
  apart _ _ := trivial

/-- The whole text: what stands in front is declared before the rest. -/
theorem text (h : t.Declares t₁ front l) {scope : List String}
    (hscope : ∀ a ∈ scope, t.Clear t₁ a) : (Locals.declare front l).Apart scope := by
  refine .declare h.distinct (fun a ha hmem => ?_) (h.apart scope hscope)
  exact (h.issues a (List.mem_append_left _ ha)).not_clear (hscope a hmem)

/-- A step that hands out identifiers, to be declared in front or in place, before a run. -/
theorem step {placed : List String} (hretains : t.Retains t₁) (hnodup : (front ++ placed).Nodup)
    (hissues : ∀ a ∈ front ++ placed, t.Issues t₁ a) (h : t₁.Declares t₂ more l) :
    t.Declares t₂ (front ++ more) (.declare placed l) := by
  have hfirst (a : String) (ha : a ∈ front ++ placed) : t.Issues t₂ a :=
    (hissues a ha).behind h.retains
  have hrest (a : String) (ha : a ∈ more ++ l.names) : t.Issues t₂ a :=
    (h.issues a ha).before hretains
  -- what the step hands out is taken when the rest begins
  have hdisjoint (a : String) (ha : a ∈ front ++ placed) : a ∉ more := fun hmem =>
    (h.issues a (List.mem_append_left _ hmem)).free (hissues a ha).taken
  obtain ⟨hfront, hplaced, hapart⟩ := List.nodup_append.mp hnodup
  refine ⟨hretains.trans h.retains, fun a ha => ?_, ?_, fun scope hscope => ?_⟩
  · rw [Locals.names_declare] at ha
    simp only [List.mem_append] at ha hfirst hrest
    rcases ha with (ha | ha) | ha | ha
    · exact hfirst a (.inl ha)
    · exact hrest a (.inl ha)
    · exact hfirst a (.inr ha)
    · exact hrest a (.inr ha)
  · refine List.nodup_append.mpr ⟨hfront, h.distinct, fun a ha b hb heq => ?_⟩
    exact hdisjoint a (List.mem_append_left _ ha) (heq ▸ hb)
  · refine .declare hplaced (fun a ha hmem => ?_) ?_
    · have hin := List.mem_append_right front ha
      rcases List.mem_append.mp hmem with hmem | hmem
      · rcases List.mem_append.mp hmem with hmem | hmem
        · exact hapart a hmem a ha rfl
        · exact hdisjoint a hin hmem
      · exact (hfirst a hin).not_clear (hscope a hmem)
    · have hbehind : ∀ a ∈ front ++ placed ++ scope, t₁.Clear t₂ a := by
        intro a ha
        rcases List.mem_append.mp ha with ha | ha
        · exact .inl (hissues a ha).taken
        · exact (hscope a ha).imp_left (·.mono hretains)
      refine (h.apart _ hbehind).mono fun a ha => ?_
      simp only [List.mem_append] at ha ⊢
      tauto

/-- The text of a run before another run, in front of which only auxiliary variables are
declared. -/
theorem call (h : t.Declares t₁ front l) (h' : t₁.Declares t₂ more l')
    (hmore : ∀ a ∈ more, t₁.Ahead a) :
    t.Declares t₂ more ((Locals.declare front l).append l') where
  retains := h.retains.trans h'.retains
  issues a ha := by
    rw [Locals.names_append, Locals.names_declare] at ha
    have hfirst (ha : a ∈ front ++ l.names) := (h.issues a ha).behind h'.retains
    have hrest (ha : a ∈ more ++ l'.names) := (h'.issues a ha).before h.retains
    simp only [List.mem_append] at ha hfirst hrest
    tauto
  distinct := h'.distinct
  apart scope hscope := by
    -- the names of the second part are still to be handed out, so they are clear of the first
    have hinner : ∀ a ∈ more ++ scope, t.Clear t₁ a := by
      intro a ha
      rcases List.mem_append.mp ha with ha | ha
      · exact .inr (hmore a ha)
      · exact (hscope a ha).imp_right (·.mono h'.retains)
    refine (h.text hinner).append ?_
    have hrest : ∀ a ∈ (Locals.declare front l).names ++ scope, t₁.Clear t₂ a := by
      intro a ha
      rcases List.mem_append.mp ha with ha | ha
      · rw [Locals.names_declare] at ha
        exact .inl (h.issues a ha).taken
      · exact (hscope a ha).imp_left (·.mono h.retains)
    refine (h'.apart _ hrest).mono fun a ha => ?_
    simp only [List.mem_append] at ha ⊢
    tauto

/-- A run in a scope of its own, in front of which only auxiliary variables are declared. -/
theorem inScope {s s' : Table} (h : s.Declares s' front l) (hopened : t.Retains s)
    (hpool : t₁.pool = s'.pool) (hvisible : ∀ name, t.nameVisible name = true →
      t₁.nameVisible name = true) (hfront : ∀ a ∈ front, s.Ahead a) :
    (∀ scope : List String, (∀ a ∈ scope, t.Clear t₁ a) → ∀ a ∈ scope, s.Clear s' a) ∧
      t.Retains t₁ ∧ ∀ a ∈ front, t.Issues t₁ a := by
  have hahead {a : String} (ha : t₁.Ahead a) : s'.Ahead a := by
    unfold Ahead at ha ⊢
    rw [← hpool]
    exact ha
  refine ⟨fun scope hscope a ha => (hscope a ha).imp (·.mono hopened) hahead,
    ⟨hvisible, fun id => ?_⟩, fun a ha => ⟨?_, ?_⟩⟩
  · rw [hpool]
    exact Nat.le_trans (hopened.count id) (h.retains.count id)
  · exact fun htaken => (hfront a ha).not_taken (htaken.mono hopened)
  · -- an auxiliary identifier stays taken when the scope is closed
    obtain ⟨n, -, rfl⟩ := hfront a ha
    rcases (h.issues _ (List.mem_append_left _ ha)).taken with ⟨hfree, -⟩ | hcounted
    · rw [isReserved_numbered] at hfree
      cases hfree
    · rw [← hpool] at hcounted
      exact .inr hcounted

theorem block {s s' : Table} (h : s.Declares s' front l) (hopened : t.Retains s)
    (hpool : t₁.pool = s'.pool) (hvisible : ∀ name, t.nameVisible name = true →
      t₁.nameVisible name = true) (hfront : ∀ a ∈ front, s.Ahead a) :
    t.Declares t₁ front (.block l .done) := by
  obtain ⟨hclear, hretains, hissues⟩ := h.inScope hopened hpool hvisible hfront
  refine ⟨hretains, fun a ha => hissues a ?_, h.distinct, fun scope hscope => ?_⟩
  · simpa [Locals.names] using ha
  · exact ⟨h.apart scope (hclear scope hscope), trivial⟩

/-- The body of a method, with a parameter. -/
theorem method {s s' : Table} {param : String} (h : s.Declares s' front l) (hparam : s.Taken param)
    (hopened : t.Retains s) (hpool : t₁.pool = s'.pool) (hvisible : ∀ name,
      t.nameVisible name = true → t₁.nameVisible name = true) (hfront : ∀ a ∈ front, s.Ahead a) :
    t.Declares t₁ front (.method (.decl param l) .done) := by
  obtain ⟨-, hretains, hissues⟩ := h.inScope hopened hpool hvisible hfront
  refine ⟨hretains, fun a ha => hissues a ?_, h.distinct, fun scope _ => ?_⟩
  · simpa [Locals.names] using ha
  · have hbody := h.apart [param] fun a ha => .inl (List.mem_singleton.mp ha ▸ hparam)
    exact ⟨⟨List.not_mem_nil, hbody.mono fun a ha => List.mem_append_right _ ha⟩, trivial⟩

end Declares

end Table

end TypedPerl
