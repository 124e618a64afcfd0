import TypedPerl.Scope.Table
import Mathlib.Data.List.Basic

/-!
# The identifiers that a symbol table hands out

A table takes requests: scopes open and close, variables and subroutines are declared, a package is
opened, fresh identifiers are asked for. This module follows the identifiers through whole runs of
such requests.

The argument has two layers. A numbered name can be read back: the number ends where the digits do,
provided that the name behind it does not begin with one, so that distinct numbers or names give
distinct identifiers. Over a run, a ledger then relates what was handed out to the counters of the
pool and to the variables of the open scopes.
-/

namespace TypedPerl

namespace Name

/-! ## Numbered names -/

/-- The text begins with a decimal digit. -/
def leadingDigit (s : String) : Bool :=
  s.toList.head?.any Char.isDigit

/-- An identifier that no word of the target language and no class of the runtime stands for. -/
def Usable (a : String) : Prop :=
  a ≠ "" ∧ a ≠ "_" ∧ a ∉ keywords ∧ a ∉ runtimeNames

theorem toList_numbered (n : Nat) (id : String) :
    (AliasPool.numbered n id).toList = ['p', 'd', '_'] ++ (Nat.toDigits 10 n ++ id.toList) := by
  simp [AliasPool.numbered, generatedStart]

/-- What is not a digit bounds the digits in front of it. -/
theorem takeWhile_digits_append (n : Nat) {id : String} (h : leadingDigit id = false) :
    (Nat.toDigits 10 n ++ id.toList).takeWhile Char.isDigit = Nat.toDigits 10 n := by
  have hdigits : ∀ c ∈ Nat.toDigits 10 n, Char.isDigit c = true := fun _ hc =>
    Nat.isDigit_of_mem_toDigits (by decide) (by decide) hc
  have hrest : id.toList.takeWhile Char.isDigit = [] := by
    unfold leadingDigit at h
    cases hid : id.toList with
    | nil => rfl
    | cons c rest =>
      have hc : c.isDigit = false := by simpa [hid] using h
      simp [hc]
  rw [List.takeWhile_append_of_pos hdigits, hrest, List.append_nil]

/-- A numbered name gives back its number and its name. -/
theorem numbered_inj {n m : Nat} {id id' : String} (hid : leadingDigit id = false)
    (hid' : leadingDigit id' = false)
    (h : AliasPool.numbered n id = AliasPool.numbered m id') : n = m ∧ id = id' := by
  have htail : Nat.toDigits 10 n ++ id.toList = Nat.toDigits 10 m ++ id'.toList := by
    have := congrArg String.toList h
    rw [toList_numbered, toList_numbered] at this
    exact List.append_cancel_left this
  -- the name does not begin with a digit, so the number ends where the digits end
  have hdigits : Nat.toDigits 10 n = Nat.toDigits 10 m := by
    rw [← takeWhile_digits_append n hid, htail, takeWhile_digits_append m hid']
  refine ⟨?_, ?_⟩
  · calc
      n = Nat.ofDigitChars 10 (Nat.toDigits 10 n) 0 := Nat.ofDigitChars_ten_toDigits.symm
      _ = Nat.ofDigitChars 10 (Nat.toDigits 10 m) 0 := by rw [hdigits]
      _ = m := Nat.ofDigitChars_ten_toDigits
  · rw [hdigits] at htail
    exact String.toList_injective (List.append_cancel_left htail)

theorem numbered_ne_self (n : Nat) (id : String) : AliasPool.numbered n id ≠ id := by
  intro h
  have hlength := congrArg (·.toList.length) h
  simp only [toList_numbered, List.length_append, List.length_cons] at hlength
  omega

/-- What begins like a generated name is reserved. -/
theorem isReserved_of_start {a : String} (h : ['p', 'd', '_'] <+: a.toList) :
    isReserved a = true := by
  have hstart : generatedStart.isPrefixOf a = true := String.startsWith_string_iff.mpr h
  simp [isReserved, hstart]

theorem isReserved_numbered (n : Nat) (id : String) :
    isReserved (AliasPool.numbered n id) = true := by
  apply isReserved_of_start
  rw [toList_numbered]
  exact List.prefix_append _ _

/-- No word of the target language or the runtime begins like a generated name. -/
theorem usable_of_start {a : String} (h : ['p', 'd', '_'] <+: a.toList) : Usable a := by
  have hwords : ∀ w ∈ "" :: "_" :: (keywords ++ runtimeNames), ¬ ['p', 'd', '_'] <+: w.toList := by
    decide +kernel
  have hnone : a ∉ "" :: "_" :: (keywords ++ runtimeNames) := fun hmem => hwords _ hmem h
  simpa [Usable] using hnone

theorem usable_numbered (n : Nat) (id : String) : Usable (AliasPool.numbered n id) := by
  apply usable_of_start
  rw [toList_numbered]
  exact List.prefix_append _ _

theorem usable_of_isReserved {a : String} (h : isReserved a = false) : Usable a := by
  simp only [isReserved, Bool.or_eq_false_iff, beq_eq_false_iff_ne] at h
  obtain ⟨⟨⟨⟨hempty, hplaceholder⟩, hruntime⟩, hkeyword⟩, -⟩ := h
  refine ⟨hempty, hplaceholder, ?_, ?_⟩
  · simpa using hkeyword
  · simpa using hruntime

namespace AliasPool

/-! ## What the pool accounts for -/

/-- The identifier was handed out for the name: it is the name itself, or a numbered name that the
pool has counted. -/
def Accounts (p : AliasPool) (id a : String) : Prop :=
  (a = id ∧ isReserved id = false) ∨ ∃ n, n ≤ p.count id ∧ a = numbered n id

theorem count_fresh_self (p : AliasPool) (id : String) :
    (p.fresh id).2.count id = p.count id + 1 := by
  simp [fresh, count]

/-- Counters only grow. -/
theorem count_le_fresh (p : AliasPool) (id id' : String) :
    p.count id' ≤ (p.fresh id).2.count id' := by
  by_cases h : id = id'
  · subst h
    rw [count_fresh_self]
    exact Nat.le_succ _
  · simp [fresh, count, Keyed.get?_put_of_ne _ _ h]

/-- A name is handed out as it is, or under its next number. -/
theorem aliasFor_cases (p : AliasPool) (id : String) (conflict : Bool) :
    (p.aliasFor id conflict = (id, p) ∧ conflict = false ∧ isReserved id = false) ∨
    (p.aliasFor id conflict = (numbered (p.count id + 1) id, (p.fresh id).2) ∧
      (conflict = true ∨ isReserved id = true)) := by
  unfold aliasFor
  split
  · next h =>
    simp only [Bool.and_eq_true, Bool.not_eq_true'] at h
    exact .inl ⟨rfl, h⟩
  · next h =>
    refine .inr ⟨rfl, ?_⟩
    cases conflict <;> simp_all

theorem aliasFor_true (p : AliasPool) (id : String) : p.aliasFor id true = p.fresh id := rfl

theorem count_le_aliasFor (p : AliasPool) (id : String) (conflict : Bool) (id' : String) :
    p.count id' ≤ (p.aliasFor id conflict).2.count id' := by
  obtain ⟨heq, -⟩ | ⟨heq, -⟩ := p.aliasFor_cases id conflict
  · exact Nat.le_of_eq (by rw [heq])
  · rw [heq]
    exact p.count_le_fresh id id'

theorem Accounts.mono {p p' : AliasPool} {id a : String} (h : p.Accounts id a)
    (hle : ∀ id', p.count id' ≤ p'.count id') : p'.Accounts id a := by
  obtain hbare | ⟨n, hn, ha⟩ := h
  · exact .inl hbare
  · exact .inr ⟨n, Nat.le_trans hn (hle id), ha⟩

theorem Accounts.usable {p : AliasPool} {id a : String} (h : p.Accounts id a) : Usable a := by
  obtain ⟨rfl, hfree⟩ | ⟨n, -, rfl⟩ := h
  · exact usable_of_isReserved hfree
  · exact usable_numbered n id

theorem accounts_aliasFor (p : AliasPool) (id : String) (conflict : Bool) :
    (p.aliasFor id conflict).2.Accounts id (p.aliasFor id conflict).1 := by
  obtain ⟨heq, -, hfree⟩ | ⟨heq, -⟩ := p.aliasFor_cases id conflict
  · rw [heq]
    exact .inl ⟨rfl, hfree⟩
  · rw [heq]
    exact .inr ⟨p.count id + 1, Nat.le_of_eq (p.count_fresh_self id).symm, rfl⟩

/-- An identifier that the pool hands out next equals one that it handed out before only if both are
names as they are. -/
theorem aliasFor_eq_accounted {p : AliasPool} {id id' a : String} {conflict : Bool}
    (hid : leadingDigit id = false) (hid' : leadingDigit id' = false) (ha : p.Accounts id' a)
    (h : (p.aliasFor id conflict).1 = a) :
    id' = id ∧ a = id ∧ conflict = false ∧ isReserved id = false := by
  obtain ⟨heq, hconflict, hfree⟩ | ⟨heq, -⟩ := p.aliasFor_cases id conflict
  · replace h : id = a := by rw [← h, heq]
    obtain ⟨rfl, -⟩ | ⟨n, -, rfl⟩ := ha
    · exact ⟨h.symm, h.symm, hconflict, hfree⟩
    · -- a numbered name is reserved, so it is no free name
      rw [h, isReserved_numbered] at hfree
      contradiction
  · replace h : numbered (p.count id + 1) id = a := by rw [← h, heq]
    obtain ⟨rfl, hfree⟩ | ⟨n, hn, rfl⟩ := ha
    · rw [← h, isReserved_numbered] at hfree
      contradiction
    · -- of two numbered names both the number and the name would agree, but the number is new
      obtain ⟨rfl, rfl⟩ := numbered_inj hid hid' h
      omega

end AliasPool

end Name

/-! ## Requests -/

/-- A request to a symbol table. -/
inductive Request (τ : Type) where
  /-- Open a scope. -/
  | enter (kind : ScopeKind)
  /-- Close the innermost scope. -/
  | exit
  /-- Close scopes down to a depth. -/
  | restore (depth : Int)
  /-- Declare a variable in the innermost scope. -/
  | declare (name : String) (sigil : Sigil) (type : τ) (isPublic : Bool)
  /-- Declare a subroutine. -/
  | declareSub (name : String) (returns : τ)
  /-- Open the package of the unit. -/
  | openPackage (name : String)
  /-- Ask for a fresh identifier. -/
  | auxiliary (hint : String)
deriving Repr

/-- Something that was given an identifier. -/
inductive Issued (τ : Type) where
  /-- A variable. -/
  | var (b : Binding τ)
  /-- A subroutine. -/
  | sub (s : Sub τ)
  /-- A generated variable, with the hint for its identifier. -/
  | auxiliary (hint javaName : String)
deriving Repr

variable {τ : Type}

namespace Request

/-- The name or hint that an identifier is asked for, if one is. -/
def wanted? : Request τ → Option String
  | declare name _ _ _ | declareSub name _ | auxiliary name => some name
  | _ => none

/-- No identifier is asked for a text that begins with a digit. -/
def Undigited (q : Request τ) : Prop :=
  ∀ name ∈ q.wanted?, Name.leadingDigit name = false

end Request

namespace Issued

/-- The identifier. -/
def javaName : Issued τ → String
  | var b => b.javaName
  | sub s => s.javaName
  | auxiliary _ a => a

/-- The name or hint that the identifier was asked for. -/
def source : Issued τ → String
  | var b => b.name
  | sub s => s.name
  | auxiliary hint _ => hint

/-- The identifier is one of a generated variable. -/
def isAuxiliary : Issued τ → Bool
  | auxiliary _ _ => true
  | _ => false

end Issued

namespace Table

/-- One request: what was given an identifier, and the table afterwards. -/
def perform (t : Table τ) : Request τ → Option (Issued τ) × Table τ
  | .enter kind => (none, t.enter kind)
  | .exit => (none, t.exit)
  | .restore depth => (none, t.restore depth)
  | .declare name sigil type isPublic =>
    let (b, t) := t.declare name sigil type isPublic
    (some (.var b), t)
  | .declareSub name returns =>
    let (s, t) := t.declareSub name returns
    (some (.sub s), t)
  | .openPackage name => (none, (t.openPackage name).2)
  | .auxiliary hint =>
    let (a, t) := t.auxiliary hint
    (some (.auxiliary hint a), t)

/-- Several requests: all that was given an identifier, in order, and the table afterwards. -/
def run (t : Table τ) : List (Request τ) → List (Issued τ) × Table τ
  | [] => ([], t)
  | q :: qs =>
    let (i, t) := t.perform q
    let (rest, t) := t.run qs
    (i.toList ++ rest, t)

/-- The variables of the open scopes with what they are looked up by. -/
def openEntries (t : Table τ) : List (VarKey × Binding τ) :=
  t.scopes.flatMap (·.vars)

/-- The variables of the open scopes. -/
def openVars (t : Table τ) : List (Binding τ) :=
  t.openEntries.map (·.2)

theorem nameVisible_eq (t : Table τ) (name : String) :
    t.nameVisible name = t.openEntries.any fun e => e.1.1 == name := by
  simp only [nameVisible, openEntries, Scope.hasName, List.any_flatMap]

/-! ## What requests do to the open scopes -/

/-- Closing scopes only takes variables away. -/
theorem openEntries_drop (t : Table τ) (n : Nat) :
    ({ t with inner := t.inner.drop n } : Table τ).openEntries.Sublist t.openEntries := by
  have hsplit : t.openEntries = (t.inner.take n).flatMap (·.vars) ++
      ({ t with inner := t.inner.drop n } : Table τ).openEntries := by
    simp only [openEntries, scopes]
    rw [← List.flatMap_append, ← List.append_assoc, List.take_append_drop]
  rw [hsplit]
  exact List.sublist_append_right _ _

/-- A variable that is entered stands before those that stay. -/
theorem openEntries_putInnermost (t : Table τ) (b : Binding τ) :
    ∃ kept, (t.putInnermost b).openEntries = ((b.name, b.sigil), b) :: kept ∧
      kept.Sublist t.openEntries := by
  unfold putInnermost
  -- the scope of the file is the innermost one when no other is open
  cases hinner : t.inner with
  | nil =>
    refine ⟨t.fileScope.vars.erase (b.name, b.sigil), ?_, ?_⟩
    · simp [openEntries, scopes, Keyed.put]
    · have herase : (t.fileScope.vars.erase (b.name, b.sigil)).Sublist t.fileScope.vars :=
        List.filter_sublist
      simpa [openEntries, scopes, hinner] using herase
  | cons s rest =>
    refine ⟨s.vars.erase (b.name, b.sigil) ++ (rest ++ [t.fileScope]).flatMap (·.vars), ?_, ?_⟩
    · simp [openEntries, scopes, Keyed.put]
    · simp only [openEntries, scopes, hinner, List.cons_append, List.flatMap_cons]
      exact List.filter_sublist.append_right _

/-- What a declaration does: the identifier comes from the pool, and the variable is entered into
the innermost scope. -/
theorem declare_spec (t : Table τ) (name : String) (sigil : Sigil) (type : τ) (isPublic : Bool) :
    let (b, t') := t.declare name sigil type isPublic
    b.name = name ∧ b.sigil = sigil ∧ b.type = type ∧ b.isPublic = isPublic ∧ b.depth = t.depth ∧
      (b.javaName, t'.pool) = t.pool.aliasFor name (t.nameVisible name) ∧
      ∃ kept, t'.openEntries = ((name, sigil), b) :: kept ∧ kept.Sublist t.openEntries := by
  unfold declare
  dsimp only
  -- a public variable is kept in the package of the unit too, which the scopes do not show
  split
  · refine ⟨rfl, rfl, rfl, rfl, rfl, ?_, ?_⟩
    · unfold putInnermost
      split <;> rfl
    · exact openEntries_putInnermost _ _
  · refine ⟨rfl, rfl, rfl, rfl, rfl, ?_, ?_⟩
    · unfold putInnermost
      split <;> rfl
    · exact openEntries_putInnermost _ _

theorem declareSub_spec (t : Table τ) (name : String) (returns : τ) :
    let (s, t') := t.declareSub name returns
    s.name = name ∧ (s.javaName, t'.pool) = t.pool.aliasFor name false ∧
      t'.openEntries = t.openEntries := by
  unfold declareSub
  dsimp only
  split <;> exact ⟨rfl, rfl, rfl⟩

theorem openPackage_spec (t : Table τ) (name : String) :
    (t.openPackage name).2.pool = t.pool ∧
      (t.openPackage name).2.openEntries = t.openEntries := by
  unfold openPackage
  split <;> exact ⟨rfl, rfl⟩

/-! ## Where identifiers come from -/

/-- A pool handed out the identifier. -/
def HandedOut (a : String) : Prop :=
  ∃ (p : Name.AliasPool) (id : String) (conflict : Bool), a = (p.aliasFor id conflict).1

theorem perform_handedOut (t : Table τ) (q : Request τ) :
    ∀ i ∈ (t.perform q).1, HandedOut i.javaName := by
  -- only a request that declares something hands out identifiers
  cases q with
  | enter | exit | restore | openPackage => exact fun i hi => by cases hi
  | declare name sigil type isPublic =>
    rintro _ ⟨⟩
    obtain ⟨-, -, -, -, -, halias, -⟩ := t.declare_spec name sigil type isPublic
    exact ⟨t.pool, name, t.nameVisible name, congrArg Prod.fst halias⟩
  | declareSub name returns =>
    rintro _ ⟨⟩
    obtain ⟨-, halias, -⟩ := t.declareSub_spec name returns
    exact ⟨t.pool, name, false, congrArg Prod.fst halias⟩
  | auxiliary hint =>
    rintro _ ⟨⟩
    exact ⟨t.pool, hint, true, rfl⟩

/-- Whatever is given an identifier in a run of requests, a pool handed it out. -/
theorem run_handedOut (t : Table τ) (qs : List (Request τ)) :
    ∀ i ∈ (t.run qs).1, HandedOut i.javaName := by
  induction qs generalizing t with
  | nil => exact fun i hi => absurd hi List.not_mem_nil
  | cons q qs ih =>
    refine List.forall_mem_append.mpr ⟨fun i hi => ?_, ih _⟩
    exact t.perform_handedOut q i (Option.mem_toList.mp hi)

/-! ## The ledger of a run -/

/-- What holds between a table and all that it has given an identifier. -/
structure Ledger (t : Table τ) (issued : List (Issued τ)) : Prop where
  /-- No name or hint begins with a digit. -/
  undigited : ∀ i ∈ issued, Name.leadingDigit i.source = false
  /-- Every identifier is accounted for. -/
  accounted : ∀ i ∈ issued, t.pool.Accounts i.source i.javaName
  /-- An identifier is given twice only as a name that is not reserved. -/
  repeated : issued.Pairwise fun i j => i.javaName = j.javaName →
    i.source = j.source ∧ Name.isReserved i.javaName = false
  /-- The identifiers of generated variables are reserved. -/
  generated : ∀ i ∈ issued, i.isAuxiliary = true → Name.isReserved i.javaName = true
  /-- The open scopes hold variables that were given an identifier, each under its name. -/
  entered : ∀ e ∈ t.openEntries, e.1 = (e.2.name, e.2.sigil) ∧ .var e.2 ∈ issued
  /-- The variables of the open scopes have different identifiers. -/
  apart : (t.openVars.map (·.javaName)).Nodup

theorem ledger_fresh (r : Registry τ) : Ledger { registry := r } ([] : List (Issued τ)) where
  undigited := by simp
  accounted := by simp
  repeated := .nil
  generated := by simp
  entered := by simp [openEntries, scopes]
  apart := by simp [openVars, openEntries, scopes]

/-- A request that gives no identifier and enters no variable keeps the ledger. -/
theorem Ledger.of_sublist {t t' : Table τ} {issued : List (Issued τ)} (h : t.Ledger issued)
    (hpool : t'.pool = t.pool) (hopen : t'.openEntries.Sublist t.openEntries) :
    t'.Ledger issued where
  undigited := h.undigited
  accounted := hpool ▸ h.accounted
  repeated := h.repeated
  generated := h.generated
  entered := fun e he => h.entered e (hopen.subset he)
  apart := h.apart.sublist ((hopen.map _).map _)

/-- An identifier that is given next, against those given before. -/
theorem Ledger.next_eq {t : Table τ} {issued : List (Issued τ)} (h : t.Ledger issued)
    {i : Issued τ} (hi : i ∈ issued) {id : String} {conflict : Bool}
    (hid : Name.leadingDigit id = false) (heq : i.javaName = (t.pool.aliasFor id conflict).1) :
    i.source = id ∧ i.javaName = id ∧ conflict = false ∧ Name.isReserved id = false :=
  Name.AliasPool.aliasFor_eq_accounted hid (h.undigited i hi) (h.accounted i hi) heq.symm

/-- The records of a ledger after one more identifier from the pool. The open scopes are left to
the request. -/
theorem Ledger.issue {t t' : Table τ} {issued : List (Issued τ)} (h : t.Ledger issued)
    {i : Issued τ} (conflict : Bool) (hdigit : Name.leadingDigit i.source = false)
    (hpool : (i.javaName, t'.pool) = t.pool.aliasFor i.source conflict)
    (haux : i.isAuxiliary = true → conflict = true)
    (hentered : ∀ e ∈ t'.openEntries,
      e.1 = (e.2.name, e.2.sigil) ∧ .var e.2 ∈ issued ++ [i])
    (hapart : (t'.openVars.map (·.javaName)).Nodup) : t'.Ledger (issued ++ [i]) := by
  have hname : i.javaName = (t.pool.aliasFor i.source conflict).1 := congrArg Prod.fst hpool
  have hpool' : t'.pool = (t.pool.aliasFor i.source conflict).2 := congrArg Prod.snd hpool
  refine ⟨?undigited, ?accounted, ?repeated, ?generated, hentered, hapart⟩
  case undigited =>
    intro j hj
    obtain hj | rfl := List.mem_append.mp hj |>.imp_right List.mem_singleton.mp
    · exact h.undigited j hj
    · exact hdigit
  case accounted =>
    intro j hj
    rw [hpool']
    obtain hj | rfl := List.mem_append.mp hj |>.imp_right List.mem_singleton.mp
    · exact (h.accounted j hj).mono (t.pool.count_le_aliasFor _ _)
    · rw [hname]
      exact t.pool.accounts_aliasFor _ _
  case repeated =>
    -- the new identifier against each that was given before
    refine List.pairwise_append.mpr ⟨h.repeated, List.pairwise_singleton _ _, ?_⟩
    intro j hj k hk heq
    obtain rfl := List.mem_singleton.mp hk
    obtain ⟨hsource, hbare, -, hfree⟩ := h.next_eq hj hdigit (heq.trans hname)
    exact ⟨hsource, hbare ▸ hfree⟩
  case generated =>
    intro j hj hjaux
    obtain hj | rfl := List.mem_append.mp hj |>.imp_right List.mem_singleton.mp
    · exact h.generated j hj hjaux
    · rw [hname, haux hjaux, Name.AliasPool.aliasFor_true]
      exact Name.isReserved_numbered _ _

/-- A new variable has another identifier than all variables that can be seen. -/
theorem Ledger.declared_apart {t : Table τ} {issued : List (Issued τ)} (h : t.Ledger issued)
    {name : String} (hdigit : Name.leadingDigit name = false) {e : VarKey × Binding τ}
    (he : e ∈ t.openEntries) :
    e.2.javaName ≠ (t.pool.aliasFor name (t.nameVisible name)).1 := by
  intro heq
  obtain ⟨hkey, hissued⟩ := h.entered e he
  obtain ⟨hsource, -, hhidden, -⟩ := h.next_eq hissued hdigit heq
  -- the same name would be visible, and the alias a numbered one
  rw [nameVisible_eq, List.any_eq_false] at hhidden
  apply hhidden e he
  rw [hkey]
  exact beq_iff_eq.mpr hsource

theorem Ledger.declare {t : Table τ} {issued : List (Issued τ)} (h : t.Ledger issued)
    {name : String} (hdigit : Name.leadingDigit name = false) (sigil : Sigil) (type : τ)
    (isPublic : Bool) :
    (t.declare name sigil type isPublic).2.Ledger
      (issued ++ [.var (t.declare name sigil type isPublic).1]) := by
  have hspec := t.declare_spec name sigil type isPublic
  generalize t.declare name sigil type isPublic = p at hspec ⊢
  obtain ⟨b, t'⟩ := p
  obtain ⟨rfl, rfl, -, -, -, hpool, kept, hopen, hkept⟩ := hspec
  have hname : b.javaName = (t.pool.aliasFor b.name (t.nameVisible b.name)).1 :=
    congrArg Prod.fst hpool
  apply h.issue (i := .var b) _ hdigit hpool (by simp [Issued.isAuxiliary])
  · intro e he
    rw [hopen] at he
    obtain rfl | he := List.mem_cons.mp he
    · exact ⟨rfl, by simp⟩
    · obtain ⟨hkey, hissued⟩ := h.entered e (hkept.subset he)
      exact ⟨hkey, List.mem_append_left _ hissued⟩
  · -- entering a variable may hide one of its own name, and leaves the others
    rw [openVars, hopen, List.map_cons, List.map_cons, List.nodup_cons]
    refine ⟨?_, h.apart.sublist ((hkept.map _).map _)⟩
    simp only [List.map_map, List.mem_map, Function.comp_apply, not_exists, not_and]
    intro e he
    rw [hname]
    exact h.declared_apart hdigit (hkept.subset he)

theorem Ledger.declareSub {t : Table τ} {issued : List (Issued τ)} (h : t.Ledger issued)
    {name : String} (hdigit : Name.leadingDigit name = false) (returns : τ) :
    (t.declareSub name returns).2.Ledger
      (issued ++ [.sub (t.declareSub name returns).1]) := by
  have hspec := t.declareSub_spec name returns
  generalize t.declareSub name returns = p at hspec ⊢
  obtain ⟨s, t'⟩ := p
  obtain ⟨rfl, hpool, hopen⟩ := hspec
  apply h.issue (i := .sub s) _ hdigit hpool (by simp [Issued.isAuxiliary])
  · intro e he
    obtain ⟨hkey, hissued⟩ := h.entered e (hopen ▸ he)
    exact ⟨hkey, List.mem_append_left _ hissued⟩
  · rw [openVars, hopen]
    exact h.apart

theorem Ledger.auxiliary {t : Table τ} {issued : List (Issued τ)} (h : t.Ledger issued)
    {hint : String} (hdigit : Name.leadingDigit hint = false) :
    (t.auxiliary hint).2.Ledger (issued ++ [.auxiliary hint (t.auxiliary hint).1]) := by
  apply h.issue (i := .auxiliary hint (t.auxiliary hint).1) true hdigit rfl (fun _ => rfl)
  · intro e he
    obtain ⟨hkey, hissued⟩ := h.entered e he
    exact ⟨hkey, List.mem_append_left _ hissued⟩
  · exact h.apart

/-- One request keeps the ledger. -/
theorem Ledger.perform {t : Table τ} {issued : List (Issued τ)} (h : t.Ledger issued)
    {q : Request τ} (hq : q.Undigited) :
    (t.perform q).2.Ledger (issued ++ (t.perform q).1.toList) := by
  cases q with
  | enter kind => exact (List.append_nil issued).symm ▸ h.of_sublist rfl (.refl _)
  | exit => exact (List.append_nil issued).symm ▸ h.of_sublist rfl (t.openEntries_drop 1)
  | restore depth => exact (List.append_nil issued).symm ▸ h.of_sublist rfl (t.openEntries_drop _)
  | openPackage name =>
    obtain ⟨hpool, hopen⟩ := t.openPackage_spec name
    exact (List.append_nil issued).symm ▸ h.of_sublist hpool (hopen ▸ .refl _)
  | declare name sigil type isPublic => exact h.declare (hq name rfl) sigil type isPublic
  | declareSub name returns => exact h.declareSub (hq name rfl) returns
  | auxiliary hint => exact h.auxiliary (hq hint rfl)

/-- A run of requests keeps the ledger. -/
theorem Ledger.run {t : Table τ} {issued : List (Issued τ)} (h : t.Ledger issued)
    {qs : List (Request τ)} (hqs : ∀ q ∈ qs, q.Undigited) :
    (t.run qs).2.Ledger (issued ++ (t.run qs).1) := by
  induction qs generalizing t issued with
  | nil => simpa [Table.run] using h
  | cons q qs ih =>
    have hstep := h.perform (hqs q List.mem_cons_self)
    have hrest := ih hstep fun q' hq' => hqs q' (List.mem_cons_of_mem q hq')
    rwa [List.append_assoc] at hrest

/-! ## Identifiers do not collide -/

/-- After any requests to a fresh table, the variables of the open scopes have different
identifiers; the identifier of a generated variable is that of nothing else, declared before it or
after it; and no identifier means something in the target language or its runtime. -/
theorem identifiers_apart (r : Registry τ) (qs : List (Request τ))
    (hqs : ∀ q ∈ qs, q.Undigited) :
    let (issued, t) := ({ registry := r } : Table τ).run qs
    (t.openVars.map (·.javaName)).Nodup ∧
      issued.Pairwise (fun i j =>
        (i.isAuxiliary = true ∨ j.isAuxiliary = true) → i.javaName ≠ j.javaName) ∧
      ∀ i ∈ issued, Name.Usable i.javaName := by
  have hledger := (ledger_fresh r).run hqs
  rw [List.nil_append] at hledger
  refine ⟨hledger.apart, ?_, fun i hi => (hledger.accounted i hi).usable⟩
  -- an identifier that is given twice is not reserved, and those of generated variables are
  apply hledger.repeated.imp_of_mem
  rintro i j hi hj hrepeated haux heq
  obtain ⟨-, hfree⟩ := hrepeated heq
  obtain haux | haux := haux
  · exact absurd (hledger.generated i hi haux) (by simp [hfree])
  · exact absurd (hledger.generated j hj haux) (by simp [← heq, hfree])

/-- A name leaves its scope and comes back, beside a word of the target language and an empty
hint. -/
def reusedNames : List (Request Ty) :=
  [.openPackage "Store", .enter .block, .declare "x" .scalar .integer true, .auxiliary "x", .exit,
    .declare "x" .array (.arrayOf .string) false, .declareSub "class" .string, .auxiliary ""]

theorem reusedNames_apart :
    (∀ q ∈ reusedNames, q.Undigited) ∧
      let (issued, t) := ({ registry := {} } : Table Ty).run reusedNames
      issued.map (·.javaName) = ["x", "pd_1x", "x", "pd_1class", "pd_1"] ∧
        (t.openVars.map (·.javaName)).Nodup ∧
        issued.Pairwise (fun i j =>
          (i.isAuxiliary = true ∨ j.isAuxiliary = true) → i.javaName ≠ j.javaName) ∧
        ∀ i ∈ issued, Name.Usable i.javaName := by
  have hundigited : ∀ q ∈ reusedNames, q.Undigited := by
    simp [reusedNames, Request.Undigited, Request.wanted?, Name.leadingDigit]
  exact ⟨hundigited, by decide +kernel, identifiers_apart {} reusedNames hundigited⟩

end Table

end TypedPerl
