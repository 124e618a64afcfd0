import TypedPerl.Catalog
import TypedPerl.Proofs.Ty.Stored

/-!
# Kept packages

What a package is that the catalog may keep. `Package.Sound` holds of a package that is built up
variable by variable and subroutine by subroutine: every entry stands under its own name, belongs to
the package and has a well-formed type, and every variable is public. `Catalog.get_sound`: whatever
bytes a catalog holds, what it gives is such a package.
-/

namespace TypedPerl

/-! ## Keyed lists without shadowed entries -/

namespace Keyed

variable {κ α β : Type}

/-- No key stands twice. -/
def Distinct (m : Keyed κ α) : Prop :=
  m.keys.Nodup

theorem distinct_nil : Distinct ([] : Keyed κ α) :=
  List.nodup_nil

theorem distinct_cons {k : κ} {a : α} {m : Keyed κ α} :
    Distinct ((k, a) :: m) ↔ (∀ b, (k, b) ∉ m) ∧ Distinct m := by
  simp [Distinct, keys]

theorem Distinct.perm {m n : Keyed κ α} (h : m.Distinct) (hp : n.Perm m) : n.Distinct :=
  (hp.map _).nodup_iff.2 h

theorem Distinct.map_values {m : Keyed κ α} (h : m.Distinct) (f : α → β) :
    Distinct (m.map fun e => (e.1, f e.2)) := by
  simpa [Distinct, keys, Function.comp_def] using h

variable [DecidableEq κ]

theorem mem_erase {m : Keyed κ α} {k : κ} {e : κ × α} :
    e ∈ m.erase k ↔ e ∈ m ∧ e.1 ≠ k := by
  simp [erase]

/-- What holds of all entries and of a new one holds of all entries after the new one is put. -/
theorem forall_put {m : Keyed κ α} {P : κ → α → Prop} (h : ∀ k a, (k, a) ∈ m → P k a) {k : κ}
    {a : α} (ha : P k a) : ∀ k' a', (k', a') ∈ m.put k a → P k' a' := by
  intro k' a' hmem
  rcases List.mem_cons.1 hmem with heq | hmem
  · cases heq
    exact ha
  · exact h k' a' (mem_erase.1 hmem).1

theorem Distinct.put {m : Keyed κ α} (h : m.Distinct) (k : κ) (a : α) : (m.put k a).Distinct := by
  refine distinct_cons.2 ⟨fun b hb => (mem_erase.1 hb).2 rfl, ?_⟩
  exact List.Nodup.sublist ((List.filter_sublist (l := m)).map _) h

/-- Without shadowed entries, what a key gives is what stands in the list. -/
theorem Distinct.get?_iff {m : Keyed κ α} (h : m.Distinct) {k : κ} {a : α} :
    m.get? k = some a ↔ (k, a) ∈ m := by
  refine ⟨mem_of_get?, fun hmem => ?_⟩
  induction m with
  | nil => simp at hmem
  | cons e m ih =>
    obtain ⟨k', b⟩ := e
    obtain ⟨hnot, hm⟩ := distinct_cons.1 h
    rw [get?_cons]
    rcases List.mem_cons.1 hmem with heq | hmem
    · cases heq
      rw [if_pos rfl]
    · have hne : k' ≠ k := fun hk => hnot a (hk ▸ hmem)
      rw [if_neg hne, ih hm hmem]

theorem Distinct.get?_perm {m n : Keyed κ α} (h : m.Distinct) (hp : n.Perm m) (k : κ) :
    n.get? k = m.get? k := by
  apply Option.ext
  intro a
  rw [(h.perm hp).get?_iff, h.get?_iff, hp.mem_iff]

theorem get?_map_values (f : α → β) (m : Keyed κ α) (k : κ) :
    get? (m.map fun e => (e.1, f e.2)) k = (m.get? k).map f := by
  induction m with
  | nil => rfl
  | cons e m ih =>
    obtain ⟨k', a⟩ := e
    rw [List.map_cons, get?_cons, get?_cons, ih]
    split <;> rfl

/-- Entering rows of different keys one after the other. -/
theorem get?_foldl_put {rows : Keyed κ α} (h : rows.Distinct) (m : Keyed κ α) (k : κ) :
    get? (rows.foldl (fun m e => put m e.1 e.2) m) k = (rows.get? k).or (m.get? k) := by
  induction rows generalizing m with
  | nil => rfl
  | cons e rows ih =>
    obtain ⟨k', a⟩ := e
    obtain ⟨hnot, hrows⟩ := distinct_cons.1 h
    rw [List.foldl_cons, ih hrows, get?_cons]
    -- the rows are distinct, so a later one does not replace this
    by_cases hk : k' = k
    · have hnone : get? rows k = none := by
        apply Option.eq_none_iff_forall_ne_some.2
        intro b hb
        exact hnot b (hk ▸ mem_of_get? hb)
      subst hk
      simp [hnone]
    · rw [get?_put_of_ne _ _ hk, if_neg hk]

end Keyed

/-! ## Packages that are built up -/

namespace Package

/-- A package as its unit builds it up: every entry stands under its own name, belongs to the
package and has a well-formed type, and the variables are public. -/
structure Sound (p : Package) : Prop where
  /-- No variable is shadowed. -/
  vars_distinct : p.vars.Distinct
  /-- Variables stand under their names and marks. -/
  vars_key : ∀ k b, (k, b) ∈ p.vars → k = (b.name, b.sigil)
  /-- Variables are public variables of the package. -/
  vars_own : ∀ k b, (k, b) ∈ p.vars → b.isPublic = true ∧ b.package = p.name
  /-- The types of variables are well formed. -/
  vars_type : ∀ k b, (k, b) ∈ p.vars → b.type.WellFormed
  /-- No subroutine is shadowed. -/
  subs_distinct : p.subs.Distinct
  /-- Subroutines stand under their names. -/
  subs_key : ∀ k s, (k, s) ∈ p.subs → k = s.name
  /-- Subroutines belong to the package. -/
  subs_own : ∀ k s, (k, s) ∈ p.subs → s.package = p.name
  /-- The types of results are well formed. -/
  subs_type : ∀ k s, (k, s) ∈ p.subs → s.returns.WellFormed

theorem sound_empty (name className : String) (edition : Nat) :
    Sound { name := name, className := className, edition := edition } where
  vars_distinct := Keyed.distinct_nil
  vars_key := by simp
  vars_own := by simp
  vars_type := by simp
  subs_distinct := Keyed.distinct_nil
  subs_key := by simp
  subs_own := by simp
  subs_type := by simp

theorem Sound.addVar {p : Package} (h : p.Sound) {b : Binding} (hpub : b.isPublic = true)
    (hty : b.type.WellFormed) : (p.addVar b).Sound :=
  { h with
    vars_distinct := h.vars_distinct.put _ _
    vars_key := Keyed.forall_put h.vars_key rfl
    vars_own := Keyed.forall_put h.vars_own ⟨hpub, rfl⟩
    vars_type := Keyed.forall_put h.vars_type hty }

theorem Sound.addSub {p : Package} (h : p.Sound) {s : Sub} (hty : s.returns.WellFormed) :
    (p.addSub s).Sound :=
  { h with
    subs_distinct := h.subs_distinct.put _ _
    subs_key := Keyed.forall_put h.subs_key rfl
    subs_own := Keyed.forall_put h.subs_own rfl
    subs_type := Keyed.forall_put h.subs_type hty }

/-- The row of a sorted list of values that a keyed list holds under their own keys. -/
theorem perm_rows {κ α : Type} {m : Keyed κ α} {key : α → κ} {l : List α}
    (hkey : ∀ k a, (k, a) ∈ m → k = key a) (hl : l.Perm m.values) :
    (l.map fun a => (key a, a)).Perm m := by
  have hm : m.values.map (fun a => (key a, a)) = m := by
    rw [Keyed.values, List.map_map]
    conv => rhs; rw [← List.map_id m]
    apply List.map_congr_left
    intro e he
    obtain ⟨k, a⟩ := e
    simp [hkey k a he]
  exact hm ▸ hl.map _

end Package

/-! ## Imported packages -/

namespace Catalog

theorem decodeType_wellFormed {words : String} {bytes : List UInt8} {t : Ty}
    (h : decodeType words bytes = .ok t) : t.WellFormed := by
  unfold decodeType at h
  split at h
  · rename_i u hu
    cases h
    exact Ty.ofCbor_wellFormed hu
  · cases h
  · cases h

/-- A row of a variable that is read adds a variable of a well-formed type. -/
theorem addVar_inv {p q : Package} {v : VarKey × VarRow} (h : addVar p v = .ok q) :
    ∃ b : Binding, b.isPublic = true ∧ b.type.WellFormed ∧ q = p.addVar b := by
  unfold addVar at h
  split at h
  · cases h
  · cases ht : decodeType ("variable " ++ v.1.sigil ++ v.1.name ++ " of " ++ p.name) v.2.type with
    | error f =>
      rw [ht] at h
      cases h
    | ok t =>
      rw [ht] at h
      cases h
      exact ⟨_, rfl, decodeType_wellFormed ht, rfl⟩

/-- A row of a subroutine that is read adds a subroutine of a well-formed type. -/
theorem addSub_inv {p q : Package} {s : SubKey × SubRow} (h : addSub p s = .ok q) :
    ∃ sub : TypedPerl.Sub, sub.returns.WellFormed ∧ q = p.addSub sub := by
  unfold addSub at h
  cases ht : decodeType ("subroutine " ++ s.1.name ++ " of " ++ p.name) s.2.returns with
  | error f =>
    rw [ht] at h
    cases h
  | ok t =>
    rw [ht] at h
    cases h
    exact ⟨_, decodeType_wellFormed ht, rfl⟩

/-- What every row keeps of a package, all rows keep. -/
theorem foldlM_keeps {α : Type} {keeps : Package → Prop} {add : Package → α → Except Fault Package}
    (hadd : ∀ {p q : Package} {a : α}, keeps p → add p a = .ok q → keeps q)
    {rows : List α} {p q : Package} (hp : keeps p) (h : rows.foldlM add p = .ok q) : keeps q := by
  -- over the rows, with the package built so far
  induction rows generalizing p with
  | nil =>
    cases h
    exact hp
  | cons a rows ih =>
    rw [List.foldlM_cons] at h
    cases ha : add p a with
    | error f =>
      rw [ha] at h
      cases h
    | ok r =>
      rw [ha] at h
      exact ih (hadd hp ha) h

/-- What holds of the empty package of a row of the table and is kept by every variable and
subroutine holds of what the catalog gives. -/
theorem get_keeps {c : Catalog} {n : String} {q : Package} (h : c.get n = .ok q)
    (keeps : Package → Prop)
    (hstart : ∀ row, c.packages.get? n = some row →
      keeps { Package.new n with className := row.className })
    (hvar : ∀ (p : Package) (b : Binding), b.isPublic = true → b.type.WellFormed → keeps p →
      keeps (p.addVar b))
    (hsub : ∀ (p : Package) (s : TypedPerl.Sub), s.returns.WellFormed → keeps p →
      keeps (p.addSub s)) : keeps q := by
  cases hrow : c.packages.get? n with
  | none =>
    rw [get, hrow] at h
    cases h
  | some row =>
    rw [get, hrow] at h
    dsimp only at h
    -- the variables first, then the subroutines
    cases hv : (c.varsOf n).foldlM addVar { Package.new n with className := row.className } with
    | error f =>
      rw [hv] at h
      cases h
    | ok p =>
      rw [hv] at h
      have hp : keeps p := foldlM_keeps (fun hr hadd => by
        obtain ⟨b, hpublic, htype, rfl⟩ := addVar_inv hadd
        exact hvar _ b hpublic htype hr) (hstart row hrow) hv
      refine foldlM_keeps (fun hr hadd => ?_) hp h
      obtain ⟨s, htype, rfl⟩ := addSub_inv hadd
      exact hsub _ s htype hr

/-- Whatever the catalog holds, a package that it gives is sound and has the name that was asked
for. -/
theorem get_sound {c : Catalog} {n : String} {q : Package} (h : c.get n = .ok q) :
    q.Sound ∧ q.name = n := by
  refine get_keeps h (fun p => p.Sound ∧ p.name = n) ?_ ?_ ?_
  · exact fun row _ => ⟨Package.sound_empty _ _ _, rfl⟩
  · exact fun p b hpublic htype hp => ⟨hp.1.addVar hpublic htype, hp.2⟩
  · exact fun p s htype hp => ⟨hp.1.addSub htype, hp.2⟩

end Catalog

end TypedPerl
