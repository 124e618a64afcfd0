import TypedPerl.Proofs.Fault.Raised

/-!
# Which types convert

`Convertible src dest` says which values can be converted to which types, by rules that know only
the two types. A conversion succeeds on exactly these pairs: what else is known of the operand, and the
ways around the conversion of the elements one by one, decide over the code and never over success.
-/

namespace TypedPerl

/-- A value of the first type can be converted to the second. -/
inductive Convertible : Ty → Ty → Prop where
  /-- Every value is a truth value, a number, a text and a dynamic value. -/
  | scalar {src : Ty} {k : Kind} : k ≠ .file → Convertible src (.scalar k)
  /-- A file handle stays one. -/
  | file : Convertible .file .file
  /-- A dynamic value may hold a file handle. -/
  | fileInBox : Convertible .box .file
  /-- An object stays an object of its class. -/
  | object (name : String) : Convertible (.object name) (.object name)
  /-- A dynamic value may hold a reference. -/
  | refInBox (d : Ty) : Convertible .box (.ref d)
  /-- A reference becomes a reference to the converted value. -/
  | ref {s d : Ty} : Convertible s d → Convertible (.ref s) (.ref d)
  /-- A dynamic value may hold a container. -/
  | aggInBox (shape : Shape) (d : Ty) : Convertible .box (.agg shape d)
  /-- A reference stands for the container it refers to. -/
  | aggInRef {s d : Ty} {shape : Shape} :
      Convertible s (.agg shape d) → Convertible (.ref s) (.agg shape d)
  /-- A container is converted element by element. In a sequence made from a map the keys of the
  map are elements too. -/
  | agg {s d : Ty} {given wanted : Shape} :
      Convertible s d → (given = .map → wanted ≠ .map → Convertible .string d) →
      Convertible (.agg given s) (.agg wanted d)

namespace Convertible

/-- Every value can stay what it is. -/
theorem refl (t : Ty) : Convertible t t := by
  induction t with
  | scalar k =>
    by_cases hk : k = .file
    · subst hk
      exact .file
    · exact .scalar hk
  | object name => exact .object name
  | agg shape e ih =>
    -- a map stays a map, so that its keys do not become elements
    exact .agg ih fun hmap hnot => absurd hmap hnot
  | ref e ih => exact .ref ih

/-- A type that ends in numbers converts to the type that ends in numbers of unknown precision. -/
theorem withTerminal_number {t : Ty} (h : t.terminal.isNumeric = true) :
    Convertible t (t.withTerminal .number) := by
  induction t with
  | scalar k => exact .scalar (by decide)
  | object name => cases h
  | agg shape e ih => exact .agg (ih h) fun hmap hnot => absurd hmap hnot
  | ref e ih => exact .ref (ih h)

theorem file_iff {src : Ty} : Convertible src .file ↔ src = .file ∨ src = .box := by
  constructor
  · intro h
    cases h with
    | scalar hk => exact absurd rfl hk
    | file => exact .inl rfl
    | fileInBox => exact .inr rfl
  · rintro (rfl | rfl)
    · exact .file
    · exact .fileInBox

theorem object_iff {src : Ty} {name : String} :
    Convertible src (.object name) ↔ src = .object name := by
  constructor
  · intro h
    cases h
    rfl
  · rintro rfl
    exact .object name

theorem ref_iff {src d : Ty} :
    Convertible src (.ref d) ↔ src = .box ∨ ∃ s, src = .ref s ∧ Convertible s d := by
  constructor
  · intro h
    cases h with
    | refInBox => exact .inl rfl
    | ref h => exact .inr ⟨_, rfl, h⟩
  · rintro (rfl | ⟨s, rfl, h⟩)
    · exact .refInBox d
    · exact .ref h

theorem ref_agg_iff {s d : Ty} {shape : Shape} :
    Convertible (.ref s) (.agg shape d) ↔ Convertible s (.agg shape d) := by
  constructor
  · intro h
    cases h
    assumption
  · exact .aggInRef

theorem agg_iff {s d : Ty} {given wanted : Shape} :
    Convertible (.agg given s) (.agg wanted d) ↔
      Convertible s d ∧ (given = .map → wanted ≠ .map → Convertible .string d) := by
  constructor
  · intro h
    cases h with
    | agg helem hkeys => exact ⟨helem, hkeys⟩
  · rintro ⟨helem, hkeys⟩
    exact .agg helem hkeys

end Convertible

/-- A value of a type that may be unknown can be converted. Of a value of unknown type only its
truth, its text, its value as a number of known precision and its dynamic value can be taken. -/
def ConvertibleFrom : Option Ty → Ty → Prop
  | some src, dest => Convertible src dest
  | none, dest => ∃ k, dest = .scalar k ∧ k ≠ .file ∧ k ≠ .number

/-- The type that an operand is converted from. Of a row of values one element counts, unless a
container is wanted; a container among the elements is a reference to itself. -/
def Operand.sourceType (o : Operand) (dest : Ty) : Option Ty :=
  if o.multi && !dest.isAggregate then
    o.elemType.map fun e => if e.isAggregate then .ref e else e
  else o.type

/-! ## Computations that succeed -/

/-- The computation gives a result. -/
def Succeeds {α : Type} (x : Except Fault α) : Prop :=
  ∃ a, x = .ok a

namespace Succeeds

variable {α β : Type}

theorem ok (a : α) : Succeeds (.ok a : Except Fault α) := ⟨a, rfl⟩

theorem not_error (f : Fault) : ¬Succeeds (.error f : Except Fault α) := by
  rintro ⟨a, h⟩
  cases h

/-- A computation whose rest always succeeds. -/
theorem bind_iff {x : Except Fault α} {k : α → Except Fault β} {p : Prop}
    (hk : ∀ a, Succeeds (k a) ↔ p) : Succeeds (x >>= k) ↔ Succeeds x ∧ p := by
  cases x with
  | error f =>
    constructor
    · intro h
      exact absurd h (not_error f)
    · intro h
      exact absurd h.1 (not_error f)
  | ok a => exact (hk a).trans ⟨fun h => ⟨ok a, h⟩, fun h => h.2⟩

theorem bind_pure_iff {x : Except Fault α} {g : α → β} :
    Succeeds (x >>= fun a => Pure.pure (g a)) ↔ Succeeds x :=
  (bind_iff fun a => iff_of_true (ok (g a)) trivial).trans (and_iff_left trivial)

end Succeeds

namespace Conversion

/-! ## Scalars -/

theorem toNumber_succeeds_iff (o : Operand) : Succeeds (toNumber o) ↔ o.type ≠ none := by
  unfold toNumber
  dsimp only
  rcases o.type with _ | (k | name | ⟨shape, e⟩ | e)
  · exact iff_of_false (Succeeds.not_error _) fun h => h rfl
  · refine iff_of_true ?_ (Option.some_ne_none _)
    cases k <;> exact .ok _
  · exact iff_of_true (.ok _) (Option.some_ne_none _)
  · exact iff_of_true (.ok _) (Option.some_ne_none _)
  · exact iff_of_true (.ok _) (Option.some_ne_none _)

theorem toFile_succeeds_iff (o : Operand) :
    Succeeds (toFile o) ↔ o.type = some .file ∨ o.type = some .box := by
  unfold toFile
  split
  · rename_i h
    exact iff_of_true (.ok _) (.inl h)
  · rename_i h
    exact iff_of_true (.ok _) (.inr h)
  · rename_i hfile hbox
    refine iff_of_false (Succeeds.not_error _) ?_
    rintro (h | h)
    · exact hfile h
    · exact hbox h

theorem toScalar_succeeds_iff (o : Operand) (k : Kind) :
    Succeeds (toScalar o k) ↔ ConvertibleFrom o.type (.scalar k) := by
  have hplain (hk : k ≠ .file) (hn : k ≠ .number) : ConvertibleFrom o.type (.scalar k) := by
    cases o.type with
    | none => exact ⟨k, rfl, hk, hn⟩
    | some src => exact .scalar hk
  cases k with
  | boolean | integer | long | float | double | string | box =>
    exact iff_of_true (.ok _) (hplain (by decide) (by decide))
  | number =>
    -- the one kind that asks for the type of the operand
    refine (toNumber_succeeds_iff o).trans ?_
    cases o.type with
    | none =>
      refine iff_of_false (fun h => h rfl) ?_
      rintro ⟨k, hk, -, hn⟩
      cases hk
      exact hn rfl
    | some src => exact iff_of_true (Option.some_ne_none _) (.scalar (by decide))
  | file =>
    refine (toFile_succeeds_iff o).trans ?_
    cases o.type with
    | none =>
      refine iff_of_false (by simp) ?_
      rintro ⟨k, hk, hf, -⟩
      cases hk
      exact hf rfl
    | some src =>
      simp only [Option.some.injEq]
      exact Convertible.file_iff.symm

/-! ## Containers -/

section Elements

variable {conv : Operand → Except Fault String} {d : Ty}
  (hconv : ∀ x, Succeeds (conv x) ↔ ConvertibleFrom x.type d)

include hconv

/-- The loop over a map converts its values, and its keys where these become elements. -/
theorem mapLoop_succeeds_iff (n : LoopNames) (s : Ty) (wanted : Shape) :
    Succeeds (mapLoop conv n s wanted) ↔
      Convertible s d ∧ (wanted ≠ .map → Convertible .string d) := by
  have hvalue (code : String) : Succeeds (conv (.plain code (some s))) ↔ Convertible s d :=
    hconv _
  have hkey (code : String) : Succeeds (conv (.nonNull code (some .string))) ↔
      Convertible .string d := hconv _
  unfold mapLoop
  -- the keys are converted only where they become elements
  cases wanted with
  | map =>
    refine Succeeds.bind_pure_iff.trans ((hvalue _).trans ?_)
    exact ⟨fun h => ⟨h, fun hnot => absurd rfl hnot⟩, fun h => h.1⟩
  | array | list =>
    refine (Succeeds.bind_iff fun v => Succeeds.bind_pure_iff.trans (hkey _)).trans ?_
    refine (and_congr_left fun _ => hvalue _).trans (and_congr_right fun _ => ?_)
    exact ⟨fun h _ => h, fun h => h (by decide)⟩

/-- The loop over a sequence converts its elements; the keys of a new map are their texts. -/
theorem sequenceLoop_succeeds_iff (n : LoopNames) (given : Shape) (s : Ty) (wanted : Shape) :
    Succeeds (sequenceLoop conv n given s wanted) ↔ Convertible s d := by
  have helem (code : String) : Succeeds (conv (.plain code (some s))) ↔ Convertible s d :=
    hconv _
  unfold sequenceLoop
  cases wanted with
  | map | array | list => exact Succeeds.bind_pure_iff.trans (helem _)

theorem elementwise_succeeds_iff (code : String) (depth : Nat) (given : Shape) (s : Ty)
    (wanted : Shape) :
    Succeeds (elementwise conv code depth given s wanted d) ↔
      Convertible (.agg given s) (.agg wanted d) := by
  refine Iff.trans ?_ Convertible.agg_iff.symm
  unfold elementwise
  dsimp only
  split
  · -- the keys of the map matter
    rename_i hmap
    refine (Succeeds.bind_pure_iff.trans (mapLoop_succeeds_iff hconv _ _ _)).trans ?_
    exact and_congr_right fun _ => ⟨fun h _ => h, fun h => h hmap⟩
  · rename_i hnot
    refine (Succeeds.bind_pure_iff.trans (sequenceLoop_succeeds_iff hconv _ _ _ _)).trans ?_
    exact ⟨fun h => ⟨h, fun hmap => absurd hmap hnot⟩, fun h => h.1⟩

/-- The ways around the loop are open only to containers that the loop converts too. -/
theorem aggregateTo_succeeds_iff (code : String) (depth : Nat) (given : Shape) (s : Ty)
    (wanted : Shape) :
    Succeeds (aggregateTo conv code depth given s wanted d) ↔
      Convertible (.agg given s) (.agg wanted d) := by
  unfold aggregateTo
  dsimp only
  split
  · -- the container has the type already
    rename_i heq
    rw [heq]
    exact iff_of_true (.ok _) (.refl _)
  · split
    · -- an array as a list of the same elements, or a list as an array
      rename_i hwrap
      simp only [Bool.and_eq_true, decide_eq_true_eq] at hwrap
      obtain ⟨⟨⟨hfrom, -⟩, -⟩, rfl⟩ := hwrap
      refine iff_of_true ?_ (.agg (.refl _) ?_)
      · split
        · exact .ok _
        · exact .ok _
      · rintro rfl
        cases hfrom
    · split
      · -- numbers seen as numbers of unknown precision
        rename_i hview
        simp only [Bool.and_eq_true, decide_eq_true_eq] at hview
        obtain ⟨⟨-, hnumeric⟩, hdest⟩ := hview
        rw [← hdest]
        exact iff_of_true (.ok _) (.withTerminal_number hnumeric)
      · exact elementwise_succeeds_iff hconv code depth given s wanted

end Elements

/-! ## References -/

/-- The type below all references. -/
def derefType : Ty → Ty
  | .ref e => derefType e
  | t => t

theorem derefType_ne_ref (t e : Ty) : derefType t ≠ .ref e := by
  induction t with
  | ref e' ih => exact ih
  | scalar k | object name | agg shape e' => exact nofun

/-- Following all references leads to the type below them. -/
theorem type_followRefs (t : Ty) : ∀ {o : Operand}, o.type = some t →
    (followRefs t o).type = some (derefType t) := by
  -- following one reference leaves the type below it
  induction t with
  | ref e ih =>
    intro o ho
    refine ih ?_
    have helem : o.elemType = some e := by
      unfold Operand.elemType
      rw [ho]
      rfl
    unfold Operand.referent
    split
    · exact helem
    · exact helem
  | scalar k =>
    intro o ho
    exact ho
  | object name =>
    intro o ho
    exact ho
  | agg shape e =>
    intro o ho
    exact ho

theorem convertible_derefType {t d : Ty} {shape : Shape} :
    Convertible (derefType t) (.agg shape d) ↔ Convertible t (.agg shape d) := by
  induction t with
  | ref e ih => exact ih.trans Convertible.ref_agg_iff.symm
  | scalar k => exact Iff.rfl
  | object name => exact Iff.rfl
  | agg shape e => exact Iff.rfl

/-! ## All types -/

/-- A conversion to a reference goes on below the reference, unless it is one already. -/
theorem refTo_succeeds_iff {d : Ty} (o : Operand) (depth : Nat)
    (hd : ∀ x, Succeeds (convertTo d x depth) ↔ ConvertibleFrom x.type d) :
    Succeeds (convertTo (.ref d) o depth) ↔ ConvertibleFrom o.type (.ref d) := by
  have hreferent : o.referent.type = o.elemType := by
    unfold Operand.referent
    split
    · rfl
    · rfl
  have helem (e : Ty) (ho : o.type = some (.ref e)) :
      Succeeds (convertTo d o.referent depth) ↔ Convertible e d := by
    refine (hd _).trans ?_
    rw [hreferent, Operand.elemType, ho]
    rfl
  unfold convertTo
  split
  · rename_i e ho
    rw [ho]
    refine Iff.trans ?_ (Convertible.ref_iff.trans (by simp) : _ ↔ Convertible e d).symm
    split
    · rename_i heq
      rw [heq]
      exact iff_of_true (.ok _) (.refl _)
    · -- a reference is converted by what it refers to
      rw [← helem e ho]
      cases convertTo d o.referent depth with
      | ok inner => exact iff_of_true (.ok _) (.ok _)
      | error f => exact iff_of_false (Succeeds.not_error _) (Succeeds.not_error _)
  · rename_i ho
    rw [ho]
    exact iff_of_true (.ok _) (.refInBox d)
  · rename_i hnotRef hnotBox
    refine iff_of_false (Succeeds.not_error _) ?_
    cases ho : o.type with
    | none =>
      rintro ⟨k, hk, -⟩
      cases hk
    | some src =>
      intro h
      rcases Convertible.ref_iff.mp h with rfl | ⟨s, rfl, -⟩
      · exact hnotBox ho
      · exact hnotRef s ho

/-- A conversion to a container starts below all references. -/
theorem containerTo_succeeds_iff {d : Ty} (shape : Shape) (o : Operand) (depth : Nat)
    (hd : ∀ x, Succeeds (convertTo d x (depth + 1)) ↔ ConvertibleFrom x.type d) :
    Succeeds (convertTo (.agg shape d) o depth) ↔ ConvertibleFrom o.type (.agg shape d) := by
  unfold convertTo
  dsimp only
  cases ho : o.type with
  | none =>
    simp only [ho]
    refine iff_of_false (Succeeds.not_error _) ?_
    rintro ⟨k, hk, -⟩
    cases hk
  | some t =>
    dsimp only
    rw [type_followRefs t ho]
    refine Iff.trans ?_ convertible_derefType
    -- only the type below the references counts from here on, and that is no reference
    generalize followRefs t o = src
    rcases hcore : derefType t with k | name | ⟨given, e⟩ | e
    · cases k with
      | box => exact iff_of_true (.ok _) (.aggInBox shape d)
      | integer | long | float | double | string | number | boolean | file =>
        refine iff_of_false (Succeeds.not_error _) fun h => ?_
        cases h
    · refine iff_of_false (Succeeds.not_error _) fun h => ?_
      cases h
    · rw [← aggregateTo_succeeds_iff hd src.code depth given e shape]
      dsimp only
      cases aggregateTo (fun x => convertTo d x (depth + 1)) src.code depth given e shape d with
      | ok code => exact iff_of_true (.ok _) (.ok _)
      | error f => exact iff_of_false (Succeeds.not_error _) (Succeeds.not_error _)
    · exact absurd hcore (derefType_ne_ref t e)

/-- A conversion to a type succeeds on the values that can be converted, at whatever depth. -/
theorem convertTo_succeeds_iff (dest : Ty) : ∀ (o : Operand) (depth : Nat),
    Succeeds (convertTo dest o depth) ↔ ConvertibleFrom o.type dest := by
  induction dest with
  | scalar k =>
    intro o depth
    exact toScalar_succeeds_iff o k
  | object name =>
    intro o depth
    unfold convertTo
    split
    · rename_i ho
      rw [ho]
      exact iff_of_true (.ok _) (.object name)
    · rename_i hnot
      refine iff_of_false (Succeeds.not_error _) ?_
      cases ho : o.type with
      | none => rintro ⟨k, hk, -⟩; cases hk
      | some src =>
        intro h
        rw [ho, Convertible.object_iff.mp h] at hnot
        exact hnot rfl
  -- the element types are converted one level further down
  | ref d ih =>
    intro o depth
    exact refTo_succeeds_iff o depth fun x => ih x depth
  | agg shape d ih =>
    intro o depth
    exact containerTo_succeeds_iff shape o depth fun x => ih x (depth + 1)

/-- The value that counts of a row has the type that the row is converted from. -/
theorem type_reduce (o : Operand) :
    o.reduce.type = o.elemType.map fun e => if e.isAggregate then .ref e else e := by
  unfold Operand.reduce Operand.ofElement
  cases o.elemType with
  | none => rfl
  | some e => cases e <;> rfl

/-- A defined operand, or a row of values of which one is taken, is converted exactly if the type that
it is converted from can be. -/
theorem convert_succeeds_iff {o : Operand} {dest : Ty}
    (h : o.undef = false ∨ (o.multi && !dest.isAggregate) = true) :
    Succeeds (convert o (some dest)) ↔ ConvertibleFrom (o.sourceType dest) dest := by
  unfold convert Operand.sourceType
  simp only [Option.any_some]
  split
  -- the value taken of a row is never the undefined one
  · have hdefined : o.reduce.undef = false := by
      unfold Operand.reduce Operand.ofElement
      split
      · rfl
      · rfl
    rw [hdefined, ← type_reduce]
    exact convertTo_succeeds_iff dest o.reduce 0
  · next hrow =>
    rw [h.resolve_right hrow]
    exact convertTo_succeeds_iff dest o 0

/-- A conversion of an operand that is not the undefined value succeeds exactly if its type can be
converted, whatever else is known of the operand. A conversion that does not succeed is refused as
one between incompatible types. -/
theorem convert_accepts_exactly (o : Operand) (ho : o.undef = false) (dest : Ty) :
    ((∃ code, convert o (some dest) = .ok code) ↔
      ConvertibleFrom (o.sourceType dest) dest) ∧
    (¬ConvertibleFrom (o.sourceType dest) dest →
      ∃ s d, convert o (some dest) = .error (.incompatible s d)) := by
  have hiff : Succeeds (convert o (some dest)) ↔ ConvertibleFrom (o.sourceType dest) dest :=
    convert_succeeds_iff (.inl ho)
  refine ⟨hiff, fun hnot => ?_⟩
  cases hresult : convert o (some dest) with
  | ok code => exact absurd (hiff.mp ⟨code, hresult⟩) hnot
  | error f =>
    obtain ⟨s, d, rfl⟩ := convert_raises o (some dest) f hresult
    exact ⟨s, d, rfl⟩

/-- A map of objects converts to a map of objects, but not to a list: its keys would have to become
objects. -/
theorem keys_of_objects_refused :
    let sockets : Operand :=
      { code := "m", type := some (.agg .map (.object "Socket")), notNull := true, raw := true }
    (∃ code, convert sockets (some (.agg .map (.object "Socket"))) = .ok code) ∧
      ∃ s d, convert sockets (some (.agg .list (.object "Socket"))) =
        .error (.incompatible s d) := by
  intro sockets
  refine ⟨(convert_accepts_exactly sockets rfl _).1.mpr (.refl _),
    (convert_accepts_exactly sockets rfl _).2 fun h => ?_⟩
  have hkeys : Convertible .string (.object "Socket") :=
    (Convertible.agg_iff.mp h).2 rfl (by decide)
  cases hkeys

end Conversion

end TypedPerl
