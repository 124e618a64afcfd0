import TypedPerl.Proofs.Scope.Aliases
import TypedPerl.Compile.State

/-!
# Fields that variables share

The variables of the file level and those of the package become fields of the class, and a field is
known by its identifier alone. The identifier of a variable avoids those of the open scopes only,
while a package variable outlives the scope that declared it. So two variables of one name share a
field exactly when each was declared while no variable of the name could be seen.
-/

namespace TypedPerl

namespace Table

variable {τ : Type}

/-! ## Identifiers of two declarations -/

theorem declare_javaName (t : Table τ) (name : String) (sigil : Sigil) (type : τ)
    (isPublic : Bool) :
    (t.declare name sigil type isPublic).1.javaName =
      (t.pool.aliasFor name (t.nameVisible name)).1 := by
  obtain ⟨-, -, -, -, -, hpool, -⟩ := t.declare_spec name sigil type isPublic
  exact congrArg Prod.fst hpool

theorem declare_name (t : Table τ) (name : String) (sigil : Sigil) (type : τ) (isPublic : Bool) :
    (t.declare name sigil type isPublic).1.name = name :=
  (t.declare_spec name sigil type isPublic).1

/-- A variable has its name for an identifier exactly if the name is free. -/
theorem declare_javaName_eq_name_iff (t : Table τ) (name : String) (sigil : Sigil) (type : τ)
    (isPublic : Bool) :
    (t.declare name sigil type isPublic).1.javaName = name ↔
      Name.isReserved name = false ∧ t.nameVisible name = false := by
  rw [declare_javaName]
  obtain ⟨heq, hhidden, hfree⟩ | ⟨heq, htaken⟩ := t.pool.aliasFor_cases name (t.nameVisible name)
  · rw [heq]
    exact iff_of_true rfl ⟨hfree, hhidden⟩
  · rw [heq]
    apply iff_of_false (Name.numbered_ne_self _ name)
    rintro ⟨hfree, hhidden⟩
    simp [hfree, hhidden] at htaken

/-- A variable keeps its identifier from its declaration on: one that is declared after any further
requests has the same identifier exactly if both stand for their common name. -/
theorem Ledger.same_javaName_iff {t : Table τ} {issued : List (Issued τ)} (h : t.Ledger issued)
    {name name' : String} (hdigit : Name.leadingDigit name = false)
    (hdigit' : Name.leadingDigit name' = false) (sigil sigil' : Sigil) (type type' : τ)
    (isPublic isPublic' : Bool) {between : List (Request τ)} (hqs : ∀ q ∈ between, q.Undigited) :
    let (b, t') := t.declare name sigil type isPublic
    let t'' := (t'.run between).2
    b.javaName = (t''.declare name' sigil' type' isPublic').1.javaName ↔
      name = name' ∧ Name.isReserved name = false ∧
        t.nameVisible name = false ∧ t''.nameVisible name = false := by
  have hfirst := t.declare_javaName_eq_name_iff name sigil type isPublic
  have hname := t.declare_name name sigil type isPublic
  have hledger := (h.declare hdigit sigil type isPublic).run hqs
  generalize t.declare name sigil type isPublic = p at hfirst hname hledger
  obtain ⟨b, t'⟩ := p
  dsimp only at hfirst hname hledger ⊢
  generalize (t'.run between).2 = t'' at hledger ⊢
  have hsecond := t''.declare_javaName_eq_name_iff name' sigil' type' isPublic'
  refine ⟨?_, ?_⟩
  · -- the first identifier stays in the ledger, and the second is the next against it
    intro heq
    rw [declare_javaName] at heq
    have hissued : .var b ∈ issued ++ [.var b] ++ (t'.run between).1 := by simp
    obtain ⟨hsource, hbare, hhidden, hfree⟩ := hledger.next_eq hissued hdigit' heq
    obtain rfl : name = name' := hname.symm.trans hsource
    exact ⟨rfl, hfree, (hfirst.mp hbare).2, hhidden⟩
  · rintro ⟨rfl, hfree, hhidden, hhidden'⟩
    exact (hfirst.mpr ⟨hfree, hhidden⟩).trans (hsecond.mpr ⟨hfree, hhidden'⟩).symm

end Table

/-! ## Fields -/

/-- The field of a variable. -/
def Binding.toField (b : Binding) : Field :=
  ⟨some b.type, b.javaName, b.isPublic⟩

namespace Compile.State

theorem fields_addField (st : State) (b : Binding) :
    (st.addField b).fields =
      if b.javaName ∈ st.fields.map (·.javaName) then st.fields else st.fields ++ [b.toField] := by
  have hany : (st.fields.any fun f => f.javaName == b.javaName) = true ↔
      b.javaName ∈ st.fields.map (·.javaName) := by
    simp
  unfold addField
  by_cases hmem : b.javaName ∈ st.fields.map (·.javaName)
  · rw [if_pos (hany.mpr hmem), if_pos hmem]
  · rw [if_neg (mt hany.mp hmem), if_neg hmem]
    rfl

/-- Two variables without a field get one field each, unless they share their identifier; then the
first has the field. -/
theorem fields_addField_pair (st : State) {b c : Binding}
    (hb : b.javaName ∉ st.fields.map (·.javaName)) (hc : c.javaName ∉ st.fields.map (·.javaName)) :
    ((st.addField b).addField c).fields =
      st.fields ++ if b.javaName = c.javaName then [b.toField] else [b.toField, c.toField] := by
  rw [fields_addField, fields_addField, if_neg hb]
  by_cases heq : b.javaName = c.javaName
  · -- the second finds the field of the first
    simp [heq, Binding.toField]
  · have hother : c.javaName ∉ (st.fields ++ [b.toField]).map (·.javaName) := by
      simpa [Binding.toField, Ne.symm heq] using hc
    rw [if_neg hother, if_neg heq, List.append_assoc, List.cons_append, List.nil_append]

end Compile.State

open Compile in
/-- Two declarations on one table, with any requests before and between them. They give their
variables one identifier, and so one field with the type of the first, exactly if they declare the
same name, it is not reserved, and at neither of them a variable of the name could be seen; else
each has a field of its own type. -/
theorem shared_field_iff (r : Registry) (before between : List (Request Ty))
    (hbefore : ∀ q ∈ before, q.Undigited) (hbetween : ∀ q ∈ between, q.Undigited)
    (name name' : String) (hname : Name.leadingDigit name = false)
    (hname' : Name.leadingDigit name' = false) (sigil sigil' : Sigil) (type type' : Ty)
    (isPublic isPublic' : Bool) (st : State) :
    let t := (({ registry := r } : Table).run before).2
    let (b, t') := t.declare name sigil type isPublic
    let t'' := (t'.run between).2
    let c := (t''.declare name' sigil' type' isPublic').1
    let Shared := name = name' ∧ Name.isReserved name = false ∧
      t.nameVisible name = false ∧ t''.nameVisible name = false
    (b.javaName = c.javaName ↔ Shared) ∧
      (b.javaName ∉ st.fields.map (·.javaName) → c.javaName ∉ st.fields.map (·.javaName) →
        (Shared → ((st.addField b).addField c).fields = st.fields ++ [b.toField]) ∧
        (¬ Shared →
          ((st.addField b).addField c).fields = st.fields ++ [b.toField, c.toField])) := by
  -- the requests so far are on record, and so are the identifiers they were given
  have hledger := (Table.ledger_fresh r).run hbefore
  have hiff := hledger.same_javaName_iff hname hname' sigil sigil' type type' isPublic isPublic'
    hbetween
  dsimp only at hiff ⊢
  refine ⟨hiff, fun hb hc => ?_⟩
  have hfields := st.fields_addField_pair hb hc
  refine ⟨fun hshared => ?_, fun hshared => ?_⟩
  · rw [hfields, if_pos (hiff.mpr hshared)]
  · rw [hfields, if_neg fun heq => hshared (hiff.mp heq)]

open Compile in
/-- While the block that declares a package variable is open, a second variable of its name gets a
field of its own. -/
theorem nested_variable_own_field :
    let t := (({ registry := {} } : Table).run [.openPackage "Store", .enter .block]).2
    let (b, t') := t.declare "x" .scalar .integer true
    let c := ((t'.run [.enter .block]).2.declare "x" .array (.arrayOf .string) true).1
    b.javaName ≠ c.javaName ∧
      (((default : State).addField b).addField c).fields =
        [⟨some .integer, "x", true⟩, ⟨some (.arrayOf .string), "pd_1x", true⟩] := by
  have h := shared_field_iff {} [.openPackage "Store", .enter .block] [.enter .block]
    (by simp [Request.Undigited, Request.wanted?]) (by simp [Request.Undigited, Request.wanted?])
    "x" "x" (by decide +kernel) (by decide +kernel) .scalar .array .integer (.arrayOf .string)
    true true default
  refine ⟨fun heq => ?_, ?_⟩
  · exact absurd (h.1.mp heq).2.2.2 (by decide +kernel)
  · exact (h.2 List.not_mem_nil List.not_mem_nil).2 (by decide +kernel)

open Compile in
/-- A package variable outlives its block; the variable of the file level that comes after it takes
its identifier, and its field has the wrong type. -/
theorem outlived_variable_shares_field :
    let t := (({ registry := {} } : Table).run [.openPackage "Store", .enter .block]).2
    let (b, t') := t.declare "x" .scalar .integer true
    let c := ((t'.run [.exit]).2.declare "x" .array (.arrayOf .string) false).1
    t.own.isSome = true ∧ b.isField = true ∧ c.isField = true ∧ b.sigil ≠ c.sigil ∧
      b.javaName = c.javaName ∧
      (((default : State).addField b).addField c).fields = [⟨some .integer, "x", true⟩] ∧
      c.type ≠ .integer := by
  decide +kernel

end TypedPerl
