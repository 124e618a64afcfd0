import TypedPerl.ElementType
import TypedPerl.Ty.Pragma
import TypedPerl.Proofs.Ty.Stored

/-!
# Well-formed types stay well formed

The operations on types that generated code relies on keep them well formed, and a type that is read
from a pragma is. `Ty.Fine` says it of a type that may be missing.
-/

namespace TypedPerl.Ty

/-! ## One type -/

theorem WellFormed.unref {t : Ty} (h : t.WellFormed) : t.unref.RefFree := by
  cases t with
  | ref e => exact h
  | scalar | object | agg => exact h

theorem WellFormed.elem {t : Ty} (h : t.WellFormed) : t.elem.WellFormed := by
  cases t with
  | ref e => exact RefFree.wellFormed h
  | agg s e => exact RefFree.wellFormed (t := e) h
  | scalar | object => exact h

theorem WellFormed.wrap {t : Ty} (h : t.WellFormed) (s : Shape) : (wrap s t).WellFormed :=
  h.unref

theorem WellFormed.refTo {t : Ty} (h : t.WellFormed) : t.refTo.WellFormed :=
  h.unref

theorem wellFormed_scalar (k : Kind) : (scalar k).WellFormed :=
  trivial

theorem WellFormed.merge {t : Ty} (ht : t.WellFormed) (u : Ty) : (t.merge u).WellFormed := by
  unfold Ty.merge
  split
  · exact ht
  split
  · split <;> exact wellFormed_scalar _
  split
  · exact ht
  · exact wellFormed_scalar _

/-- A type that is read from the bytes of a pragma is well formed. -/
theorem parseBytes_wellFormed {e : Text.Edition} {input : List UInt8} {t : Ty}
    (h : parseBytes e input = .ok t) : t.WellFormed := by
  unfold parseBytes at h
  dsimp only at h
  split at h
  · cases h
  · cases htags : readTags e (trimSymbols (Text.symbols input)).length []
        (trimSymbols (Text.symbols input)) with
    | error r =>
      rw [htags] at h
      cases h
    | ok row =>
      rw [htags] at h
      -- the codes that were read are those of a type
      change ((ofTags row.1 row.2).mapError _).mapError _ = .ok t at h
      cases hty : ofTags row.1 row.2 with
      | error r =>
        rw [hty] at h
        cases h
      | ok u =>
        rw [hty] at h
        cases h
        exact (ofTagCodes_wellFormed hty).1

/-- A type that is read from a pragma is well formed. -/
theorem parse_wellFormed {input : String} {t : Ty} (h : parse input = .ok t) : t.WellFormed := by
  unfold parse at h
  cases hty : parseBytes .current (Text.encode input.toList) with
  | error f =>
    rw [hty] at h
    cases h
  | ok u =>
    rw [hty] at h
    cases h
    exact parseBytes_wellFormed hty

/-! ## Types that may be missing -/

/-- The type, if there is one, is well formed. -/
def Fine (t : Option Ty) : Prop :=
  ∀ u, t = some u → u.WellFormed

theorem fine_none : Fine none := by
  intro u h
  cases h

theorem fine_some {t : Ty} (h : t.WellFormed) : Fine (some t) := by
  intro u hu
  cases hu
  exact h

theorem fine_scalar (k : Kind) : Fine (some (.scalar k)) :=
  fine_some trivial

theorem Fine.map {t : Option Ty} (h : Fine t) {f : Ty → Ty}
    (hf : ∀ {u : Ty}, u.WellFormed → (f u).WellFormed) : Fine (t.map f) := by
  cases t with
  | none => exact fine_none
  | some u => exact fine_some (hf (h u rfl))

theorem Fine.merge? {t u : Option Ty} (ht : Fine t) (hu : Fine u) : Fine (merge? t u) := by
  cases t with
  | none => exact hu
  | some t =>
    cases u with
    | none => exact ht
    | some u => exact fine_some ((ht t rfl).merge u)

end TypedPerl.Ty
