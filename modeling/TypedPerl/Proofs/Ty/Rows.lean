import TypedPerl.Proofs.Ty.Stored

/-!
# Rows of tag codes

Which rows of tag codes are the linear form of a type. `Ty.IsRow` is the grammar of these rows: a
reference at most in front, then any number of shapes, then one terminal, which has a name if it is
an object. A row is read exactly if it has this form, and what it is read as is the one well-formed
type with these codes (`Ty.ofTags_eq_ok_iff`, `Ty.ofTags_eq_error_iff`).

The main result puts both directions together with the stored form: rows of codes and stored bytes
encode the well-formed types and no others.
-/

namespace TypedPerl.Ty

/-! ## The grammar of rows -/

/-- A row of codes below a reference: shapes, then a terminal. An object needs a name. -/
inductive IsInnerRow (name : String) : List UInt8 → Prop where
  /-- A scalar. -/
  | kind (k : Kind) : IsInnerRow name [k.tagCode]
  /-- An object of the named class. -/
  | object (h : name ≠ "") : IsInnerRow name [objectCode]
  /-- A container of what the row behind it says. -/
  | level (s : Shape) {codes : List UInt8} (h : IsInnerRow name codes) :
    IsInnerRow name (s.tagCode :: codes)

/-- A whole row of codes, which may have a reference in front. -/
inductive IsRow (name : String) : List UInt8 → Prop where
  /-- A value. -/
  | plain {codes : List UInt8} (h : IsInnerRow name codes) : IsRow name codes
  /-- A reference to a value. -/
  | ref {codes : List UInt8} (h : IsInnerRow name codes) : IsRow name (refCode :: codes)

/-! ## What a row is read as -/

theorem kind_of_tagCode {c : UInt8} {k : Kind} (h : Kind.ofTagCode? c = some k) :
    k.tagCode = c := by
  grind [Kind.ofTagCode?, Kind.tagCode]

theorem shape_of_tagCode {c : UInt8} {s : Shape} (h : Shape.ofTagCode? c = some s) :
    s.tagCode = c := by
  grind [Shape.ofTagCode?, Shape.tagCode]

theorem kind_ofTagCode?_tagCode (k : Kind) : Kind.ofTagCode? k.tagCode = some k := by
  cases k <;> rfl

theorem kind_tagCode_injective {k k' : Kind} (h : k.tagCode = k'.tagCode) : k = k' := by
  have hread := kind_ofTagCode?_tagCode k
  rw [h, kind_ofTagCode?_tagCode] at hread
  exact (Option.some.inj hread).symm

theorem shape_ofTagCode?_tagCode (s : Shape) : Shape.ofTagCode? s.tagCode = some s := by
  cases s <;> rfl

theorem shape_tagCode_injective {s s' : Shape} (h : s.tagCode = s'.tagCode) : s = s' := by
  have hread := shape_ofTagCode?_tagCode s
  rw [h, shape_ofTagCode?_tagCode] at hread
  exact (Option.some.inj hread).symm

theorem kind_ne_objectCode (k : Kind) : k.tagCode ≠ objectCode := by
  cases k <;> decide

/-- The terminal of a row is the same with a further code in front. -/
theorem getLast?_cons_tagCodes (c : UInt8) (t : Ty) :
    (c :: t.tagCodes).getLast? = t.tagCodes.getLast? := by
  obtain ⟨d, cs, hcs⟩ := tagCodes_ne_nil t
  rw [hcs, List.getLast?_cons_cons]

/-- A terminal is read from its own code, and an object takes the name that is given. -/
theorem ofTerminalCode_codes {name : String} {c : UInt8} {t : Ty}
    (h : ofTerminalCode name c = .ok t) :
    t.tagCodes = [c] ∧ (c = objectCode → t.terminal = .object name) := by
  unfold ofTerminalCode at h
  split at h
  · next k hk =>
    cases h
    -- no kind has the code of objects
    refine ⟨by rw [tagCodes, kind_of_tagCode hk], fun hc => ?_⟩
    exact absurd ((kind_of_tagCode hk).trans hc) (kind_ne_objectCode k)
  split at h
  · next hc =>
    split at h
    · cases h
    · cases h
      exact ⟨by rw [tagCodes, hc], fun _ => rfl⟩
  · cases h

/-- A level adds its own code in front and keeps the terminal. -/
theorem pushCode_codes {outermost : Bool} {c : UInt8} {t u : Ty}
    (h : pushCode outermost c t = .ok u) :
    u.tagCodes = c :: t.tagCodes ∧ u.terminal = t.terminal := by
  unfold pushCode at h
  split at h
  · next s hs =>
    cases h
    exact ⟨by rw [tagCodes, shape_of_tagCode hs], rfl⟩
  -- a reference is pushed only on the outside
  split at h
  · next hc =>
    split at h
    · cases h
      exact ⟨by rw [tagCodes, hc], rfl⟩
    · cases h
  · cases h

/-- What a row is read as has the codes of the row, and its terminal the name that is given. -/
theorem ofTagCodes_codes {name : String} {outermost : Bool} {codes : List UInt8} {t : Ty}
    (h : ofTagCodes name outermost codes = .ok t) :
    t.tagCodes = codes ∧ (codes.getLast? = some objectCode → t.terminal = .object name) := by
  -- What is behind a code is read as not outermost, so the flag goes with the induction.
  induction codes generalizing outermost t with
  | nil => cases h
  | cons c codes ih =>
    cases codes with
    | nil =>
      obtain ⟨hcodes, hname⟩ := ofTerminalCode_codes h
      exact ⟨hcodes, fun hlast => hname (Option.some.inj hlast)⟩
    | cons d rest =>
      rw [ofTagCodes] at h
      split at h
      · next u hu =>
        obtain ⟨hcodes, hterminal⟩ := pushCode_codes h
        obtain ⟨hinner, hname⟩ := ih hu
        rw [hcodes, hinner, hterminal]
        exact ⟨rfl, fun hlast => hname (by rwa [List.getLast?_cons_cons] at hlast)⟩
      · cases h

/-- The name counts only for an object. -/
theorem ofTagCodes_congr_name {name name' : String} {codes : List UInt8} (outermost : Bool)
    (h : codes.getLast? = some objectCode → name = name') :
    ofTagCodes name outermost codes = ofTagCodes name' outermost codes := by
  induction codes generalizing outermost with
  | nil => rfl
  | cons c codes ih =>
    -- the name is looked at only for the last code
    cases codes with
    | nil =>
      simp only [ofTagCodes, ofTerminalCode]
      split
      · rfl
      split
      · next hc => rw [h (by rw [hc]; rfl)]
      · rfl
    | cons d rest =>
      rw [ofTagCodes, ofTagCodes, ih false fun hlast => h (by rwa [List.getLast?_cons_cons])]

theorem objectName_of_terminal {t : Ty} {name : String} (h : t.terminal = .object name) :
    t.objectName = name := by
  induction t with
  | scalar k => cases h
  | object n => cases h; rfl
  | agg s e ih => exact ih h
  | ref e ih => exact ih h

/-- A row is read as a type exactly if the type is well formed and has the codes of the row. -/
theorem ofTags_eq_ok_iff {codes : List UInt8} {name : String} {t : Ty} :
    ofTags codes name = .ok t ↔
      t.WellFormed ∧ t.tagCodes = codes ∧
        (codes.getLast? = some objectCode → t.terminal = .object name) := by
  constructor
  · intro h
    exact ⟨(ofTagCodes_wellFormed h).1, ofTagCodes_codes h⟩
  · -- a row is read back under its type's own name, which is the given one where it counts
    rintro ⟨hwf, rfl, hname⟩
    rw [← ofTags_tagCodes hwf]
    exact ofTagCodes_congr_name true fun hlast => (objectName_of_terminal (hname hlast)).symm

/-! ## Which rows are read -/

theorem isInnerRow_tagCodes {t : Ty} {name : String} (h : t.RefFree)
    (hname : t.tagCodes.getLast? = some objectCode → t.terminal = .object name) :
    IsInnerRow name t.tagCodes := by
  induction t with
  | scalar k => exact .kind k
  | object n =>
    have hn : n = name := by simpa [terminal] using hname rfl
    exact .object (hn ▸ h)
  | agg s e ih =>
    exact .level s (ih h fun hlast => hname (by rwa [tagCodes, getLast?_cons_tagCodes]))
  | ref e => exact absurd h id

/-- Each row below a reference is that of a type. -/
theorem IsInnerRow.exists_type {name : String} {codes : List UInt8} (h : IsInnerRow name codes) :
    ∃ t : Ty, t.RefFree ∧ t.tagCodes = codes ∧
      (codes.getLast? = some objectCode → t.terminal = .object name) := by
  induction h with
  | kind k =>
    exact ⟨.scalar k, trivial, rfl, fun hc => absurd (Option.some.inj hc) (kind_ne_objectCode k)⟩
  | object hname => exact ⟨.object name, hname, rfl, fun _ => rfl⟩
  | level s _ ih =>
    obtain ⟨t, hfree, rfl, hname⟩ := ih
    exact ⟨.agg s t, hfree, rfl, fun hlast => hname (by rwa [getLast?_cons_tagCodes] at hlast)⟩

/-- The rows that are read are those of the grammar. -/
theorem exists_ofTags_iff {codes : List UInt8} {name : String} :
    (∃ t, ofTags codes name = .ok t) ↔ IsRow name codes := by
  constructor
  · rintro ⟨t, ht⟩
    obtain ⟨hwf, rfl, hname⟩ := ofTags_eq_ok_iff.mp ht
    -- a reference is well formed only as the outermost level, so it is looked for only here
    cases t with
    | ref e =>
      refine .ref (isInnerRow_tagCodes hwf fun hlast => hname ?_)
      rwa [tagCodes, getLast?_cons_tagCodes]
    | scalar | object | agg => exact .plain (isInnerRow_tagCodes hwf hname)
  · intro h
    cases h with
    | plain h =>
      obtain ⟨t, hfree, hcodes, hname⟩ := h.exists_type
      exact ⟨t, ofTags_eq_ok_iff.mpr ⟨hfree.wellFormed, hcodes, hname⟩⟩
    | ref h =>
      obtain ⟨t, hfree, rfl, hname⟩ := h.exists_type
      refine ⟨.ref t, ofTags_eq_ok_iff.mpr ⟨hfree, rfl, fun hlast => hname ?_⟩⟩
      rwa [getLast?_cons_tagCodes] at hlast

/-- All other rows are refused. -/
theorem ofTags_eq_error_iff {codes : List UInt8} {name : String} :
    (∃ reason, ofTags codes name = .error reason) ↔ ¬IsRow name codes := by
  rw [← exists_ofTags_iff]
  cases ofTags codes name with
  | ok t => simp
  | error reason => simp

/-- Rows of codes and stored bytes encode exactly the well-formed types. A well-formed type is read
back from its codes and its class name, and from its stored form; stored bytes hold no other types.
A row is read as a type only if the type is well formed, has the codes of the row, and has the given
name where the row ends in an object. All rows but those of the grammar are refused with a
reason. Names of classes are texts of characters: names of bytes that spell no characters are made
by no reader of types. -/
theorem codes_encode_wellFormed :
    (∀ t : Ty, t.WellFormed → ofTags t.tagCodes t.objectName = .ok t ∧ ofCbor t.toCbor = .ok t) ∧
    (∀ (bytes : List UInt8) (t : Ty), ofCbor bytes = .ok t → t.WellFormed) ∧
    ∀ (codes : List UInt8) (name : String),
      (∀ t, ofTags codes name = .ok t ↔
        t.WellFormed ∧ t.tagCodes = codes ∧
          (codes.getLast? = some objectCode → t.terminal = .object name)) ∧
      ((∃ reason, ofTags codes name = .error reason) ↔ ¬IsRow name codes) :=
  ⟨fun _ h => ⟨ofTags_tagCodes h, ofCbor_toCbor h⟩, fun _ _ => ofCbor_wellFormed,
    fun _ _ => ⟨fun _ => ofTags_eq_ok_iff, ofTags_eq_error_iff⟩⟩

/-- A reference to forty lists inside one another, more than the head of a short row counts. -/
theorem nestedLists_encoded :
    let t := Ty.ref ((List.replicate 40 Shape.list).foldr Ty.agg (.object "Text"))
    t.WellFormed ∧ ofTags t.tagCodes "Text" = .ok t ∧ ofCbor t.toCbor = .ok t ∧
      t.tagCodes.getLast? = some objectCode ∧ t.terminal = .object "Text" := by
  have hwf : (Ty.ref ((List.replicate 40 Shape.list).foldr Ty.agg (.object "Text"))).WellFormed :=
    show "Text" ≠ "" by decide
  obtain ⟨hread, hstored⟩ := codes_encode_wellFormed.1 _ hwf
  have hback := (codes_encode_wellFormed.2.2 _ "Text").1 _ |>.mp hread
  have hlast : (Ty.ref ((List.replicate 40 Shape.list).foldr Ty.agg
      (.object "Text"))).tagCodes.getLast? = some objectCode := rfl
  exact ⟨codes_encode_wellFormed.2.1 _ _ hstored, hread, hstored, hlast, hback.2.2 hlast⟩

end TypedPerl.Ty
