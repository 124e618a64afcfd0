import Mathlib.Data.List.Forall2
import TypedPerl.Ty.Pragma
import TypedPerl.Proofs.Text.Bytes
import TypedPerl.Proofs.Text.Trim
import TypedPerl.Proofs.Ty.Rows

/-!
# The grammar of type texts

A type text is a row of tags in angle brackets, with blanks around the tags and around the names in
them (`Ty.Spelled`). The names, in either case, are an optional `ref`, then shapes, then a scalar
kind or the name of a class (`Ty.Denotes`). Of all rows of bytes `Ty.parseBytes` reads exactly those
of such texts, and `Ty.toText` writes the normal form of each: it is read back as the same type, and
so is every text that spells the same tags in another way.

The reader is compared with the grammar in three steps. What it accepts holds no byte that is part
of no character (`exists_chars_of_readTags`). It hands on one code for each tag of the text
(`readTags_spelled`, `spelled_of_readTags`), and the codes of a row of names are those of the type
that the names denote (`codesOf_denotes`, `denotes_of_codes`).
-/

namespace TypedPerl

open Text (Blanks Edition Symbol encode trimBlanks)

/-! ## Names of tags -/

/-- The name of a kind, in either case; integers have a short name. -/
def Kind.IsNamed (k : Kind) (name : String) : Prop :=
  Text.lower name = k.name ∨ k = .integer ∧ Text.lower name = "int"

/-- The name of a shape, in either case; maps have a second name. -/
def Shape.IsNamed (s : Shape) (name : String) : Prop :=
  Text.lower name = s.name ∨ s = .map ∧ Text.lower name = "hash"

namespace Ty

/-- The name of a kind, a shape or a reference. -/
def IsTagName (name : String) : Prop :=
  (∃ k : Kind, k.IsNamed name) ∨ (∃ s : Shape, s.IsNamed name) ∨ Text.lower name = "ref"

/-- What the codes of tag names are. -/
theorem tagCodeOfName?_cases {name : String} {c : UInt8}
    (h : tagCodeOfName? (Text.lower name) = some c) :
    (∃ k : Kind, k.IsNamed name ∧ c = k.tagCode) ∨
      (∃ s : Shape, s.IsNamed name ∧ c = s.tagCode) ∨ Text.lower name = "ref" ∧ c = refCode := by
  unfold tagCodeOfName? at h
  split at h
  · next hname => cases h; exact .inl ⟨.integer, .inl hname, rfl⟩
  · next hname => cases h; exact .inl ⟨.integer, .inr ⟨rfl, hname⟩, rfl⟩
  · next hname => cases h; exact .inl ⟨.long, .inl hname, rfl⟩
  · next hname => cases h; exact .inl ⟨.float, .inl hname, rfl⟩
  · next hname => cases h; exact .inl ⟨.double, .inl hname, rfl⟩
  · next hname => cases h; exact .inl ⟨.string, .inl hname, rfl⟩
  · next hname => cases h; exact .inl ⟨.number, .inl hname, rfl⟩
  · next hname => cases h; exact .inl ⟨.boolean, .inl hname, rfl⟩
  · next hname => cases h; exact .inl ⟨.file, .inl hname, rfl⟩
  · next hname => cases h; exact .inl ⟨.box, .inl hname, rfl⟩
  · next hname => cases h; exact .inr (.inl ⟨.array, .inl hname, rfl⟩)
  · next hname => cases h; exact .inr (.inl ⟨.list, .inl hname, rfl⟩)
  · next hname => cases h; exact .inr (.inl ⟨.map, .inl hname, rfl⟩)
  · next hname => cases h; exact .inr (.inl ⟨.map, .inr ⟨rfl, hname⟩, rfl⟩)
  · next hname => cases h; exact .inr (.inr ⟨hname, rfl⟩)
  · cases h

/-- A name with the code of a kind is a name of that kind. -/
theorem isNamed_of_kindCode {k : Kind} {name : String}
    (h : tagCodeOfName? (Text.lower name) = some k.tagCode) : k.IsNamed name := by
  rcases tagCodeOfName?_cases h with ⟨k', hk', hc⟩ | ⟨s, -, hc⟩ | ⟨-, hc⟩
  · exact kind_tagCode_injective hc ▸ hk'
  · cases k <;> cases s <;> cases hc
  · cases k <;> cases hc

/-- A name with the code of a shape is a name of that shape. -/
theorem isNamed_of_shapeCode {s : Shape} {name : String}
    (h : tagCodeOfName? (Text.lower name) = some s.tagCode) : s.IsNamed name := by
  rcases tagCodeOfName?_cases h with ⟨k, -, hc⟩ | ⟨s', hs', hc⟩ | ⟨-, hc⟩
  · cases k <;> cases s <;> cases hc
  · exact shape_tagCode_injective hc ▸ hs'
  · cases s <;> cases hc

theorem lower_eq_of_refCode {name : String}
    (h : tagCodeOfName? (Text.lower name) = some refCode) : Text.lower name = "ref" := by
  rcases tagCodeOfName?_cases h with ⟨k, -, hc⟩ | ⟨s, -, hc⟩ | ⟨href, -⟩
  · cases k <;> cases hc
  · cases s <;> cases hc
  · exact href

/-- No tag name has the code of objects. -/
theorem tagCodeOfName?_ne_objectCode (name : String) :
    tagCodeOfName? (Text.lower name) ≠ some objectCode := by
  intro h
  rcases tagCodeOfName?_cases h with ⟨k, -, hc⟩ | ⟨s, -, hc⟩ | ⟨-, hc⟩
  · cases k <;> cases hc
  · cases s <;> cases hc
  · cases hc

theorem tagCodeOfName?_kind {k : Kind} {name : String} (h : k.IsNamed name) :
    tagCodeOfName? (Text.lower name) = some k.tagCode := by
  rcases h with h | ⟨rfl, h⟩
  · rw [h]
    cases k <;> rfl
  · rw [h]
    rfl

theorem tagCodeOfName?_shape {s : Shape} {name : String} (h : s.IsNamed name) :
    tagCodeOfName? (Text.lower name) = some s.tagCode := by
  rcases h with h | ⟨rfl, h⟩
  · rw [h]
    cases s <;> rfl
  · rw [h]
    rfl

theorem tagCodeOfName?_ref {name : String} (h : Text.lower name = "ref") :
    tagCodeOfName? (Text.lower name) = some refCode := by
  rw [h]
  rfl

/-- The tag names are the names that have a code. -/
theorem tagCodeOfName?_eq_none_iff {name : String} :
    tagCodeOfName? (Text.lower name) = none ↔ ¬IsTagName name := by
  constructor
  · rintro hnone (⟨k, hk⟩ | ⟨s, hs⟩ | href)
    · rw [tagCodeOfName?_kind hk] at hnone
      cases hnone
    · rw [tagCodeOfName?_shape hs] at hnone
      cases hnone
    · rw [tagCodeOfName?_ref href] at hnone
      cases hnone
  · intro hname
    cases hcode : tagCodeOfName? (Text.lower name) with
    | none => rfl
    | some c =>
      refine absurd ?_ hname
      rcases tagCodeOfName?_cases hcode with ⟨k, hk, -⟩ | ⟨s, hs, -⟩ | ⟨href, -⟩
      · exact .inl ⟨k, hk⟩
      · exact .inr (.inl ⟨s, hs⟩)
      · exact .inr (.inr href)

/-! ## Rows of names -/

/-- What a row of names denotes below a reference: shapes, then a kind or a class. A name that is
also that of a tag is never the name of a class. -/
inductive DenotesInner (e : Edition) : List String → Ty → Prop where
  /-- The name of a scalar kind. -/
  | kind {name : String} {k : Kind} (h : k.IsNamed name) : DenotesInner e [name] (.scalar k)
  /-- The name of a class. -/
  | object {name : String} (hform : isObjectName e name = true) (htag : ¬IsTagName name) :
    DenotesInner e [name] (.object name)
  /-- The name of a shape, and what the names behind it denote. -/
  | level {name : String} {s : Shape} (h : s.IsNamed name) {names : List String} {t : Ty}
    (hrest : DenotesInner e names t) : DenotesInner e (name :: names) (.agg s t)

/-- What a whole row of names denotes: there may be a reference in front. -/
inductive Denotes (e : Edition) : List String → Ty → Prop where
  /-- A value. -/
  | plain {names : List String} {t : Ty} (h : DenotesInner e names t) : Denotes e names t
  /-- A reference to a value. -/
  | ref {name : String} (h : Text.lower name = "ref") {names : List String} {t : Ty}
    (hrest : DenotesInner e names t) : Denotes e (name :: names) (.ref t)

section

variable {e : Edition}

/-- The codes of a row of names, and the name of the class at its end. A refusal holds the bytes of
the name that is to blame. -/
def codesOf (e : Edition) : List String → Except (TagReason (List UInt8)) (List UInt8 × String)
  | [] => .ok ([], "")
  | name :: names =>
    match tagCodeOfName? (Text.lower name) with
    | some c => (codesOf e names).map fun row => (c :: row.1, row.2)
    | none =>
      if !isObjectName e name then .error (.unknown (encode name.toList))
      else if !names.isEmpty then .error (.objectNotTerminal (encode name.toList))
      else .ok ([objectCode], name)

theorem codesOf_cons_of_code {name : String} {c : UInt8}
    (h : tagCodeOfName? (Text.lower name) = some c) (names : List String) :
    codesOf e (name :: names) = (codesOf e names).map fun row => (c :: row.1, row.2) := by
  rw [codesOf, h]

theorem codesOf_denotesInner {names : List String} {t : Ty} (h : DenotesInner e names t) :
    codesOf e names = .ok (t.tagCodes, t.objectName) ∧ t.RefFree := by
  induction h with
  | kind h => exact ⟨by rw [codesOf_cons_of_code (tagCodeOfName?_kind h)]; rfl, trivial⟩
  | @object name hform htag =>
    refine ⟨?_, ?_⟩
    · rw [codesOf, tagCodeOfName?_eq_none_iff.mpr htag]
      simp [hform, tagCodes, objectName]
    · rintro rfl
      cases hform
  | level h _ ih =>
    refine ⟨?_, ih.2⟩
    rw [codesOf_cons_of_code (tagCodeOfName?_shape h), ih.1]
    rfl

/-- The codes of a row of names are those of the type that the names denote. -/
theorem codesOf_denotes {names : List String} {t : Ty} (h : Denotes e names t) :
    codesOf e names = .ok (t.tagCodes, t.objectName) ∧ t.WellFormed := by
  cases h with
  | plain h =>
    obtain ⟨hcodes, hfree⟩ := codesOf_denotesInner h
    exact ⟨hcodes, hfree.wellFormed⟩
  | ref href h =>
    obtain ⟨hcodes, hfree⟩ := codesOf_denotesInner h
    refine ⟨?_, hfree⟩
    rw [codesOf_cons_of_code (tagCodeOfName?_ref href), hcodes]
    rfl

/-- The first name of a row that has codes: it has a code, or it is the name of a class and the
last one. -/
theorem codesOf_cons_cases {name : String} {names : List String} {row : List UInt8 × String}
    (h : codesOf e (name :: names) = .ok row) :
    (∃ c codes, tagCodeOfName? (Text.lower name) = some c ∧ codesOf e names = .ok (codes, row.2) ∧
      row.1 = c :: codes) ∨
    (isObjectName e name = true ∧ ¬IsTagName name ∧ names = [] ∧ row = ([objectCode], name)) := by
  rw [codesOf] at h
  -- a name that is no tag ends the row: it has to be an object name, and the last one
  split at h
  · next c hc =>
    cases hrest : codesOf e names with
    | error e =>
      rw [hrest] at h
      cases h
    | ok rest =>
      rw [hrest] at h
      cases h
      exact .inl ⟨c, rest.1, hc, rfl, rfl⟩
  · next hnone =>
    split at h
    · cases h
    · next hform =>
      split at h
      · cases h
      · next hempty =>
        cases h
        exact .inr ⟨by simpa using hform, tagCodeOfName?_eq_none_iff.mp hnone,
          by simpa using hempty, rfl⟩

theorem eq_nil_of_codesOf {names : List String} {name : String}
    (h : codesOf e names = .ok ([], name)) : names = [] := by
  cases names with
  | nil => rfl
  | cons n names =>
    rcases codesOf_cons_cases h with ⟨c, codes, -, -, hrow⟩ | ⟨-, -, -, hrow⟩
    · cases hrow
    · cases hrow

/-- What names have the codes of a type without references denote that type. -/
theorem denotesInner_of_codes {names : List String} {t : Ty} {name : String}
    (hcodes : codesOf e names = .ok (t.tagCodes, name)) (hfree : t.RefFree)
    (hname : t.tagCodes.getLast? = some objectCode → t.terminal = .object name) :
    DenotesInner e names t := by
  -- The induction is on the type, since each of its levels takes one name.
  induction t generalizing names with
  | scalar k =>
    cases names with
    | nil => cases hcodes
    | cons n names =>
      rcases codesOf_cons_cases hcodes with ⟨c, codes, hc, hrest, hrow⟩ | ⟨-, -, -, hrow⟩
      · cases hrow
        cases eq_nil_of_codesOf hrest
        exact .kind (isNamed_of_kindCode hc)
      · exact absurd (List.cons.inj (Prod.mk.inj hrow).1).1 (kind_ne_objectCode k)
  | object n =>
    cases names with
    | nil => cases hcodes
    | cons m names =>
      rcases codesOf_cons_cases hcodes with ⟨c, codes, hc, hrest, hrow⟩ | ⟨hform, htag, rfl, hrow⟩
      · cases hrow
        exact absurd hc (tagCodeOfName?_ne_objectCode m)
      · cases hrow
        cases hname rfl
        exact .object hform htag
  | agg s e ih =>
    cases names with
    | nil => cases hcodes
    | cons n names =>
      rcases codesOf_cons_cases hcodes with ⟨c, codes, hc, hrest, hrow⟩ | ⟨-, -, -, hrow⟩
      · cases hrow
        refine .level (isNamed_of_shapeCode hc) (ih hrest hfree fun hlast => hname ?_)
        rwa [tagCodes, getLast?_cons_tagCodes]
      · obtain ⟨d, cs, hd⟩ := tagCodes_ne_nil e
        rw [tagCodes, hd] at hrow
        cases (List.cons.inj (Prod.mk.inj hrow).1).2
  | ref e => exact absurd hfree id

/-- Names that have the codes of a well-formed type denote that type. -/
theorem denotes_of_codes {names : List String} {t : Ty} {name : String}
    (hcodes : codesOf e names = .ok (t.tagCodes, name)) (hwf : t.WellFormed)
    (hname : t.tagCodes.getLast? = some objectCode → t.terminal = .object name) :
    Denotes e names t := by
  -- only a reference is denoted by a tag that the levels inside it cannot have
  cases t with
  | ref e =>
    cases names with
    | nil => cases hcodes
    | cons n names =>
      rcases codesOf_cons_cases hcodes with ⟨c, codes, hc, hrest, hrow⟩ | ⟨-, -, -, hrow⟩
      · cases hrow
        refine .ref (lower_eq_of_refCode hc) (denotesInner_of_codes hrest hwf fun hlast => hname ?_)
        rwa [tagCodes, getLast?_cons_tagCodes]
      · cases hrow
  | scalar | object | agg => exact .plain (denotesInner_of_codes hcodes hwf hname)

/-- A row of names is read as the type that it denotes. -/
theorem ofTags_codesOf_iff {names : List String} {t : Ty} :
    (∃ row, codesOf e names = .ok row ∧ ofTags row.1 row.2 = .ok t) ↔ Denotes e names t := by
  constructor
  · rintro ⟨⟨codes, name⟩, hcodes, ht⟩
    obtain ⟨hwf, rfl, hname⟩ := ofTags_eq_ok_iff.mp ht
    exact denotes_of_codes hcodes hwf hname
  · intro h
    obtain ⟨hcodes, hwf⟩ := codesOf_denotes h
    exact ⟨_, hcodes, ofTags_tagCodes hwf⟩

end

/-! ## Spelling -/

/-- The characters spell the row of names: each name stands in angle brackets, and blanks stand
around the brackets and around the names. -/
inductive Spelled : List String → List Char → Prop where
  /-- Blanks spell no names. -/
  | nil {cs : List Char} (h : Blanks cs) : Spelled [] cs
  /-- A tag, and what is spelled behind it. -/
  | cons {before left right rest : List Char} {name : String} {names : List String}
    (hbefore : Blanks before) (hleft : Blanks left) (hright : Blanks right)
    (hname : '>' ∉ name.toList) (htrim : trimBlanks name.toList = name.toList)
    (hrest : Spelled names rest) :
    Spelled (name :: names)
      (before ++ '<' :: (left ++ name.toList ++ right ++ '>' :: rest))

theorem Spelled.blanks_append {names : List String} {cs bs : List Char} (h : Spelled names cs)
    (hbs : Blanks bs) : Spelled names (bs ++ cs) := by
  cases h with
  | nil h => exact .nil (List.forall_mem_append.mpr ⟨hbs, h⟩)
  | cons hbefore hleft hright hname htrim hrest =>
    rw [← List.append_assoc]
    exact .cons (List.forall_mem_append.mpr ⟨hbs, hbefore⟩) hleft hright hname htrim hrest

theorem Spelled.append_blanks {names : List String} {cs bs : List Char} (h : Spelled names cs)
    (hbs : Blanks bs) : Spelled names (cs ++ bs) := by
  induction h with
  | nil h => exact .nil (List.forall_mem_append.mpr ⟨h, hbs⟩)
  | cons hbefore hleft hright hname htrim hrest ih =>
    rw [List.append_assoc, List.cons_append, List.append_assoc, List.cons_append]
    exact .cons hbefore hleft hright hname htrim ih

theorem trimBlanks_tag {before inner : List Char} (hbefore : Blanks before) (rest : List Char) :
    trimBlanks (before ++ '<' :: (inner ++ '>' :: rest)) =
      '<' :: (inner ++ '>' :: Text.trimEnd rest) := by
  rw [Text.trimBlanks_blanks_append hbefore, Text.trimBlanks_cons (by decide),
    Text.trimEnd_append_cons (by decide)]

/-! ## Symbols -/

theorem nameOf?_eq_some_iff {ss : List Symbol} {name : String} :
    nameOf? ss = some name ↔ ss = name.toList.map .char := by
  have hmapM {cs : List Char} : ss.mapM Symbol.char? = some cs ↔ ss = cs.map .char := by
    induction ss generalizing cs with
    | nil => simp [eq_comm]
    | cons s ss ih =>
      cases s with
      | byte b => cases cs <;> simp [Symbol.char?]
      | char c => cases cs <;> simp [Symbol.char?, Option.bind_eq_some_iff, ih, and_comm]
  rw [nameOf?, Option.map_eq_some_iff]
  constructor
  · rintro ⟨cs, hcs, rfl⟩
    rw [String.toList_ofList]
    exact hmapM.mp hcs
  · intro h
    exact ⟨name.toList, hmapM.mpr h, String.ofList_toList⟩

theorem tagCode?_map (name : String) :
    tagCode? (name.toList.map .char) = tagCodeOfName? (Text.lower name) := by
  rw [tagCode?, nameOf?_eq_some_iff.mpr rfl]
  rfl

theorem objectName?_map (e : Edition) (name : String) :
    objectName? e (name.toList.map .char) = if isObjectName e name then some name else none := by
  rw [objectName?, nameOf?_eq_some_iff.mpr rfl, Option.filter_some]

theorem trimSymbols_map (cs : List Char) :
    trimSymbols (cs.map .char) = (trimBlanks cs).map .char := by
  have hblank : (fun s : Symbol => s.char?.any Text.isBlank) ∘ Symbol.char = Text.isBlank := rfl
  simp only [trimSymbols, trimBlanks, List.dropWhile_map, ← List.map_reverse, hblank]

/-- Symbols that are blanks are characters. -/
theorem exists_blanks (ss : List Symbol) (h : ∀ s ∈ ss, s.char?.any Text.isBlank = true) :
    ∃ bs, Blanks bs ∧ ss = bs.map .char := by
  induction ss with
  | nil => exact ⟨[], fun c hc => absurd hc List.not_mem_nil, rfl⟩
  | cons s ss ih =>
    obtain ⟨hs, hss⟩ := List.forall_mem_cons.mp h
    obtain ⟨bs, hbs, rfl⟩ := ih hss
    cases s with
    | byte b => cases hs
    | char c => exact ⟨c :: bs, List.forall_mem_cons.mpr ⟨hs, hbs⟩, rfl⟩

/-- Symbols are their trimmed form with blanks around it. -/
theorem eq_blanks_append_symbols (ss : List Symbol) :
    ∃ before after, Blanks before ∧ Blanks after ∧
      ss = before.map .char ++ trimSymbols ss ++ after.map .char := by
  let blank (s : Symbol) : Bool := s.char?.any Text.isBlank
  obtain ⟨before, hbefore, hfront⟩ := exists_blanks (ss.takeWhile blank)
    fun s hs => List.all_eq_true.mp List.all_takeWhile s hs
  obtain ⟨after, hafter, hback⟩ := exists_blanks
    ((ss.dropWhile blank).reverse.takeWhile blank).reverse
    fun s hs => List.all_eq_true.mp List.all_takeWhile s (List.mem_reverse.mp hs)
  refine ⟨before, after, hbefore, hafter, ?_⟩
  rw [← hfront, ← hback, trimSymbols, List.append_assoc, ← List.reverse_append,
    List.takeWhile_append_dropWhile, List.reverse_reverse, List.takeWhile_append_dropWhile]

/-! ## Reading tags -/

/-- One tag at the front of the symbols. -/
theorem readTags_tag (e : Edition) (fuel : Nat) (codes : List UInt8) {inner : List Symbol}
    (h : .char '>' ∉ inner) (tail : List Symbol) :
    readTags e (fuel + 1) codes (.char '<' :: (inner ++ .char '>' :: tail)) =
      match tagCode? (trimSymbols inner) with
      | some code => readTags e fuel (code :: codes) (trimSymbols tail)
      | none =>
        match objectName? e (trimSymbols inner) with
        | none => .error (.unknown ((trimSymbols inner).flatMap Symbol.bytes))
        | some n =>
          if !(trimSymbols tail).isEmpty then
            .error (.objectNotTerminal ((trimSymbols inner).flatMap Symbol.bytes))
          else .ok ((objectCode :: codes).reverse, n) := by
  have hall : ∀ s ∈ inner, decide (s ≠ .char '>') = true := by
    intro s hs
    refine decide_eq_true ?_
    rintro rfl
    exact h hs
  -- the tag reaches to the first closing bracket, which is not within `inner`
  have htake :
      (inner ++ .char '>' :: tail).takeWhile (fun s => decide (s ≠ .char '>')) = inner := by
    rw [List.takeWhile_append_of_pos hall, List.takeWhile_cons_of_neg (by simp), List.append_nil]
  have hdrop : ((inner ++ .char '>' :: tail).dropWhile
      (fun s => decide (s ≠ .char '>'))).drop 1 = tail := by
    rw [List.dropWhile_append_of_pos hall, List.dropWhile_cons_of_neg (by simp)]
    rfl
  rw [readTags, if_neg (by simp), if_neg (by simp)]
  -- both halves are named first, as they occur in every branch of the reader
  generalize (inner ++ .char '>' :: tail).takeWhile (fun s => decide (s ≠ .char '>')) = first
    at htake ⊢
  generalize ((inner ++ .char '>' :: tail).dropWhile
    (fun s => decide (s ≠ .char '>'))).drop 1 = rest at hdrop ⊢
  subst htake hdrop
  rfl

/-- The tags of a text are read one by one, whatever has been read before. -/
theorem readTags_spelled (e : Edition) {names : List String} {cs : List Char}
    (h : Spelled names cs) {fuel : Nat} (hfuel : (trimBlanks cs).length ≤ fuel)
    (codes : List UInt8) :
    readTags e fuel codes ((trimBlanks cs).map .char)
      = (codesOf e names).map fun row => (codes.reverse ++ row.1, row.2) := by
  induction h generalizing fuel codes with
  | nil h =>
    rw [Text.trimBlanks_of_blanks h, List.map_nil, readTags]
    simp [codesOf, Except.map]
  | @cons before left right rest name names hbefore hleft hright hname htrim hrest ih =>
    have hinner : '>' ∉ left ++ name.toList ++ right := by
      have hblank {bs : List Char} (hbs : Blanks bs) : '>' ∉ bs := fun hmem =>
        absurd (hbs '>' hmem) (by decide)
      simp [hblank hleft, hblank hright, hname]
    have htag : trimBlanks (left ++ name.toList ++ right) = name.toList := by
      rw [Text.trimBlanks_append_blanks hright, Text.trimBlanks_blanks_append hleft, htrim]
    rw [trimBlanks_tag hbefore] at hfuel ⊢
    -- the brackets alone pay for the step, and what is left is shorter than the fuel that is left
    obtain ⟨fuel, rfl⟩ : ∃ k, fuel = k + 1 := ⟨fuel - 1, by simp at hfuel; omega⟩
    have hshorter : (trimBlanks rest).length ≤ fuel := by
      have := Text.length_trimBlanks_le (Text.trimEnd rest)
      rw [Text.trimBlanks_trimEnd] at this
      simp at hfuel
      omega
    rw [List.map_cons, List.map_append, List.map_cons,
      readTags_tag e fuel codes (by simpa using hinner), trimSymbols_map, trimSymbols_map, htag, tagCode?_map, objectName?_map, Text.bytes_map_char,
      Text.trimBlanks_trimEnd, codesOf]
    split
    · rw [ih hshorter]
      cases codesOf e names with
      | error e => rfl
      | ok row => simp [Except.map]
    · -- the reader looks for more text behind the name of a class, the grammar for more names
      have hempty : ((trimBlanks rest).map Symbol.char).isEmpty = names.isEmpty := by
        cases hrest with
        | nil h => rw [Text.trimBlanks_of_blanks h]; rfl
        | cons hbefore => rw [trimBlanks_tag hbefore]; rfl
      rw [hempty]
      cases isObjectName e name with
      | false => rfl
      | true =>
        cases names.isEmpty with
        | false => rfl
        | true => simp [Except.map]

/-- What is read as tags holds characters only, and is spelled by some names. -/
theorem spelled_of_readTags {e : Edition} {fuel : Nat} {codes : List UInt8} {ss : List Symbol}
    {row : List UInt8 × String} (h : readTags e fuel codes ss = .ok row) :
    ∃ names cs, ss = cs.map .char ∧ Spelled names cs := by
  have hnil : ∃ names cs, [] = cs.map Symbol.char ∧ Spelled names cs :=
    ⟨[], [], rfl, .nil fun c hc => absurd hc List.not_mem_nil⟩
  induction fuel generalizing codes ss with
  | zero =>
    cases ss with
    | nil => exact hnil
    | cons s ss => cases h
  | succ fuel ih =>
    cases ss with
    | nil => exact hnil
    | cons s ss =>
      by_cases hopen : s = .char '<'
      case neg => rw [readTags, if_pos hopen] at h; cases h
      by_cases hclose : .char '>' ∈ ss
      case neg =>
        rw [readTags, if_neg (not_not.mpr hopen), if_pos (by simpa using hclose)] at h
        cases h
      obtain ⟨inner, tail, rfl, hinner⟩ := List.eq_append_cons_of_mem hclose
      subst hopen
      rw [readTags_tag e fuel codes hinner] at h
      -- the name is a text, and there are no names behind that of a class
      have hparts : (∃ name, nameOf? (trimSymbols inner) = some name) ∧
          ∃ names cs, trimSymbols tail = cs.map .char ∧ Spelled names cs := by
        split at h
        · next code hcode =>
          obtain ⟨name, hname, -⟩ := Option.bind_eq_some_iff.mp hcode
          exact ⟨⟨name, hname⟩, ih h⟩
        · split at h
          · cases h
          · next name hname =>
            split at h
            · cases h
            · next hempty =>
              have hend : trimSymbols tail = [] := by simpa using hempty
              exact ⟨⟨name, (Option.filter_eq_some_iff.mp hname).1⟩, hend ▸ hnil⟩
      obtain ⟨⟨name, hname⟩, names, cs, htail, hnames⟩ := hparts
      have htrimmed := nameOf?_eq_some_iff.mp hname
      obtain ⟨left, right, hleft, hright, hsplit⟩ := eq_blanks_append_symbols inner
      obtain ⟨before, after, hbefore, hafter, hrest⟩ := eq_blanks_append_symbols tail
      rw [htrimmed] at hsplit
      rw [htail] at hrest
      refine ⟨name :: names,
        [] ++ '<' :: (left ++ name.toList ++ right ++ '>' :: (before ++ cs ++ after)), ?_, ?_⟩
      · simp [hsplit, hrest]
      · refine .cons (by simp [Blanks]) hleft hright ?_ ?_
          ((hnames.blanks_append hbefore).append_blanks hafter)
        · intro hmem
          exact hinner (hsplit ▸ by simp [hmem])
        · -- what is trimmed away are the blanks, so the name is trimmed already
          have htwice := trimSymbols_map (left ++ name.toList ++ right)
          rw [Text.trimBlanks_append_blanks hright, Text.trimBlanks_blanks_append hleft,
            List.map_append, List.map_append, ← hsplit, htrimmed] at htwice
          exact (List.map_injective_iff.mpr (fun c d => Symbol.char.inj) htwice).symm

/-! ## Bytes -/

/-- The bytes of a text that spells the names. -/
def Spells (names : List String) (input : List UInt8) : Prop :=
  ∃ cs, input = encode cs ∧ Spelled names cs

theorem spells_encode_iff {names : List String} {cs : List Char} :
    Spells names (encode cs) ↔ Spelled names cs := by
  constructor
  · rintro ⟨cs', hcs, h⟩
    have hsame := Text.symbols_eq_map_iff.mpr hcs
    rw [Text.symbols_encode] at hsame
    exact List.map_injective_iff.mpr (fun c d => Symbol.char.inj) hsame ▸ h
  · exact fun h => ⟨cs, rfl, h⟩

theorem spells_encode {names : List String} {cs : List Char} (h : Spelled names cs) :
    Spells names (encode cs) :=
  spells_encode_iff.mpr h

/-- The refusal of a row of codes, for a reader of bytes. -/
def inBytes (row : Except TagReason Ty) : Except (TagReason (List UInt8)) Ty :=
  row.mapError (TagReason.map fun n => encode n.toList)

theorem parseBytes_blank (e : Edition) {input : List UInt8}
    (h : trimSymbols (Text.symbols input) = []) : parseBytes e input = .error ⟨input, .empty⟩ := by
  unfold parseBytes
  dsimp only
  rw [h]
  rfl

theorem parseBytes_eq (e : Edition) {input : List UInt8} {ss : List Symbol}
    (hss : trimSymbols (Text.symbols input) = ss) (h : ss ≠ []) :
    parseBytes e input = ((readTags e ss.length [] ss).bind
      fun row => inBytes (ofTags row.1 row.2)).mapError (TagFault.mk input) := by
  subst hss
  unfold parseBytes
  dsimp only
  rw [if_neg (by simpa using h)]
  rfl

/-- Bytes of a text are read as the names in it are. -/
theorem parseBytes_spells (e : Edition) {names : List String} {input : List UInt8}
    (h : Spells names input) :
    parseBytes e input = ((codesOf e names).bind
      fun row => inBytes (ofTags row.1 row.2)).mapError (TagFault.mk input) := by
  obtain ⟨cs, rfl, h⟩ := h
  have htrim : trimSymbols (Text.symbols (encode cs)) = (trimBlanks cs).map .char := by
    rw [Text.symbols_encode, trimSymbols_map]
  by_cases hblank : trimBlanks cs = []
  · -- a blank text is refused before its tags are read, as a row without a code would be
    rw [parseBytes_blank e (by rw [htrim, hblank, List.map_nil])]
    cases h with
    | nil h => rfl
    | cons hbefore =>
      rw [trimBlanks_tag hbefore] at hblank
      cases hblank
  · rw [parseBytes_eq e htrim (by simpa using hblank), List.length_map,
      readTags_spelled e h (Nat.le_refl _) []]
    cases codesOf e names <;> rfl

theorem ok_of_mapError {α β γ : Type} {x : Except α γ} {f : α → β} {a : γ}
    (h : x.mapError f = .ok a) : x = .ok a := by
  cases x with
  | error e => cases h
  | ok b => cases h; rfl

/-- Bytes that are read as a type are those of a text that spells some names. -/
theorem spells_of_parseBytes {e : Edition} {input : List UInt8} {t : Ty}
    (h : parseBytes e input = .ok t) : ∃ names, Spells names input := by
  by_cases hblank : trimSymbols (Text.symbols input) = []
  · rw [parseBytes_blank e hblank] at h
    cases h
  · rw [parseBytes_eq e rfl hblank] at h
    cases hread : readTags e _ [] (trimSymbols (Text.symbols input)) with
    | error r =>
      rw [hread] at h
      cases h
    | ok row =>
      obtain ⟨names, cs, htrim, hnames⟩ := spelled_of_readTags hread
      obtain ⟨before, after, hbefore, hafter, hsplit⟩ :=
        eq_blanks_append_symbols (Text.symbols input)
      rw [htrim, ← List.map_append, ← List.map_append] at hsplit
      exact ⟨names, before ++ cs ++ after, Text.symbols_eq_map_iff.mp hsplit,
        (hnames.blanks_append hbefore).append_blanks hafter⟩

/-- Bytes are read as a type exactly if they are those of a text that spells names of the type. -/
theorem parseBytes_eq_ok_iff {e : Edition} {input : List UInt8} {t : Ty} :
    parseBytes e input = .ok t ↔ ∃ names, Spells names input ∧ Denotes e names t := by
  constructor
  · intro hparse
    -- what the reader accepts was spelled by some names, and these names determine its answer
    obtain ⟨names, hnames⟩ := spells_of_parseBytes hparse
    refine ⟨names, hnames, ofTags_codesOf_iff.mp ?_⟩
    rw [parseBytes_spells e hnames] at hparse
    cases hcodes : codesOf e names with
    | error r =>
      rw [hcodes] at hparse
      cases hparse
    | ok row =>
      rw [hcodes] at hparse
      exact ⟨row, rfl, ok_of_mapError (ok_of_mapError hparse)⟩
  · rintro ⟨names, hnames, hdenotes⟩
    obtain ⟨row, hcodes, ht⟩ := ofTags_codesOf_iff.mpr hdenotes
    rw [parseBytes_spells e hnames, hcodes]
    change (inBytes (ofTags row.1 row.2)).mapError _ = _
    rw [ht]
    rfl

/-- Every refusal holds the bytes that were read. -/
theorem input_of_parseBytes_error {e : Edition} {input : List UInt8} {f : TagFault (List UInt8)}
    (h : parseBytes e input = .error f) : f.input = input := by
  by_cases hblank : trimSymbols (Text.symbols input) = []
  · rw [parseBytes_blank e hblank] at h
    cases h
    rfl
  · rw [parseBytes_eq e rfl hblank] at h
    generalize (readTags e _ _ _).bind _ = x at h
    cases x with
    | error r => cases h; rfl
    | ok t => cases h

/-! ## Texts -/

/-- A text is read as a type exactly if it spells names of the type. -/
theorem parse_eq_ok_iff {input : String} {t : Ty} :
    parse input = .ok t ↔ ∃ names, Spelled names input.toList ∧ Denotes .current names t := by
  have hbytes : parse input = .ok t ↔ parseBytes .current (encode input.toList) = .ok t := by
    refine ⟨ok_of_mapError, fun h => ?_⟩
    rw [parse, h]
    rfl
  rw [hbytes, parseBytes_eq_ok_iff]
  simp only [spells_encode_iff]

/-- Every refusal of a text holds the text. -/
theorem input_of_parse_error {input : String} {f : TagFault} (h : parse input = .error f) :
    f.input = input := by
  rw [parse] at h
  cases hread : parseBytes .current (encode input.toList) with
  | ok t =>
    rw [hread] at h
    cases h
  | error g =>
    rw [hread] at h
    cases h
    rw [TagFault.map, input_of_parseBytes_error hread, Text.ofBytes_encode, String.ofList_toList]

/-! ## The normal form -/

theorem lower_kindName (k : Kind) : Text.lower k.name = k.name := by
  cases k <;> decide +kernel

theorem lower_ref : Text.lower "ref" = "ref" := by
  decide +kernel

theorem lower_shapeName (s : Shape) : Text.lower s.name = s.name := by
  cases s <;> decide +kernel

/-- A name in which neither a blank nor a closing bracket occurs. -/
def IsPlainName (name : String) : Prop :=
  ∀ c ∈ name.toList, Text.isBlank c = false ∧ c ≠ '>'

theorem isPlainName_of_all {name : String}
    (h : (name.toList.all fun c => !Text.isBlank c && c != '>') = true) : IsPlainName name :=
  fun c hc => by simpa using List.all_eq_true.mp h c hc

theorem isPlainName_kind (k : Kind) : IsPlainName k.name := by
  cases k <;> exact isPlainName_of_all (by decide)

theorem isPlainName_shape (s : Shape) : IsPlainName s.name := by
  cases s <;> exact isPlainName_of_all (by decide)

theorem isPlainName_of_isObjectName {e : Edition} {name : String}
    (h : isObjectName e name = true) : IsPlainName name := by
  rw [isObjectName, Bool.and_eq_true, List.all_eq_true] at h
  intro c hc
  have hform := h.2 c hc
  rw [Bool.or_eq_true, Bool.or_eq_true] at hform
  rcases hform with (hword | hmark) | hmark
  · exact Text.isBlank_of_isWord hword
  · cases eq_of_beq hmark
    decide
  · cases eq_of_beq hmark
    decide

/-- A plain name stands in brackets without blanks. -/
theorem Spelled.tag {name : String} (h : IsPlainName name) {names : List String} {rest : List Char}
    (hrest : Spelled names rest) :
    Spelled (name :: names) ('<' :: (name.toList ++ '>' :: rest)) := by
  have hnil : Blanks [] := fun c hc => absurd hc List.not_mem_nil
  have htag : Spelled (name :: names) ([] ++ '<' :: ([] ++ name.toList ++ [] ++ '>' :: rest)) :=
    .cons hnil hnil hnil (fun hmem => (h '>' hmem).2 rfl)
      (Text.trimBlanks_of_no_blank fun c hc => (h c hc).1) hrest
  simpa using htag

/-- The names of the tags of a type, as its text has them. -/
def tagNames : Ty → List String
  | scalar k => [k.name]
  | object n => [n]
  | agg s e => s.name :: e.tagNames
  | ref e => "ref" :: e.tagNames

/-- The text of a type spells the names of its tags, and they denote the type, if any names do. -/
theorem DenotesInner.normal {e : Edition} {names : List String} {t : Ty}
    (h : DenotesInner e names t) :
    Spelled t.tagNames t.toText.toList ∧ DenotesInner e t.tagNames t := by
  have hend : Spelled [] [] := .nil fun c hc => absurd hc List.not_mem_nil
  induction h with
  | @kind _ k _ =>
    refine ⟨?_, .kind (.inl (lower_kindName k))⟩
    simpa [toText, tagNames] using Spelled.tag (isPlainName_kind k) hend
  | object hform htag =>
    refine ⟨?_, .object hform htag⟩
    simpa [toText, tagNames] using Spelled.tag (isPlainName_of_isObjectName hform) hend
  | @level _ s _ _ _ _ ih =>
    refine ⟨?_, .level (.inl (lower_shapeName s)) ih.2⟩
    simpa [toText, tagNames] using Spelled.tag (isPlainName_shape s) ih.1

/-- The text of a type that names denote is in normal form. -/
theorem Denotes.normal {e : Edition} {names : List String} {t : Ty} (h : Denotes e names t) :
    Spelled t.tagNames t.toText.toList ∧ Denotes e t.tagNames t := by
  cases h with
  | plain h => exact ⟨h.normal.1, .plain h.normal.2⟩
  | @ref _ _ _ e h =>
    have hplain : IsPlainName "ref" := isPlainName_of_all (by decide)
    refine ⟨?_, .ref lower_ref h.normal.2⟩
    simpa [toText, tagNames] using Spelled.tag hplain h.normal.1

/-! ## Other spellings -/

/-- Two names of one tag: they differ in letter case, or are both names of integers or of maps. -/
inductive SameTag : String → String → Prop where
  /-- The name stays as it is. -/
  | same (name : String) : SameTag name name
  /-- The name of a tag in other letter case. -/
  | letterCase {name name' : String} (htag : IsTagName name)
    (h : Text.lower name = Text.lower name') : SameTag name name'
  /-- The long name of integers for the short one. -/
  | integer {name name' : String} (h : Text.lower name = "int")
    (h' : Text.lower name' = "integer") : SameTag name name'
  /-- The first name of maps for the second one. -/
  | map {name name' : String} (h : Text.lower name = "hash") (h' : Text.lower name' = "map") :
    SameTag name name'

/-- Names of the same tags have the same codes. -/
theorem codesOf_sameTag (e : Edition) {names names' : List String}
    (h : List.Forall₂ SameTag names names') : codesOf e names = codesOf e names' := by
  induction h with
  | nil => rfl
  | @cons name name' names names' hname hrest ih =>
    -- an object name is accepted only when no name follows, so the lengths have to agree too
    have hempty : names.isEmpty = names'.isEmpty := by cases hrest <;> rfl
    have hcode {c : UInt8} (hc : tagCodeOfName? (Text.lower name) = some c)
        (hc' : tagCodeOfName? (Text.lower name') = some c) :
        codesOf e (name :: names) = codesOf e (name' :: names') := by
      rw [codesOf_cons_of_code hc, codesOf_cons_of_code hc', ih]
    cases hname with
    -- two names for one tag have one code; the same name is read as itself
    | same => simp only [codesOf, ih, hempty]
    | letterCase htag hlower =>
      cases hc : tagCodeOfName? (Text.lower name) with
      | none => exact absurd htag (tagCodeOfName?_eq_none_iff.mp hc)
      | some c => exact hcode hc (hlower ▸ hc)
    | integer h h' => exact hcode (c := Kind.integer.tagCode) (by rw [h]; rfl) (by rw [h']; rfl)
    | map h h' => exact hcode (c := Shape.map.tagCode) (by rw [h]; rfl) (by rw [h']; rfl)

/-- A text that spells the same tags in another way is read as the same type. -/
theorem parseBytes_sameTag {e : Edition} {input input' : List UInt8} {names names' : List String}
    {t : Ty} (h : parseBytes e input = .ok t) (hnames : Spells names input)
    (hsame : List.Forall₂ SameTag names names') (hnames' : Spells names' input') :
    parseBytes e input' = .ok t := by
  rw [parseBytes_spells e hnames] at h
  rw [parseBytes_spells e hnames', ← codesOf_sameTag e hsame]
  rw [ok_of_mapError h]
  rfl

/-- In either version of the character data, bytes are read as a type exactly if they are those of a
text that spells a row of names, with blanks at will, that denotes the type: an optional reference,
shapes, and a scalar kind or a class. All other bytes are refused with a fault that holds them. The
text of a type that was read is its normal form, which is read back as the same type, as is every
text with the same tags in other letter case or under another of their names. -/
theorem parse_reads_grammar (e : Edition) (input : List UInt8) :
    (∀ t, parseBytes e input = .ok t ↔ ∃ names, Spells names input ∧ Denotes e names t) ∧
    (∀ f, parseBytes e input = .error f → f.input = input) ∧
    ∀ t, parseBytes e input = .ok t →
      parseBytes e (encode t.toText.toList) = .ok t ∧
      ∀ names names' input', Spells names input → List.Forall₂ SameTag names names' →
        Spells names' input' → parseBytes e input' = .ok t := by
  refine ⟨fun t => parseBytes_eq_ok_iff, fun f => input_of_parseBytes_error, fun t h => ⟨?_, ?_⟩⟩
  · obtain ⟨names, -, hdenotes⟩ := parseBytes_eq_ok_iff.mp h
    exact parseBytes_eq_ok_iff.mpr ⟨t.tagNames, spells_encode hdenotes.normal.1, hdenotes.normal.2⟩
  · intro names names' input' hnames hsame hnames'
    exact parseBytes_sameTag h hnames hsame hnames'

/-- Letter case, blanks and the second name of maps make no difference. -/
theorem spacedTags_normal :
    let spaced := encode "< Ref ><HASH>\t<Text>".toList
    let plain := encode "<ref><map><Text>".toList
    parseBytes .unicode15 spaced = .ok (.ref (.agg .map (.object "Text"))) ∧
      Spells ["Ref", "HASH", "Text"] spaced ∧
      List.Forall₂ SameTag ["Ref", "HASH", "Text"] ["ref", "map", "Text"] ∧
      Spells ["ref", "map", "Text"] plain ∧
      parseBytes .unicode15 plain = .ok (.ref (.agg .map (.object "Text"))) := by
  intro spaced plain
  have hnil : Blanks [] := fun c hc => absurd hc List.not_mem_nil
  have hspace : Blanks [' '] := List.all_eq_true.mp (by decide)
  have htab : Blanks ['\t'] := List.all_eq_true.mp (by decide)
  have hspelled : Spelled ["Ref", "HASH", "Text"] "< Ref ><HASH>\t<Text>".toList :=
    .cons hnil hspace hspace (by decide) (by decide) (.cons hnil hnil hnil (by decide) (by decide)
      (.cons htab hnil hnil (by decide) (by decide) (.nil hnil)))
  have hspelled' : Spelled ["ref", "map", "Text"] "<ref><map><Text>".toList :=
    .cons hnil hnil hnil (by decide) (by decide) (.cons hnil hnil hnil (by decide) (by decide)
      (.cons hnil hnil hnil (by decide) (by decide) (.nil hnil)))
  -- the names are in any letter case, and `hash` is another name for the map
  have href : Text.lower "Ref" = "ref" := by decide +kernel
  have hhash : Text.lower "HASH" = "hash" := by decide +kernel
  have hform : isObjectName .unicode15 "Text" = true := by
    simp only [isObjectName, Text.isLetter, Text.isDecimalDigit, Text.Edition.covers,
      Text.inRanges_eq]
    decide +kernel
  have htext : DenotesInner .unicode15 ["Text"] (.object "Text") :=
    .object hform (tagCodeOfName?_eq_none_iff.mp (by decide +kernel))
  have hdenotes : Denotes .unicode15 ["Ref", "HASH", "Text"] (.ref (.agg .map (.object "Text"))) :=
    .ref href (.level (.inr ⟨rfl, hhash⟩) htext)
  have hsame : List.Forall₂ SameTag ["Ref", "HASH", "Text"] ["ref", "map", "Text"] :=
    .cons (.letterCase (.inr (.inr href)) (href.trans lower_ref.symm))
      (.cons (.map hhash (lower_shapeName .map)) (.cons (.same _) .nil))
  have hread := ((parse_reads_grammar .unicode15 spaced).1 _).mpr
    ⟨_, spells_encode hspelled, hdenotes⟩
  exact ⟨hread, spells_encode hspelled, hsame, spells_encode hspelled',
    ((parse_reads_grammar .unicode15 spaced).2.2 _ hread).2 _ _ _ (spells_encode hspelled) hsame
      (spells_encode hspelled')⟩

end Ty

end TypedPerl
