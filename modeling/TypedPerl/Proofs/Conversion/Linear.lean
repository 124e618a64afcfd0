import TypedPerl.Conversion

/-!
# Conversions evaluate their operand once

The text of a conversion is a context with one hole for the code of the operand. `Wraps g` says so
of a function from code to text: there is a text before the code and a text behind it, and both are
the same for all code. `Linear f` says it of a conversion that may be refused, and that the refusal
is the same for all code. Contexts compose, so that a conversion through several others, as those of
references and containers are, has one hole again.

A literal is the exception: it is rewritten as a literal of the other type.
-/

namespace TypedPerl

/-- The operand with other code. -/
def Operand.withCode (o : Operand) (code : String) : Operand :=
  { o with code := code }

/-! ## Contexts with one hole -/

/-- The function puts a fixed text before the code and a fixed text behind it. -/
def Wraps (g : String → String) : Prop :=
  ∃ pre post, ∀ code, g code = pre ++ code ++ post

namespace Wraps

variable {g h : String → String}

theorem id : Wraps fun code => code :=
  ⟨"", "", fun code => by simp⟩

theorem before (s : String) (hg : Wraps g) : Wraps fun code => s ++ g code := by
  obtain ⟨pre, post, hg⟩ := hg
  exact ⟨s ++ pre, post, fun code => by simp [hg, String.append_assoc]⟩

theorem behind (hg : Wraps g) (s : String) : Wraps fun code => g code ++ s := by
  obtain ⟨pre, post, hg⟩ := hg
  exact ⟨pre, post ++ s, fun code => by simp [hg, String.append_assoc]⟩

/-- A context in the hole of another. -/
theorem comp (hg : Wraps g) (hh : Wraps h) : Wraps fun code => g (h code) := by
  obtain ⟨pre, post, hg⟩ := hg
  obtain ⟨pre', post', hh⟩ := hh
  exact ⟨pre ++ pre', post' ++ post, fun code => by simp [hg, hh, String.append_assoc]⟩

theorem paren (hg : Wraps g) : Wraps fun code => Java.paren (g code) :=
  (hg.before "(").behind ")"

theorem castTo (t : Option Ty) (hg : Wraps g) : Wraps fun code => Java.castTo t (g code) :=
  (hg.before ("((" ++ Java.declType? t ++ ") ")).behind ")"

theorem newRef (t : Ty) (hg : Wraps g) : Wraps fun code => Java.newRef t (g code) :=
  (hg.before ("new " ++ Java.declType t.refTo ++ "(")).behind ")"

/-- The first of several arguments. -/
theorem call (cls method : String) (hg : Wraps g) (rest : List String) :
    Wraps fun code => Java.call cls method (g code :: rest) := by
  have hargs : Wraps fun code => Text.join ", " (g code :: rest) := by
    cases rest with
    | nil =>
      simp only [Text.join, String.intercalate_singleton]
      exact hg
    | cons a more =>
      simp only [Text.join, String.intercalate_cons_cons]
      exact (hg.behind _).behind _
  exact (hargs.before (cls ++ "." ++ method ++ "(")).behind ")"

theorem helper (fn : String) (hg : Wraps g) : Wraps fun code => Conversion.helper fn (g code) :=
  hg.call "Casting" fn []

end Wraps

/-- All code gives the same context around it, or the same refusal. -/
def Linear (f : String → Except Fault String) : Prop :=
  (∃ pre post, ∀ code, f code = .ok (pre ++ code ++ post)) ∨
    ∃ refusal, ∀ code, f code = .error refusal

namespace Linear

variable {f : String → Except Fault String} {g : String → String}

theorem ok (hg : Wraps g) : Linear fun code => .ok (g code) := by
  obtain ⟨pre, post, hg⟩ := hg
  exact .inl ⟨pre, post, fun code => congrArg Except.ok (hg code)⟩

theorem error (refusal : Fault) : Linear fun _ => .error refusal :=
  .inr ⟨refusal, fun _ => rfl⟩

/-- A conversion of code in a context. -/
theorem comp (hf : Linear f) (hg : Wraps g) : Linear fun code => f (g code) := by
  obtain ⟨pre, post, hg⟩ := hg
  rcases hf with ⟨pre', post', hf⟩ | ⟨refusal, hf⟩
  · exact .inl ⟨pre' ++ pre, post ++ post', fun code => by simp [hf, hg, String.append_assoc]⟩
  · exact .inr ⟨refusal, fun code => hf _⟩

/-- A conversion whose text is put in a context. -/
theorem andThen (hf : Linear f) (hg : Wraps g) :
    Linear fun code => do
      let text ← f code
      return g text := by
  obtain ⟨pre, post, hg⟩ := hg
  rcases hf with ⟨pre', post', hf⟩ | ⟨refusal, hf⟩
  · refine .inl ⟨pre ++ pre', post' ++ post, fun code => ?_⟩
    simp [hf, hg, String.append_assoc, pure, Except.pure, bind, Except.bind]
  · exact .inr ⟨refusal, fun code => by simp [hf, bind, Except.bind]⟩

/-- A conversion of what a conversion gives. -/
theorem bind {g : String → Except Fault String} (hf : Linear f) (hg : Linear g) :
    Linear fun code => f code >>= g := by
  rcases hf with ⟨pre, post, hf⟩ | ⟨refusal, hf⟩
  · simp only [hf]
    exact hg.comp (.behind (.before pre .id) post)
  · exact .inr ⟨refusal, fun code => by simp [hf, Bind.bind, Except.bind]⟩

/-- A conversion whose text is put in a context, and whose refusal is replaced by another. -/
theorem map (hf : Linear f) (hg : Wraps g) (r : Fault → Fault) :
    Linear fun code => match f code with
      | .ok text => .ok (g text)
      | .error refusal => .error (r refusal) := by
  obtain ⟨pre, post, hg⟩ := hg
  rcases hf with ⟨pre', post', hf⟩ | ⟨refusal, hf⟩
  · exact .inl ⟨pre ++ pre', post' ++ post, fun code => by simp [hf, hg, String.append_assoc]⟩
  · exact .inr ⟨r refusal, fun code => by simp [hf]⟩

end Linear

namespace Conversion

variable {o : Operand}

/-! ## Scalars -/

theorem widen_wraps {g : String → String} (hg : Wraps g) (k : Kind) :
    Wraps fun code => widen (g code) k := by
  unfold widen
  split
  · exact hg
  · exact ((hg.before ("((" ++ primitive k ++ ") "))).behind ")"

theorem count_wraps (o : Operand) : Wraps fun code => (o.withCode code).count := by
  unfold Operand.count
  show Wraps fun code => if o.type.any Ty.isArray then code ++ ".length" else code ++ ".size()"
  split
  · exact .behind .id _
  · exact .behind .id _

theorem cellCode_wraps (o : Operand) : Wraps fun code => (o.withCode code).cellCode := by
  unfold Operand.cellCode
  show Wraps fun code => if o.raw then
    "new " ++ Java.declType? (o.type.map Ty.refTo) ++ "(" ++ code ++ ")" else code
  split
  · exact .behind (.before _ .id) _
  · exact .id

/-- A value as a truth value. -/
theorem toBoolean_wraps (h : o.constant = false) :
    Wraps fun code => toBoolean (o.withCode code) := by
  -- the flags and the type select the form, and no form looks at the code
  obtain ⟨code, type, notNull, constant, undef, multi, firstOfMany, raw⟩ := o
  cases h
  have hother : Wraps (helper "toBoolean") := .helper _ .id
  have hthere : Wraps fun code => Java.paren (code ++ " != null") := .paren (.behind .id _)
  rcases type with _ | (k | n | ⟨s, e⟩ | e)
  · exact hother
  · cases k with
    | boolean => exact .id
    | string => exact hother
    | file => exact hthere
    | box =>
      cases notNull with
      | false => exact hother
      | true => exact .behind .id _
    | number =>
      cases notNull with
      | false => exact hother
      | true => exact .paren (.behind .id _)
    | integer | long | float | double =>
      cases notNull with
      | false => exact hother
      | true => exact .paren (.behind .id _)
  · exact hthere
  · cases notNull with
    | false => exact hother
    | true =>
      cases s with
      | array => exact .paren (.behind .id _)
      | list | map => exact .paren (.behind (.before "!" .id) _)
  · exact hthere

/-- A value as a number. -/
theorem toNumeric_wraps (h : o.constant = false) (k : Kind) :
    Wraps fun code => toNumeric (o.withCode code) k := by
  have hcount := count_wraps o
  obtain ⟨code, type, notNull, constant, undef, multi, firstOfMany, raw⟩ := o
  cases h
  have hother : Wraps (helper (numericHelper k)) := .helper _ .id
  -- the two numbers that stand for a truth value
  have hchoice (test : String) : Wraps fun code => Java.paren (code ++ test ++
      ("1" ++ Java.kindSuffix k) ++ " : " ++ ("0" ++ Java.kindSuffix k)) :=
    .paren (.behind (.behind (.behind (.behind .id _) _) _) _)
  rcases type with _ | (src | n | ⟨s, e⟩ | e)
  · exact hother
  · simp only [toNumeric, Operand.withCode]
    split
    · exact hchoice _
    · split
      · exact .id
      · cases src with
        | boolean =>
          cases notNull with
          | false => exact hother
          | true => exact hchoice _
        | box | number =>
          cases notNull with
          | false => exact hother
          | true => exact .behind (.behind (.behind .id _) _) _
        | integer | long | float | double | string | file => exact hother
  · exact hchoice _
  · cases notNull with
    | false => exact hother
    | true => exact widen_wraps hcount k
  · exact hchoice _

/-- A value as a text. -/
theorem toText_wraps (h : o.constant = false) : Wraps fun code => toText (o.withCode code) := by
  have hcount := count_wraps o
  obtain ⟨code, type, notNull, constant, undef, multi, firstOfMany, raw⟩ := o
  cases h
  have hother : Wraps (helper "toString") := .helper _ .id
  have hthere (test : String) : Wraps fun code => Java.paren (code ++ test) :=
    .paren (.behind .id _)
  rcases type with _ | (k | n | ⟨s, e⟩ | e)
  · exact hother
  · cases k with
    | file => exact hthere _
    | string => exact .id
    | boolean =>
      cases notNull with
      | false => exact hother
      | true => exact hthere _
    | box | number =>
      cases notNull with
      | false => exact hother
      | true => exact .behind .id _
    | integer | long | float | double => exact hother
  · exact hthere _
  · cases notNull with
    | false => exact .helper _ (.helper _ .id)
    | true => exact .helper _ hcount
  · exact hthere _

/-- A value as a dynamic value. -/
theorem toBox_wraps (o : Operand) : Wraps fun code => toBox (o.withCode code) := by
  have hcount := count_wraps o
  have hcell := cellCode_wraps o
  obtain ⟨code, type, notNull, constant, undef, multi, firstOfMany, raw⟩ := o
  have hother : Wraps (helper "box") := .helper _ .id
  rcases type with _ | (k | n | ⟨s, e⟩ | e)
  · exact hother
  · cases k with
    | box => exact .id
    | boolean | integer | long | float | double | string | number | file => exact hother
  · exact hother
  · cases notNull with
    | false => exact .helper _ (.helper _ .id)
    | true => exact .helper _ hcount
  · exact .helper _ hcell

/-- A value as a number of unknown precision. -/
theorem toNumber_linear (o : Operand) : Linear fun code => toNumber (o.withCode code) := by
  have hcount := count_wraps o
  -- a form is refused or not before the code is looked at
  obtain ⟨code, type, notNull, constant, undef, multi, firstOfMany, raw⟩ := o
  have hthere (test : String) : Wraps fun code => Java.paren (code ++ test) :=
    .paren (.behind .id _)
  rcases type with _ | (k | n | ⟨s, e⟩ | e)
  · exact .error _
  · cases k with
    | file => exact .ok (hthere _)
    | integer | long | float | double | number => exact .ok .id
    | boolean =>
      cases notNull with
      | false => exact .ok (.helper _ .id)
      | true => exact .ok (hthere _)
    | string => exact .ok (.helper _ .id)
    | box =>
      cases notNull with
      | false => exact .ok (.helper _ .id)
      | true => exact .ok (.behind .id _)
  · exact .ok (hthere _)
  · cases notNull with
    | false => exact .ok (.helper _ .id)
    | true => exact .ok hcount
  · exact .ok (hthere _)

/-- A value as a file handle. -/
theorem toFile_linear (o : Operand) : Linear fun code => toFile (o.withCode code) := by
  obtain ⟨code, type, notNull, constant, undef, multi, firstOfMany, raw⟩ := o
  have hrefused : Linear fun _ => .error (.incompatible type (some .file)) := .error _
  rcases type with _ | (k | n | ⟨s, e⟩ | e)
  · exact hrefused
  · cases k with
    | file => exact .ok .id
    | box =>
      cases notNull with
      | false => exact .ok (.helper _ .id)
      | true => exact .ok (.behind .id _)
    | boolean | integer | long | float | double | string | number => exact hrefused
  · exact hrefused
  · exact hrefused
  · exact hrefused

theorem toScalar_linear (h : o.constant = false) (k : Kind) :
    Linear fun code => toScalar (o.withCode code) k := by
  cases k with
  | boolean => exact .ok (toBoolean_wraps h)
  | integer | long | float | double => exact .ok (toNumeric_wraps h _)
  | string => exact .ok (toText_wraps h)
  | box => exact .ok (toBox_wraps o)
  | number => exact toNumber_linear o
  | file => exact toFile_linear o

/-! ## References -/

/-- The operand, which is no literal, has code with one hole, and nothing else of it depends on what
is in the hole. -/
def Holds (operand : String → Operand) : Prop :=
  ∃ (r : Operand) (g : String → String), r.constant = false ∧ Wraps g ∧
    ∀ code, operand code = r.withCode (g code)

theorem Holds.withCode (h : o.constant = false) : Holds o.withCode :=
  ⟨o, fun code => code, h, .id, fun _ => rfl⟩

/-- What an operand refers to. -/
theorem referent_holds (o : Operand) : Holds fun code => (o.withCode code).referent := by
  rcases hraw : o.raw with _ | _
  · refine ⟨.plain "" o.elemType, fun code => code ++ ".get()", rfl, .behind .id _, fun code => ?_⟩
    simp [Operand.referent, Operand.withCode, Operand.plain, Operand.elemType, hraw]
  · refine ⟨{ code := "", type := o.elemType, notNull := o.notNull }, fun code => code, rfl, .id,
      fun code => ?_⟩
    simp [Operand.referent, Operand.withCode, Operand.elemType, hraw]

/-- What an operand refers to through all references. -/
theorem followRefs_holds (t : Ty) : ∀ {o : Operand}, o.constant = false →
    Holds fun code => followRefs t (o.withCode code) := by
  induction t with
  | ref e ih =>
    intro o _
    -- the code of what is referred to wraps the code of the reference, and so on inwards
    obtain ⟨r, g, hr, hg, heq⟩ := referent_holds o
    obtain ⟨r', g', hr', hg', heq'⟩ := ih hr
    refine ⟨r', fun code => g' (g code), hr', hg'.comp hg, fun code => ?_⟩
    simp only [followRefs, heq, heq']
  | scalar k =>
    intro o ho
    exact .withCode ho
  | object n =>
    intro o ho
    exact .withCode ho
  | agg s e =>
    intro o ho
    exact .withCode ho

/-! ## Containers -/

/-- The loop over the elements is written once for all code. -/
theorem elementwise_linear (conv : Operand → Except Fault String) (depth : Nat) (s : Shape)
    (selem : Ty) (d : Shape) (delem : Ty) :
    Linear fun code => elementwise conv code depth s selem d delem := by
  unfold elementwise
  dsimp only
  split
  · cases mapLoop conv (loopNames depth) selem d with
    | error f => exact .error f
    | ok lines => exact .ok (.castTo _ (.call _ _ .id _))
  · cases sequenceLoop conv (loopNames depth) s selem d with
    | error f => exact .error f
    | ok lines => exact .ok (.castTo _ (.call _ _ .id _))

theorem aggregateTo_linear (conv : Operand → Except Fault String) (depth : Nat) (s : Shape)
    (selem : Ty) (d : Shape) (delem : Ty) :
    Linear fun code => aggregateTo conv code depth s selem d delem := by
  unfold aggregateTo
  dsimp only
  split
  · exact .ok .id
  · split
    · -- between a list and an array of the same elements there is no loop
      split
      · exact .ok (.behind (.behind (.behind .id _) _) _)
      · exact .ok (.behind (.before _ .id) _)
    · split
      · cases d with
        | list | map => exact .ok (.castTo _ (.before _ .id))
        | array => exact .ok (.castTo _ .id)
      · exact elementwise_linear conv depth s selem d delem

/-! ## All types -/

/-- The conversion of an operand whose code has one hole. -/
theorem Holds.linear {operand : String → Operand} (h : Holds operand)
    (conv : Operand → Except Fault String) (hconv : ∀ {r : Operand}, r.constant = false →
      Linear fun code => conv (r.withCode code)) : Linear fun code => conv (operand code) := by
  obtain ⟨r, g, hr, hg, heq⟩ := h
  simp only [heq]
  exact (hconv hr).comp hg

/-- A value as a container: through its references, and from a dynamic value or a container. -/
theorem containerTo_linear (conv : Operand → Except Fault String) {operand : String → Operand}
    (h : Holds operand) (depth : Nat) (s : Shape) (d : Ty) :
    Linear fun code => match (operand code).type with
      | some (.scalar .box) =>
        .ok (Java.castTo (some (.ref (.agg s d))) (helper "toRef" (operand code).code) ++ ".get()")
      | some (.agg s' e) => aggregateTo conv (operand code).code depth s' e s d
      | t => .error (.incompatible t (some (.agg s d))) := by
  obtain ⟨r, g, hr, hg, heq⟩ := h
  simp only [heq]
  -- which operand is converted is settled, and only its code is left open
  show Linear fun code => match r.type with
    | some (.scalar .box) =>
      .ok (Java.castTo (some (.ref (.agg s d))) (helper "toRef" (g code)) ++ ".get()")
    | some (.agg s' e) => aggregateTo conv (g code) depth s' e s d
    | t => .error (.incompatible t (some (.agg s d)))
  split
  · exact .ok (.behind (.castTo _ (.helper _ hg)) _)
  · exact (aggregateTo_linear conv depth _ _ s d).comp hg
  · exact .error _

/-- A value as a reference: its own cell, or a new one around what it refers to. -/
theorem refTo_linear (d : Ty) (depth : Nat)
    (hinner : Linear fun code => convertTo d (o.withCode code).referent depth) :
    Linear fun code => convertTo (.ref d) (o.withCode code) depth := by
  have hcell := cellCode_wraps o
  obtain ⟨code, type, notNull, constant, undef, multi, firstOfMany, raw⟩ := o
  have hrefused : Linear fun _ => .error (.incompatible type (some (.ref d))) := .error _
  rcases type with _ | (k | n | ⟨s, e⟩ | e)
  · exact hrefused
  · cases k with
    | box =>
      cases notNull with
      | false => exact .ok (.castTo _ (.helper _ .id))
      | true => exact .ok (.castTo _ (.behind .id _))
    | boolean | integer | long | float | double | string | number | file => exact hrefused
  · exact hrefused
  · exact hrefused
  · -- a reference to another type is made anew, around the value that is converted
    simp only [convertTo, Operand.withCode]
    split
    · exact .ok hcell
    · exact hinner.map (.newRef _ .id) _

/-- The container that an operand holds or refers to. -/
theorem source_holds (h : o.constant = false) :
    Holds fun code => match o.type with
      | some t => followRefs t (o.withCode code)
      | none => o.withCode code := by
  split
  · exact followRefs_holds _ h
  · exact .withCode h

/-- The conversion to a type, by induction on the type. -/
theorem convertTo_linear (dest : Ty) : ∀ {o : Operand} (depth : Nat), o.constant = false →
    Linear fun code => convertTo dest (o.withCode code) depth := by
  induction dest with
  | scalar k =>
    intro o depth ho
    exact toScalar_linear ho k
  | object n =>
    intro o depth ho
    show Linear fun code => if o.type = some (.object n) then .ok code
      else .error (.incompatible o.type (some (.object n)))
    split
    · exact .ok .id
    · exact .error _
  | ref d ih =>
    intro o depth ho
    exact refTo_linear d depth ((referent_holds o).linear (convertTo d · depth) (ih depth))
  | agg s d ih =>
    intro o depth ho
    -- the loops over the elements are named by depth, not by the code they run over
    have hresult := containerTo_linear (convertTo d · (depth + 1)) (source_holds ho) depth s d
    exact hresult.map .id fun f => if o.isRef then .incompatible o.type (some (.agg s d)) else f

/-- The one value that counts of a row of values is read by a helper. -/
theorem reduce_eq (o : Operand) (code : String) :
    (o.withCode code).reduce = (Operand.ofElement "" o.elemType).withCode
      (Java.call "Pd" (if o.firstOfMany then "first" else "last") [code]) := by
  unfold Operand.reduce Operand.ofElement
  show (if o.elemType.any Ty.isAggregate then _ else _ : Operand) = _
  split
  · rfl
  · rfl

/-- An operand that is one value, and neither a literal nor undefined. -/
theorem convertOne_linear (hc : o.constant = false) (hu : o.undef = false) (dest : Option Ty) :
    Linear fun code =>
      if (o.withCode code).undef then .ok (if dest.any Ty.isBoolean then "false" else "null")
      else match dest with
        | some t => convertTo t (o.withCode code) 0
        | none => .error (.incompatible (o.withCode code).type none) := by
  -- a change of the code leaves the definedness and the type
  show Linear fun code =>
    if o.undef then .ok (if dest.any Ty.isBoolean then "false" else "null")
    else match dest with
      | some t => convertTo t (o.withCode code) 0
      | none => .error (.incompatible o.type none)
  simp only [hu, Bool.false_eq_true, if_false]
  cases dest with
  | none => exact .error _
  | some t => exact convertTo_linear t 0 hc

theorem convert_linear (hc : o.constant = false) (hu : o.undef = false) (dest : Option Ty) :
    Linear fun code => convert (o.withCode code) dest := by
  unfold convert
  show Linear fun code =>
    let one := if o.multi && !dest.any Ty.isAggregate then (o.withCode code).reduce
      else o.withCode code
    if one.undef then .ok (if dest.any Ty.isBoolean then "false" else "null")
    else match dest with
      | some t => convertTo t one 0
      | none => .error (.incompatible one.type none)
  split
  · -- the value that counts is read by a helper, which is part of the context
    simp only [reduce_eq]
    have hone : (Operand.ofElement "" o.elemType).constant = false ∧
        (Operand.ofElement "" o.elemType).undef = false := by
      unfold Operand.ofElement
      split
      · exact ⟨rfl, rfl⟩
      · exact ⟨rfl, rfl⟩
    exact (convertOne_linear hone.1 hone.2 dest).comp (.call _ _ .id _)
  · exact convertOne_linear hc hu dest

/-- A defined operand is converted first, and its text may be checked then. -/
theorem convertNonNull_withCode (nullChecks : Bool) (hu : o.undef = false) (dest : Option Ty)
    (code : String) : convertNonNull nullChecks (o.withCode code) dest = (do
      let text ← convert (o.withCode code) dest
      if nullChecks && !o.notNull && !o.constant &&
          (dest.any Ty.isNumeric || dest.any Ty.isString) then
        return Java.call "Pd" "checkNull" [text]
      else return text) := by
  have hundef : (o.withCode code).undef = false := hu
  simp only [convertNonNull, hundef, Bool.false_eq_true, if_false]
  rfl

theorem convertNonNull_linear (nullChecks : Bool) (hc : o.constant = false) (hu : o.undef = false)
    (dest : Option Ty) : Linear fun code => convertNonNull nullChecks (o.withCode code) dest := by
  have hconvert := convert_linear hc hu dest
  simp only [convertNonNull_withCode nullChecks hu dest]
  split
  · exact hconvert.andThen (.call _ _ .id _)
  · exact hconvert.andThen .id

/-! ## Literals -/

variable {t : Ty}

/-- Only of a scalar it makes a difference that it is a literal. -/
theorem convertTo_constant (htype : o.type = some t) (ht : t.kind? = none) (dest : Ty)
    (depth : Nat) (b : Bool) :
    convertTo dest { o with constant := b } depth = convertTo dest o depth := by
  obtain ⟨code, type, notNull, constant, undef, multi, firstOfMany, raw⟩ := o
  cases htype
  -- that an operand is a constant matters to scalars only
  cases dest with
  | scalar k =>
    cases t with
    | scalar k' => cases ht
    | object n => cases k <;> rfl
    | agg s e => cases k <;> rfl
    | ref e => cases k <;> rfl
  | object n => rfl
  | ref d => rfl
  | agg s d =>
    cases t with
    | scalar k' => cases ht
    | object n => rfl
    | agg s e => rfl
    | ref e => rfl

/-- A value that is no scalar is converted around its code. -/
theorem nonScalar_linear (htype : o.type = some t) (ht : t.kind? = none) (dest : Ty)
    (depth : Nat) : Linear fun code => convertTo dest (o.withCode code) depth := by
  have hlinear := convertTo_linear dest (o := { o with constant := false }) depth rfl
  have hconstant (code : String) : convertTo dest ({ o with constant := false }.withCode code) depth =
      convertTo dest (o.withCode code) depth :=
    convertTo_constant (o := o.withCode code) htype ht dest depth false
  simpa only [hconstant] using hlinear

/-- One value that is neither undefined nor a row is converted itself. -/
theorem convert_value (hu : o.undef = false) (hm : o.multi = false) (dest : Ty) :
    convert o (some dest) = convertTo dest o 0 := by
  simp [convert, hu, hm]

/-- A scalar or an object is a value of its own type as it is. -/
theorem convertTo_own (htype : o.type = some t) (ht : t.isSimple = true) (depth : Nat) :
    convertTo t o depth = .ok o.code := by
  cases t with
  | scalar k =>
    cases k <;> simp [convertTo, toScalar, toNumeric, toBoolean, toText, toBox, toNumber, toFile,
      htype]
  | object n => simp [convertTo, htype]
  | agg s e => cases ht
  | ref e => cases ht

/-- A value that is no container is converted for a row of its own type around its code. -/
theorem ownElement_linear (htype : o.type = some t) (ht : t.isAggregate = false)
    (hu : o.undef = false) (hm : o.multi = false) :
    Linear fun code => convert (o.withCode code) (some t.unref) := by
  have hvalue (code : String) (d : Ty) :
      convert (o.withCode code) (some d) = convertTo d (o.withCode code) 0 :=
    convert_value (o := o.withCode code) hu hm d
  simp only [hvalue]
  -- a scalar and an object are given as they are, a reference gives what it refers to
  cases t with
  | scalar k =>
    have hown (code : String) : convertTo (.scalar k) (o.withCode code) 0 = .ok code :=
      convertTo_own (o := o.withCode code) htype rfl 0
    simpa only [Ty.unref, hown] using Linear.ok .id
  | object n =>
    have hown (code : String) : convertTo (.object n) (o.withCode code) 0 = .ok code :=
      convertTo_own (o := o.withCode code) htype rfl 0
    simpa only [Ty.unref, hown] using Linear.ok .id
  | agg s e => cases ht
  | ref e => exact nonScalar_linear htype rfl e 0

/-! ## All operands -/

/-- A conversion of an operand that is neither a literal nor undefined puts its code into a context
that does not depend on the code, or it is refused whatever the code. -/
theorem conversion_evaluates_once (o : Operand) (hc : o.constant = false) (hu : o.undef = false)
    (nullChecks : Bool) (dest : Option Ty) :
    (Linear fun code => convert { o with code := code } dest) ∧
      Linear fun code => convertNonNull nullChecks { o with code := code } dest :=
  ⟨convert_linear hc hu dest, convertNonNull_linear nullChecks hc hu dest⟩

/-- A list of maps is converted by two nested loops around one occurrence of its code. -/
theorem nested_conversion_evaluates_once :
    ∃ pre post, ∀ code,
      convert { code := code, type := some (.agg .list (.agg .map .string)) }
        (some (.agg .array (.agg .map .integer))) = .ok (pre ++ code ++ post) := by
  obtain ⟨hconvert, -⟩ := conversion_evaluates_once
    { code := "", type := some (.agg .list (.agg .map .string)) } rfl rfl false
    (some (.agg .array (.agg .map .integer)))
  have haccepted : (convert { code := "", type := some (.agg .list (.agg .map .string)) }
      (some (.agg .array (.agg .map .integer)))).isOk = true := by decide +kernel
  rcases hconvert with hcontext | ⟨refusal, hrefused⟩
  · exact hcontext
  · rw [show convert _ _ = .error refusal from hrefused ""] at haccepted
    cases haccepted

end Conversion

end TypedPerl
