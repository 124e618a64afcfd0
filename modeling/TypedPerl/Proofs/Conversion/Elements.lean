import TypedPerl.Proofs.Conversion.Linear
import TypedPerl.Proofs.Conversion.Convertible

/-!
# Elements in a loop and elements that are read

An access reads a container among the elements as a reference to it. The loop that converts a
container element by element takes it as the container itself. For elements that become containers
both give the same code. For all others they never do, unless both refuse: a container becomes its
size, and a reference keeps it.

The loop is one context around the text of an element (`elementwise_around`), so that two ways to
convert an element give the same loop exactly if they give the same text.
-/

namespace TypedPerl

/-- The operand as an access reads it: a container is a reference to itself. -/
def Operand.accessed (o : Operand) : Operand :=
  if o.isAggregate then .ofElement o.code o.type else o

/-- An element as an access reads it. -/
theorem Operand.accessed_plain (code : String) (elem : Option Ty) :
    (Operand.plain code elem).accessed = .ofElement code elem := by
  rcases elem with _ | (k | n | ⟨s, e⟩ | e)
  · rfl
  · rfl
  · rfl
  · rfl
  · rfl

namespace Wraps

variable {g : String → String}

/-- The code in a context is known from the text. -/
theorem injective (hg : Wraps g) : Function.Injective g := by
  obtain ⟨pre, post, hg⟩ := hg
  intro a b hab
  simpa [hg, String.append_assoc] using hab

/-- The last of two arguments. -/
theorem secondArgument (cls method first : String) (hg : Wraps g) :
    Wraps fun code => Java.call cls method [first, g code] := by
  have hargs : Wraps fun code => Text.join ", " [first, g code] := by
    simp only [Text.join, String.intercalate_cons_cons, String.intercalate_singleton]
    exact hg.before _
  exact (hargs.before (cls ++ "." ++ method ++ "(")).behind ")"

end Wraps

namespace Conversion

theorem toOption_eq_none_iff {α : Type} {x : Except Fault α} :
    x.toOption = none ↔ ¬Succeeds x := by
  cases x with
  | error f => exact iff_of_true rfl (Succeeds.not_error f)
  | ok a => exact iff_of_false nofun fun h => h (.ok a)

/-! ## One element -/

theorem helper_injective (fn : String) : Function.Injective (helper fn) :=
  (Wraps.helper fn .id).injective

/-- A call of a helper is not in parentheses. -/
theorem helper_ne_paren (fn x y : String) : helper fn x ≠ Java.paren y := by
  intro h
  have hfirst := congrArg (fun text => text.toList.head?) h
  simp [helper, Java.call, Java.paren] at hfirst

/-- A call of a helper is not a new cell. -/
theorem helper_ne_newRef (fn x : String) (t : Ty) (y : String) : helper fn x ≠ Java.newRef t y := by
  intro h
  have hfirst := congrArg (fun text => text.toList.head?) h
  simp [helper, Java.call, Java.newRef] at hfirst

/-- A container of which no more is known becomes a scalar by a call of a helper. -/
theorem toScalar_container {k : Kind} (hfile : k ≠ .file) (code : String) (s : Shape) (e : Ty) :
    ∃ fn x, toScalar (.plain code (some (.agg s e))) k = .ok (helper fn x) := by
  cases k with
  | boolean => exact ⟨"toBoolean", code, rfl⟩
  | integer | long | float | double => exact ⟨numericHelper _, code, rfl⟩
  | string => exact ⟨"toString", helper "toInteger" code, rfl⟩
  | box => exact ⟨"box", helper "toInteger" code, rfl⟩
  | number => exact ⟨"toInteger", code, rfl⟩
  | file => exact absurd rfl hfile

/-- A reference becomes a scalar other than a dynamic value by a test, in parentheses. -/
theorem toScalar_ref {o : Operand} {e : Ty} (ho : o.type = some (.ref e)) {k : Kind}
    (hfile : k ≠ .file) (hbox : k ≠ .box) :
    ∃ test, toScalar o k = .ok (Java.paren test) := by
  cases k with
  | boolean => exact ⟨_, by rw [toScalar, toBoolean, ho]⟩
  | integer | long | float | double => exact ⟨_, by rw [toScalar, toNumeric, ho]⟩
  | string => exact ⟨_, by rw [toScalar, toText, ho]⟩
  | number => exact ⟨_, by rw [toScalar, toNumber, ho]⟩
  | box => exact absurd rfl hbox
  | file => exact absurd rfl hfile

/-- As a scalar a container is its size, and a reference to it is not. -/
theorem toScalar_container_ne {k : Kind} (hfile : k ≠ .file) (code : String) (s : Shape) (e : Ty) :
    (toScalar (.plain code (some (.agg s e))) k).toOption ≠
      (toScalar (.ofElement code (some (.agg s e))) k).toOption := by
  -- a box is filled with the size in one case and with a cell in the other
  by_cases hbox : k = .box
  · subst hbox
    have hsize : toScalar (.plain code (some (.agg s e))) .box =
        .ok (helper "box" (helper "toInteger" code)) := rfl
    have hcell : toScalar (.ofElement code (some (.agg s e))) .box =
        .ok (helper "box" (Java.newRef (.agg s e) code)) := rfl
    rw [hsize, hcell]
    exact fun h => helper_ne_newRef _ _ _ _ (helper_injective _ (Option.some.inj h))
  · obtain ⟨fn, x, hsize⟩ := toScalar_container hfile code s e
    obtain ⟨test, htest⟩ := toScalar_ref (o := .ofElement code (some (.agg s e))) rfl hfile hbox
    rw [hsize, htest]
    exact fun h => helper_ne_paren _ _ _ (Option.some.inj h)

/-- As a container, a container and a reference to it are the same. -/
theorem convertTo_container_eq (code : String) (s d : Shape) (e f : Ty) (depth : Nat) :
    (convertTo (.agg d f) (.plain code (some (.agg s e))) depth).toOption =
      (convertTo (.agg d f) (.ofElement code (some (.agg s e))) depth).toOption := by
  have htype : (Operand.ofElement code (some (.agg s e))).type = some (.ref (.agg s e)) := rfl
  have hreferent : (Operand.ofElement code (some (.agg s e))).referent =
      .plain code (some (.agg s e)) := rfl
  simp only [convertTo, htype, followRefs, hreferent, Operand.plain]
  -- both are refused for the same container, in other words
  cases aggregateTo (fun x => convertTo f x (depth + 1)) code depth s e d f with
  | ok text => rfl
  | error refusal => rfl

/-- An element converts as it is read, if it is no container, or becomes one, or can never become
what is wanted; and only then. -/
theorem element_as_accessed_iff (e f : Ty) (code : String) (depth : Nat) :
    (convertTo f (.plain code (some e)) depth).toOption =
        (convertTo f (.ofElement code (some e)) depth).toOption ↔
      e.isAggregate = false ∨ f.isAggregate = true ∨ ¬Convertible (.ref e) f := by
  cases e with
  | scalar | object | ref => exact iff_of_true rfl (.inl rfl)
  | agg s e =>
    cases f with
    | scalar k =>
      by_cases hfile : k = .file
      · subst hfile
        refine iff_of_true rfl (.inr (.inr fun h => ?_))
        simpa using Convertible.file_iff.mp h
      · refine iff_of_false (toScalar_container_ne hfile code s e) ?_
        rintro (h | h | h)
        · cases h
        · cases h
        · exact h (.scalar hfile)
    | object name =>
      refine iff_of_true ?_ (.inr (.inr fun h => ?_))
      · simp [convertTo, Operand.plain, Operand.ofElement, Ty.isAggregate, Ty.refTo,
          Except.toOption]
      · cases Convertible.object_iff.mp h
    | ref d =>
      -- a container is no reference
      have hrefused : (convertTo (.ref d) (.plain code (some (.agg s e))) depth).toOption = none :=
        rfl
      have hread : Succeeds (convertTo (.ref d) (.ofElement code (some (.agg s e))) depth) ↔
          Convertible (.ref (.agg s e)) (.ref d) := convertTo_succeeds_iff _ _ depth
      rw [hrefused, eq_comm, toOption_eq_none_iff, hread]
      simp [Ty.isAggregate]
    | agg d f => exact iff_of_true (convertTo_container_eq code s d e f depth) (.inr (.inl rfl))

/-! ## All elements -/

/-- The element that the loop at a depth reads for a value of the new container. -/
def loopElement (depth : Nat) (s : Shape) (e : Ty) (d : Shape) : Operand :=
  let n := loopNames depth
  let code := match s, d with
    | .map, _ => n.ent ++ ".getValue()"
    | s, .map => elementAt s n.col (n.idx ++ " + 1")
    | s, _ => elementAt s n.col n.idx
  .plain code (some e)

/-- The key that the loop at a depth reads from a map. -/
def loopKey (depth : Nat) : Operand :=
  .nonNull ((loopNames depth).ent ++ ".getKey()") (some .string)

/-- The text of the key, where keys become elements. -/
def keyText (conv : Operand → Except Fault String) (depth : Nat) (s d : Shape) :
    Except Fault String :=
  if s = .map ∧ d ≠ .map then conv (loopKey depth) else .ok ""

/-- A loop is one context around the text of an element. The context may hold the text of a key. -/
def AroundElement (depth : Nat) (s : Shape) (e : Ty) (d : Shape)
    (loop : (Operand → Except Fault String) → Except Fault String) : Prop :=
  ∃ around : String → String → String, (∀ key, Wraps (around key)) ∧ ∀ conv,
    loop conv = conv (loopElement depth s e d) >>= fun value =>
      keyText conv depth s d >>= fun key => pure (around key value)

namespace AroundElement

variable {depth : Nat} {s d : Shape} {e : Ty}
  {loop : (Operand → Except Fault String) → Except Fault String} {g : String → String}

/-- Where no keys become elements there is nothing but the element. -/
theorem keyless (hkey : ¬(s = .map ∧ d ≠ .map)) (hg : Wraps g)
    (hloop : ∀ conv, loop conv = conv (loopElement depth s e d) >>= fun value => pure (g value)) :
    AroundElement depth s e d loop := by
  refine ⟨fun _ => g, fun _ => hg, fun conv => (hloop conv).trans ?_⟩
  rw [keyText, if_neg hkey]
  rfl

/-- A loop in a context. -/
theorem inside (hloop : AroundElement depth s e d loop) (hg : Wraps g) :
    AroundElement depth s e d fun conv => loop conv >>= fun text => pure (g text) := by
  obtain ⟨around, haround, hloop⟩ := hloop
  refine ⟨fun key value => g (around key value), fun key => hg.comp (haround key), fun conv => ?_⟩
  simp only [hloop, bind_assoc, pure_bind]

/-- Two ways to convert the element that agree on the keys give the same loop exactly if they give
the same text of the element, or there is no text for a key. -/
theorem toOption_eq_iff (hloop : AroundElement depth s e d loop)
    {conv conv' : Operand → Except Fault String}
    (hkey : keyText conv' depth s d = keyText conv depth s d) :
    (loop conv).toOption = (loop conv').toOption ↔
      (conv (loopElement depth s e d)).toOption = (conv' (loopElement depth s e d)).toOption ∨
        ¬Succeeds (keyText conv depth s d) := by
  obtain ⟨around, haround, hloop⟩ := hloop
  rw [hloop, hloop, hkey]
  generalize conv (loopElement depth s e d) = value
  generalize conv' (loopElement depth s e d) = value'
  -- a refused key refuses both loops, and with it they differ only in the value
  cases keyText conv depth s d with
  | error refusal =>
    refine iff_of_true ?_ (.inr (Succeeds.not_error refusal))
    cases value <;> cases value' <;> rfl
  | ok key =>
    refine Iff.trans ?_ (or_iff_left fun h => h (.ok key)).symm
    cases value with
    | error refusal =>
      cases value' with
      | error refusal' => exact iff_of_true rfl rfl
      | ok text' => exact iff_of_false nofun nofun
    | ok text =>
      cases value' with
      | error refusal' => exact iff_of_false nofun nofun
      | ok text' =>
        show some (around key text) = some (around key text') ↔ some text = some text'
        rw [Option.some_inj, Option.some_inj, (haround key).injective.eq_iff]

end AroundElement

/-- The loop over a map. -/
theorem mapLoop_around (depth : Nat) (e : Ty) (d : Shape) :
    AroundElement depth .map e d fun conv => mapLoop conv (loopNames depth) e d := by
  -- the text around is read off the loop, so that it is not written here once more
  cases d with
  | map =>
    refine .keyless (by simp) ?_ fun conv => bind_congr fun value => rfl
    exact .behind (.before _ (.behind (.before _ .id) _)) _
  | array | list =>
    refine ⟨_, fun key => ?_, fun conv => bind_congr fun value => bind_congr fun key => rfl⟩
    exact .behind (.before _ (.behind (.before _ .id) _)) _

/-- The loop over a sequence. The key of a new map is the text of an element itself. -/
theorem sequenceLoop_around (depth : Nat) {s : Shape} (hs : s ≠ .map) (e : Ty) (d : Shape) :
    AroundElement depth s e d fun conv => sequenceLoop conv (loopNames depth) s e d := by
  have hkey : ¬(s = .map ∧ d ≠ .map) := fun h => hs h.1
  cases s with
  | map => exact absurd rfl hs
  | array | list =>
    cases d with
    | map | array | list =>
      refine .keyless hkey ?_ fun conv => bind_congr fun value => rfl
      exact .behind (.before _ .id) _

/-- The lambda of a container conversion. -/
theorem elementwise_around (code : String) (depth : Nat) (s : Shape) (e : Ty) (d : Shape) (f : Ty) :
    AroundElement depth s e d fun conv => elementwise conv code depth s e d f := by
  unfold elementwise
  dsimp only
  split
  · rename_i hmap
    subst hmap
    refine (mapLoop_around depth e d).inside ?_
    exact .castTo _ (.secondArgument _ _ _ (.behind (.behind (.behind (.before _ .id) _) _) _))
  · rename_i hs
    refine (sequenceLoop_around depth hs e d).inside ?_
    exact .castTo _ (.secondArgument _ _ _ (.behind (.behind (.behind (.before _ .id) _) _) _))

/-! ## Loops -/

/-- The loop with elements as an access reads them. -/
def accessedLoop (code : String) (depth : Nat) (s : Shape) (e : Ty) (d : Shape) (f : Ty) :
    Except Fault String :=
  elementwise (fun x => convertTo f x.accessed (depth + 1)) code depth s e d f

/-- No way around the loop is open to the containers. -/
def ReachesLoop (s : Shape) (e : Ty) (d : Shape) (f : Ty) : Prop :=
  Ty.agg s e ≠ .agg d f ∧
  ¬(s.isSequence ∧ d.isSequence ∧ s ≠ d ∧ e = f) ∧
  ¬(s = d ∧ e.terminal.isNumeric ∧ Ty.agg s (e.withTerminal .number) = .agg d f)

instance (s : Shape) (e : Ty) (d : Shape) (f : Ty) : Decidable (ReachesLoop s e d f) :=
  inferInstanceAs (Decidable (_ ∧ _ ∧ _))

theorem aggregateTo_of_reachesLoop {s d : Shape} {e f : Ty} (h : ReachesLoop s e d f)
    (conv : Operand → Except Fault String) (code : String) (depth : Nat) :
    aggregateTo conv code depth s e d f = elementwise conv code depth s e d f := by
  obtain ⟨hsame, hwrap, hview⟩ := h
  unfold aggregateTo
  dsimp only
  rw [if_neg hsame, if_neg, if_neg]
  · simpa [Ty.terminal, Ty.withTerminal] using hview
  · simpa using hwrap

/-- The conversion of a container that reaches the loop is the loop. -/
theorem convertTo_of_reachesLoop {o : Operand} {s d : Shape} {e f : Ty}
    (ho : o.type = some (.agg s e)) (hloop : ReachesLoop s e d f) (depth : Nat) :
    convertTo (.agg d f) o depth =
      elementwise (fun x => convertTo f x (depth + 1)) o.code depth s e d f := by
  have hnoRef : o.isRef = false := by
    rw [Operand.isRef, ho]
    rfl
  simp only [convertTo, ho, followRefs, aggregateTo_of_reachesLoop hloop, hnoRef]
  cases elementwise (fun x => convertTo f x (depth + 1)) o.code depth s e d f with
  | ok text => rfl
  | error refusal => rfl

theorem keyText_succeeds_iff (f : Ty) (depth : Nat) (s d : Shape) :
    Succeeds (keyText (fun x => convertTo f x (depth + 1)) depth s d) ↔
      (s = .map → d ≠ .map → Convertible .string f) := by
  unfold keyText
  split
  · rename_i h
    exact (convertTo_succeeds_iff f _ _).trans ⟨fun hkey _ _ => hkey, fun hkey => hkey h.1 h.2⟩
  · rename_i h
    exact iff_of_true (.ok _) fun hs hd => absurd ⟨hs, hd⟩ h

/-- The loop converts elements as they are read, if they are no containers, or become containers,
or can never become what is wanted; and only then. -/
theorem elementwise_as_accessed_iff (code : String) (depth : Nat) (s : Shape) (e : Ty) (d : Shape)
    (f : Ty) :
    (elementwise (fun x => convertTo f x (depth + 1)) code depth s e d f).toOption =
        (accessedLoop code depth s e d f).toOption ↔
      e.isAggregate = false ∨ f.isAggregate = true ∨
        ¬Convertible (.agg s (.ref e)) (.agg d f) := by
  -- keys are texts, and read as they are
  have hkey : keyText (fun x => convertTo f x.accessed (depth + 1)) depth s d =
      keyText (fun x => convertTo f x (depth + 1)) depth s d := rfl
  have hread : (loopElement depth s e d).accessed =
      .ofElement (loopElement depth s e d).code (some e) := Operand.accessed_plain _ _
  refine ((elementwise_around code depth s e d f).toOption_eq_iff hkey).trans ?_
  rw [hread, keyText_succeeds_iff, Convertible.agg_iff]
  refine (or_congr_left (element_as_accessed_iff e f _ (depth + 1))).trans ?_
  rw [Classical.not_and_iff_not_or_not, or_assoc, or_assoc]

/-- A container conversion that reaches the loop converts the elements as they are read, if they are
no containers, or become containers, or can never become what is wanted; and only then. -/
theorem loop_as_accessed_iff {o : Operand} {s d : Shape} {e f : Ty} (ho : o.type = some (.agg s e))
    (hloop : ReachesLoop s e d f) (depth : Nat) :
    (convertTo (.agg d f) o depth).toOption = (accessedLoop o.code depth s e d f).toOption ↔
      e.isAggregate = false ∨ f.isAggregate = true ∨
        ¬Convertible (.agg s (.ref e)) (.agg d f) := by
  rw [convertTo_of_reachesLoop ho hloop]
  exact elementwise_as_accessed_iff o.code depth s e d f

/-- A list of arrays of numbers. -/
def rowList : Operand := .nonNull "rows" (some (.agg .list (.agg .array .integer)))

/-- A list of arrays becomes an array of lists by a loop in a loop, with its elements as they are
read. -/
theorem rowList_as_accessed : ∃ text,
    convertTo (.agg .array (.agg .list .string)) rowList 0 = .ok text ∧
      accessedLoop rowList.code 0 .list (.agg .array .integer) .array (.agg .list .string) =
        .ok text := by
  have hsame := (loop_as_accessed_iff (o := rowList) (s := .list) (d := .array)
    (e := .agg .array .integer) (f := .agg .list .string) rfl (by decide) 0).mpr (.inr (.inl rfl))
  have hrows : Convertible (.agg .list (.agg .array .integer)) (.agg .array (.agg .list .string)) :=
    .agg (.agg (.scalar (by decide)) nofun) nofun
  obtain ⟨text, htext⟩ := (convertTo_succeeds_iff _ rowList 0).mpr hrows
  refine ⟨text, htext, ?_⟩
  -- the loop succeeds, so the other succeeds with the same text
  rw [htext] at hsame
  cases hread : accessedLoop rowList.code 0 .list (.agg .array .integer) .array
      (.agg .list .string) with
  | error refusal =>
    rw [hread] at hsame
    cases hsame
  | ok read =>
    rw [hread] at hsame
    exact congrArg Except.ok (Option.some.inj hsame).symm

/-- An array of arrays. -/
def rows : Operand := .nonNull "a" (some (.agg .array (.agg .array .integer)))

/-- As dynamic values the arrays in an array are their lengths, where the elements that are read are
references to them. -/
theorem rows_as_lengths : ReachesLoop .array (.agg .array .integer) .array .box ∧
    ∃ pre post,
      convertTo (.agg .array .box) rows 0 =
        .ok (pre ++ "Casting.box(Casting.toInteger(pd_col0[pd_i0]))" ++ post) ∧
      accessedLoop rows.code 0 .array (.agg .array .integer) .array .box =
        .ok (pre ++ "Casting.box(new Ref<Integer[]>(pd_col0[pd_i0]))" ++ post) := by
  have hreaches : ReachesLoop .array (.agg .array .integer) .array .box := by decide
  obtain ⟨around, haround, hloop⟩ :=
    elementwise_around rows.code 0 .array (.agg .array .integer) .array .box
  obtain ⟨pre, post, hcontext⟩ := haround ""
  dsimp only at hloop
  -- as an operand the row gives its length, and as an element the cell that holds it
  have hsize : convertTo .box (loopElement 0 .array (.agg .array .integer) .array) 1 =
      .ok "Casting.box(Casting.toInteger(pd_col0[pd_i0]))" :=
    congrArg Except.ok (by decide +kernel)
  have hcell : convertTo .box (loopElement 0 .array (.agg .array .integer) .array).accessed 1 =
      .ok "Casting.box(new Ref<Integer[]>(pd_col0[pd_i0]))" :=
    congrArg Except.ok (by decide +kernel)
  refine ⟨hreaches, pre, post, ?_, ?_⟩
  · rw [convertTo_of_reachesLoop rfl hreaches, hloop, hsize, ← hcontext]
    rfl
  · rw [accessedLoop, hloop, hcell, ← hcontext]
    rfl

end Conversion

end TypedPerl
