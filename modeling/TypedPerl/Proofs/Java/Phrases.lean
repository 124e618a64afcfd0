import TypedPerl.Access
import TypedPerl.Proofs.Conversion.LoopScopes

/-!
# Texts of expressions

A `Phrase` is a text that is put together as expressions are: from atoms, from pieces of text that
hold no type and set no two words beside each other, from literals, and from conversions of other
phrases. A type stands in a phrase only in a cast, behind `new` or in the literal of a class, so
that no phrase is a declaration: that is a type, a blank and a name. What conversions, containers and
accesses make of phrases are phrases again.
-/

namespace TypedPerl

namespace Java

/-! ## Phrases -/

/-- The characters of a piece of an expression: each blank stands beside a sign, and no type
arguments and no end of a statement stand in it. -/
def jointChars (cs : List Char) : Bool :=
  Conversion.spaced none cs && !cs.any ['<', '>', ';', '\n'].contains

/-- The operators that stand between two values. -/
def operators : List String :=
  ["+", "-", "*", "/", "%", "&", "|", "^", "<<", ">>", "==", "!=", "<", ">", "<=", ">=", "&&", "||"]

/-- The text of an expression in which the texts of `A` stand as they are. -/
inductive Phrase (A : String → Prop) : String → Prop where
  /-- A text that is left as it is. -/
  | atom {s} (h : A s) : Phrase A s
  /-- A piece of text without words beside each other. -/
  | piece {cs} (h : jointChars cs = true) : Phrase A (String.ofList cs)
  /-- An operator between two values. -/
  | operator {op} (h : op ∈ operators) : Phrase A (" " ++ op ++ " ")
  /-- A text as a literal. -/
  | string (t : String) : Phrase A (stringLiteral t)
  /-- A number as a literal. -/
  | number {t s type} (h : numberLiteral? t = some (s, type)) : Phrase A s
  /-- The literal of a class. -/
  | classLiteral (t : Ty) : Phrase A (classLiteral t)
  /-- The function that makes a dynamic value. -/
  | boxer (t : Option Ty) : Phrase A (Path.boxer t)
  /-- The error of an odd list. -/
  | raise (t : Ty) : Phrase A (Collection.arityRaise t)
  /-- The conversion of a phrase. -/
  | converted {source c} (hsource : Phrase A source)
      (hc : Conversion.Scoped (fun _ => True) 0 [] c []) : Phrase A (c.render source)
  /-- A phrase behind a phrase. -/
  | append {x y} (hx : Phrase A x) (hy : Phrase A y) : Phrase A (x ++ y)
  /-- A phrase without parentheses around it. -/
  | bare {x} (h : Phrase A x) : Phrase A (unparen x)

namespace Phrase

variable {A B : String → Prop} {x y z : String}

theorem mono (h : Phrase A x) (hle : ∀ s, A s → B s) : Phrase B x := by
  induction h with
  | atom h => exact .atom (hle _ h)
  | piece h => exact .piece h
  | operator h => exact .operator h
  | string t => exact .string t
  | number h => exact .number h
  | classLiteral t => exact .classLiteral t
  | boxer t => exact .boxer t
  | raise t => exact .raise t
  | converted _ hc ih => exact .converted ih hc
  | append _ _ ihx ihy => exact .append ihx ihy
  | bare _ ih => exact .bare ih

theorem empty : Phrase A "" :=
  .piece rfl

theorem before {cs : List Char} (h : jointChars cs = true) (hx : Phrase A x) :
    Phrase A (String.ofList cs ++ x) :=
  .append (.piece h) hx

theorem behind {cs : List Char} (hx : Phrase A x) (h : jointChars cs = true) :
    Phrase A (x ++ String.ofList cs) :=
  .append hx (.piece h)

theorem between {cs : List Char} (hx : Phrase A x) (h : jointChars cs = true) (hy : Phrase A y) :
    Phrase A (x ++ String.ofList cs ++ y) :=
  .append (hx.behind h) hy

/-- A phrase between two pieces. -/
theorem within {start stop : List Char} (hstart : jointChars start = true)
    (hstop : jointChars stop = true) (hx : Phrase A x) :
    Phrase A (String.ofList start ++ x ++ String.ofList stop) :=
  (hx.before hstart).behind hstop

theorem paren (h : Phrase A x) : Phrase A (paren x) :=
  .within rfl rfl h

/-- Phrases with a phrase between each two. -/
theorem joined (hx : Phrase A x) {ys : List String} (hys : ∀ y ∈ ys, Phrase A y) :
    Phrase A (Text.join x ys) := by
  rw [Text.join]
  induction ys with
  | nil => exact empty
  | cons a rest ih =>
    obtain ⟨ha, hrest⟩ := List.forall_mem_cons.mp hys
    cases rest with
    | nil =>
      rw [String.intercalate_singleton]
      exact ha
    | cons b more =>
      rw [String.intercalate_cons_cons]
      exact (ha.append hx).append (ih hrest)

theorem join {cs : List Char} (h : jointChars cs = true) {ys : List String}
    (hys : ∀ y ∈ ys, Phrase A y) : Phrase A (Text.join (String.ofList cs) ys) :=
  joined (.piece h) hys

theorem concat {ys : List String} (h : ∀ y ∈ ys, Phrase A y) : Phrase A (String.join ys) := by
  induction ys with
  | nil => exact empty
  | cons a rest ih =>
    obtain ⟨ha, hrest⟩ := List.forall_mem_cons.mp h
    rw [String.join_cons]
    exact .append ha (ih hrest)

/-- An operator between two phrases. -/
theorem operation {op : String} (h : op ∈ operators) (hx : Phrase A x) (hy : Phrase A y) :
    Phrase A (x ++ " " ++ op ++ " " ++ y) := by
  have hall := (hx.append (.operator h)).append hy
  simpa only [String.append_assoc] using hall

/-- Code with arguments behind it. -/
theorem round (hx : Phrase A x) (hy : Phrase A y) : Phrase A (x ++ "(" ++ y ++ ")") :=
  .behind (.between hx rfl hy) rfl

theorem call {cls method : List Char} (hcls : jointChars cls = true)
    (hmethod : jointChars method = true) {args : List String} (h : ∀ y ∈ args, Phrase A y) :
    Phrase A (call (String.ofList cls) (String.ofList method) args) :=
  .round (.between (.piece hcls) rfl (.piece hmethod)) (.join rfl h)

theorem call_one {cls method : List Char} (hcls : jointChars cls = true)
    (hmethod : jointChars method = true) (hx : Phrase A x) :
    Phrase A (Java.call (String.ofList cls) (String.ofList method) [x]) :=
  .call hcls hmethod (List.forall_mem_singleton.mpr hx)

theorem call_two {cls method : List Char} (hcls : jointChars cls = true)
    (hmethod : jointChars method = true) (hx : Phrase A x) (hy : Phrase A y) :
    Phrase A (Java.call (String.ofList cls) (String.ofList method) [x, y]) :=
  .call hcls hmethod (List.forall_mem_cons.mpr ⟨hx, List.forall_mem_singleton.mpr hy⟩)

end Phrase

/-! ## Code of types -/

/-- Any type may stand in a conversion. -/
theorem named_true (t : Ty) : t.Named fun _ => True := by
  induction t with
  | scalar k => exact trivial
  | object n => exact trivial
  | ref e ih => exact ih
  | agg s e ih => exact ih

theorem named_true? (t : Option Ty) : ∀ t' ∈ t, t'.Named fun _ => True :=
  fun t' _ => named_true t'

namespace Phrase

open Conversion (Expression)

variable {A : String → Prop} {source text x y : String}

/-- What is made of one phrase by the rule for names is a phrase. -/
theorem of_expression (h : Phrase A source)
    (htext : Expression (fun _ => True) source 0 [] text) : Phrase A text := by
  obtain ⟨c, rfl, hc⟩ := htext
  exact .converted h hc

/-- The phrase itself, to be put into code. -/
theorem operand (source : String) : Expression (fun _ => True) source 0 [] source :=
  ⟨.operand, rfl, .operand⟩

theorem castTo (t : Option Ty) (h : Phrase A x) : Phrase A (castTo t x) :=
  h.of_expression (Conversion.scoped_castTo (named_true? t) (operand x))

/-- A new object, with a phrase for its arguments. -/
theorem create (t : Option Ty) (h : Phrase A x) :
    Phrase A ("new " ++ declType? t ++ "(" ++ x ++ ")") :=
  h.of_expression (Conversion.scoped_new (named_true? t) (operand x))

theorem newArray (elem : Ty) (h : Phrase A x) : Phrase A (newArray elem x) :=
  h.of_expression (Conversion.scoped_newArray (named_true elem) (operand x))

theorem emptyOf (t : Ty) : Phrase A (emptyOf t) :=
  empty.of_expression (Conversion.scoped_newAggregate (named_true t) (.lit rfl))

theorem emptyOf? (t : Option Ty) : Phrase A (emptyOf? t) := by
  cases t with
  | none => exact .piece rfl
  | some t => exact .emptyOf t

theorem arrayInitializer (elem : Ty) {items : List String} (h : ∀ y ∈ items, Phrase A y) :
    Phrase A (arrayInitializer elem items) :=
  .behind (.between (.newArray elem empty) rfl (.join rfl h)) rfl

end Phrase

end Java

open Java (Phrase)

variable {A : String → Prop}

namespace Conversion

/-! ## Conversions -/

variable {o : Operand}

theorem phrase_convert (ho : Phrase A o.code) (dest : Option Ty) :
    Gives (convert o dest) (Phrase A) :=
  (scoped_convert (Java.named_true? o.type) (Java.named_true? dest)).mono fun _ htext =>
    ho.of_expression htext

theorem phrase_zeroValue {t : Option Ty} {z : String} (h : zeroValue? t = some z) : Phrase A z := by
  unfold zeroValue? at h
  split at h
  · cases h
    exact .piece rfl
  · cases h
    exact .piece rfl
  · cases h
    exact .piece rfl
  · cases h
    exact .piece rfl
  · cases h
    exact .piece rfl
  · cases h
    exact .string ""
  · cases h
    exact .piece rfl
  · cases h

theorem phrase_convertNonNull (nullChecks : Bool) (ho : Phrase A o.code) (dest : Option Ty) :
    Gives (convertNonNull nullChecks o dest) (Phrase A) := by
  unfold convertNonNull
  split
  · next z hz =>
    split at hz
    · exact .ok (phrase_zeroValue hz)
    · cases hz
  · refine .bind (phrase_convert ho dest) fun code hcode => ?_
    exact .ite (fun _ => .pure (.call_one rfl rfl hcode)) fun _ => .pure hcode

theorem phrase_helper {fn : List Char} (hfn : Java.jointChars fn = true) {x : String}
    (hx : Phrase A x) : Phrase A (helper (String.ofList fn) x) :=
  .call_one rfl hfn hx

end Conversion

open Conversion (phrase_convert phrase_convertNonNull phrase_helper)

namespace Operand

theorem phrase_reduce {o : Operand} (ho : Phrase A o.code) : Phrase A o.reduce.code := by
  rw [reduce, Path.code_ofElement]
  split
  · exact .call_one rfl rfl ho
  · exact .call_one rfl rfl ho

theorem phrase_referent {o : Operand} (ho : Phrase A o.code) : Phrase A o.referent.code := by
  unfold referent
  split
  · exact ho
  · exact .behind ho rfl

theorem phrase_makeRef {o : Operand} (ho : Phrase A o.code) : Phrase A o.makeRef.code := by
  unfold makeRef
  split
  · exact ho
  · exact .create _ ho

end Operand

namespace Collection

/-! ## Containers -/

/-- The code of each piece is a phrase. -/
def Phrased (A : String → Prop) (cs : List Chunk) : Prop :=
  ∀ c ∈ cs, Phrase A c.code

section

variable {elem : Ty} {ops run : List Operand}

theorem phrase_sequenceRun (hrun : ∀ o ∈ run, Phrase A o.code) :
    Gives (sequenceRun run elem) fun c => Phrase A c.code :=
  .bind (.mapM_all fun o ho => phrase_convert (hrun o ho) _) fun _ hitems =>
    .pure (.arrayInitializer elem hitems)

theorem phrase_mapRun (hrun : ∀ o ∈ run, Phrase A o.code) :
    Gives (mapRun run elem) fun c => Phrase A c.code := by
  have hentries := entries_all (fun o ho => phrase_convert (hrun o ho) (some Ty.string))
    fun o ho => phrase_convert (hrun o ho) (some elem)
  unfold mapRun
  refine .ite (fun _ => .pure (.raise _)) fun _ => ?_
  refine .bind hentries fun entries ⟨hkeys, hvalues⟩ => .pure ?_
  -- the two arrays are the arguments of one creation
  have hboth : Phrase A (Java.arrayInitializer .string (entries.map (·.1)) ++ ", " ++
      Java.arrayInitializer elem (entries.map (·.2))) :=
    .between (.arrayInitializer _ hkeys) rfl (.arrayInitializer _ hvalues)
  have hnew := Phrase.create (some (Ty.mapOf elem)) hboth
  simpa only [Java.declType?, String.append_assoc] using hnew

theorem phrase_runChunk (s : Shape) (hrun : ∀ o ∈ run, Phrase A o.code) :
    Gives (runChunk s elem run) (Phrased A) := by
  refine .ite (fun _ => .ok fun c hc => absurd hc List.not_mem_nil) fun _ => ?_
  refine .branch (phrase_mapRun hrun) (phrase_sequenceRun hrun) fun c hc => .pure ?_
  exact List.forall_mem_singleton.mpr hc

theorem phrase_splice {o : Operand} (ho : Phrase A o.code) (t : Ty) (s : Shape) :
    Gives (splice o t s elem) fun c => Phrase A c.code :=
  .ite (fun _ => .ok ho) fun _ => .bind (phrase_convert ho _) fun _ hcode => .pure hcode

theorem phrase_chunks (s : Shape) (ops : List Operand) (hops : ∀ o ∈ ops, Phrase A o.code) :
    ∀ run : List Operand, (∀ o ∈ run, Phrase A o.code) →
      Gives (chunks s elem run ops) (Phrased A) := by
  induction ops with
  | nil => exact fun run hrun => phrase_runChunk s hrun
  | cons o rest ih =>
    intro run hrun
    obtain ⟨ho, hrest⟩ := List.forall_mem_cons.mp hops
    rw [chunks]
    split
    · refine .bind (phrase_runChunk s hrun) fun before hbefore => ?_
      refine .bind (phrase_splice ho _ s) fun c hc => ?_
      refine .bind (ih hrest [] fun _ hx => absurd hx List.not_mem_nil) fun after hafter => .pure ?_
      exact List.forall_mem_append.mpr ⟨hbefore, List.forall_mem_cons.mpr ⟨hc, hafter⟩⟩
    · exact ih hrest (run ++ [o])
        (List.forall_mem_append.mpr ⟨hrun, List.forall_mem_singleton.mpr ho⟩)

theorem phrase_joinChunks (s : Shape) {cs : List Chunk} (hcs : Phrased A cs) :
    Gives (joinChunks s elem cs) (Phrase A) := by
  unfold joinChunks
  split
  · next c => exact phrase_convert (hcs c List.mem_cons_self) _
  · have hend : Phrase A (unionEnd s elem) := by
      cases s with
      | array => exact .within rfl rfl (.classLiteral _)
      | list => exact .piece rfl
      | map => exact .piece rfl
    have hunion : Phrase A (Java.call "Pd" "union" []) :=
      .call rfl rfl fun y hy => absurd hy List.not_mem_nil
    refine .ok (.append (.append hunion (.concat fun y hy => ?_)) hend)
    obtain ⟨c, hc, rfl⟩ := List.mem_map.mp hy
    exact .within rfl rfl (hcs c hc)

theorem phrase_buildFrom (s : Shape) (hops : ∀ o ∈ ops, Phrase A o.code) :
    Gives (buildFrom ops s elem) (Phrase A) :=
  .bind (phrase_chunks s ops hops [] fun _ hx => absurd hx List.not_mem_nil) fun _ hcs =>
    phrase_joinChunks s hcs

theorem phrase_build (hops : ∀ o ∈ ops, Phrase A o.code) (dest : Option Ty) :
    Gives (build ops dest) (Phrase A) := by
  unfold build
  split
  · refine .ite (fun _ => .ok (.emptyOf _)) fun _ => ?_
    refine .ite (fun _ => ?_) fun _ => phrase_buildFrom _ hops
    exact .bind (phrase_buildFrom .list hops) fun code hcode => phrase_convert hcode _
  · exact .error _

end

end Collection

end TypedPerl
