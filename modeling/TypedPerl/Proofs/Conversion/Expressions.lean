import TypedPerl.Proofs.Conversion.Kept
import TypedPerl.Proofs.Conversion.LoopCode
import TypedPerl.Proofs.Numeral.Written

/-!
# Conversions of single values keep the rule for names

`Expression` says of a text that it is written from a tree that keeps the rule for names and
declares nothing that outlives it; `Statements` allows for declarations. Both have one rule for each
way to put code around code. The conversions to scalars, the casts and the creations are expressions
as long as the code of their operand is one, in whatever loop they stand.
-/

namespace TypedPerl

/-! ## Types -/

namespace Ty.Named

variable {P : String → Prop} {t : Ty}

theorem refTo (h : t.Named P) : t.refTo.Named P := by
  cases t <;> exact h

theorem elem (h : t.Named P) : t.elem.Named P := by
  cases t <;> exact h

/-- A type that is known is one that may be known. -/
theorem known (h : t.Named P) : ∀ t' ∈ some t, t'.Named P := by
  rintro _ ⟨⟩
  exact h

end Ty.Named

namespace Conversion

variable {P : String → Prop} {source : String} {depth : Nat} {env env' : List LoopName}

/-! ## Texts that keep the rule -/

/-- The text is written from code that keeps the rule for names, for an operand with the code
`source`. -/
def Statements (P : String → Prop) (source : String) (depth : Nat) (env : List LoopName)
    (text : String) (env' : List LoopName) : Prop :=
  ∃ c : LoopCode, c.render source = text ∧ Scoped P depth env c env'

/-- So is the text, and it leaves no names behind. -/
abbrev Expression (P : String → Prop) (source : String) (depth : Nat) (env : List LoopName)
    (text : String) : Prop :=
  Statements P source depth env text env

namespace Statements

variable {env'' : List LoopName} {n : LoopName} {u : TypeCode} {x y value rows body : String}

theorem append (hx : Statements P source depth env x env')
    (hy : Statements P source depth env' y env'') :
    Statements P source depth env (x ++ y) env'' := by
  obtain ⟨a, rfl, ha⟩ := hx
  obtain ⟨b, rfl, hb⟩ := hy
  exact ⟨.seq a b, rfl, .seq ha hb⟩

theorem subset (h : Statements P source depth env x env') : env ⊆ env' := by
  obtain ⟨c, -, hc⟩ := h
  exact hc.subset

theorem var (hu : u.Named P) (hdepth : n.depth = depth) (hnew : n ∉ env)
    (h : Expression P source depth env value) : Statements P source depth env
      (u.text ++ " " ++ n.text ++ " = " ++ value ++ "; ") (n :: env) := by
  obtain ⟨c, rfl, hc⟩ := h
  exact ⟨.var u n c, rfl, .var hu hdepth hnew hc⟩

theorem check (h : Expression P source depth env x) : Statements P source depth env
    ("if (" ++ x ++ " % 2 != 0) \x7b " ++ arityThrow ++ " \x7d ") env := by
  obtain ⟨c, rfl, hc⟩ := h
  exact ⟨.check c, rfl, .check hc⟩

theorem counted {step : String} (hdepth : n.depth = depth) (hnew : n ∉ env)
    (h : Expression P source depth (n :: env) x) (hstep : Plain step)
    (hbody : Statements P source (depth + 1) (n :: env) body env') :
    Statements P source depth env ("for (int " ++ n.text ++ " = 0; " ++ n.text ++ " < " ++ x ++
      "; " ++ n.text ++ step ++ ") \x7b " ++ body ++ "\x7d ") env := by
  obtain ⟨c, rfl, hc⟩ := h
  obtain ⟨b, rfl, hb⟩ := hbody
  exact ⟨.counted n c step b, rfl, .counted hdepth hnew hc hstep hb⟩

theorem each (hu : u.Named P) (hdepth : n.depth = depth) (hnew : n ∉ env)
    (hrows : Expression P source depth env rows)
    (hbody : Statements P source (depth + 1) (n :: env) body env') :
    Statements P source depth env ("for (" ++ u.text ++ " " ++ n.text ++ " : " ++ rows ++
      ") \x7b " ++ body ++ "\x7d ") env := by
  obtain ⟨c, rfl, hc⟩ := hrows
  obtain ⟨b, rfl, hb⟩ := hbody
  exact ⟨.each u n c b, rfl, .each hu hdepth hnew hc hb⟩

theorem give (hn : n ∈ env) :
    Statements P source depth env ("return " ++ n.text ++ "; ") env :=
  ⟨.give n, rfl, .give hn⟩

end Statements

namespace Expression

variable {n : LoopName} {u : TypeCode} {x y body : String}

theorem append (hx : Expression P source depth env x) (hy : Expression P source depth env y) :
    Expression P source depth env (x ++ y) :=
  Statements.append hx hy

theorem plain (h : Plain x) : Expression P source depth env x :=
  ⟨.text x, rfl, .text h⟩

/-- A text that is written out: its characters are looked through. -/
theorem lit {cs : List Char} (h : Plain.chars cs = true) :
    Expression P source depth env (String.ofList cs) :=
  plain (.lit h)

theorem name (hn : n ∈ env) : Expression P source depth env n.text :=
  ⟨.name n, rfl, .name hn⟩

theorem before {cs : List Char} (h : Plain.chars cs = true) (hx : Expression P source depth env x) :
    Expression P source depth env (String.ofList cs ++ x) :=
  (lit h).append hx

theorem behind {cs : List Char} (hx : Expression P source depth env x) (h : Plain.chars cs = true) :
    Expression P source depth env (x ++ String.ofList cs) :=
  hx.append (lit h)

theorem between {cs : List Char} (hx : Expression P source depth env x)
    (h : Plain.chars cs = true) (hy : Expression P source depth env y) :
    Expression P source depth env (x ++ String.ofList cs ++ y) :=
  (hx.behind h).append hy

theorem paren (h : Expression P source depth env x) :
    Expression P source depth env (Java.paren x) := by
  obtain ⟨c, rfl, hc⟩ := h
  exact ⟨.round c, rfl, .round hc⟩

/-- Code with arguments behind it. -/
theorem round (hx : Expression P source depth env x) (hy : Expression P source depth env y) :
    Expression P source depth env (x ++ "(" ++ y ++ ")") := by
  have hboth := hx.append hy.paren
  rwa [Java.paren, ← String.append_assoc, ← String.append_assoc] at hboth

/-- Code with an index behind it. -/
theorem square (hx : Expression P source depth env x) (hy : Expression P source depth env y) :
    Expression P source depth env (x ++ "[" ++ y ++ "]") := by
  obtain ⟨c, rfl, hc⟩ := hy
  have hindex : Expression P source depth env ("[" ++ c.render source ++ "]") :=
    ⟨.square c, rfl, .square hc⟩
  have hboth := hx.append hindex
  rwa [← String.append_assoc, ← String.append_assoc] at hboth

/-- A method of the value of the code, with what `start` puts before the arguments. -/
theorem method (name : String) {start : String} (hstart : start = name ++ "(") (hname : Plain name)
    (hx : Expression P source depth env x) (hy : Expression P source depth env y) :
    Expression P source depth env (x ++ start ++ y ++ ")") := by
  subst hstart
  simpa only [String.append_assoc] using (hx.append (plain hname)).round hy

theorem cast (hu : u.Named P) (hx : Expression P source depth env x) :
    Expression P source depth env ("(" ++ u.text ++ ") " ++ x) :=
  append ⟨.cast u, rfl, .cast hu⟩ hx

theorem create (hu : u.Named P) : Expression P source depth env ("new " ++ u.text) :=
  ⟨.create u, rfl, .create hu⟩

theorem lambda (hdepth : n.depth = depth) (hnew : n ∉ env)
    (h : Statements P source depth (n :: env) body env') : Expression P source depth env
      ("(Object " ++ n.text ++ ") -> \x7b " ++ body ++ "\x7d") := by
  obtain ⟨c, rfl, hc⟩ := h
  exact ⟨.lambda n c, rfl, .lambda hdepth hnew hc⟩

theorem join {sep : String} (hsep : Plain sep) {ys : List String}
    (h : ∀ y ∈ ys, Expression P source depth env y) :
    Expression P source depth env (Text.join sep ys) := by
  rw [Text.join]
  induction ys with
  | nil => exact lit rfl
  | cons a rest ih =>
    obtain ⟨ha, hrest⟩ := List.forall_mem_cons.mp h
    cases rest with
    | nil =>
      rw [String.intercalate_singleton]
      exact ha
    | cons b more =>
      rw [String.intercalate_cons_cons]
      exact (ha.append (plain hsep)).append (ih hrest)

theorem call {cls method : String} (hcls : Plain cls) (hmethod : Plain method)
    {args : List String} (h : ∀ y ∈ args, Expression P source depth env y) :
    Expression P source depth env (Java.call cls method args) :=
  .round (.between (plain hcls) rfl (plain hmethod)) (join (.lit rfl) h)

end Expression

/-! ## Code of types -/

/-- A cast in parentheses. -/
theorem scoped_cast {u : TypeCode} {x : String} (hu : u.Named P)
    (hx : Expression P source depth env x) :
    Expression P source depth env ("((" ++ u.text ++ ") " ++ x ++ ")") := by
  have hparen := (Expression.cast hu hx).paren
  have hopen : ("((" : String) = "(" ++ "(" := rfl
  rw [hopen]
  simpa only [Java.paren, String.append_assoc] using hparen

theorem scoped_castTo {t : Option Ty} (ht : ∀ t' ∈ t, t'.Named P) {x : String}
    (hx : Expression P source depth env x) : Expression P source depth env (Java.castTo t x) :=
  scoped_cast (u := .declared t) ht hx

theorem scoped_new {t : Option Ty} (ht : ∀ t' ∈ t, t'.Named P) {x : String}
    (hx : Expression P source depth env x) :
    Expression P source depth env ("new " ++ Java.declType? t ++ "(" ++ x ++ ")") :=
  (Expression.create (u := .declared t) ht).round hx

theorem scoped_newRef {t : Ty} (ht : t.Named P) {x : String}
    (hx : Expression P source depth env x) : Expression P source depth env (Java.newRef t x) :=
  scoped_new ht.refTo.known hx

theorem arrayBase_named {t : Ty} (ht : t.Named P) : (Java.arrayBase t).Named P := by
  fun_induction Java.arrayBase t with
  | case1 e ih => exact ih ht
  | case2 => exact ht

theorem scoped_newArray {elem : Ty} (helem : elem.Named P) {length : String}
    (h : Expression P source depth env length) :
    Expression P source depth env (Java.newArray elem length) := by
  -- the levels above the first are written as empty brackets
  have hbrackets : Plain (String.join (List.replicate (Java.arrayLevels elem) "[]")) := by
    refine .word (.concat fun y hy => ?_) fun c hc => ?_
    · rw [List.eq_of_mem_replicate hy]
      exact .lit rfl
    · rw [String.toList_join, List.mem_flatMap] at hc
      obtain ⟨y, hy, hc⟩ := hc
      rw [List.eq_of_mem_replicate hy] at hc
      rcases (by simpa using hc : c = '[' ∨ c = ']') with rfl | rfl
      · decide
      · decide
  have hcreate : Expression P source depth env ("new " ++ Java.erasure (Java.arrayBase elem)) :=
    .create (u := .erased _) (arrayBase_named helem)
  exact (hcreate.square h).append (.plain hbrackets)

theorem scoped_newInferred (s : Shape) {size : String} (h : Expression P source depth env size) :
    Expression P source depth env
      ("new " ++ (if s = .map then Java.mapClass else Java.listClass) ++ "<>(" ++ size ++ ")") := by
  have hcreate : Expression P source depth env
      ("new " ++ ((if s = .map then Java.mapClass else Java.listClass) ++ "<>")) :=
    .create (u := .inferred s) trivial
  have hopen : ("<>(" : String) = "<>" ++ "(" := rfl
  rw [hopen]
  simpa only [String.append_assoc] using hcreate.round h

theorem scoped_newAggregate {t : Ty} (ht : t.Named P) {size : String}
    (h : Expression P source depth env size) :
    Expression P source depth env (Java.newAggregate t size) := by
  unfold Java.newAggregate
  split
  · exact scoped_newArray ht.elem h
  · exact scoped_newInferred .list h
  · exact scoped_newInferred .map h
  · exact .lit rfl

/-! ## Scalars -/

/-- The code of the operand keeps the rule, and the names of classes in its type satisfy `P`. -/
structure Fits (P : String → Prop) (source : String) (depth : Nat) (env : List LoopName)
    (o : Operand) : Prop where
  /-- The code is an expression. -/
  code : Expression P source depth env o.code
  /-- The names of classes satisfy the property. -/
  type : ∀ t ∈ o.type, t.Named P

theorem plain_kindSuffix (k : Kind) : Plain (Java.kindSuffix k) := by
  cases k <;> exact .lit rfl

theorem scoped_helper {fn x : String} (hfn : Plain fn) (hx : Expression P source depth env x) :
    Expression P source depth env (helper fn x) :=
  .call (.lit rfl) hfn fun _ hy => List.mem_singleton.mp hy ▸ hx

theorem plain_numericHelper (k : Kind) : Plain (numericHelper k) := by
  cases k <;> exact .lit rfl

theorem plain_numericView (k : Kind) : Plain (numericView k) := by
  cases k <;> exact .lit rfl

theorem scoped_widen {x : String} (hx : Expression P source depth env x) (k : Kind) :
    Expression P source depth env (widen x k) := by
  have hprimitive : (TypeCode.word (primitive k)).Named P := by
    cases k <;> simp [TypeCode.Named, primitive]
  unfold widen
  split
  · exact hx
  · exact scoped_cast (u := .word (primitive k)) hprimitive hx

section Scalars

variable {o : Operand} (ho : Fits P source depth env o)

include ho

theorem scoped_count : Expression P source depth env o.count := by
  unfold Operand.count
  split
  · exact .behind ho.code rfl
  · exact .behind ho.code rfl

theorem scoped_cellCode : Expression P source depth env o.cellCode := by
  have htype : ∀ t ∈ o.type.map Ty.refTo, t.Named P := by
    intro t ht
    obtain ⟨t', ht', rfl⟩ := Option.map_eq_some_iff.mp ht
    exact (ho.type t' ht').refTo
  unfold Operand.cellCode
  split
  · exact scoped_new htype ho.code
  · exact ho.code

theorem scoped_toBoolean : Expression P source depth env (toBoolean o) := by
  have hother : Expression P source depth env (helper "toBoolean" o.code) :=
    scoped_helper (.lit rfl) ho.code
  have hthere : Expression P source depth env (Java.paren (o.code ++ " != null")) :=
    .paren (.behind ho.code rfl)
  unfold toBoolean
  dsimp only
  split
  · exact hother
  · split
    · exact hother
    · split
      · exact .paren (.behind ho.code rfl)
      · exact .paren (.behind (.before rfl ho.code) rfl)
  · exact hthere
  · exact hthere
  · split
    · exact hthere
    · exact ho.code
    · split
      · split
        · exact .lit rfl
        · exact .lit rfl
      · exact hother
    · split
      · exact .behind ho.code rfl
      · exact hother
    · split
      · exact .paren (.behind ho.code rfl)
      · exact hother
    all_goals
      -- a literal is a truth value itself, another number is compared
      split
      · split
        · exact .lit rfl
        · exact .lit rfl
      · split
        · exact .paren (.behind ho.code rfl)
        · exact hother

theorem scoped_toNumeric (k : Kind) : Expression P source depth env (toNumeric o k) := by
  have hother : Expression P source depth env (helper (numericHelper k) o.code) :=
    scoped_helper (plain_numericHelper k) ho.code
  have hsuffix : Expression P source depth env (Java.kindSuffix k) := .plain (plain_kindSuffix k)
  have hchoice {test : String} (h : Plain test) : Expression P source depth env
      (Java.paren (o.code ++ test ++ ("1" ++ Java.kindSuffix k) ++ " : " ++
        ("0" ++ Java.kindSuffix k))) :=
    .paren (.between (.append (.append ho.code (.plain h)) (.before rfl hsuffix)) rfl
      (.before rfl hsuffix))
  unfold toNumeric
  dsimp only
  split
  · exact hother
  · split
    · exact scoped_widen (scoped_count ho) k
    · exact hother
  · exact hchoice (.lit rfl)
  · exact hchoice (.lit rfl)
  · split
    · exact hchoice (.lit rfl)
    · split
      · exact ho.code
      · split
        · split
          · exact hchoice (.lit rfl)
          · exact hother
        -- a literal is written anew
        iterate 4
          split
          · rename_i heq
            split at heq
            · exact .plain (.numeral (Java.numericLiteral?_signed heq).chars)
            · cases heq
          · exact hother
        iterate 2
          split
          · exact .behind (.between ho.code rfl (.plain (plain_numericView k))) rfl
          · exact hother
        · exact hother

theorem scoped_toText : Expression P source depth env (toText o) := by
  have hother : Expression P source depth env (helper "toString" o.code) :=
    scoped_helper (.lit rfl) ho.code
  have hinteger : Expression P source depth env (helper "toInteger" o.code) :=
    scoped_helper (.lit rfl) ho.code
  have hthere : Expression P source depth env (Java.paren (o.code ++ " != null ? \"1\" : \"0\"")) :=
    .paren (.behind ho.code rfl)
  unfold toText
  dsimp only
  split
  · exact hother
  · split
    · exact scoped_helper (.lit rfl) (scoped_count ho)
    · exact scoped_helper (.lit rfl) hinteger
  · exact hthere
  · exact hthere
  · split
    · exact hthere
    · exact ho.code
    · split
      · exact .paren (.behind ho.code rfl)
      · exact hother
    iterate 2
      -- a whole literal is quoted
      split
      · exact .plain (.quoted (Numeral.isNumeralChar_int _))
      · exact hother
    · split
      · exact .behind ho.code rfl
      · exact hother
    · split
      · exact .behind ho.code rfl
      · exact hother
    · exact hother

theorem scoped_toBox : Expression P source depth env (toBox o) := by
  have hother : Expression P source depth env (helper "box" o.code) :=
    scoped_helper (.lit rfl) ho.code
  have hinteger : Expression P source depth env (helper "toInteger" o.code) :=
    scoped_helper (.lit rfl) ho.code
  unfold toBox
  dsimp only
  split
  · split
    · exact scoped_helper (.lit rfl) (scoped_count ho)
    · exact scoped_helper (.lit rfl) hinteger
  · exact scoped_helper (.lit rfl) (scoped_cellCode ho)
  · exact ho.code
  · exact hother

theorem scoped_toNumber : Gives (toNumber o) (Expression P source depth env) := by
  have hthere : Expression P source depth env (Java.paren (o.code ++ " != null ? 1 : 0")) :=
    .paren (.behind ho.code rfl)
  have hinteger : Expression P source depth env (helper "toInteger" o.code) :=
    scoped_helper (.lit rfl) ho.code
  -- each type has its own way to a number, and all of them wrap the code once
  unfold toNumber
  dsimp only
  split
  · exact .error _
  · refine .ok ?_
    split
    · exact scoped_count ho
    · exact hinteger
  · exact .ok hthere
  · exact .ok hthere
  · split
    · exact .ok hthere
    iterate 5 exact .ok ho.code
    · refine .ok ?_
      split
      · exact .paren (.behind ho.code rfl)
      · exact hinteger
    · exact .ok (scoped_helper (.lit rfl) ho.code)
    · refine .ok ?_
      split
      · exact .behind ho.code rfl
      · exact scoped_helper (.lit rfl) ho.code

theorem scoped_toFile : Gives (toFile o) (Expression P source depth env) := by
  unfold toFile
  split
  · exact .ok ho.code
  · refine .ok ?_
    split
    · exact .behind ho.code rfl
    · exact scoped_helper (.lit rfl) ho.code
  · exact .error _

theorem scoped_toScalar (k : Kind) : Gives (toScalar o k) (Expression P source depth env) := by
  cases k with
  | boolean => exact .ok (scoped_toBoolean ho)
  | integer | long | float | double => exact .ok (scoped_toNumeric ho _)
  | string => exact .ok (scoped_toText ho)
  | box => exact .ok (scoped_toBox ho)
  | number => exact scoped_toNumber ho
  | file => exact scoped_toFile ho

end Scalars

/-! ## References -/

theorem Fits.referent {o : Operand} (ho : Fits P source depth env o) :
    Fits P source depth env o.referent := by
  have htype : ∀ t ∈ o.elemType, t.Named P := by
    intro t ht
    obtain ⟨t', ht', rfl⟩ := Option.map_eq_some_iff.mp ht
    exact (ho.type t' ht').elem
  unfold Operand.referent
  split
  · exact ⟨ho.code, htype⟩
  · exact ⟨.behind ho.code rfl, htype⟩

theorem Fits.followRefs (t : Ty) {o : Operand} (ho : Fits P source depth env o) :
    Fits P source depth env (followRefs t o) := by
  induction t generalizing o with
  | ref e ih => exact ih ho.referent
  | scalar | object | agg => exact ho

end Conversion

end TypedPerl
