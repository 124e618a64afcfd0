import TypedPerl.Conversion
import TypedPerl.Proofs.Java.Balanced
import TypedPerl.Proofs.Numeral.Characters

/-!
# The code of conversions as a tree

The text of a conversion is put together from names, types and fixed words, and what its lambdas and
loops declare cannot be seen from the text alone. `LoopCode` is that code as a tree, with one
constructor for each construct that declares a name, and `LoopCode.render` writes it down.

`Scoped` is the rule for names. It goes through the code in order, with the names that are in scope:
a name is used where it is in scope, and it is declared where it is not, so that no declaration
hides another. The number of a name is the depth of the loops around it (`Scoped.le_depth`), and
what is declared within the body of a loop has a greater number than that loop
(`Scoped.lt_depth_of_loop`). The pieces of text between the names are `Plain`: no declaration can
stand in them.
-/

namespace TypedPerl

/-- The names of classes in the type satisfy `P`. -/
def Ty.Named (P : String → Prop) : Ty → Prop
  | .scalar _ => True
  | .object n => P n
  | .ref e | .agg _ e => e.Named P

namespace Conversion

/-! ## Names -/

/-- What a name of a loop is for. -/
inductive LoopRole where
  | arg
  | col
  | res
  | idx
  | ent
deriving DecidableEq, Repr

/-- A name that a loop declares. -/
structure LoopName where
  /-- What it is for. -/
  role : LoopRole
  /-- The depth of the loop. -/
  depth : Nat
deriving DecidableEq, Repr

/-- What stands before the number in a name. -/
def LoopRole.word : LoopRole → List Char
  | .arg => ['a', 'r', 'g']
  | .col => ['c', 'o', 'l']
  | .res => ['r', 'e', 's']
  | .idx => ['i']
  | .ent => ['e']

/-- The name as it is written. -/
def LoopName.text (n : LoopName) : String :=
  let names := loopNames n.depth
  match n.role with
  | .arg => names.arg
  | .col => names.col
  | .res => names.res
  | .idx => names.idx
  | .ent => names.ent

namespace LoopName

@[simp] theorem text_arg (depth : Nat) : text ⟨.arg, depth⟩ = (loopNames depth).arg := rfl
@[simp] theorem text_col (depth : Nat) : text ⟨.col, depth⟩ = (loopNames depth).col := rfl
@[simp] theorem text_res (depth : Nat) : text ⟨.res, depth⟩ = (loopNames depth).res := rfl

theorem toList_text (n : LoopName) :
    n.text.toList = ['p', 'd', '_'] ++ n.role.word ++ Nat.toDigits 10 n.depth := by
  obtain ⟨role, depth⟩ := n
  cases role <;> simp [text, loopNames, LoopRole.word, String.toList_append]

/-- Names that are written in the same way are the same. -/
theorem text_injective : Function.Injective text := by
  intro n m h
  have hlist := congrArg String.toList h
  rw [toList_text, toList_text, List.append_assoc, List.append_assoc] at hlist
  have hrest := List.append_cancel_left hlist
  obtain ⟨role, depth⟩ := n
  obtain ⟨role', depth'⟩ := m
  have hrole : role = role' := by
    have hhead := congrArg List.head? hrest
    cases role <;> cases role' <;> simp [LoopRole.word] at hhead ⊢
  subst hrole
  have hdepth := congrArg (fun ds => Nat.ofDigitChars 10 ds 0) (List.append_cancel_left hrest)
  simp only [Nat.ofDigitChars_ten_toDigits] at hdepth
  rw [hdepth]

end LoopName

/-! ## Code -/

/-- A type as it stands in code. -/
inductive TypeCode where
  /-- A class without type arguments, or a primitive type. -/
  | word (text : String)
  /-- A container whose type arguments are left to the compiler. -/
  | inferred (s : Shape)
  /-- The declaration type. -/
  | declared (t : Option Ty)
  /-- The declaration type without its type arguments. -/
  | erased (t : Ty)
  /-- The entries of a map. -/
  | entry (t : Ty)
deriving Repr

/-- The type as it is written. -/
def TypeCode.text : TypeCode → String
  | .word text => text
  | .inferred s => (if s = .map then Java.mapClass else Java.listClass) ++ "<>"
  | .declared t => Java.declType? t
  | .erased t => Java.erasure t
  | .entry t => "java.util.Map.Entry<String, " ++ Java.declType t ++ ">"

@[simp] theorem TypeCode.text_declared (t : Ty) : text (.declared (some t)) = Java.declType t := rfl

/-- The names of classes in the type satisfy `P`. -/
def TypeCode.Named (P : String → Prop) : TypeCode → Prop
  | .word text => ∀ c ∈ text.toList, c.isAlpha = true
  | .inferred _ => True
  | .declared t => ∀ t' ∈ t, t'.Named P
  | .erased t | .entry t => t.Named P

/-- The code of a conversion of an operand. -/
inductive LoopCode where
  /-- Text without names. -/
  | text (s : String)
  /-- The code of the operand. -/
  | operand
  /-- A name that is used. -/
  | name (n : LoopName)
  /-- Code behind code. -/
  | seq (a b : LoopCode)
  /-- Code in parentheses. -/
  | round (c : LoopCode)
  /-- Code in square brackets. -/
  | square (c : LoopCode)
  /-- A cast, without what is cast. -/
  | cast (u : TypeCode)
  /-- A creation, without its arguments. -/
  | create (u : TypeCode)
  /-- A lambda with its argument. -/
  | lambda (n : LoopName) (body : LoopCode)
  /-- The declaration of a variable. -/
  | var (u : TypeCode) (n : LoopName) (value : LoopCode)
  /-- The check of a length before its elements are taken in pairs. -/
  | check (length : LoopCode)
  /-- A loop that counts up to a length. -/
  | counted (n : LoopName) (length : LoopCode) (step : String) (body : LoopCode)
  /-- A loop over the entries of a map. -/
  | each (u : TypeCode) (n : LoopName) (rows body : LoopCode)
  /-- The return of a variable. -/
  | give (n : LoopName)
deriving Repr

namespace LoopCode

/-- The code as it is written, with that of the operand. -/
def render (operand : String) : LoopCode → String
  | .text s => s
  | .operand => operand
  | .name n => n.text
  | .seq a b => a.render operand ++ b.render operand
  | .round c => "(" ++ c.render operand ++ ")"
  | .square c => "[" ++ c.render operand ++ "]"
  | .cast u => "(" ++ u.text ++ ") "
  | .create u => "new " ++ u.text
  | .lambda n body => "(Object " ++ n.text ++ ") -> \x7b " ++ body.render operand ++ "\x7d"
  | .var u n value => u.text ++ " " ++ n.text ++ " = " ++ value.render operand ++ "; "
  | .check length =>
    "if (" ++ length.render operand ++ " % 2 != 0) \x7b " ++ arityThrow ++ " \x7d "
  | .counted n length step body =>
    "for (int " ++ n.text ++ " = 0; " ++ n.text ++ " < " ++ length.render operand ++ "; " ++
      n.text ++ step ++ ") \x7b " ++ body.render operand ++ "\x7d "
  | .each u n rows body =>
    "for (" ++ u.text ++ " " ++ n.text ++ " : " ++ rows.render operand ++ ") \x7b " ++
      body.render operand ++ "\x7d "
  | .give n => "return " ++ n.text ++ "; "

/-- All names that the code declares. -/
def declared : LoopCode → List LoopName
  | .text _ | .operand | .name _ | .cast _ | .create _ | .give _ => []
  | .seq a b => a.declared ++ b.declared
  | .round c | .square c | .check c => c.declared
  | .lambda n body => n :: body.declared
  | .var _ n value => n :: value.declared
  | .counted n length _ body => n :: (length.declared ++ body.declared)
  | .each _ n rows body => n :: (rows.declared ++ body.declared)

/-- All names that the code uses. -/
def used : LoopCode → List LoopName
  | .text _ | .operand | .cast _ | .create _ => []
  | .name n | .give n => [n]
  | .seq a b => a.used ++ b.used
  | .round c | .square c | .check c => c.used
  | .lambda _ body => body.used
  | .var _ _ value => value.used
  | .counted n length _ body => n :: (length.used ++ body.used)
  | .each _ _ rows body => rows.used ++ body.used

/-- All loops in the code, each with its depth and its body. -/
def loops : LoopCode → List (Nat × LoopCode)
  | .text _ | .operand | .name _ | .cast _ | .create _ | .give _ => []
  | .seq a b => a.loops ++ b.loops
  | .round c | .square c | .check c => c.loops
  | .lambda _ body => body.loops
  | .var _ _ value => value.loops
  | .counted n length _ body => (n.depth, body) :: (length.loops ++ body.loops)
  | .each _ n rows body => (n.depth, body) :: (rows.loops ++ body.loops)

/-- What is used in the body of a loop is declared in that body, or it has a number that is not
greater and is known around the loop. -/
def KnownIn (known : LoopName → Prop) (ls : List (Nat × LoopCode)) : Prop :=
  ∀ l ∈ ls, ∀ n ∈ l.2.used, n ∈ l.2.declared ∨ n.depth ≤ l.1 ∧ known n

theorem KnownIn.mono {known known' : LoopName → Prop} {ls : List (Nat × LoopCode)}
    (h : KnownIn known ls) (hle : ∀ n, known n → known' n) : KnownIn known' ls :=
  fun l hl n hn => (h l hl n hn).imp_right fun hn => ⟨hn.1, hle n hn.2⟩

end LoopCode

/-! ## Text without names -/

/-- A sign of an operator or a separator. -/
def isSign (c : Char) : Bool :=
  ['!', '?', ':', '=', '>', '+', '*', '/', '%', ',', ';'].contains c

/-- No blank stands between two words. `before` is the character in front of the text. -/
def spaced (before : Option Char) : List Char → Bool
  | [] => true
  | c :: rest =>
    (c != ' ' || before.any isSign || rest.head?.any isSign) && spaced (some c) rest

/-- Text that neither names nor declares anything: it has no underscore, and a declaration would put
a blank between a type and a name, or an arrow behind a name. -/
structure Plain (s : String) : Prop where
  /-- All delimiters match. -/
  balanced : Java.Balanced s
  /-- No name of a loop stands in it. -/
  unnamed : '_' ∉ s.toList
  /-- No type arguments stand in it. -/
  untyped : '<' ∉ s.toList
  /-- No lambda begins in it. -/
  arrowless : ¬['-', '>'] <:+: s.toList
  /-- No two words stand beside each other. -/
  spaced : spaced none s.toList = true

namespace Plain

/-- The characters of a text as a check that computes. -/
def chars (cs : List Char) : Bool :=
  decide (Java.Scan.run ⟨.code, []⟩ cs = some ⟨.code, []⟩) && !cs.contains '_' &&
    !cs.contains '<' && !decide (['-', '>'] <:+: cs) && Conversion.spaced none cs

/-- A text that is written out: its characters are looked through. -/
theorem lit {cs : List Char} (h : chars cs = true) : Plain (String.ofList cs) := by
  simp only [chars, Bool.and_eq_true, decide_eq_true_eq, Bool.not_eq_true', List.contains_eq_mem,
    decide_eq_false_iff_not] at h
  obtain ⟨⟨⟨⟨hrun, hunnamed⟩, huntyped⟩, harrowless⟩, hspaced⟩ := h
  exact ⟨.lit hrun, by rwa [String.toList_ofList], by rwa [String.toList_ofList],
    by rwa [String.toList_ofList], by rwa [String.toList_ofList]⟩

example : Plain " != null ? " := lit rfl

theorem spaced_of_not_mem {cs : List Char} (h : ' ' ∉ cs) (before : Option Char) :
    Conversion.spaced before cs = true := by
  induction cs generalizing before with
  | nil => rfl
  | cons c rest ih =>
    obtain ⟨hc, hrest⟩ := not_or.mp (mt List.mem_cons.mpr h)
    simp [Conversion.spaced, Ne.symm hc, ih hrest]

/-- One word, which is no name and has no type arguments. -/
theorem word {s : String} (hbalanced : Java.Balanced s)
    (h : ∀ c ∈ s.toList, c ∉ ['_', '<', '>', ' ']) : Plain s where
  balanced := hbalanced
  unnamed hmem := h _ hmem (by decide)
  untyped hmem := h _ hmem (by decide)
  arrowless harrow := h '>' (harrow.subset (by decide)) (by decide)
  spaced := spaced_of_not_mem (fun hmem => h _ hmem (by decide)) none

section Numerals

variable {s : String} (h : ∀ c ∈ s.toList, Numeral.isNumeralChar c = true)

include h

theorem not_mem_of_numeral {ds : List Char} (hds : ds.any Numeral.isNumeralChar = false) :
    ∀ c ∈ s.toList, c ∉ ds :=
  fun c hc hmem => List.any_eq_false.mp hds c hmem (h c hc)

theorem numeral : Plain s :=
  word (Java.Bare.balanced (not_mem_of_numeral h rfl)) (not_mem_of_numeral h rfl)

/-- A numeral as a text. -/
theorem quoted : Plain (Text.quote s) := by
  have hquotes : ∀ c ∈ s.toList, c ∉ ['\\', '"'] := not_mem_of_numeral h rfl
  rw [Numeral.quote_numeral h]
  refine word (.quoted fun c hc => by simpa using hquotes c hc) fun c hc => ?_
  have hall : ("\"" ++ s ++ "\"").toList = '"' :: (s.toList ++ ['"']) := by
    simp [String.toList_append]
  rw [hall, List.mem_cons, List.mem_append, List.mem_singleton] at hc
  rcases hc with rfl | hc | rfl
  · decide
  · exact not_mem_of_numeral h rfl c hc
  · decide

end Numerals

end Plain

/-! ## The rule for names -/

/-- The code fits below `depth` loops with the names `env` in scope, and leaves those of the last
list in scope. The names of classes in it satisfy `P`. The operand is read before all else. -/
inductive Scoped (P : String → Prop) : Nat → List LoopName → LoopCode → List LoopName → Prop where
  | text {depth env s} (hs : Plain s) : Scoped P depth env (.text s) env
  | operand {depth} : Scoped P depth [] .operand []
  | name {depth env n} (hn : n ∈ env) : Scoped P depth env (.name n) env
  | seq {depth env env' env'' a b} (ha : Scoped P depth env a env')
      (hb : Scoped P depth env' b env'') : Scoped P depth env (.seq a b) env''
  | round {depth env c} (hc : Scoped P depth env c env) : Scoped P depth env (.round c) env
  | square {depth env c} (hc : Scoped P depth env c env) : Scoped P depth env (.square c) env
  | cast {depth env u} (hu : u.Named P) : Scoped P depth env (.cast u) env
  | create {depth env u} (hu : u.Named P) : Scoped P depth env (.create u) env
  | lambda {depth env env' n body} (hdepth : n.depth = depth) (hnew : n ∉ env)
      (hbody : Scoped P depth (n :: env) body env') : Scoped P depth env (.lambda n body) env
  | var {depth env u n value} (hu : u.Named P) (hdepth : n.depth = depth) (hnew : n ∉ env)
      (hvalue : Scoped P depth env value env) :
      Scoped P depth env (.var u n value) (n :: env)
  | check {depth env length} (hlength : Scoped P depth env length env) :
      Scoped P depth env (.check length) env
  | counted {depth env env' n length step body} (hdepth : n.depth = depth) (hnew : n ∉ env)
      (hlength : Scoped P depth (n :: env) length (n :: env)) (hstep : Plain step)
      (hbody : Scoped P (depth + 1) (n :: env) body env') :
      Scoped P depth env (.counted n length step body) env
  | each {depth env env' u n rows body} (hu : u.Named P) (hdepth : n.depth = depth)
      (hnew : n ∉ env) (hrows : Scoped P depth env rows env)
      (hbody : Scoped P (depth + 1) (n :: env) body env') :
      Scoped P depth env (.each u n rows body) env
  | give {depth env n} (hn : n ∈ env) : Scoped P depth env (.give n) env

/-- The names belong to fewer loops than `depth`. -/
def Below (depth : Nat) (env : List LoopName) : Prop :=
  ∀ n ∈ env, n.depth < depth

namespace Below

variable {depth : Nat} {env : List LoopName}

theorem not_mem (h : Below depth env) (role : LoopRole) : ⟨role, depth⟩ ∉ env :=
  fun hmem => Nat.lt_irrefl depth (h _ hmem)

theorem cons {n : LoopName} (h : Below depth env) (hn : n.depth < depth) : Below depth (n :: env) :=
  List.forall_mem_cons.mpr ⟨hn, h⟩

theorem succ (h : Below depth env) : Below (depth + 1) env :=
  fun n hn => Nat.lt_succ_of_lt (h n hn)

/-- A name of the innermost loop. -/
theorem enter (h : Below (depth + 1) env) (role : LoopRole) :
    Below (depth + 1) (⟨role, depth⟩ :: env) :=
  h.cons (Nat.lt_succ_self depth)

end Below

namespace Scoped

variable {P : String → Prop} {depth : Nat} {env env' : List LoopName} {c : LoopCode}

/-- Names stay in scope up to the end of the code. -/
theorem subset (h : Scoped P depth env c env') : env ⊆ env' := by
  induction h with
  | seq ha hb iha ihb => exact List.Subset.trans iha ihb
  | var => exact List.subset_cons_self _ _
  | _ => exact List.Subset.refl _

/-- What is declared below `depth` loops has that number or a greater one. -/
theorem le_depth (h : Scoped P depth env c env') : ∀ n ∈ c.declared, depth ≤ n.depth := by
  induction h with
  | text | operand | name | cast | create | give => exact fun n hn => absurd hn List.not_mem_nil
  | seq ha hb iha ihb => exact List.forall_mem_append.mpr ⟨iha, ihb⟩
  | round hc ih | square hc ih | check hc ih => exact ih
  | lambda hdepth hnew hbody ih => exact List.forall_mem_cons.mpr ⟨hdepth.ge, ih⟩
  | var hu hdepth hnew hvalue ih => exact List.forall_mem_cons.mpr ⟨hdepth.ge, ih⟩
  | counted hdepth hnew hlength hstep hbody ihlength ihbody =>
    exact List.forall_mem_cons.mpr ⟨hdepth.ge, List.forall_mem_append.mpr
      ⟨ihlength, fun n hn => Nat.le_of_succ_le (ihbody n hn)⟩⟩
  | each hu hdepth hnew hrows hbody ihrows ihbody =>
    exact List.forall_mem_cons.mpr ⟨hdepth.ge, List.forall_mem_append.mpr
      ⟨ihrows, fun n hn => Nat.le_of_succ_le (ihbody n hn)⟩⟩

/-- What is declared within the body of a loop has a greater number than the loop. -/
theorem lt_depth_of_loop (h : Scoped P depth env c env') :
    ∀ l ∈ c.loops, ∀ n ∈ l.2.declared, l.1 < n.depth := by
  induction h with
  | text | operand | name | cast | create | give => exact fun l hl => absurd hl List.not_mem_nil
  | seq ha hb iha ihb => exact List.forall_mem_append.mpr ⟨iha, ihb⟩
  | round hc ih | square hc ih | check hc ih => exact ih
  | lambda hdepth hnew hbody ih => exact ih
  | var hu hdepth hnew hvalue ih => exact ih
  | counted hdepth hnew hlength hstep hbody ihlength ihbody =>
    refine List.forall_mem_cons.mpr ⟨fun n hn => ?_, List.forall_mem_append.mpr ⟨ihlength, ihbody⟩⟩
    exact hdepth ▸ hbody.le_depth n hn
  | each hu hdepth hnew hrows hbody ihrows ihbody =>
    refine List.forall_mem_cons.mpr ⟨fun n hn => ?_, List.forall_mem_append.mpr ⟨ihrows, ihbody⟩⟩
    exact hdepth ▸ hbody.le_depth n hn

/-- What is used is in scope before the code or declared in it, and so is what is in scope behind
it. -/
theorem mem_of_used (h : Scoped P depth env c env') :
    (∀ n ∈ c.used, n ∈ env ∨ n ∈ c.declared) ∧ ∀ n ∈ env', n ∈ env ∨ n ∈ c.declared := by
  induction h with
  | text | operand | cast | create => exact ⟨by simp [LoopCode.used], fun n hn => .inl hn⟩
  | name hn | give hn => exact ⟨by simp [LoopCode.used, hn], fun n hn => .inl hn⟩
  | round hc ih | square hc ih | check hc ih => exact ih
  | seq | lambda | var | counted | each => grind [LoopCode.used, LoopCode.declared]

/-- What is used within the body of a loop is declared in that body, or by the loop or around it. -/
theorem knownIn_loops (h : Scoped P depth env c env') : Below (depth + 1) env →
    Below (depth + 1) env' ∧ LoopCode.KnownIn (fun n => n ∈ env ∨ n ∈ c.declared) c.loops := by
  induction h with
  | text | operand | name | cast | create | give =>
    exact fun henv => ⟨henv, fun l hl => absurd hl List.not_mem_nil⟩
  | round hc ih | square hc ih | check hc ih => exact ih
  | seq ha hb iha ihb =>
    intro henv
    obtain ⟨hmid, hla⟩ := iha henv
    obtain ⟨hout, hlb⟩ := ihb hmid
    have hscope := ha.mem_of_used.2
    refine ⟨hout, List.forall_mem_append.mpr ⟨hla.mono ?_, hlb.mono ?_⟩⟩ <;>
      grind [LoopCode.declared]
  | lambda hdepth hnew hbody ih =>
    intro henv
    obtain ⟨-, hl⟩ := ih (henv.cons (Nat.lt_succ_of_le hdepth.le))
    exact ⟨henv, hl.mono (by grind [LoopCode.declared])⟩
  | var hu hdepth hnew hvalue ih =>
    intro henv
    obtain ⟨-, hl⟩ := ih henv
    exact ⟨henv.cons (Nat.lt_succ_of_le hdepth.le), hl.mono (by grind [LoopCode.declared])⟩
  -- a loop adds its variable for its body, one level further down
  | counted hdepth hnew hlength hstep hbody ihlength ihbody =>
    intro henv
    have hin := henv.cons (Nat.lt_succ_of_le hdepth.le)
    obtain ⟨-, hl⟩ := ihlength hin
    obtain ⟨-, hb⟩ := ihbody hin.succ
    have hused := hbody.mem_of_used.1
    refine ⟨henv, List.forall_mem_cons.mpr ⟨?_, List.forall_mem_append.mpr
      ⟨hl.mono ?_, hb.mono ?_⟩⟩⟩ <;> grind [LoopCode.declared, Below]
  | each hu hdepth hnew hrows hbody ihrows ihbody =>
    intro henv
    have hin := henv.cons (Nat.lt_succ_of_le hdepth.le)
    obtain ⟨-, hr⟩ := ihrows henv
    obtain ⟨-, hb⟩ := ihbody hin.succ
    have hused := hbody.mem_of_used.1
    refine ⟨henv, List.forall_mem_cons.mpr ⟨?_, List.forall_mem_append.mpr
      ⟨hr.mono ?_, hb.mono ?_⟩⟩⟩ <;> grind [LoopCode.declared, Below]

end Scoped

end Conversion

end TypedPerl
