import TypedPerl.Compile.Unit
import TypedPerl.Proofs.Access.Captured

/-!
# How often the container of an element is evaluated

Where an element is read and written, the value that is stored holds the read. The container is
evaluated for the store, then the key, and then the value. Whether a variable holds the container
for the read is decided by the container alone: if it may be evaluated twice, it is, on either side
of the key. So an effect of the key can lead the read to another container. In `$a[$i][$i++] += 1`
the row that is read is the one behind the row that is written.
-/

namespace TypedPerl

/-- The length of a text whose holes are filled with the same code. -/
theorem Template.length_fill_replicate (t : Template) (code : String) :
    (t.fill (List.replicate t.holes code)).length =
      (t.fill []).length + t.holes * code.length := by
  induction t with
  | nil => simp [holes, fill]
  | cons piece t ih =>
    cases piece with
    | some s =>
      have hholes : holes (some s :: t) = holes t := by simp [holes]
      rw [hholes, fill, fill, String.length_append, String.length_append, ih, Nat.add_assoc]
    | none =>
      have hholes : holes (none :: t) = holes t + 1 := by simp [holes]
      rw [hholes, List.replicate_succ, fill, fill, String.length_append, ih, Nat.succ_mul]
      omega

namespace Path

open Conversion (helper)

/-- The path with other code for its base. -/
def withBase (p : Path) (code : String) : Path :=
  { p with base := p.base.withCode code }

/-- The text of an update: the store of a value that holds the read. -/
def updateText (nullChecks : Bool) (p : Path) (st : AccessState) (pre post : String) :
    Except Fault String := do
  let (rw, _) ← p.readWrite nullChecks st
  return rw.write (pre ++ rw.read.code ++ post)

/-- The update evaluates the container `n` times: whatever the code of the base is, the text has the
code of the container in `n` places, and is otherwise the same. -/
def EvaluatesContainer (nullChecks : Bool) (p : Path) (st : AccessState) (pre post : String)
    (n : Nat) : Prop :=
  ∃ t : Template, t.holes = n ∧ ∀ code, ∃ cont, (p.withBase code).container = .ok cont ∧
    (p.withBase code).updateText nullChecks st pre post = .ok (t.fill (List.replicate n cont.code))

variable {nullChecks : Bool} {p : Path} {st st' : AccessState} {pre post : String}

/-! ## The container of another base -/

/-- What an operand with other code refers to differs in the code only. -/
theorem referent_withCode (o : Operand) :
    ∃ g, Wraps g ∧ ∀ code, (o.withCode code).referent = o.referent.withCode (g code) := by
  obtain ⟨r, g, -, hg, heq⟩ := Conversion.referent_holds o
  have hown : o.referent = r.withCode (g o.code) := heq o.code
  exact ⟨g, hg, fun code => by rw [hown]; exact heq code⟩

/-- So does what a path reaches from it. -/
theorem reached_withBase {cont : Operand} (h : p.reached = .ok cont) :
    ∃ g, Wraps g ∧ ∀ code, (p.withBase code).reached = .ok (cont.withCode (g code)) := by
  obtain ⟨g, hg, hreferent⟩ := referent_withCode p.base
  unfold reached at h
  split at h
  · next hdirect =>
    cases h
    have hreached (code : String) : (p.withBase code).reached =
        .ok (if p.base.raw && p.base.isRef then (p.base.withCode code).referent
          else p.base.withCode code) := if_pos hdirect
    split
    -- an element that holds a container is that container, and any other base is one itself
    · next hraw => exact ⟨g, hg, fun code => by rw [hreached, if_pos hraw, hreferent]⟩
    · next hraw => exact ⟨fun code => code, .id, fun code => by rw [hreached, if_neg hraw]⟩
  · next hindirect =>
    have hother (code : String) :
        ¬(!(p.withBase code).throughRef && !(p.withBase code).deref) = true := hindirect
    have hbase (code : String) : (p.withBase code).base = p.base.withCode code := rfl
    have hsame (code : String) : (p.base.withCode code).type = p.base.type := rfl
    split at h
    · next e htype =>
      cases h
      refine ⟨g, hg, fun code => ?_⟩
      rw [reached, if_neg (hother code), hbase, hsame, htype, ← hreferent]
    · next htype =>
      cases h
      have hcell (code : String) : (p.withBase code).boxCell =
          Java.castTo (some p.assumedReferent.refTo) (helper "toRef" code) := rfl
      refine ⟨fun code => (p.withBase code).boxCell ++ ".get()", ?_, fun code => ?_⟩
      · simp only [hcell]
        exact .behind (.castTo _ (.helper "toRef" .id)) ".get()"
      · rw [reached, if_neg (hother code), hbase, hsame, htype]
        rfl
    · cases h

/-- The container of an element of a path with another base. -/
theorem container_withBase {cont : Operand} (hderef : p.deref = false)
    (h : p.container = .ok cont) :
    ∃ g, Wraps g ∧ ∀ code, (p.withBase code).container = .ok (cont.withCode (g code)) := by
  -- without a dereference, the container is what is reached, when it fits the brackets
  have hcontainer (q : Path) (hq : q.deref = false) : q.container = (do
      let cont ← q.reached
      if cont.isAggregate && q.brace == cont.type.any Ty.isMap then return cont
      else throw (.incompatible cont.type (some q.assumedReferent))) := by
    simp [container, hq]
  rw [hcontainer p hderef] at h
  rcases hreached : p.reached with f | reached
  · rw [hreached] at h
    cases h
  · simp only [hreached, bind, Except.bind] at h
    split at h
    · next hsuits =>
      cases h
      obtain ⟨g, hg, hother⟩ := reached_withBase hreached
      refine ⟨g, hg, fun code => ?_⟩
      rw [hcontainer (p.withBase code) hderef, hother]
      exact if_pos hsuits
    · cases h

/-! ## The text of an update -/

theorem elementCode_split (t : Option Ty) (key : String) :
    ∃ last, ∀ cont, elementCode cont t key = cont ++ last := by
  unfold elementCode
  split
  · exact ⟨"[" ++ key ++ "]", fun cont => by simp [String.append_assoc]⟩
  · exact ⟨".get(" ++ key ++ ")", fun cont => by simp [String.append_assoc]⟩

theorem storeCode_split (t : Option Ty) (key : String) :
    ∃ middle last, ∀ cont value, storeCode cont t key value = cont ++ middle ++ value ++ last := by
  unfold storeCode
  split
  · exact ⟨"[" ++ key ++ "] = ", "", fun cont value => by simp [String.append_assoc]⟩
  · split
    · exact ⟨".set(" ++ key ++ ", ", ")", fun cont value => by simp [String.append_assoc]⟩
    · exact ⟨".put(" ++ key ++ ", ", ")", fun cont value => by simp [String.append_assoc]⟩

/-- The text of an update of an element, from the code of its container and its key. -/
def updateCode (p : Path) (t : Option Ty) (k : String) (kt : Ty) (st : AccessState)
    (pre post cont : String) : String :=
  let ((rb, wb), st) := pieceOnce p.baseRepeatable t cont st
  let ((rk, wk), _) := pieceOnce p.keysRepeatable (some kt) k st
  storeCode wb t wk (pre ++ elementCode rb t rk ++ post)

/-- The code of the container has one place in the text if a variable holds it, and else two: one on
either side of the key of the store. -/
theorem updateCode_places (p : Path) (t : Option Ty) (k : String) (kt : Ty) (st : AccessState)
    (pre post : String) :
    ∃ text : Template, text.holes = (if p.baseRepeatable then 2 else 1) ∧
      ∀ cont, p.updateCode t k kt st pre post cont =
        text.fill (List.replicate text.holes cont) := by
  let key (st : AccessState) : String × String := (pieceOnce p.keysRepeatable (some kt) k st).1
  cases hrepeatable : p.baseRepeatable with
  | true =>
    have htext (cont : String) : p.updateCode t k kt st pre post cont =
        storeCode cont t (key st).2 (pre ++ elementCode cont t (key st).1 ++ post) := by
      rw [updateCode, hrepeatable]
      rfl
    obtain ⟨tail, hread⟩ := elementCode_split t (key st).1
    obtain ⟨middle, last, hstore⟩ := storeCode_split t (key st).2
    refine ⟨[none, some (middle ++ pre), none, some (tail ++ post ++ last)], rfl, fun cont => ?_⟩
    rw [htext, hstore, hread]
    simp [Template.holes, Template.fill, List.replicate_succ, String.append_assoc]
  | false =>
    -- the variable and the state behind it do not depend on the code that it holds
    let a := (st.table.auxiliary "").1
    let st₁ := (capture t "" st).2
    have htext (cont : String) : p.updateCode t k kt st pre post cont =
        storeCode (Java.paren (a ++ " = " ++ cont)) t (key st₁).2
          (pre ++ elementCode a t (key st₁).1 ++ post) := by
      rw [updateCode, hrepeatable]
      rfl
    obtain ⟨middle, last, hstore⟩ := storeCode_split t (key st₁).2
    refine ⟨[some ("(" ++ a ++ " = "), none,
      some (")" ++ middle ++ (pre ++ elementCode a t (key st₁).1 ++ post) ++ last)], rfl,
      fun cont => ?_⟩
    rw [htext, hstore]
    simp [Java.paren, Template.holes, Template.fill, List.replicate_succ, String.append_assoc]

/-- The update of an element by its container and key. -/
theorem updateText_eq {cont : Operand} {k : String} {kt : Ty} (hderef : p.deref = false)
    (hmulti : p.isMulti = false) (hcont : p.container = .ok cont)
    (hkey : p.key nullChecks cont.type = .ok (k, kt)) :
    p.updateText nullChecks st pre post =
      .ok (p.updateCode cont.type k kt st pre post cont.code) := by
  simp [updateText, readWrite, updateCode, hderef, hmulti, hcont, hkey, code_ofElement, bind,
    Except.bind, pure, Except.pure]

/-! ## How often the container is evaluated -/

/-- An element has its container in a fixed number of places. -/
theorem evaluatesContainer_places {rw : ReadWrite} (hderef : p.deref = false)
    (hrw : p.readWrite nullChecks st = .ok (rw, st')) (pre post : String) :
    p.EvaluatesContainer nullChecks st pre post (if p.baseRepeatable then 2 else 1) := by
  obtain ⟨hmulti, cont, k, kt, -, -, -, -, -, hcont, hkey, -⟩ := readWrite_element hderef hrw
  obtain ⟨g, -, hother⟩ := container_withBase hderef hcont
  obtain ⟨text, hholes, hfill⟩ := updateCode_places p cont.type k kt st pre post
  refine ⟨text, hholes, fun code => ⟨_, hother code, ?_⟩⟩
  rw [← hholes, ← hfill]
  exact updateText_eq (p := p.withBase code) hderef hmulti (hother code) hkey

/-- The number of places can be read off the lengths of the texts. -/
theorem evaluatesContainer_unique {cont : Operand} (hderef : p.deref = false)
    (hcont : p.container = .ok cont) {n m : Nat}
    (hn : p.EvaluatesContainer nullChecks st pre post n)
    (hm : p.EvaluatesContainer nullChecks st pre post m) : n = m := by
  obtain ⟨t, rfl, ht⟩ := hn
  obtain ⟨u, rfl, hu⟩ := hm
  obtain ⟨g, ⟨before, behind, hg⟩, hother⟩ := container_withBase hderef hcont
  have hlengths (code : String) : (t.fill []).length + t.holes * (g code).length =
      (u.fill []).length + u.holes * (g code).length := by
    obtain ⟨c, hc, htext⟩ := ht code
    obtain ⟨c', hc', htext'⟩ := hu code
    obtain rfl := Except.ok.inj (hc.symm.trans (hother code))
    obtain rfl := Except.ok.inj (hc'.symm.trans (hother code))
    rw [← Template.length_fill_replicate, ← Template.length_fill_replicate]
    exact congrArg String.length (Except.ok.inj (htext.symm.trans htext'))
  have hlonger : (g "x").length = (g "").length + 1 := by
    rw [hg, hg, String.length_append, String.length_append, String.length_append,
      String.length_append, show "x".length = 1 from rfl, show "".length = 0 from rfl]
    omega
  -- one more character in the base is one more in every place
  have hshort := hlengths ""
  have hlong := hlengths "x"
  rw [hlonger, Nat.mul_succ, Nat.mul_succ] at hlong
  omega

/-- An element that is read and written has its container evaluated at most once exactly if the
container is one that may not be evaluated twice, whatever the key does. -/
theorem container_evaluated_once_iff {rw : ReadWrite} (hderef : p.deref = false)
    (hrw : p.readWrite nullChecks st = .ok (rw, st')) (pre post : String) :
    (∃ n ≤ 1, p.EvaluatesContainer nullChecks st pre post n) ↔ p.baseRepeatable = false := by
  obtain ⟨-, cont, -, -, -, -, -, -, -, hcont, -⟩ := readWrite_element hderef hrw
  have hplaces := evaluatesContainer_places hderef hrw pre post
  constructor
  · rintro ⟨n, hn, hevaluates⟩
    have hcount := evaluatesContainer_unique hderef hcont hevaluates hplaces
    rw [Bool.eq_false_iff]
    intro hrepeatable
    rw [if_pos hrepeatable] at hcount
    omega
  · intro hheld
    exact ⟨1, le_rfl, by simpa [hheld] using hplaces⟩

/-- The list that a call gives is held in a variable. -/
theorem calledElement_evaluated_once :
    ∃ rw st', calledElement.deref = false ∧
      calledElement.readWrite false ⟨{ registry := {} }, {}⟩ = .ok (rw, st') ∧
      calledElement.updateText false ⟨{ registry := {} }, {}⟩ "(" " + 1)" =
        .ok "(pd_1 = f()).set((pd_2 = g()), (pd_1.get(pd_2) + 1))" ∧
      ∃ n ≤ 1, calledElement.EvaluatesContainer false ⟨{ registry := {} }, {}⟩ "(" " + 1)" n := by
  have hrw : calledElement.readWrite false ⟨{ registry := {} }, {}⟩ = .ok (_, _) := rfl
  exact ⟨_, _, rfl, hrw, congrArg Except.ok (by decide +kernel),
    (container_evaluated_once_iff rfl hrw "(" " + 1)").mpr rfl⟩

end Path

namespace Compile

/-- The element `$a[$i][$i++]`. -/
def steppedElement : Expr :=
  let i (id : Nat) : Expr := .var { info := ⟨id, default⟩, name := "i", sigil := .scalar }
  .index ⟨7, default⟩ false
    (.index ⟨8, default⟩ false (.var { info := ⟨9, default⟩, name := "a", sigil := .array }) (i 10)
      false .scalar)
    (.incDec ⟨11, default⟩ "++" false (i 12)) false .scalar

/-- An update of the element,
`my $i <integer>; my @a <array><array><integer>; $a[$i][$i++] += 1;`. -/
def steppedRows : SourceUnit where
  file := "rows.pl"
  className := ""
  stmts :=
    [.expr ⟨1, default⟩
        (.var { info := ⟨2, default⟩, name := "i", sigil := .scalar, decl := .my,
                type := some .integer }),
      .expr ⟨3, default⟩
        (.var { info := ⟨4, default⟩, name := "a", sigil := .array, decl := .my,
                type := some (.arrayOf (.arrayOf .integer)) }),
      .expr ⟨5, default⟩
        (.assign ⟨6, default⟩ "+=" steppedElement (.number ⟨13, default⟩ "1"))]

/-- The state behind the update, in which the parts of the element are generated. -/
def steppedState : State :=
  (tree {} none {} 1 steppedRows).state

/-- The row depends on `$i`, and by itself it may be evaluated twice. It is, before the key steps
`$i` and behind it. -/
theorem steppedElement_evaluated_twice :
    ∃ p rw st', pathOf steppedState steppedElement = .ok p ∧ p.deref = false ∧
      p.keysRepeatable = false ∧
      p.readWrite false steppedState.toAccessState = .ok (rw, st') ∧
      (¬∃ n ≤ 1, p.EvaluatesContainer false steppedState.toAccessState "(" " + 1)" n) ∧
      (steppedState.output 6).code = "a[i][(pd_1 = (i++))] = (a[i][pd_1] + 1)" := by
  have hpath : (match pathOf steppedState steppedElement with
      | .ok p => !p.deref && !p.keysRepeatable && p.baseRepeatable &&
          (p.readWrite false steppedState.toAccessState).isOk
      | .error _ => false) = true := by decide +kernel
  rcases hp : pathOf steppedState steppedElement with f | p
  · rw [hp] at hpath
    cases hpath
  · simp only [hp, Bool.and_eq_true, Bool.not_eq_true'] at hpath
    obtain ⟨⟨⟨hderef, hkeys⟩, hbase⟩, hok⟩ := hpath
    rcases hrw : p.readWrite false steppedState.toAccessState with f | ⟨rw, st'⟩
    · rw [hrw] at hok
      cases hok
    · refine ⟨p, rw, st', rfl, hderef, hkeys, hrw, ?_, by decide +kernel⟩
      -- the number of places in the code is determined, and it is two here
      obtain ⟨-, cont, -, -, -, -, -, -, -, hcont, -⟩ := Path.readWrite_element hderef hrw
      have htwice := Path.evaluatesContainer_places hderef hrw "(" " + 1)"
      rw [if_pos hbase] at htwice
      rintro ⟨n, hn, honce⟩
      have hcount := Path.evaluatesContainer_unique hderef hcont honce htwice
      omega

end Compile

end TypedPerl
