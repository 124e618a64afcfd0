import TypedPerl.Diagnostic
import TypedPerl.Proofs.Numeral.Characters
import TypedPerl.Proofs.Text.Styles

/-!
# Diagnostics in wrapped faults

A fault is wrapped on its way to the report: words are put before it, it is turned into a diagnostic
at a position, and so on in any order. Once it holds a diagnostic, that diagnostic is what every
further step is about: its code, its message and its cause stay, and its position is the first that
is known of its own and those of the later steps (`wrapping_keeps_report`). What a fault was made
from is found below all that is put around it, and what is shown of it is the diagnostic.
-/

namespace TypedPerl

open Text (Unstyled Bars dropStyles dropStylesFrom dropStylesFrom_append dropStylesFrom_unstyled)

/-! ## Positions -/

/-- The first position of which something is known. -/
def Pos.firstKnown (ps : List Pos) : Pos :=
  (ps.find? (· ≠ unknown)).getD unknown

theorem Pos.firstKnown_cons (p : Pos) (ps : List Pos) :
    firstKnown (p :: ps) = if p = unknown then firstKnown ps else p := by
  by_cases h : p = unknown <;> simp [firstKnown, h]

/-- Positions before others count first. -/
theorem Pos.firstKnown_append (p : Pos) (ps qs : List Pos) :
    firstKnown (p :: (ps ++ qs)) = firstKnown (firstKnown (p :: ps) :: qs) := by
  induction ps generalizing p with
  | nil =>
    rw [List.nil_append, firstKnown_cons p []]
    split
    · next h => rw [h]; rfl
    · rfl
  | cons q ps ih =>
    rw [List.cons_append, firstKnown_cons p, firstKnown_cons p]
    split
    · exact ih q
    · next h => rw [firstKnown_cons, if_neg h]

/-- The diagnostic with the first known position of its own and the given ones. -/
def Report.settled (r : Report) (ps : List Pos) : Report :=
  { r with pos := .firstKnown (r.pos :: ps) }

namespace Fault

/-! ## Steps -/

/-- A step by which a fault is wrapped. -/
inductive Wrapping where
  /-- Words are put before it. -/
  | words (text : String)
  /-- It is turned into a diagnostic with a code. -/
  | locate (code : Code) (pos : Pos)
  /-- It is turned into a diagnostic whose code follows from it. -/
  | diagnose (pos : Pos)
deriving Repr

/-- The position that a step gives. -/
def Wrapping.pos? : Wrapping → Option Pos
  | words _ => none
  | locate _ pos | diagnose pos => some pos

/-- The fault after a step. -/
def wrap (f : Fault) : Wrapping → Fault
  | .words text => .context text f
  | .locate code pos => f.locate code pos
  | .diagnose pos => f.diagnose pos

/-- The fault after steps in order. -/
def wrapAll (f : Fault) (steps : List Wrapping) : Fault :=
  steps.foldl wrap f

theorem wrapAll_append (f : Fault) (before after : List Wrapping) :
    f.wrapAll (before ++ after) = (f.wrapAll before).wrapAll after :=
  List.foldl_append

/-- A step that gives a position turns the fault into a diagnostic at it. -/
theorem wrap_of_pos {f : Fault} {step : Wrapping} {pos : Pos} (h : step.pos? = some pos) :
    ∃ code, f.wrap step = f.locate code pos := by
  cases step with
  | words text => cases h
  | locate code p =>
    cases h
    exact ⟨code, rfl⟩
  | diagnose p =>
    cases h
    exact ⟨_, rfl⟩

/-! ## The diagnostic -/

variable {f : Fault} {r : Report} {cause : Option Fault}

/-- A diagnostic is located by giving it a position if it had none. -/
theorem locate_of_report? (h : f.report? = some (r, cause)) (code : Code) (pos : Pos) :
    f.locate code pos = .report (r.settled [pos]) cause := by
  have hpos : Pos.firstKnown [r.pos, pos] = if r.pos = .unknown then pos else r.pos := by
    rw [Pos.firstKnown_cons]
    congr 1
    rw [Pos.firstKnown_cons]
    split
    · next hunknown => exact hunknown.symm
    · rfl
  unfold locate Report.settled
  rw [h, hpos]
  dsimp only
  split <;> rfl

theorem settled_nil (r : Report) : r.settled [] = r := by
  obtain ⟨code, pos, message⟩ := r
  by_cases h : pos = .unknown <;> simp [Report.settled, Pos.firstKnown, h]

theorem settled_settled (r : Report) (ps qs : List Pos) :
    (r.settled ps).settled qs = r.settled (ps ++ qs) := by
  simp only [Report.settled, Pos.firstKnown_append]

/-- A step keeps the diagnostic, up to a position that was not known. -/
theorem wrap_report? (h : f.report? = some (r, cause)) (step : Wrapping) :
    (f.wrap step).report? = some (r.settled step.pos?.toList, cause) := by
  cases hpos : step.pos? with
  | none =>
    cases step with
    | words text => rw [Option.toList_none, settled_nil]; exact h
    | locate code pos => cases hpos
    | diagnose pos => cases hpos
  | some pos =>
    obtain ⟨code, hwrap⟩ := wrap_of_pos (f := f) hpos
    rw [hwrap, locate_of_report? h]
    rfl

/-- So do steps, by induction on them. -/
theorem wrapAll_report? (h : f.report? = some (r, cause)) (steps : List Wrapping) :
    (f.wrapAll steps).report? = some (r.settled (steps.filterMap Wrapping.pos?), cause) := by
  induction steps generalizing f r with
  | nil => rwa [List.filterMap_nil, settled_nil]
  | cons step steps ih =>
    have hrest := ih (wrap_report? h step)
    rw [settled_settled] at hrest
    rw [show f.wrapAll (step :: steps) = (f.wrap step).wrapAll steps from rfl, hrest]
    cases hpos : step.pos? with
    | none => rw [List.filterMap_cons_none hpos, Option.toList_none, List.nil_append]
    | some pos => rw [List.filterMap_cons_some hpos, Option.toList_some, List.singleton_append]

/-- After a step that gives a position, nothing stands around the diagnostic. -/
theorem wrapAll_last (h : f.report? = some (r, cause)) {steps : List Wrapping} {last : Wrapping}
    (hlast : last.pos?.isSome = true) :
    f.wrapAll (steps ++ [last]) =
      .report (r.settled ((steps ++ [last]).filterMap Wrapping.pos?)) cause := by
  obtain ⟨pos, hpos⟩ := Option.isSome_iff_exists.mp hlast
  obtain ⟨code, hwrap⟩ := wrap_of_pos (f := f.wrapAll steps) hpos
  rw [wrapAll_append, show (f.wrapAll steps).wrapAll [last] = (f.wrapAll steps).wrap last from rfl,
    hwrap, locate_of_report? (wrapAll_report? h steps), settled_settled, List.filterMap_append]
  rw [List.filterMap_cons_some hpos, List.filterMap_nil]

/-! ## The cause -/

/-- The fault and all faults inside it, from the outside in. -/
def chain : Fault → List Fault
  | context w inner => context w inner :: inner.chain
  | report r (some c) => report r (some c) :: c.chain
  | f => [f]

/-- The fault is put around another: words before it, or a diagnostic made from it. -/
def isAround : Fault → Bool
  | context _ _ | report _ _ => true
  | _ => false

section Cause

variable {p : Fault → Bool} (hp : ∀ f, p f = true → f.isAround = false)

include hp

theorem find?_context (w : String) (f : Fault) :
    (context w f).chain.find? p = f.chain.find? p := by
  rw [chain, List.find?_cons_of_neg]
  exact fun h => nomatch hp _ h

/-- What is found in a diagnostic is found in its cause. -/
theorem find?_report (r : Report) (cause : Option Fault) :
    (report r cause).chain.find? p = cause.bind fun c => c.chain.find? p := by
  have hnot : ¬p (report r cause) = true := fun h => nomatch hp _ h
  cases cause with
  | none => exact List.find?_cons_of_neg hnot
  | some c => rw [chain, List.find?_cons_of_neg hnot]; rfl

/-- What is found in a fault that holds a diagnostic is found in the cause of the diagnostic. -/
theorem find?_of_report? (h : f.report? = some (r, cause)) :
    f.chain.find? p = cause.bind fun c => c.chain.find? p := by
  fun_induction report? f with
  | case1 r' cause' =>
    cases h
    exact find?_report hp r cause
  | case2 w inner ih => rw [find?_context hp, ih h]
  | case3 f => cases h

theorem find?_locate (f : Fault) (code : Code) (pos : Pos) :
    (f.locate code pos).chain.find? p = f.chain.find? p := by
  cases h : f.report? with
  | some held =>
    rw [locate_of_report? h, find?_report hp, find?_of_report? hp h]
  | none =>
    have hlocate : f.locate code pos = .report ⟨code, pos, f.message⟩ (some f) := by
      rw [locate, h]
    rw [hlocate, find?_report hp]
    rfl

/-- A step leaves what is inside a fault where it is found. -/
theorem find?_wrap (f : Fault) (step : Wrapping) :
    (f.wrap step).chain.find? p = f.chain.find? p := by
  cases step with
  | words text => exact find?_context hp text f
  | locate code pos => exact find?_locate hp f code pos
  | diagnose pos => exact find?_locate hp f _ pos

theorem find?_wrapAll (f : Fault) (steps : List Wrapping) :
    (f.wrapAll steps).chain.find? p = f.chain.find? p := by
  induction steps generalizing f with
  | nil => rfl
  | cons step steps ih => exact (ih (f.wrap step)).trans (find?_wrap hp f step)

end Cause

/-! ## What is shown -/

/-- Without colour a diagnostic is shown by its text. -/
theorem format_of_report? (h : f.report? = some (r, cause)) : f.format false = r.toText := by
  unfold format Report.toText
  rw [h]
  dsimp only
  apply String.toList_injective
  split <;> simp

/-- The texts that a fault is shown by: file, code and message of its diagnostic, or its words. -/
def texts (f : Fault) : List String :=
  match f.report? with
  | some (r, _) => [r.pos.file, r.code.toText, r.message]
  | none => [f.message]

/-- A position has no styles but those of the name of its file. -/
theorem unstyled_toText {pos : Pos} (h : Unstyled pos.file.toList) :
    Unstyled pos.toText.toList := by
  -- a style begins with an escape and a bracket, and neither is written in a number
  have hnumber (i : Int) : Unstyled (':' :: (toString i).toList) := by
    refine .of_not_mem fun hmem => ?_
    rcases List.mem_cons.mp hmem with hcolon | hmem
    · cases hcolon
    · exact Numeral.not_mem_numeral (Numeral.isNumeralChar_int i) rfl hmem
  -- nor can a colon continue a style that the name of the file left open
  have hbars (cs : List Char) : Bars (':' :: cs) := .cons (by decide) cs
  have hline := h.append (hnumber pos.line) (hbars _)
  unfold Pos.toText
  split
  · split
    · simpa [-Int.toString_eq_repr] using hline.append (hnumber pos.column) (hbars _)
    · simpa [-Int.toString_eq_repr] using hline
  · exact h

/-- The label of a diagnostic has no styles but those of its code. -/
theorem unstyled_label {code : String} (h : Unstyled code.toList) :
    Unstyled ("error [" ++ code ++ "]").toList := by
  have hend : Unstyled (code.toList ++ [']']) :=
    h.append (.of_not_mem (by decide)) (.cons (by decide) [])
  have hlabel : ("error [" ++ code ++ "]").toList = "error [".toList ++ (code.toList ++ [']']) := by
    simp
  rw [hlabel]
  exact .behind (by decide) hend

/-- A text between two style sequences is what is left of all three. -/
theorem dropStyles_styled {style text : List Char} (htext : Unstyled text)
    (hstyle : ∀ cs, dropStylesFrom 0 (style ++ cs) = dropStylesFrom 0 cs) (rest : List Char) :
    dropStylesFrom 0 (style ++ text ++ styleOff.toList ++ rest) =
      text ++ dropStylesFrom 0 rest := by
  have hoff : styleOff.toList ++ rest = Text.escape :: ("[0m".toList ++ rest) := rfl
  rw [List.append_assoc, List.append_assoc, hstyle, dropStylesFrom_append htext]
  · rfl
  · rw [hoff]
    exact .cons (by decide) _

/-- The colours of a fault are all that is added to its text. -/
theorem dropStyles_format (f : Fault) (h : ∀ s ∈ f.texts, Unstyled s.toList) :
    dropStyles (f.format true) = f.format false := by
  unfold texts at h
  unfold format dropStyles
  cases hreport : f.report? with
  | none =>
    rw [hreport] at h
    have hmessage : Unstyled f.message.toList := h _ (List.mem_singleton_self _)
    rw [dropStylesFrom_unstyled hmessage, String.ofList_toList]
  | some held =>
    obtain ⟨r, cause⟩ := held
    rw [hreport] at h
    have hplace : Unstyled r.pos.toText.toList := unstyled_toText (h _ (by simp))
    have hlabel := unstyled_label (h r.code.toText (by simp))
    have hmessage : Unstyled ((": " ++ r.message).toList) := by
      rw [String.toList_append]
      exact .behind (by decide) (h r.message (by simp))
    -- the label and the message are the same with and without a position before them
    have hend : dropStylesFrom 0 (redOn.toList ++ ("error [" ++ r.code.toText ++ "]").toList ++
        styleOff.toList ++ (": " ++ r.message).toList) =
        ("error [" ++ r.code.toText ++ "]").toList ++ (": " ++ r.message).toList := by
      rw [dropStyles_styled hlabel (fun cs => rfl), dropStylesFrom_unstyled hmessage]
    apply String.toList_injective
    rw [String.toList_ofList]
    by_cases hpos : r.pos.toText = ""
    · simpa [hpos] using hend
    · have hcolon : Unstyled (": ".toList) := .of_not_mem (by decide)
      have hbars : Bars (redOn.toList ++ ("error [" ++ r.code.toText ++ "]").toList ++
          styleOff.toList ++ (": " ++ r.message).toList) := by
        exact .cons (by decide) _
      have hbold (cs : List Char) :
          dropStylesFrom 0 (boldOn.toList ++ cs) = dropStylesFrom 0 cs := rfl
      have hall := dropStyles_styled hplace hbold (": ".toList ++ (redOn.toList ++
        ("error [" ++ r.code.toText ++ "]").toList ++ styleOff.toList ++
        (": " ++ r.message).toList))
      rw [dropStylesFrom_append hcolon hbars, hend] at hall
      simpa [hpos] using hall

/-- Steps around a fault that holds a diagnostic leave its code, message and cause as they are, and
its position too if it was known; else the first position of the steps that is known becomes its
own. Nothing else is left around it by a step that gives a position, and it is what is shown of the
fault. All steps leave the faults that a fault was made from where they are found, and colours are
all that is added to what is shown without them. -/
theorem wrapping_keeps_report (f : Fault) (before after : List Wrapping) :
    let g := f.wrapAll (before ++ after)
    (∀ r cause, (f.wrapAll before).report? = some (r, cause) →
      let d := r.settled (after.filterMap Wrapping.pos?)
      g.report? = some (d, cause) ∧
        (after.getLast?.any (fun last => last.pos?.isSome) = true → g = .report d cause) ∧
        g.format false = d.toText) ∧
      (∀ p : Fault → Bool, (∀ x, p x = true → x.isAround = false) →
        g.chain.find? p = f.chain.find? p) ∧
      ((∀ s ∈ g.texts, Unstyled s.toList) → dropStyles (g.format true) = g.format false) := by
  refine ⟨fun r cause h => ?_, fun p hp => find?_wrapAll hp f _, dropStyles_format _⟩
  have hreport := wrapAll_report? h after
  rw [wrapAll_append]
  refine ⟨hreport, fun hlast => ?_, format_of_report? hreport⟩
  -- the outermost wrapping decides what stands outside, so the last one is taken apart
  cases hend : after.getLast? with
  | none =>
    rw [hend] at hlast
    cases hlast
  | some last =>
    rw [hend] at hlast
    obtain ⟨early, rfl⟩ := List.getLast?_eq_some_iff.mp hend
    exact wrapAll_last h hlast

/-- A fault that becomes a diagnostic where no position is known, and is then wrapped at two. -/
def lateSteps : List Wrapping × List Wrapping :=
  ([.words "list", .locate .incompatible .unknown],
    [.words "call", .diagnose ⟨"b.pl", 3, 1⟩, .words "unit", .locate .undeclared ⟨"c.pl", 9, 9⟩])

theorem lateSteps_keep_report :
    let f := Fault.plain "no row"
    let d : Report := ⟨.incompatible, ⟨"b.pl", 3, 1⟩, "list: no row"⟩
    let g := f.wrapAll (lateSteps.1 ++ lateSteps.2)
    (f.wrapAll lateSteps.1).report? =
        some (⟨.incompatible, .unknown, "list: no row"⟩, some (.context "list" f)) ∧
      g = .report d (some (.context "list" f)) ∧
      g.format false = "b.pl:3:1: error [T001]: list: no row" ∧
      g.chain.find? (fun x => !x.isAround) = some f ∧
      (∀ s ∈ g.texts, Unstyled s.toList) ∧ dropStyles (g.format true) = g.format false := by
  intro f d g
  obtain ⟨hreport, hcause, hstyles⟩ := wrapping_keeps_report f lateSteps.1 lateSteps.2
  have hearly : (f.wrapAll lateSteps.1).report? =
      some (⟨.incompatible, .unknown, "list: no row"⟩, some (.context "list" f)) := rfl
  -- the names the report is put together from are plain, so only the styles of the diagnostic are
  -- dropped
  have hunstyled : ∀ s ∈ g.texts, Unstyled s.toList := by
    have htexts : g.texts = ["b.pl", "T001", "list: no row"] := rfl
    rw [htexts]
    intro s hs
    apply Unstyled.of_not_mem
    revert s
    decide
  obtain ⟨-, hlast, hshown⟩ := hreport _ _ hearly
  refine ⟨hearly, hlast rfl, hshown.trans ?_, hcause _ fun x hx => ?_, hunstyled, hstyles hunstyled⟩
  · decide
  · simpa using hx

end Fault

end TypedPerl
