import TypedPerl.Proofs.Java.SourceText
import TypedPerl.Proofs.Text.Split
import TypedPerl.Proofs.Walk.Hoisting

/-!
# Comments stay comments

A comment of the source is written line by line (`Compile.commentCode`), each line behind the mark of
a comment. The target ends lines in more places: at carriage returns, and where a unicode escape
stands for the end of a line. The code is nothing but comments exactly when each line of the comment
stays one (`comment_stays_iff`), which it does if it holds neither a carriage return nor the beginning
of a unicode escape (`stays_of_plainText`).
-/

namespace TypedPerl

namespace Java

/-! ## Code of comments only -/

/-- The line is empty or a comment from its start on. -/
def IsCommentLine (l : List UInt16) : Prop :=
  l = [] ∨ [unit '/', unit '/'] <+: l

instance : DecidablePred IsCommentLine :=
  fun l => inferInstanceAs (Decidable (l = [] ∨ [unit '/', unit '/'] <+: l))

/-- The lines of a source text, if its unicode escapes are well formed. -/
def sourceLines? (code : String) : Option (List (List UInt16)) :=
  (translate? code).map (lines false)

/-- The source text is well formed and holds nothing but comments. -/
def CommentOnly (code : String) : Prop :=
  ∃ ls, sourceLines? code = some ls ∧ ∀ l ∈ ls, IsCommentLine l

/-- Behind the mark of a comment the text is well formed and holds nothing but comments: its first
line belongs to the comment, and the others are comments of their own. -/
def Stays (body : String) : Prop :=
  ∃ ls, sourceLines? body = some ls ∧ ∀ l ∈ ls.tail, IsCommentLine l

instance (code : String) : Decidable (CommentOnly code) :=
  match h : sourceLines? code with
  | none => isFalse fun ⟨_, hls, _⟩ => nomatch h.symm.trans hls
  | some ls => decidable_of_iff (∀ l ∈ ls, IsCommentLine l)
      ⟨fun hall => ⟨ls, h, hall⟩,
        fun ⟨_, hls, hall⟩ => Option.some_inj.mp (hls.symm.trans h) ▸ hall⟩

theorem isPlain_lineFeed : IsPlain '\n' :=
  ⟨by decide, by decide, by decide⟩

theorem translate?_line (x y : String) : translate? (x ++ "\n" ++ y) =
    (translate? x).bind fun u => (translate? y).map fun v => u ++ lineFeed :: v := by
  have hchars : (x ++ "\n" ++ y).toList = x.toList ++ '\n' :: y.toList := by simp
  have hunit : charUnits '\n' = [lineFeed] := rfl
  rw [translate?, hchars, isPlain_lineFeed.scan_append, hunit]
  simp only [List.append_assoc, List.singleton_append]
  rfl

theorem commentOnly_line (x y : String) :
    CommentOnly (x ++ "\n" ++ y) ↔ CommentOnly x ∧ CommentOnly y := by
  unfold CommentOnly sourceLines?
  rw [translate?_line]
  cases translate? x with
  | none => simp
  | some u =>
    cases translate? y with
    | none => simp
    | some v => simpa using forall_lines_append (.inl rfl) u v

theorem commentOnly_empty : CommentOnly "" :=
  ⟨[[]], rfl, by simp [IsCommentLine]⟩

/-- Lines are comments when each of them is. -/
theorem commentOnly_join (ls : List String) :
    CommentOnly (Text.join "\n" ls) ↔ ∀ l ∈ ls, CommentOnly l := by
  induction ls with
  | nil => exact iff_of_true commentOnly_empty (by simp)
  | cons l rest ih =>
    cases rest with
    | nil => simp [Text.join]
    | cons l' rest =>
      rw [Text.join, String.intercalate_cons_cons, commentOnly_line, List.forall_mem_cons]
      exact and_congr_right' ih

theorem translate?_slash (s : String) :
    translate? ("/" ++ s) = (translate? s).map (unit '/' :: ·) := by
  have hstep : escapes.step .text '/' = some ([unit '/'], .text) := rfl
  rw [translate?, String.toList_append]
  exact Scanner.scan_cons hstep s.toList

/-- The mark of a comment makes the first line a comment. -/
theorem commentOnly_mark (rest : String) : CommentOnly ("//" ++ rest) ↔ Stays rest := by
  have hcode : "//" ++ rest = "/" ++ ("/" ++ rest) := by
    rw [← String.append_assoc]
    rfl
  have hslash : unit '/' ≠ lineFeed ∧ unit '/' ≠ carriageReturn := by decide
  unfold CommentOnly Stays sourceLines?
  rw [hcode, translate?_slash, translate?_slash]
  cases translate? rest with
  | none => simp
  | some us =>
    -- the two slashes belong to the first line, whatever follows them
    have hlines : lines false (unit '/' :: unit '/' :: us) =
        (lines false us).modifyHead (unit '/' :: unit '/' :: ·) := by
      simp [lines, hslash, List.modifyHead_modifyHead, Function.comp_def]
    obtain ⟨first, rest, hfirst⟩ := exists_lines_eq_cons us
    have hcomment : IsCommentLine (unit '/' :: unit '/' :: first) :=
      .inr (List.prefix_append [unit '/', unit '/'] first)
    simp [hlines, hfirst, hcomment]

/-- A blank behind the mark belongs to the comment. -/
theorem stays_blank (rest : String) : Stays (" " ++ rest) ↔ Stays rest := by
  have hstep : escapes.step .text ' ' = some ([unit ' '], .text) := rfl
  have htranslate : translate? (" " ++ rest) = (translate? rest).map (unit ' ' :: ·) := by
    rw [translate?, String.toList_append]
    exact Scanner.scan_cons hstep rest.toList
  have hblank : unit ' ' ≠ lineFeed ∧ unit ' ' ≠ carriageReturn := by decide
  unfold Stays sourceLines?
  rw [htranslate]
  cases translate? rest with
  | none => simp
  | some us =>
    obtain ⟨first, more, hfirst⟩ := exists_lines_eq_cons us
    simp [lines, hblank, hfirst]

/-! ## Texts without ends of lines -/

/-- Without the beginning of a unicode escape a text is translated to its code units. -/
theorem scan_of_noEscape (cs : List Char) :
    (¬['\\', 'u'] <:+: cs → escapes.scan .text cs = some (cs.flatMap charUnits)) ∧
    (¬['\\', 'u'] <:+: '\\' :: cs →
      escapes.scan .backslash cs = some (charUnits '\\' ++ cs.flatMap charUnits)) := by
  induction cs with
  | nil => exact ⟨fun _ => rfl, fun _ => rfl⟩
  | cons c cs ih =>
    obtain ⟨htext, hbackslash⟩ := ih
    have htail {ds : List Char} (h : ¬['\\', 'u'] <:+: c :: ds) : ¬['\\', 'u'] <:+: ds :=
      fun hds => h (hds.trans (List.suffix_cons c ds).isInfix)
    -- the two places take turns, so that both are shown at once
    constructor
    · intro h
      by_cases hc : c = '\\'
      · subst hc
        have hstep : escapes.step .text '\\' = some ([], .backslash) := rfl
        rw [Scanner.scan_cons hstep, hbackslash h]
        rfl
      · have hstep : escapes.step .text c = some (charUnits c, .text) := by simp [escapes, hc]
        rw [Scanner.scan_cons hstep, htext (htail h)]
        rfl
    · intro h
      have hc : c ≠ 'u' := by
        rintro rfl
        exact h ⟨[], cs, rfl⟩
      have hstep : escapes.step .backslash c = some (charUnits '\\' ++ charUnits c, .text) := by
        simp [escapes, hc]
      have hcs : ¬['\\', 'u'] <:+: cs :=
        fun hds => h ((hds.trans (List.suffix_cons c cs).isInfix).trans
          (List.suffix_cons _ _).isInfix)
      rw [Scanner.scan_cons hstep, htext hcs]
      simp

/-- A text without the ends of lines is one line. -/
theorem lines_of_not_mem {us : List UInt16} (h : ∀ w ∈ us, w ≠ lineFeed ∧ w ≠ carriageReturn) :
    lines false us = [us] := by
  induction us with
  | nil => rfl
  | cons w us ih =>
    obtain ⟨hw, hus⟩ := List.forall_mem_cons.mp h
    simp [lines, hw, ih hus]

/-- On one line of the source, a text without carriage returns and without the beginning of a unicode
escape stays in its comment. -/
theorem stays_of_plain {body : String} (hfeed : '\n' ∉ body.toList) (hreturn : '\r' ∉ body.toList)
    (hescape : ¬['\\', 'u'] <:+: body.toList) : Stays body := by
  have hunits : ∀ w ∈ body.toList.flatMap charUnits, w ≠ lineFeed ∧ w ≠ carriageReturn := by
    intro w hw
    obtain ⟨c, hc, hw⟩ := List.mem_flatMap.mp hw
    constructor
    · rintro rfl
      exact hfeed (eq_of_unit_mem (by decide) hw ▸ hc)
    · rintro rfl
      exact hreturn (eq_of_unit_mem (by decide) hw ▸ hc)
  refine ⟨[body.toList.flatMap charUnits], ?_, by simp⟩
  rw [sourceLines?, translate?, (scan_of_noEscape body.toList).1 hescape, Option.map_some,
    lines_of_not_mem hunits]

end Java

/-! ## Comments of the source -/

namespace Compile

open Java (CommentOnly Stays)

/-- The text without the blanks at its end. -/
def trimEnd (s : String) : String :=
  String.ofList (s.toList.reverse.dropWhile (· = ' ')).reverse

/-- The lines of a comment, but for empty ones at its end. -/
def commentLines (text : String) : List String :=
  (String.ofList (text.toList.reverse.dropWhile (· = '\n')).reverse).splitOn "\n"

/-- What a line of a comment says: it without the mark of a comment and the blanks at its end. -/
def commentBody (line : String) : String :=
  trimEnd ((Text.dropLeading? "#" line).getD line)

/-- A line of a comment as a line of code. -/
def commentLine (line : String) : String :=
  trimEnd ("// " ++ (Text.dropLeading? "#" line).getD line)

theorem trimmed_begins (p : Char → Bool) (cs : List Char) :
    (cs.reverse.dropWhile p).reverse <+: cs := by
  rw [← List.reverse_suffix, List.reverse_reverse]
  exact List.dropWhile_suffix p

/-- Behind a mark that does not end with a blank, blanks are taken off what stands behind it. -/
theorem trimEnd_mark (s : String) :
    trimEnd ("// " ++ s) = "//" ++ (if trimEnd s = "" then "" else " " ++ trimEnd s) := by
  have hchars : ("// " ++ s).toList.reverse = s.toList.reverse ++ [' ', '/', '/'] := by simp
  rw [trimEnd, trimEnd, hchars, List.dropWhile_append]
  rcases hs : s.toList.reverse.dropWhile (· = ' ') with _ | ⟨c, cs⟩
  · rfl
  · apply String.toList_injective
    simp

/-- The code of a comment is nothing but comments exactly when what each line says stays in its
comment. -/
theorem commentOnly_commentCode (text : String) :
    CommentOnly (commentCode text) ↔ ∀ l ∈ commentLines text, Stays (commentBody l) := by
  have hline (l : String) : CommentOnly (commentLine l) ↔ Stays (commentBody l) := by
    rw [commentLine, trimEnd_mark, Java.commentOnly_mark, ← commentBody]
    split
    · next h => rw [h]
    · exact Java.stays_blank _
  have hcode : commentCode text = Text.join "\n" ((commentLines text).map commentLine) := rfl
  rw [hcode, Java.commentOnly_join, List.forall_mem_map]
  exact forall₂_congr fun l _ => hline l

/-- Every line of a comment without carriage returns and beginnings of unicode escapes stays. -/
theorem stays_of_plainText {text : String} (hreturn : '\r' ∉ text.toList)
    (hescape : ¬['\\', 'u'] <:+: text.toList) : ∀ l ∈ commentLines text, Stays (commentBody l) := by
  intro l hl
  obtain ⟨hline, hfeed⟩ := Text.of_mem_splitOn '\n' hl
  -- the body is a part of its line, and the line a part of the text
  have hbody : (commentBody l).toList <:+: l.toList := by
    have htrimmed : ((Text.dropLeading? "#" l).getD l).toList <:+ l.toList := by
      unfold Text.dropLeading?
      split
      · rw [Option.getD_some, String.toList_ofList]
        exact List.drop_suffix _ _
      · exact List.suffix_refl _
    rw [commentBody, trimEnd, String.toList_ofList]
    exact (trimmed_begins _ _).isInfix.trans htrimmed.isInfix
  have htext : l.toList <:+: text.toList := by
    rw [String.toList_ofList] at hline
    exact hline.trans (trimmed_begins _ _).isInfix
  -- so what the text does not hold is not in the body either
  apply Java.stays_of_plain
  · exact fun h => hfeed (hbody.subset h)
  · exact fun h => hreturn ((hbody.trans htext).subset h)
  · exact fun h => hescape (h.trans (hbody.trans htext))

theorem stmtText_nil (code : String) : stmtText [] code = { code := code } := by
  rw [stmtText, List.map_nil, List.nil_append, Java.nonEmpty]
  by_cases h : code = ""
  · simp [h, Text.join]
  · simp [h, Text.join]

/-- A call of a comment that succeeds generates the code of the comment, and nothing before it. -/
theorem comment_text {i : Info} {text : String} {c : Call} (h : c.Ready)
    (hstmt : c.stmt = .comment i text) {env : Env} (hok : c.succeeds env = true) :
    (c.after env).outputs.get? c.stmt.id =
      some { code := if env.comments then commentCode text else "" } := by
  obtain ⟨gst, code, -, hcode, htext⟩ := h.text hok
  -- a comment has no parts, so nothing can have been queued while it was walked
  have hqueued : c.queued env = [] := by
    have hplan : c.stmt.plan = .finish c.stmt := by
      rw [hstmt]
      rfl
    have hsame : (stmtCode c.stmt env c.before.begin).2 = c.before.begin := by
      rw [hstmt]
      rfl
    rw [Call.queued, hplan, Plan.queued, State.queuedSince, hsame]
    exact List.drop_length
  have hrun : (if env.comments then commentCode text else "") = code := by
    rw [hstmt] at hcode
    exact Except.ok.inj hcode
  rw [htext, hqueued, stmtText_nil, hrun]

/-- The code of a comment, with its lines divided as characters. -/
theorem commentCode_eq (text : String) : commentCode text = Text.join "\n"
    ((((text.toList.reverse.dropWhile (· = '\n')).reverse.splitOnP (· == '\n')).map
      String.ofList).map commentLine) := by
  have hlines := Text.splitOn_singleton '\n'
    (String.ofList (text.toList.reverse.dropWhile (· = '\n')).reverse)
  rw [String.toList_ofList] at hlines
  rw [← hlines]
  rfl

section Tree

variable (settings : Settings) (catalog : Option Catalog) (registry : Registry) (u : SourceUnit)

/-- The code that the walk over a numbered tree leaves for a comment. -/
theorem comment_code (hu : u.Numbered) (hcomments : settings.comments = true)
    {made : Nat → Bool} {i : Info} {text : String}
    (hs : Part.stmt (.comment i text) ∈ u.preorder made)
    (hgenerated : (tree settings catalog registry 1 u).state.isGenerated i.id = true) :
    ((tree settings catalog registry 1 u).state.output i.id).code = commentCode text := by
  obtain ⟨c, hc, hstmt, hok⟩ :=
    tree_call_of_generated settings catalog registry u hu hs hgenerated
  have hready := ready_of_mem_treeCalls settings catalog registry u hu c hc
  -- what the call left for the comment is what the tree ends with
  have hsettled := (tree_account settings catalog registry u hu).settled c hc
  rw [comment_text hready hstmt hok, hstmt, envOf, hcomments] at hsettled
  have houtput : (tree settings catalog registry 1 u).state.outputs.get? i.id =
      some { code := commentCode text } := hsettled
  rw [State.output, houtput]
  rfl

/-- What the walk over a numbered tree generates for a comment is nothing but comments exactly when
what each line says stays in its comment. Without carriage returns and beginnings of unicode escapes
it does. -/
theorem comment_stays_iff (hu : u.Numbered) (hcomments : settings.comments = true)
    {made : Nat → Bool} {i : Info} {text : String}
    (hs : Part.stmt (.comment i text) ∈ u.preorder made)
    (hgenerated : (tree settings catalog registry 1 u).state.isGenerated i.id = true) :
    (CommentOnly ((tree settings catalog registry 1 u).state.output i.id).code ↔
      ∀ l ∈ commentLines text, Stays (commentBody l)) ∧
    ('\r' ∉ text.toList → ¬['\\', 'u'] <:+: text.toList →
      CommentOnly ((tree settings catalog registry 1 u).state.output i.id).code) := by
  rw [comment_code settings catalog registry u hu hcomments hs hgenerated]
  refine ⟨commentOnly_commentCode text, fun hreturn hescape => ?_⟩
  exact (commentOnly_commentCode text).mpr (stays_of_plainText hreturn hescape)

end Tree

/-- A file with a comment in it. -/
def commented (text : String) : SourceUnit where
  file := "f.pl"
  className := ""
  stmts := [.comment ⟨1, default⟩ text]

theorem commented_mem (made : Nat → Bool) (text : String) :
    Part.stmt (.comment ⟨1, default⟩ text) ∈ (commented text).preorder made :=
  .head _

theorem numbered_commented (text : String) : (commented text).Numbered :=
  List.nodup_cons.mpr ⟨List.not_mem_nil, List.nodup_nil⟩

theorem commented_generated (text : String) :
    (tree { comments := true } none {} 1 (commented text)).state.isGenerated 1 = true :=
  rfl

theorem commented_code (text : String) :
    ((tree { comments := true } none {} 1 (commented text)).state.output 1).code = commentCode text :=
  comment_code { comments := true } none {} (commented text) (numbered_commented text) rfl
    (commented_mem (fun _ => false) text) (commented_generated text)

/-- Two lines, of which the first holds backslashes. -/
theorem pathComment_stays :
    Part.stmt (.comment ⟨1, default⟩ "# in C:\\temp\n# or not") ∈
      (commented "# in C:\\temp\n# or not").preorder (fun _ => false) ∧
    ((tree { comments := true } none {} 1 (commented "# in C:\\temp\n# or not")).state.output 1).code =
      "//  in C:\\temp\n//  or not" ∧
    CommentOnly "//  in C:\\temp\n//  or not" := by
  have hmem := commented_mem (fun _ => false) "# in C:\\temp\n# or not"
  have hcode : commentCode "# in C:\\temp\n# or not" = "//  in C:\\temp\n//  or not" := by
    rw [commentCode_eq]
    decide +kernel
  obtain ⟨-, hplain⟩ := comment_stays_iff { comments := true } none {}
    (commented "# in C:\\temp\n# or not") (numbered_commented _) rfl hmem (commented_generated _)
  have hstays := hplain (by decide +kernel) (by decide +kernel)
  have hout := commented_code "# in C:\\temp\n# or not"
  rw [hcode] at hout
  rw [hout] at hstays
  exact ⟨hmem, hout, hstays⟩

/-- What stands behind a carriage return is no comment, and a path may be taken for a unicode escape
without digits. -/
theorem comments_lost :
    (((tree { comments := true } none {} 1 (commented "# done\rexit();")).state.output 1).code =
        "//  done\rexit();" ∧
      ¬CommentOnly "//  done\rexit();") ∧
    ((tree { comments := true } none {} 1 (commented "# in C:\\users")).state.output 1).code =
        "//  in C:\\users" ∧
      Java.translate? "//  in C:\\users" = none ∧ ¬CommentOnly "//  in C:\\users" := by
  have hreturn : commentCode "# done\rexit();" = "//  done\rexit();" := by
    rw [commentCode_eq]
    decide +kernel
  have hpath : commentCode "# in C:\\users" = "//  in C:\\users" := by
    rw [commentCode_eq]
    decide +kernel
  refine ⟨⟨(commented_code _).trans hreturn, ?_⟩, (commented_code _).trans hpath, ?_, ?_⟩
  · decide +kernel
  · decide +kernel
  · decide +kernel

end Compile

end TypedPerl
