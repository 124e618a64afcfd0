import TypedPerl.Collection
import TypedPerl.Proofs.Conversion.LoopScopes

/-!
# Generated code is balanced

In the text of a type the only delimiters are pairs of square brackets with nothing between them,
which stay together when the type arguments are dropped (`Bracketed`). A conversion is written from
a tree each of whose constructs closes what it opens (`Conversion.Scoped.balanced`), and a container
is put together from conversions. So code is balanced when that of its operands is, and then the
parentheses that are taken off it match each other.
-/

namespace TypedPerl

namespace Java

/-! ## Types -/

/-- Characters of which those that are delimiters are pairs of square brackets. -/
inductive Bracketed : List Char → Prop where
  | nil : Bracketed []
  | bare {c cs} (hc : c ∉ delimiters) (h : Bracketed cs) : Bracketed (c :: cs)
  | pair {cs} (h : Bracketed cs) : Bracketed ('[' :: ']' :: cs)

namespace Bracketed

variable {cs ds : List Char}

theorem append (hcs : Bracketed cs) (hds : Bracketed ds) : Bracketed (cs ++ ds) := by
  induction hcs with
  | nil => exact hds
  | bare hc h ih => exact .bare hc ih
  | pair h ih => exact .pair ih

theorem of_bare (h : ∀ c ∈ cs, c ∉ delimiters) : Bracketed cs := by
  induction cs with
  | nil => exact .nil
  | cons c cs ih =>
    obtain ⟨hc, hcs⟩ := List.forall_mem_cons.mp h
    exact .bare hc (ih hcs)

theorem balanced (h : Bracketed cs) : Balanced (String.ofList cs) := by
  refine .lit ?_
  induction h with
  | nil => rfl
  | bare hc h ih => rwa [Scan.run_cons, Scan.step_bare [] hc]
  | pair h ih => exact ih

/-- Brackets of a pair stand on the same level of type arguments. -/
theorem dropTypeArgs (h : Bracketed cs) (level : Int) : Bracketed (dropTypeArgs level cs) := by
  induction h generalizing level with
  | nil => exact .nil
  | bare hc h ih =>
    unfold Java.dropTypeArgs
    split
    · exact ih _
    · split
      · exact ih _
      · split
        · exact .bare hc (ih _)
        · exact ih _
  | @pair cs h ih =>
    -- a pair of brackets stands within the dropped arguments or outside of them, never across their
    -- border
    by_cases hlevel : level = 0
    · have hkept : Java.dropTypeArgs level ('[' :: ']' :: cs) =
          '[' :: ']' :: Java.dropTypeArgs level cs := by
        simp [Java.dropTypeArgs, hlevel]
      exact hkept ▸ .pair (ih _)
    · have hdropped : Java.dropTypeArgs level ('[' :: ']' :: cs) =
          Java.dropTypeArgs level cs := by
        simp [Java.dropTypeArgs, hlevel]
      exact hdropped ▸ ih _

end Bracketed

/-- A class with its type arguments. -/
theorem bracketed_typeArgs {cls args : String} (hcls : Bracketed cls.toList)
    (h : Bracketed args.toList) : Bracketed (cls ++ "<" ++ args ++ ">").toList := by
  have hopen : Bracketed ("<").toList := .of_bare (bare_lit rfl)
  have hclose : Bracketed (">").toList := .of_bare (bare_lit rfl)
  rw [String.toList_append, String.toList_append, String.toList_append]
  exact ((hcls.append hopen).append h).append hclose

theorem bracketed_declType {t : Ty} (h : t.Named Bare) : Bracketed (declType t).toList := by
  induction t with
  | scalar k => cases k <;> exact .of_bare (bare_lit rfl)
  | object n => exact .of_bare h
  | ref e ih => exact bracketed_typeArgs (.of_bare (bare_lit rfl)) (ih h)
  | agg s e ih =>
    cases s with
    | array =>
      have hpair : (declType (.agg .array e)).toList = (declType e).toList ++ ['[', ']'] := by
        simp [declType, String.toList_append]
      exact hpair ▸ (ih h).append (.pair .nil)
    | list => exact bracketed_typeArgs (.of_bare (bare_lit rfl)) (ih h)
    | map => exact bracketed_typeArgs (.of_bare (bare_lit rfl)) (ih h)

theorem balanced_declType {t : Ty} (h : t.Named Bare) : Balanced (declType t) :=
  String.ofList_toList (s := declType t) ▸ (bracketed_declType h).balanced

theorem balanced_erasure {t : Ty} (h : t.Named Bare) : Balanced (erasure t) :=
  ((bracketed_declType h).dropTypeArgs 0).balanced

theorem balanced_newArray {elem : Ty} (helem : elem.Named Bare) {length : String}
    (h : Balanced length) : Balanced (newArray elem length) := by
  have hbrackets : Balanced (String.join (List.replicate (arrayLevels elem) "[]")) :=
    .concat fun y hy => by
      rw [List.eq_of_mem_replicate hy]
      exact .lit rfl
  have hbase := balanced_erasure (Conversion.arrayBase_named helem)
  exact .append (.around (.append (.lit rfl) hbase) rfl h) hbrackets

theorem balanced_newAggregate {t : Ty} (ht : t.Named Bare) {size : String} (h : Balanced size) :
    Balanced (newAggregate t size) := by
  have hlist : Balanced listClass := .lit rfl
  have hmap : Balanced mapClass := .lit rfl
  unfold newAggregate
  split
  · exact balanced_newArray ht.elem h
  · exact .around (.append (.lit rfl) hlist) rfl h
  · exact .around (.append (.lit rfl) hmap) rfl h
  · exact .lit rfl

theorem balanced_arrayInitializer {elem : Ty} (helem : elem.Named Bare) {items : List String}
    (h : ∀ y ∈ items, Balanced y) : Balanced (arrayInitializer elem items) :=
  .around (balanced_newArray helem .empty) rfl (.join (.lit rfl) h)

end Java

open Java (Balanced Bare Moves)

namespace Conversion

/-! ## Conversions -/

theorem balanced_loopName (n : LoopName) : Balanced n.text := by
  have hnumber : ∀ c ∈ Nat.toDigits 10 n.depth, c ∉ Java.delimiters := fun c hc =>
    Plain.not_mem_of_numeral (Numeral.isNumeralChar_nat n.depth) rfl c (by simpa using hc)
  refine Bare.balanced fun c hc => ?_
  rw [LoopName.toList_text, List.append_assoc, List.mem_append, List.mem_append] at hc
  rcases hc with hc | hc | hc
  · exact Java.bare_lit rfl c hc
  · exact Java.bare_lit (by cases n.role <;> rfl) c hc
  · exact hnumber c hc

theorem balanced_typeCode {u : TypeCode} (h : u.Named Bare) : Balanced u.text := by
  cases u with
  | word text =>
    -- a word has letters only, and no delimiter is a letter
    refine Bare.balanced fun c hc hmem => ?_
    have hletter : Java.delimiters.any Char.isAlpha = false := rfl
    exact List.any_eq_false.mp hletter c hmem (h c hc)
  | inferred s =>
    have hclass : Balanced (if s = .map then Java.mapClass else Java.listClass) := by
      split
      · exact .lit rfl
      · exact .lit rfl
    exact .append hclass (.lit rfl)
  | declared t =>
    cases t with
    | none => exact .lit rfl
    | some t => exact Java.balanced_declType (h t rfl)
  | erased t => exact Java.balanced_erasure h
  | entry t => exact .append (.append (.lit rfl) (Java.balanced_declType h)) (.lit rfl)

theorem balanced_arityThrow : Balanced arityThrow := by
  decide +kernel

/-- Each construct closes what it opens. -/
theorem Scoped.balanced {depth : Nat} {env env' : List LoopName} {c : LoopCode} {source : String}
    (h : Scoped Bare depth env c env') (hsource : Balanced source) :
    Balanced (c.render source) := by
  -- a head in parentheses, then a body in braces
  have hbrace : Moves [')'] ['\x7d'] ") \x7b " := .lit rfl
  have hblock : Moves ['\x7d'] [] "\x7d " := .lit rfl
  have hfor : Moves [] [')'] "for (" := .lit rfl
  induction h with
  | text hs => exact hs.balanced
  | operand => exact hsource
  | name => exact balanced_loopName _
  | seq ha hb iha ihb => exact iha.append ihb
  | round hc ih | square hc ih => exact .within rfl ih
  | cast hu => exact .within rfl (balanced_typeCode hu)
  | create hu => exact .append (.lit rfl) (balanced_typeCode hu)
  | @lambda _ _ _ n _ hdepth hnew hbody ih =>
    have hopen : Moves [] [')'] "(Object " := .lit rfl
    have harrow : Moves [')'] ['\x7d'] ") -> \x7b " := .lit rfl
    have hclose : Moves ['\x7d'] [] "\x7d" := .lit rfl
    exact (((hopen.append ((balanced_loopName n).moves _)).append harrow).append
      (ih.moves _)).append hclose
  | var hu hdepth hnew hvalue ih =>
    exact .append (.append (.append (.append (.append (balanced_typeCode hu) (.lit rfl))
      (balanced_loopName _)) (.lit rfl)) ih) (.lit rfl)
  | check hlength ih =>
    have hopen : Moves [] [')'] "if (" := .lit rfl
    have hodd : Moves [')'] ['\x7d'] " % 2 != 0) \x7b " := .lit rfl
    have hclose : Moves ['\x7d'] [] " \x7d " := .lit rfl
    exact (((hopen.append (ih.moves _)).append hodd).append (balanced_arityThrow.moves _)).append
      hclose
  | @counted _ _ _ n _ _ _ hdepth hnew hlength hstep hbody ihlength ihbody =>
    have hn := (balanced_loopName n).moves [')']
    have hopen : Moves [] [')'] "for (int " := .lit rfl
    have hzero : Moves [')'] [')'] " = 0; " := .lit rfl
    have hless : Moves [')'] [')'] " < " := .lit rfl
    have hnext : Moves [')'] [')'] "; " := .lit rfl
    have hbound := ((((hopen.append hn).append hzero).append hn).append hless).append
      (ihlength.moves _)
    have hhead := (((hbound.append hnext).append hn).append (hstep.balanced.moves _)).append hbrace
    exact (hhead.append (ihbody.moves _)).append hblock
  | @each _ _ _ u n _ _ hu hdepth hnew hrows hbody ihrows ihbody =>
    have hblank : Moves [')'] [')'] " " := .lit rfl
    have hcolon : Moves [')'] [')'] " : " := .lit rfl
    have hhead := (((hfor.append ((balanced_typeCode hu).moves _)).append hblank).append
      ((balanced_loopName n).moves _)).append hcolon
    exact (((hhead.append (ihrows.moves _)).append hbrace).append (ihbody.moves _)).append hblock
  | give => exact .append (.append (.lit rfl) (balanced_loopName _)) (.lit rfl)

end Conversion

/-- The code of the operand is balanced, and no name of a class in its type holds a delimiter. -/
structure Operand.Balanced (o : Operand) : Prop where
  /-- The code is balanced. -/
  code : Java.Balanced o.code
  /-- The names of classes hold no delimiter. -/
  type : ∀ t ∈ o.type, t.Named Bare

namespace Conversion

variable {o : Operand} (ho : o.Balanced) {dest : Option Ty} (hdest : ∀ t ∈ dest, t.Named Bare)

include ho hdest

theorem balanced_convert : Gives (convert o dest) Balanced := by
  refine (scoped_convert ho.type hdest).mono fun text htext => ?_
  obtain ⟨c, rfl, hc⟩ := htext
  exact hc.balanced ho.code

theorem balanced_convertNonNull (nullChecks : Bool) :
    Gives (convertNonNull nullChecks o dest) Balanced := by
  unfold convertNonNull
  split
  · -- the undefined value becomes a literal
    next z hz =>
    refine .ok ?_
    split at hz
    · unfold zeroValue? at hz
      split at hz <;> cases hz <;> exact .lit rfl
    · cases hz
  · refine .bind (balanced_convert ho hdest) fun code hcode => ?_
    have hcheck : Balanced (Java.call "Pd" "checkNull" [code]) :=
      .call (.lit rfl) (.lit rfl) (List.forall_mem_singleton.mpr hcode)
    exact .ite (fun _ => .pure hcheck) fun _ => .pure hcode

end Conversion

namespace Collection

open Conversion (balanced_convert)

/-! ## Containers -/

/-- The code of the piece is balanced, and no name of a class in its type holds a delimiter. -/
structure Chunk.Balanced (c : Chunk) : Prop where
  /-- The code is balanced. -/
  code : Java.Balanced c.code
  /-- The names of classes hold no delimiter. -/
  type : c.type.Named Bare

theorem named_wrap {elem : Ty} (helem : elem.Named Bare) (s : Shape) :
    (Ty.wrap s elem).Named Bare := by
  cases elem <;> exact helem

theorem balanced_arityRaise {t : Ty} (ht : t.Named Bare) : Balanced (arityRaise t) := by
  have hopen : Moves [] [')', ')'] "((java.util.function.Supplier<" := .lit rfl
  have harrow : Moves [')', ')'] ['\x7d', ')'] ">) () -> \x7b " := .lit rfl
  have hclose : Moves ['\x7d', ')'] [] " \x7d).get()" := .lit rfl
  exact (((hopen.append ((Java.balanced_declType ht).moves _)).append harrow).append
    (Conversion.balanced_arityThrow.moves _)).append hclose

variable {elem : Ty} (helem : elem.Named Bare)

include helem

theorem balanced_sequenceRun {run : List Operand} (hrun : ∀ o ∈ run, o.Balanced) :
    Gives (sequenceRun run elem) Chunk.Balanced := by
  refine .bind (.mapM_all fun o ho => balanced_convert (hrun o ho) helem.known)
    fun items hitems => .pure ⟨?_, named_wrap helem .array⟩
  exact Java.balanced_arrayInitializer helem hitems

theorem balanced_mapRun {run : List Operand} (hrun : ∀ o ∈ run, o.Balanced) :
    Gives (mapRun run elem) Chunk.Balanced := by
  have hmap := named_wrap helem .map
  have hstring : Ty.string.Named Bare := trivial
  have hentries := entries_all (fun o ho => balanced_convert (hrun o ho) hstring.known)
    fun o ho => balanced_convert (hrun o ho) helem.known
  unfold mapRun
  refine .ite (fun _ => .pure ⟨balanced_arityRaise hmap, hmap⟩) fun _ => ?_
  refine .bind hentries fun entries ⟨hkeys, hvalues⟩ => .pure ⟨?_, hmap⟩
  have hkeyArray := Java.balanced_arrayInitializer hstring hkeys
  have hvalueArray := Java.balanced_arrayInitializer helem hvalues
  have hnew : Balanced ("new " ++ Java.declType (.mapOf elem)) :=
    .append (.lit rfl) (Java.balanced_declType hmap)
  -- the call is followed from its opening bracket, which stays open over both arrays
  have hopen : Moves [] [')'] "(" := .lit rfl
  have hcomma : Moves [')'] [')'] ", " := .lit rfl
  have hclose : Moves [')'] [] ")" := .lit rfl
  exact (((Moves.append hnew hopen).append (hkeyArray.moves _)).append hcomma).append
    (hvalueArray.moves _) |>.append hclose

theorem balanced_runChunk (s : Shape) {run : List Operand} (hrun : ∀ o ∈ run, o.Balanced) :
    Gives (runChunk s elem run) fun cs => ∀ c ∈ cs, c.Balanced := by
  refine .ite (fun _ => .ok (by simp)) fun _ => ?_
  refine .branch (balanced_mapRun helem hrun) (balanced_sequenceRun helem hrun) fun c hc => .pure ?_
  exact List.forall_mem_singleton.mpr hc

theorem balanced_splice {o : Operand} (ho : o.Balanced) {t : Ty} (ht : o.type = some t)
    (s : Shape) : Gives (splice o t s elem) Chunk.Balanced := by
  have hdest : (Ty.agg s elem).Named Bare := helem
  refine .ite (fun _ => .ok ⟨ho.code, ho.type t ht⟩) fun _ => ?_
  exact .bind (balanced_convert ho hdest.known) fun code hcode => .pure ⟨hcode, hdest⟩

theorem balanced_chunks (s : Shape) (ops : List Operand) (hops : ∀ o ∈ ops, o.Balanced) :
    ∀ run : List Operand, (∀ o ∈ run, o.Balanced) →
      Gives (chunks s elem run ops) fun cs => ∀ c ∈ cs, c.Balanced := by
  induction ops with
  | nil => exact fun run hrun => balanced_runChunk helem s hrun
  | cons o rest ih =>
    intro run hrun
    obtain ⟨ho, hrest⟩ := List.forall_mem_cons.mp hops
    rw [chunks]
    -- a spliced operand is a piece of its own, any other joins the run before it
    split
    · next s' e' htype =>
      refine .bind (balanced_runChunk helem s hrun) fun before hbefore => ?_
      refine .bind (balanced_splice helem ho htype s) fun c hc => ?_
      refine .bind (ih hrest [] (by simp)) fun after hafter => .pure ?_
      exact List.forall_mem_append.mpr ⟨hbefore, List.forall_mem_cons.mpr ⟨hc, hafter⟩⟩
    · exact ih hrest (run ++ [o])
        (List.forall_mem_append.mpr ⟨hrun, List.forall_mem_singleton.mpr ho⟩)

theorem balanced_joinChunks (s : Shape) {cs : List Chunk} (hcs : ∀ c ∈ cs, c.Balanced) :
    Gives (joinChunks s elem cs) Balanced := by
  have hdest : (Ty.agg s elem).Named Bare := helem
  unfold joinChunks
  split
  · next c =>
    obtain ⟨hcode, htype⟩ := hcs c List.mem_cons_self
    exact balanced_convert ⟨hcode, htype.known⟩ hdest.known
  -- several pieces are united in a call, which each container ends in its own way
  · have hend : Balanced (unionEnd s elem) := by
      cases s with
      | array => exact .within rfl (.append (Java.balanced_erasure hdest) (.lit rfl))
      | list => exact .lit rfl
      | map => exact .lit rfl
    refine .ok (.append (.append (.call (.lit rfl) (.lit rfl) (by simp)) (.concat fun y hy => ?_))
      hend)
    obtain ⟨c, hc, rfl⟩ := List.mem_map.mp hy
    exact .within rfl (hcs c hc).code

theorem balanced_buildFrom (s : Shape) {ops : List Operand} (hops : ∀ o ∈ ops, o.Balanced) :
    Gives (buildFrom ops s elem) Balanced :=
  .bind (balanced_chunks helem s ops hops [] (by simp)) fun _ hcs => balanced_joinChunks helem s hcs

omit helem

theorem balanced_build {ops : List Operand} (hops : ∀ o ∈ ops, o.Balanced) {dest : Option Ty}
    (hdest : ∀ t ∈ dest, t.Named Bare) : Gives (build ops dest) Balanced := by
  unfold build
  split
  · next s elem =>
    have helem : elem.Named Bare := (hdest _ rfl).elem
    refine .ite (fun _ => .ok (Java.balanced_newAggregate (hdest _ rfl) (.lit rfl))) fun _ => ?_
    refine .ite (fun _ => ?_) fun _ => balanced_buildFrom helem s hops
    -- the flat list is one of dynamic values
    have hbox : Ty.box.Named Bare := trivial
    refine .bind (balanced_buildFrom hbox .list hops) fun code hcode => ?_
    exact balanced_convert ⟨hcode, (named_wrap hbox .list).known⟩ hdest
  · exact .error _

/-- From balanced operands only balanced code is made. Around such code, `unparen` takes exactly
one pair of parentheses off, and from such code it takes nothing off, or parentheses around balanced
code. -/
theorem generated_text_balanced {ops : List Operand} (hops : ∀ o ∈ ops, o.Balanced)
    {dest : Option Ty} (hdest : ∀ t ∈ dest, t.Named Bare) :
    (∀ o ∈ ops, (∀ text, Conversion.convert o dest = .ok text → Balanced text) ∧
      ∀ nullChecks text, Conversion.convertNonNull nullChecks o dest = .ok text → Balanced text) ∧
    (∀ text, build ops dest = .ok text → Balanced text) ∧
    (∀ x, Balanced x → Java.unparen ("(" ++ x ++ ")") = x) ∧
    ∀ x, Balanced x → Balanced (Java.unparen x) ∧
      (x = Java.unparen x ∨ x = "(" ++ Java.unparen x ++ ")") := by
  refine ⟨fun o ho => ⟨?_, fun nullChecks => ?_⟩, ?_, fun x hx => ?_, fun x hx => ?_⟩
  · exact balanced_convert (hops o ho) hdest
  · exact Conversion.balanced_convertNonNull (hops o ho) hdest nullChecks
  · exact balanced_build hops hdest
  · exact Java.unparen_paren hx
  · exact hx.of_unparen

/-- A text of one parenthesis, and a list that is spliced in behind it. -/
def parenthesisAndList : List Operand :=
  [{ code := "\"(\"", type := some .string, notNull := true, constant := true },
    .nonNull "xs" (some (.agg .list .box))]

theorem parenthesisAndList_balanced : (∀ o ∈ parenthesisAndList, o.Balanced) ∧
    ∃ text, build parenthesisAndList (some (.agg .array .string)) = .ok text ∧ Balanced text ∧
      Java.unparen ("(" ++ text ++ ")") = text := by
  have hstring : Ty.string.Named Bare := trivial
  have hlist : (Ty.agg .list .box).Named Bare := trivial
  have harray : (Ty.agg .array .string).Named Bare := trivial
  have hops : ∀ o ∈ parenthesisAndList, o.Balanced := by
    simp only [parenthesisAndList, List.forall_mem_cons]
    exact ⟨⟨.lit rfl, hstring.known⟩, ⟨.lit rfl, hlist.known⟩, by simp⟩
  -- only that there is a text is computed; that it is balanced follows
  have hbuilt : (build parenthesisAndList (some (.agg .array .string))).toBool = true := by
    decide +kernel
  rcases htext : build parenthesisAndList (some (.agg .array .string)) with f | text
  · rw [htext] at hbuilt
    cases hbuilt
  · obtain ⟨-, hbuild, hparen, -⟩ := generated_text_balanced hops harray.known
    have hbalanced := hbuild text htext
    exact ⟨hops, text, rfl, hbalanced, hparen text hbalanced⟩

end Collection

end TypedPerl
