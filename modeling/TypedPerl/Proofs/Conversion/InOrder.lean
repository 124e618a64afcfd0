import TypedPerl.Proofs.Conversion.Kept

/-!
# Sequences evaluate their elements once and in order

The code of an array or a list is a text with one hole for each element, in the order of the
elements: what stands around the holes depends on the types and flags of the elements and on the
type that is wanted, and not on their code. The values of a row each have their hole in a literal
array, a container that is spliced in has the hole of its conversion, and the pieces are joined in
order. A map that is made of a flat list is one more conversion around that list.

`Template` is a text with holes as data, so that the holes of pieces add up when the pieces are put
together; `weave` is its plain form, a text before the first hole and a text behind each.
-/

namespace TypedPerl

open Conversion (convert)

/-! ## Texts with holes -/

/-- A text with holes: pieces of text in a row, and a hole where there is none. -/
abbrev Template := List (Option String)

namespace Template

/-- The number of holes. -/
def holes (t : Template) : Nat :=
  t.count none

/-- The text with codes in its holes, in order. Codes that are left over are dropped. -/
def fill : Template → List String → String
  | [], _ => ""
  | some s :: t, codes => s ++ fill t codes
  | none :: t, [] => fill t []
  | none :: t, code :: codes => code ++ fill t codes

theorem holes_append (t u : Template) : holes (t ++ u) = holes t + holes u :=
  List.count_append

/-- The holes of the first part take the first codes. -/
theorem fill_append (t u : Template) (codes : List String) :
    fill (t ++ u) codes = fill t codes ++ fill u (codes.drop (holes t)) := by
  fun_induction fill t codes with
  | case1 codes => simp [holes]
  | case2 codes s t ih => simp [fill, holes, ih, String.append_assoc]
  | case3 t ih => simpa [fill, holes] using ih
  | case4 code codes t ih => simp [fill, holes, ih, String.append_assoc]

/-- The text between two others. -/
def around (pre post : String) (t : Template) : Template :=
  some pre :: (t ++ [some post])

theorem holes_around (pre post : String) (t : Template) : holes (around pre post t) = holes t := by
  simp [holes, around]

theorem fill_around (pre post : String) (t : Template) (codes : List String) :
    fill (around pre post t) codes = pre ++ fill t codes ++ post := by
  simp [fill, around, fill_append, String.append_assoc]

/-- The text that is one hole. -/
def hole : Template := [none]

theorem fill_hole (code : String) (codes : List String) : fill hole (code :: codes) = code := by
  simp [hole, fill]

/-! ### Rows of texts -/

/-- Texts with codes in their holes. Each takes the codes for its own holes. -/
def fillAll : List Template → List String → List String
  | [], _ => []
  | t :: ts, codes => fill t codes :: fillAll ts (codes.drop (holes t))

theorem length_fillAll (ts : List Template) (codes : List String) :
    (fillAll ts codes).length = ts.length := by
  fun_induction fillAll ts codes with
  | case1 codes => rfl
  | case2 codes t ts ih => simp [ih]

theorem fillAll_append (ts us : List Template) (codes : List String) :
    fillAll (ts ++ us) codes = fillAll ts codes ++ fillAll us (codes.drop (holes ts.flatten)) := by
  fun_induction fillAll ts codes with
  | case1 codes => rfl
  | case2 codes t ts ih => simp [fillAll, ih, holes_append]

/-- Texts that are joined are one text with all their holes. -/
theorem join_fillAll (sep : String) (ts : List Template) : ∃ t, holes t = holes ts.flatten ∧
    ∀ codes, Text.join sep (fillAll ts codes) = fill t codes := by
  simp only [Text.join]
  induction ts with
  | nil => exact ⟨[], rfl, fun codes => by simp [fillAll, fill]⟩
  | cons t ts ih =>
    -- a separator stands before every part but the first
    cases ts with
    | nil => exact ⟨t, by simp, fun codes => by simp [fillAll]⟩
    | cons u us =>
      obtain ⟨more, hholes, hfill⟩ := ih
      refine ⟨t ++ some sep :: more, ?_, fun codes => ?_⟩
      · have hsep : holes (some sep :: more) = holes more := by simp [holes]
        rw [holes_append, hsep, hholes, List.flatten_cons (l := t), holes_append]
      · have hrest := hfill (codes.drop (holes t))
        simp only [fillAll] at hrest ⊢
        rw [String.intercalate_cons_cons, hrest, fill_append, fill, String.append_assoc]

/-- So are texts that are put one behind the other, each in the same context. -/
theorem concat_fillAll (pre post : String) (ts : List Template) :
    ∃ t, holes t = holes ts.flatten ∧
      ∀ codes, String.join ((fillAll ts codes).map fun text => pre ++ text ++ post) =
        fill t codes := by
  induction ts with
  | nil => exact ⟨[], rfl, fun codes => by simp [fillAll, fill]⟩
  | cons t ts ih =>
    obtain ⟨more, hholes, hfill⟩ := ih
    refine ⟨around pre post t ++ more, ?_, fun codes => ?_⟩
    · rw [holes_append, holes_around, hholes, List.flatten_cons, holes_append]
    · rw [fillAll, List.map_cons, String.join_cons, hfill, fill_append, fill_around, holes_around]

end Template

/-- Codes with a text before them and a text behind each. -/
def weave (first : String) (rest codes : List String) : String :=
  first ++ String.join (List.zipWith (· ++ ·) codes rest)

/-- A text with holes has a text before the first hole and a text behind each. -/
theorem Template.exists_weave (t : Template) : ∃ first rest, rest.length = holes t ∧
    ∀ codes, codes.length = holes t → fill t codes = weave first rest codes := by
  -- a fixed piece extends the text before the first hole, and a hole opens a new text
  induction t with
  | nil => exact ⟨"", [], rfl, fun codes _ => by simp [fill, weave]⟩
  | cons piece t ih =>
    obtain ⟨first, rest, hrest, hfill⟩ := ih
    cases piece with
    | some s =>
      have hholes : holes (some s :: t) = holes t := by simp [holes]
      refine ⟨s ++ first, rest, hrest.trans hholes.symm, fun codes hcodes => ?_⟩
      simp [fill, hfill codes (hcodes.trans hholes), weave, String.append_assoc]
    | none =>
      have hholes : holes (none :: t) = holes t + 1 := by simp [holes]
      refine ⟨"", first :: rest, by simp [hrest, hholes], fun codes hcodes => ?_⟩
      cases codes with
      | nil => simp [hholes] at hcodes
      | cons code more =>
        have hmore : more.length = holes t := by simpa [hholes] using hcodes
        simp [fill, hfill more hmore, weave, String.append_assoc]

/-! ## Operands with other codes -/

/-- The operands with other codes, in order. Codes that are left over are dropped. -/
def withCodes (ops : List Operand) (codes : List String) : List Operand :=
  List.zipWith Operand.withCode ops codes

theorem withCodes_append (ops more : List Operand) (codes : List String) :
    withCodes (ops ++ more) codes =
      withCodes ops codes ++ withCodes more (codes.drop ops.length) := by
  induction ops generalizing codes with
  | nil => rfl
  | cons o ops ih =>
    cases codes with
    | nil => simp [withCodes]
    | cons code codes => simpa [withCodes] using ih codes

/-- Nothing but the code of an operand is other than it was. -/
theorem map_withCodes {α : Type} {g : Operand → α} (hg : ∀ o code, g (o.withCode code) = g o)
    {ops : List Operand} {codes : List String} (hcodes : ops.length ≤ codes.length) :
    (withCodes ops codes).map g = ops.map g := by
  induction ops generalizing codes with
  | nil => rfl
  | cons o ops ih =>
    cases codes with
    | nil => simp at hcodes
    | cons code codes =>
      have hmore : ops.length ≤ codes.length := by simpa using hcodes
      have hrest := ih hmore
      simp only [withCodes] at hrest ⊢
      simp only [List.zipWith_cons_cons, List.map_cons, hg, hrest]

/-! ## Conversions and rows -/

namespace Collection

open Template (holes fill fillAll)

/-- A conversion that succeeds succeeds for all code, and puts it in the same context. -/
theorem convert_context {o : Operand} (ho : o.Live) (dest : Option Ty) :
    Gives (convert o dest) fun _ =>
      ∃ pre post, ∀ code, convert (o.withCode code) dest = .ok (pre ++ code ++ post) := by
  intro text htext
  rcases Conversion.convert_linear ho.constant ho.undef dest with hcontext | ⟨refusal, hrefused⟩
  · exact hcontext
  · have hself : convert o dest = .error refusal := hrefused o.code
    rw [htext] at hself
    cases hself

/-- The items of a row have one hole each. -/
theorem items_in_order {run : List Operand} (hrun : ∀ o ∈ run, o.Live) (elem : Ty) :
    Gives (run.mapM fun o => convert o (some elem)) fun _ =>
      ∃ ts : List Template, holes ts.flatten = run.length ∧
        ∀ codes, run.length ≤ codes.length →
          ((withCodes run codes).mapM fun o => convert o (some elem)) =
            .ok (fillAll ts codes) := by
  induction run with
  | nil => exact .pure ⟨[], rfl, fun codes _ => rfl⟩
  | cons o run ih =>
    obtain ⟨ho, hrest⟩ := List.forall_mem_cons.mp hrun
    rw [List.mapM_cons]
    refine .bind (convert_context ho _) fun _ hcontext => ?_
    refine .bind (ih hrest) fun _ hitems => .pure ?_
    obtain ⟨pre, post, hcontext⟩ := hcontext
    obtain ⟨ts, hholes, hitems⟩ := hitems
    -- the first item has one hole, and the others have theirs behind it
    refine ⟨.around pre post .hole :: ts, ?_, fun codes hcodes => ?_⟩
    · rw [List.flatten_cons, Template.holes_append, hholes, List.length_cons, Nat.add_comm]
      rfl
    · cases codes with
      | nil => simp at hcodes
      | cons code codes =>
        have hmore := hitems codes (by simpa using hcodes)
        simp only [withCodes, List.zipWith_cons_cons, List.mapM_cons, hcontext] at hmore ⊢
        rw [hmore, fillAll, Template.fill_around, Template.fill_hole]
        rfl

/-- The computation gives a text with a hole for each of the first `n` codes. -/
def InOrder (n : Nat) (f : List String → Except Fault String) : Prop :=
  ∃ t, holes t = n ∧ ∀ codes, n ≤ codes.length → f codes = .ok (fill t codes)

/-- The computation gives pieces with a hole for each of the first `n` codes. -/
def PiecesInOrder (n : Nat) (f : List String → Except Fault (List Chunk)) : Prop :=
  ∃ (ts : List Template) (types : List Ty), ts.length = types.length ∧ holes ts.flatten = n ∧
    ∀ codes, n ≤ codes.length → f codes = .ok (List.zipWith Chunk.mk (fillAll ts codes) types)

namespace PiecesInOrder

variable {m n : Nat} {f g : List String → Except Fault (List Chunk)}

theorem nil : PiecesInOrder 0 fun _ => .ok [] :=
  ⟨[], [], rfl, rfl, fun _ _ => rfl⟩

theorem singleton {t : Template} (type : Ty) (ht : holes t = n)
    (hf : ∀ codes, n ≤ codes.length → f codes = .ok [⟨fill t codes, type⟩]) :
    PiecesInOrder n f :=
  ⟨[t], [type], rfl, by simp [ht], hf⟩

/-- Pieces behind pieces take the codes that are left. -/
theorem append (hf : PiecesInOrder m f) (hg : PiecesInOrder n g) :
    PiecesInOrder (m + n) fun codes => do
      let before ← f codes
      let after ← g (codes.drop m)
      return before ++ after := by
  obtain ⟨ts, types, hlength, hholes, hf⟩ := hf
  obtain ⟨us, types', hlength', hholes', hg⟩ := hg
  refine ⟨ts ++ us, types ++ types', by simp [hlength, hlength'], ?_, fun codes hcodes => ?_⟩
  · rw [List.flatten_append, Template.holes_append, hholes, hholes']
  -- the first pieces take as many codes as they have holes
  · have hbefore := hf codes (by omega)
    have hafter := hg (codes.drop m) (by simp; omega)
    have htypes : (fillAll ts codes).length = types.length :=
      (Template.length_fillAll ts codes).trans hlength
    simp only [hbefore, hafter, Template.fillAll_append, List.zipWith_append htypes, hholes]
    rfl

theorem congr (hf : PiecesInOrder m f) (hn : m = n)
    (hfg : ∀ codes, n ≤ codes.length → g codes = f codes) : PiecesInOrder n g := by
  obtain ⟨ts, types, hlength, hholes, hf⟩ := hf
  subst hn
  exact ⟨ts, types, hlength, hholes, fun codes hcodes => (hfg codes hcodes).trans (hf codes hcodes)⟩

end PiecesInOrder

/-! ## Pieces -/

variable {s : Shape} {elem : Ty}

theorem sequenceRun_in_order {run : List Operand} (hrun : ∀ o ∈ run, o.Live) (elem : Ty) :
    Gives (sequenceRun run elem) fun _ =>
      ∃ t, holes t = run.length ∧ ∀ codes, run.length ≤ codes.length →
        sequenceRun (withCodes run codes) elem = .ok ⟨fill t codes, .arrayOf elem⟩ := by
  refine .bind (items_in_order hrun elem) fun _ hitems => .pure ?_
  obtain ⟨ts, hholes, hitems⟩ := hitems
  obtain ⟨t, ht, hjoin⟩ := Template.join_fillAll ", " ts
  refine ⟨.around (Java.newArray elem "" ++ "\x7b") "\x7d" t, ?_, fun codes hcodes => ?_⟩
  · rw [Template.holes_around, ht, hholes]
  · rw [sequenceRun, hitems codes hcodes, Template.fill_around, ← hjoin]
    rfl

/-- A row of values is one piece, or none. Of a map only the empty row is asked for. -/
theorem runChunk_in_order {run : List Operand} (hrun : ∀ o ∈ run, o.Live)
    (hmap : s = .map → run = []) :
    Gives (runChunk s elem run) fun _ =>
      PiecesInOrder run.length fun codes => runChunk s elem (withCodes run codes) := by
  -- an empty run gives no piece, so it has no hole
  cases run with
  | nil => exact .ok .nil
  | cons o run =>
    have hs : s ≠ .map := fun h => nomatch hmap h
    simp only [runChunk, List.isEmpty_cons, Bool.false_eq_true, if_false, hs]
    refine .bind (sequenceRun_in_order hrun elem) fun _ hrow => .pure ?_
    obtain ⟨t, ht, hrow⟩ := hrow
    refine .singleton (.arrayOf elem) ht fun codes hcodes => ?_
    have hne : (withCodes (o :: run) codes).isEmpty = false := by
      cases codes with
      | nil => simp at hcodes
      | cons code codes => rfl
    rw [hrow codes hcodes, hne]
    rfl

/-- A container that is spliced in is one piece. -/
theorem splice_in_order {o : Operand} (ho : o.Live) (t : Ty) (s : Shape) (elem : Ty) :
    Gives (splice o t s elem) fun _ =>
      ∃ pre post type, ∀ code, splice (o.withCode code) t s elem =
        .ok ⟨pre ++ code ++ post, type⟩ := by
  refine .ite (fun hfits => .ok ?_) fun hfits => ?_
  · refine ⟨"", "", t, fun code => ?_⟩
    rw [splice, if_pos hfits]
    simp [Operand.withCode]
  · refine .bind (convert_context ho _) fun _ hcontext => .pure ?_
    obtain ⟨pre, post, hcontext⟩ := hcontext
    refine ⟨pre, post, .agg s elem, fun code => ?_⟩
    rw [splice, if_neg hfits, hcontext]
    rfl

/-- There is a code for the element behind a row. -/
theorem exists_code {run rest : List Operand} {o : Operand} {codes : List String}
    (hcodes : run.length + (o :: rest).length ≤ codes.length) :
    ∃ code more, codes.drop run.length = code :: more := by
  apply List.exists_cons_of_length_pos
  rw [List.length_cons] at hcodes
  rw [List.length_drop]
  omega

/-- The pieces of a list have the holes of its elements, by induction on the list. The row so far
takes the first codes. -/
theorem chunks_in_order (elem : Ty) {ops : List Operand} (hops : ∀ o ∈ ops, o.Live) :
    ∀ run : List Operand, (∀ o ∈ run, o.Live) →
      (s = .map → run = [] ∧ ∀ o ∈ ops, o.isAggregate = true) →
      Gives (chunks s elem run ops) fun _ =>
        PiecesInOrder (run.length + ops.length) fun codes =>
          chunks s elem (withCodes run codes) (withCodes ops (codes.drop run.length)) := by
  induction ops with
  | nil =>
    intro run hrun hmap
    exact runChunk_in_order hrun fun h => (hmap h).1
  | cons o rest ih =>
    intro run hrun hmap
    obtain ⟨ho, hrest⟩ := List.forall_mem_cons.mp hops
    rw [chunks]
    split
    · -- a container ends the row before it
      rename_i s' e' htype
      refine .bind (runChunk_in_order hrun fun h => (hmap h).1) fun _ hbefore => ?_
      refine .bind (splice_in_order ho _ s elem) fun _ hsplice => ?_
      obtain ⟨pre, post, type, hsplice⟩ := hsplice
      have hmap' : s = .map → [] = ([] : List Operand) ∧ ∀ o ∈ rest, o.isAggregate = true :=
        fun h => ⟨rfl, (List.forall_mem_cons.mp (hmap h).2).2⟩
      refine .bind (ih hrest [] (by simp) hmap') fun _ hafter => .pure ?_
      have hhere : PiecesInOrder 1 fun codes =>
          .ok [⟨fill (.around pre post .hole) codes, type⟩] :=
        .singleton type rfl fun codes _ => rfl
      refine (hbefore.append (hhere.append hafter)).congr (by simp; omega) fun codes hcodes => ?_
      obtain ⟨code, more, hdrop⟩ := exists_code hcodes
      have htype' : (o.withCode code).type = some (.agg s' e') := htype
      simp only [hdrop, withCodes, List.zipWith_cons_cons, List.zipWith_nil_left, List.length_nil,
        List.drop_zero, List.drop_succ_cons, chunks, htype', hsplice, Template.fill_around,
        Template.fill_hole]
      cases runChunk s elem (List.zipWith Operand.withCode run codes) with
      | error f => rfl
      | ok before =>
        cases chunks s elem [] (List.zipWith Operand.withCode rest more) with
        | error f => rfl
        | ok after => rfl
    · -- any other value goes to the end of the row
      rename_i htype
      have hs : s ≠ .map := fun h => by
        have ho := (List.forall_mem_cons.mp (hmap h).2).1
        rw [Operand.isAggregate_eq_false htype] at ho
        cases ho
      have hrow := ih hrest (run ++ [o])
        (List.forall_mem_append.mpr ⟨hrun, List.forall_mem_singleton.mpr ho⟩) fun h => absurd h hs
      refine hrow.mono fun _ hpieces => ?_
      refine hpieces.congr (by simp; omega) fun codes hcodes => ?_
      obtain ⟨code, more, hdrop⟩ := exists_code hcodes
      have hnext : codes.drop (run ++ [o]).length = more := by
        rw [List.length_append, ← List.drop_drop, hdrop]
        rfl
      rw [withCodes_append, hdrop, hnext]
      simp only [withCodes, List.zipWith_cons_cons, List.zipWith_nil_left]
      rw [chunks]
      split
      · rename_i s' e' htype'
        exact (htype s' e' htype').elim
      · rfl

/-! ## Containers -/

/-- Several pieces, or none, are joined by the runtime. -/
theorem joinChunks_union {cs : List Chunk} (hcs : cs.length ≠ 1) (s : Shape) (elem : Ty) :
    joinChunks s elem cs = .ok (Java.call "Pd" "union" [] ++
      String.join ((cs.map Chunk.code).map fun code => ".append(" ++ code ++ ")") ++
      unionEnd s elem) := by
  unfold joinChunks
  split
  · exact absurd rfl hcs
  · rw [List.map_map]
    rfl

/-- Pieces that are joined keep their holes. -/
theorem joinChunks_in_order {ts : List Template} {types : List Ty}
    (hlength : ts.length = types.length) (codes : List String) :
    Gives (joinChunks s elem (List.zipWith Chunk.mk (fillAll ts codes) types)) fun _ =>
      InOrder (holes ts.flatten) fun codes =>
        joinChunks s elem (List.zipWith Chunk.mk (fillAll ts codes) types) := by
  by_cases hone : ts.length = 1
  · -- a single piece is the container, up to a conversion
    obtain ⟨t, rfl⟩ := List.length_eq_one_iff.mp hone
    obtain ⟨type, rfl⟩ := List.length_eq_one_iff.mp (hlength.symm.trans hone)
    have hlive := Operand.live_nonNull (fill t codes) (some type)
    refine (convert_context hlive (some (.agg s elem))).mono fun _ hcontext => ?_
    obtain ⟨pre, post, hcontext⟩ := hcontext
    refine ⟨.around pre post t, by simp [Template.holes_around], fun codes _ => ?_⟩
    rw [Template.fill_around]
    exact hcontext (fill t codes)
  · intro _ _
    obtain ⟨t, hholes, hconcat⟩ := Template.concat_fillAll ".append(" ")" ts
    have htexts (codes : List String) :
        (List.zipWith Chunk.mk (fillAll ts codes) types).map Chunk.code = fillAll ts codes := by
      have hle : (fillAll ts codes).length ≤ types.length :=
        ((Template.length_fillAll ts codes).trans hlength).le
      calc (List.zipWith Chunk.mk (fillAll ts codes) types).map Chunk.code
        _ = ((fillAll ts codes).zip types).map Prod.fst := by
          rw [List.map_zipWith, List.zip, List.map_zipWith]
        _ = fillAll ts codes := List.map_fst_zip hle
    refine ⟨.around (Java.call "Pd" "union" []) (unionEnd s elem) t, ?_, fun codes _ => ?_⟩
    · rw [Template.holes_around, hholes]
    · have hpieces : (List.zipWith Chunk.mk (fillAll ts codes) types).length ≠ 1 := by
        simpa [Template.length_fillAll, ← hlength] using hone
      dsimp only
      rw [joinChunks_union hpieces, htexts, hconcat, Template.fill_around]

/-- The operands with their own codes. -/
theorem withCodes_code (ops : List Operand) : withCodes ops (ops.map Operand.code) = ops := by
  induction ops with
  | nil => rfl
  | cons o ops ih =>
    simp only [withCodes] at ih
    simp only [withCodes, List.map_cons, List.zipWith_cons_cons, ih]
    rfl

/-- The pieces of a list, joined. The texts around the holes are found once, for all codes. -/
theorem buildFrom_in_order {ops : List Operand} (hops : ∀ o ∈ ops, o.Live)
    (hmap : s = .map → ∀ o ∈ ops, o.isAggregate = true) :
    Gives (buildFrom ops s elem) fun _ =>
      InOrder ops.length fun codes => buildFrom (withCodes ops codes) s elem := by
  have hchunks := chunks_in_order elem hops [] (by simp) fun h => ⟨rfl, hmap h⟩
  have hpieces : Gives (chunks s elem [] ops) fun cs => ∃ (ts : List Template) (types : List Ty),
      ts.length = types.length ∧ holes ts.flatten = ops.length ∧
        cs = List.zipWith Chunk.mk (fillAll ts (ops.map Operand.code)) types ∧
        ∀ codes, ops.length ≤ codes.length → chunks s elem [] (withCodes ops codes) =
          .ok (List.zipWith Chunk.mk (fillAll ts codes) types) := by
    intro cs hcs
    obtain ⟨ts, types, hlength, hholes, hall⟩ := hchunks cs hcs
    simp only [List.length_nil, Nat.zero_add, List.drop_zero] at hholes hall
    refine ⟨ts, types, hlength, hholes, ?_, hall⟩
    -- the elements themselves are the operands with their own codes
    have hown := hall (ops.map Operand.code) (by simp)
    rw [withCodes_code] at hown
    exact Except.ok.inj (hcs.symm.trans hown)
  refine .bind hpieces ?_
  rintro _ ⟨ts, types, hlength, hholes, rfl, hall⟩
  refine (joinChunks_in_order hlength (ops.map Operand.code)).mono fun _ hjoin => ?_
  obtain ⟨t, ht, hfill⟩ := hjoin
  refine ⟨t, ht.trans hholes, fun codes hcodes => ?_⟩
  dsimp only
  rw [buildFrom, hall codes hcodes]
  exact hfill codes (hholes.symm ▸ hcodes)

/-- Which way a container is built does not depend on the code of the elements. -/
theorem build_withCodes {ops : List Operand} (hne : ops ≠ []) (s : Shape) (elem : Ty)
    {codes : List String} (hcodes : ops.length ≤ codes.length) :
    build (withCodes ops codes) (some (.agg s elem)) =
      if s = .map && 1 < ops.length && ops.any Operand.isSequence then do
        let code ← buildFrom (withCodes ops codes) .list .box
        convert (.nonNull code (some (.listOf .box))) (some (.agg s elem))
      else buildFrom (withCodes ops codes) s elem := by
  have hlength : (withCodes ops codes).length = ops.length := by
    simp [withCodes, hcodes]
  -- how a container is built depends on the number and the types of its items, not on their codes
  have hany : (withCodes ops codes).any Operand.isSequence = ops.any Operand.isSequence := by
    have hsame := map_withCodes (g := Operand.isSequence) (fun _ _ => rfl) hcodes
    simpa only [List.any_map, Function.id_comp] using congrArg (List.any · id) hsame
  have hnonempty : (withCodes ops codes).isEmpty = false := by
    rw [List.isEmpty_eq_false_iff, ← List.length_pos_iff, hlength, List.length_pos_iff]
    exact hne
  rw [build, hlength, hany, hnonempty]
  rfl

/-- The elements of a container are evaluated once, and in order. -/
theorem build_in_order {ops : List Operand} (hops : ∀ o ∈ ops, o.Live)
    (hmap : s = .map → ops.any Operand.isSequence = true) :
    Gives (build ops (some (.agg s elem))) fun _ =>
      InOrder ops.length fun codes => build (withCodes ops codes) (some (.agg s elem)) := by
  by_cases hne : ops = []
  · subst hne
    refine .ok ⟨[some (Java.emptyOf (.agg s elem))], rfl, fun codes _ => ?_⟩
    simp [fill, build, withCodes]
  · have hself := build_withCodes hne s elem
      (by simp : ops.length ≤ (ops.map Operand.code).length)
    rw [withCodes_code] at hself
    rw [hself]
    split
    · -- the flat list is one piece, and the map is a conversion around it
      rename_i hflat
      refine .bind (buildFrom_in_order hops nofun) fun code hlist => ?_
      refine (convert_context (Operand.live_nonNull code _) _).mono fun _ hcontext => ?_
      obtain ⟨t, hholes, hfill⟩ := hlist
      obtain ⟨pre, post, hcontext⟩ := hcontext
      refine ⟨.around pre post t, (Template.holes_around ..).trans hholes, fun codes hcodes => ?_⟩
      dsimp only at hfill ⊢
      rw [build_withCodes hne s elem hcodes, if_pos hflat, hfill codes hcodes, Template.fill_around]
      exact hcontext (fill t codes)
    · rename_i hflat
      have hcontainers : s = .map → ∀ o ∈ ops, o.isAggregate = true := by
        intro hs
        -- a map of one element, which is the sequence
        have hshort : ops.length = 1 := by
          have hpos : 0 < ops.length := List.length_pos_iff.mpr hne
          simp only [hs, hmap hs, decide_true, Bool.true_and, Bool.and_true,
            decide_eq_true_eq] at hflat
          omega
        obtain ⟨o, rfl⟩ := List.length_eq_one_iff.mp hshort
        refine List.forall_mem_singleton.mpr (Operand.isAggregate_of_isSequence ?_)
        simpa using hmap hs
      refine (buildFrom_in_order hops hcontainers).mono fun _ hfrom => ?_
      obtain ⟨t, hholes, hfill⟩ := hfrom
      refine ⟨t, hholes, fun codes hcodes => ?_⟩
      dsimp only at hfill ⊢
      rw [build_withCodes hne s elem hcodes, if_neg hflat, hfill codes hcodes]

/-- The code of an array or a list, or of a map that splices a sequence, is a text with one hole for
each element in order, and the texts around the holes are the same for all codes. -/
theorem build_evaluates_in_order {ops : List Operand} (hops : ∀ o ∈ ops, o.Live)
    (hmap : s = .map → ops.any Operand.isSequence = true) {text : String}
    (htext : build ops (some (.agg s elem)) = .ok text) :
    ∃ first rest, rest.length = ops.length ∧
      text = weave first rest (ops.map Operand.code) ∧
      ∀ codes, codes.length = ops.length →
        build (withCodes ops codes) (some (.agg s elem)) = .ok (weave first rest codes) := by
  obtain ⟨t, hholes, hfill⟩ := build_in_order hops hmap text htext
  obtain ⟨first, rest, hrest, hweave⟩ := t.exists_weave
  have hall : ∀ codes, codes.length = ops.length →
      build (withCodes ops codes) (some (.agg s elem)) = .ok (weave first rest codes) :=
    fun codes hcodes => (hfill codes hcodes.ge).trans
      (congrArg Except.ok (hweave codes (hcodes.trans hholes.symm)))
  refine ⟨first, rest, hrest.trans hholes, ?_, hall⟩
  -- with their own codes the operands are what they were
  have hown := hall (ops.map Operand.code) (by simp)
  rw [withCodes_code, htext] at hown
  exact Except.ok.inj hown

/-- A key that a call gives, a list that holds its value, and a pair of calls. -/
def splicedPairs : List Operand :=
  [.plain "key()" (some .string), .plain "values" (some (.agg .list .integer)),
    .plain "f()" (some .string), .nonNull "g()" (some .box)]

/-- A map of pairs across a list evaluates the calls and the list in their order. -/
theorem splicedPairs_in_order :
    ∃ first rest, rest.length = 4 ∧ ∀ codes, codes.length = 4 →
      build (withCodes splicedPairs codes) (some (.agg .map .integer)) =
        .ok (weave first rest codes) := by
  have hlive : ∀ o ∈ splicedPairs, o.Live := by
    simp only [splicedPairs, List.forall_mem_cons]
    exact ⟨Operand.live_plain .., Operand.live_plain .., Operand.live_plain ..,
      Operand.live_nonNull .., nofun⟩
  -- only that there is a text is computed; its order follows
  have hbuilt : (build splicedPairs (some (.agg .map .integer))).toBool = true := by
    decide +kernel
  rcases htext : build splicedPairs (some (.agg .map .integer)) with f | text
  · rw [htext] at hbuilt
    cases hbuilt
  · obtain ⟨first, rest, hrest, -, hall⟩ :=
      build_evaluates_in_order hlive (fun _ => by decide) htext
    exact ⟨first, rest, hrest, hall⟩

end Collection

end TypedPerl
