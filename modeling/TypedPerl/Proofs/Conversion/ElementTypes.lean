import TypedPerl.Proofs.Conversion.Kept
import TypedPerl.Proofs.Conversion.Referents
import TypedPerl.Compile.Value

/-!
# The common type of a list and its array

An array or list of given elements can be built exactly if each element can be converted: a value to
the type of the elements, and a container as a whole. A list without a written type is built as an
array of the common type of its elements. For scalars and containers of scalars this always
succeeds, with one exception: a sequence brings in its elements, but a map brings in itself. The
common type of maps alone is a map, and no map can become an array of maps, since its keys would
have to become maps too.
-/

namespace TypedPerl

/-! ## Computations that succeed -/

namespace Succeeds

variable {α β : Type}

/-- A computation whose rest succeeds on all its results. -/
theorem bind_iff_of_gives {x : Except Fault α} {k : α → Except Fault β} {mid : α → Prop}
    (hx : Gives x mid) (hk : ∀ a, mid a → Succeeds (k a)) : Succeeds (x >>= k) ↔ Succeeds x := by
  cases x with
  | error f => exact iff_of_false (not_error f) (not_error f)
  | ok a => exact iff_of_true (hk a (hx a rfl)) (.ok a)

theorem mapM_iff {k : α → Except Fault β} {xs : List α} :
    Succeeds (xs.mapM k) ↔ ∀ a ∈ xs, Succeeds (k a) := by
  induction xs with
  | nil => exact iff_of_true (.ok []) nofun
  | cons a rest ih =>
    rw [List.mapM_cons, List.forall_mem_cons, ← ih]
    exact bind_iff fun b => bind_pure_iff

end Succeeds

namespace Conversion

/-- The undefined value can become everything. -/
theorem convert_undef_succeeds {o : Operand} {dest : Ty} (ho : o.undef = true)
    (hrow : (o.multi && !dest.isAggregate) = false) : Succeeds (convert o (some dest)) := by
  unfold convert
  simp only [Option.any_some, hrow, Bool.false_eq_true, if_false, ho, if_true]
  exact .ok _

/-- What can be converted is converted, undefined or not. -/
theorem convert_succeeds {o : Operand} {dest : Ty}
    (h : ConvertibleFrom (o.sourceType dest) dest) : Succeeds (convert o (some dest)) := by
  by_cases hvalue : o.undef = false ∨ (o.multi && !dest.isAggregate) = true
  · exact (convert_succeeds_iff hvalue).mpr h
  · rw [not_or, Bool.not_eq_false, Bool.not_eq_true] at hvalue
    exact convert_undef_succeeds hvalue.1 hvalue.2

/-- As a container an operand is converted from its own type, a row of values too. -/
theorem sourceType_aggregate (o : Operand) (s : Shape) (elem : Ty) :
    o.sourceType (.agg s elem) = o.type := by
  simp [Operand.sourceType, Ty.isAggregate]

theorem convert_aggregate_iff {o : Operand} (ho : o.undef = false) (s : Shape) (elem : Ty) :
    Succeeds (convert o (some (.agg s elem))) ↔ ConvertibleFrom o.type (.agg s elem) := by
  rw [convert_succeeds_iff (.inl ho), sourceType_aggregate]

end Conversion

namespace Collection

open Conversion (convert)

/-! ## Sequences that can be built -/

/-- The type that an element of a container becomes: a container is converted as a whole. -/
def storedAs (o : Operand) (s : Shape) (elem : Ty) : Ty :=
  if o.isAggregate then .agg s elem else elem

variable {s : Shape} {elem : Ty}

theorem storedAs_container {o : Operand} {s' : Shape} {e : Ty} (ho : o.type = some (.agg s' e)) :
    storedAs o s elem = .agg s elem := by
  rw [storedAs, Operand.isAggregate, ho]
  rfl

theorem storedAs_value {o : Operand} (ho : o.isAggregate = false) : storedAs o s elem = elem := by
  rw [storedAs, ho]
  rfl

theorem sequenceRun_succeeds_iff {run : List Operand} :
    Succeeds (sequenceRun run elem) ↔ ∀ o ∈ run, Succeeds (convert o (some elem)) :=
  Succeeds.bind_pure_iff.trans Succeeds.mapM_iff

theorem runChunk_succeeds_iff (hs : s ≠ .map) {run : List Operand} :
    Succeeds (runChunk s elem run) ↔ ∀ o ∈ run, Succeeds (convert o (some elem)) := by
  rw [runChunk, if_neg hs, ← sequenceRun_succeeds_iff]
  split
  · rename_i hempty
    rw [List.isEmpty_iff.mp hempty]
    exact iff_of_true (.ok _) (.ok _)
  · exact Succeeds.bind_pure_iff

/-- In a sequence, a sequence of the same elements is spliced in as it is, and any other container
is converted. -/
theorem splice_cases (hs : s ≠ .map) (elem : Ty) (o : Operand) (s' : Shape) (e : Ty) :
    (s' ≠ .map ∧ e = elem ∧ splice o (.agg s' e) s elem = .ok ⟨o.code, .agg s' e⟩) ∨
      splice o (.agg s' e) s elem = do
        let code ← convert o (some (.agg s elem))
        return ⟨code, .agg s elem⟩ := by
  unfold splice
  dsimp only
  -- into a sequence, a sequence of the same elements is spliced as it is
  simp only [hs, if_false]
  split
  · rename_i hfits
    rw [Bool.and_eq_true] at hfits
    refine .inl ⟨?_, of_decide_eq_true hfits.2, rfl⟩
    rintro rfl
    cases hfits.1
  · exact .inr rfl

/-- A sequence of the same elements could be converted too. -/
theorem sequence_convertible {s' : Shape} (hs' : s' ≠ .map) :
    Convertible (.agg s' elem) (.agg s elem) :=
  .agg (.refl elem) fun hmap => absurd hmap hs'

theorem splice_succeeds_iff (hs : s ≠ .map) {o : Operand} {s' : Shape} {e : Ty}
    (ho : o.type = some (.agg s' e)) :
    Succeeds (splice o (.agg s' e) s elem) ↔ Succeeds (convert o (some (.agg s elem))) := by
  rcases splice_cases hs elem o s' e with ⟨hs', rfl, hsplice⟩ | hsplice
  · rw [hsplice]
    refine iff_of_true (.ok _) (Conversion.convert_succeeds ?_)
    rw [Conversion.sourceType_aggregate, ho]
    exact sequence_convertible hs'
  · rw [hsplice]
    exact Succeeds.bind_pure_iff

/-- A list of elements has pieces if each element has, by induction on the list. -/
theorem chunks_succeeds_iff (hs : s ≠ .map) (ops : List Operand) : ∀ run : List Operand,
    Succeeds (chunks s elem run ops) ↔
      (∀ o ∈ run, Succeeds (convert o (some elem))) ∧
        ∀ o ∈ ops, Succeeds (convert o (some (storedAs o s elem))) := by
  induction ops with
  | nil =>
    intro run
    exact (runChunk_succeeds_iff hs).trans (and_iff_left nofun).symm
  | cons o rest ih =>
    intro run
    rw [chunks, List.forall_mem_cons]
    -- a container ends the run before it and begins a new one
    split
    · rename_i s' e htype
      rw [storedAs_container htype, ← runChunk_succeeds_iff hs, ← splice_succeeds_iff hs htype]
      refine Succeeds.bind_iff fun before => Succeeds.bind_iff fun c => ?_
      exact Succeeds.bind_pure_iff.trans ((ih []).trans (and_iff_right nofun))
    · rename_i htype
      rw [ih, storedAs_value (Operand.isAggregate_eq_false htype), List.forall_mem_append, List.forall_mem_singleton, and_assoc]

/-- Each piece can be converted to the container. -/
theorem chunks_convertible (hs : s ≠ .map) (helem : elem.isRef = false) (ops : List Operand) :
    ∀ run : List Operand,
      Gives (chunks s elem run ops) fun cs => ∀ c ∈ cs, Convertible c.type (.agg s elem) := by
  -- a run becomes an array of the wanted elements
  have hrow (run : List Operand) : Gives (runChunk s elem run) fun cs =>
      ∀ c ∈ cs, Convertible c.type (.agg s elem) := by
    refine .ite (fun _ => .ok nofun) fun _ => ?_
    rw [if_neg hs]
    have htype : Gives (sequenceRun run elem) fun c => c.type = .agg .array elem :=
      .skip fun items => .pure (Ty.arrayOf_of_not_ref helem)
    refine .bind htype fun c hc => .pure ?_
    rw [List.forall_mem_singleton, hc]
    exact .agg (.refl elem) nofun
  -- and a container fits already or is converted
  have hsplice (o : Operand) (s' : Shape) (e : Ty) : Gives (splice o (.agg s' e) s elem) fun c =>
      Convertible c.type (.agg s elem) := by
    rcases splice_cases hs elem o s' e with ⟨hs', rfl, hsplice⟩ | hsplice
    · rw [hsplice]
      exact .ok (sequence_convertible hs')
    · rw [hsplice]
      exact .skip fun code => .pure (.refl _)
  induction ops with
  | nil => exact hrow
  | cons o rest ih =>
    intro run
    rw [chunks]
    split
    · refine .bind (hrow run) fun before hbefore => .bind (hsplice _ _ _) fun c hc => ?_
      refine .bind (ih []) fun after hafter => .pure ?_
      exact List.forall_mem_append.mpr ⟨hbefore, List.forall_mem_cons.mpr ⟨hc, hafter⟩⟩
    · exact ih _

/-- An array or a list can be built exactly if each element can be converted. -/
theorem build_sequence_succeeds_iff (hs : s ≠ .map) (helem : elem.isRef = false)
    (ops : List Operand) :
    Succeeds (build ops (some (.agg s elem))) ↔
      ∀ o ∈ ops, Succeeds (convert o (some (storedAs o s elem))) := by
  -- pieces that convert to the container can always be joined
  have hjoin (cs : List Chunk) (hcs : ∀ c ∈ cs, Convertible c.type (.agg s elem)) :
      Succeeds (joinChunks s elem cs) := by
    unfold joinChunks
    split
    · exact Conversion.convert_succeeds (hcs _ (List.mem_singleton_self _))
    · exact .ok _
  have hfrom : Succeeds (buildFrom ops s elem) ↔
      ∀ o ∈ ops, Succeeds (convert o (some (storedAs o s elem))) :=
    (Succeeds.bind_iff_of_gives (chunks_convertible hs helem ops []) hjoin).trans
      ((chunks_succeeds_iff hs ops []).trans (and_iff_right nofun))
  rw [← hfrom]
  unfold build
  dsimp only
  split
  · rename_i hempty
    rw [List.isEmpty_iff.mp hempty] at hfrom ⊢
    exact iff_of_true (.ok _) (hfrom.mpr nofun)
  · simp [hs]

end Collection

/-! ## Common types -/

/-- A scalar other than a file handle, or a container of such scalars. -/
inductive Operand.Ordinary (o : Operand) : Prop where
  | scalar {k : Kind} : k ≠ .file → o.type = some (.scalar k) → o.Ordinary
  | container {s : Shape} {k : Kind} : k ≠ .file → o.type = some (.agg s (.scalar k)) → o.Ordinary

/-- The defined elements of a list, of which there is one, are all maps. -/
def Operand.onlyMaps (ops : List Operand) : Bool :=
  let defined := ops.filter fun o => !o.undef
  !defined.isEmpty && defined.all fun o => o.type.any Ty.isMap

namespace Operand

theorem exists_elem_of_map {o : Operand} (h : o.type.any Ty.isMap = true) :
    ∃ e, o.type = some (.agg .map e) := by
  revert h
  rcases o.type with _ | (k | name | ⟨s, e⟩ | e)
  · exact nofun
  · exact nofun
  · exact nofun
  · cases s with
    | map => exact fun _ => ⟨e, rfl⟩
    | array | list => exact nofun
  · exact nofun

/-- There is a defined map. -/
theorem exists_map_of_onlyMaps {ops : List Operand} (h : onlyMaps ops = true) :
    ∃ o ∈ ops, o.undef = false ∧ ∃ e, o.type = some (.agg .map e) := by
  rw [onlyMaps, Bool.and_eq_true, Bool.not_eq_true', List.isEmpty_eq_false_iff_exists_mem,
    List.all_eq_true] at h
  obtain ⟨⟨o, ho⟩, hmaps⟩ := h
  obtain ⟨hmem, hdefined⟩ := List.mem_filter.mp ho
  exact ⟨o, hmem, by simpa using hdefined, exists_elem_of_map (hmaps o ho)⟩

end Operand

namespace Ty

/-- A type that ordinary elements bring in: a sequence brings in its elements, a map itself. -/
inductive Contributed : Ty → Prop where
  | scalar {k : Kind} : k ≠ .file → Contributed (.scalar k)
  | map {k : Kind} : k ≠ .file → Contributed (.agg .map (.scalar k))

namespace Contributed

/-- Of two types that are brought in one comes out that could be brought in, and it is a map only
if both are. -/
theorem merge {a b : Ty} (ha : a.Contributed) (hb : b.Contributed) :
    (a.merge b).Contributed ∧ (a.merge b).isMap = (a.isMap && b.isMap) := by
  -- a scalar and a map have nothing in common but that both are values
  have hbox : (Ty.box).Contributed := .scalar (by decide)
  cases ha with
  | @scalar k hk =>
    cases hb with
    | scalar hk' =>
      unfold Ty.merge
      split
      · exact ⟨.scalar hk, rfl⟩
      · split
        · split
          · exact ⟨.scalar (by decide), rfl⟩
          · exact ⟨.scalar (by decide), rfl⟩
        · exact ⟨.scalar (by decide), rfl⟩
    | @map k' hk' =>
      have hmerge : (Ty.scalar k).merge (.agg .map (.scalar k')) = .box := by
        simp [Ty.merge, Ty.isNumeric, Ty.kind?, Ty.isAggregate]
      rw [hmerge]
      exact ⟨hbox, rfl⟩
  | @map k hk =>
    cases hb with
    | @scalar k' hk' =>
      have hmerge : (Ty.agg .map (.scalar k)).merge (.scalar k') = .box := by
        simp [Ty.merge, Ty.isNumeric, Ty.kind?, Ty.isAggregate]
      rw [hmerge]
      exact ⟨hbox, rfl⟩
    | map hk' =>
      unfold Ty.merge
      split
      · exact ⟨.map hk, rfl⟩
      · exact ⟨.map hk, rfl⟩

end Contributed

end Ty

namespace Operand

theorem contribution_of_type {o : Operand} {t : Ty} (ho : o.type = some t) :
    o.contribution = some (if t.isSequence then t.elem else t) := by
  rw [contribution, isSequence, elemType, ho]
  exact (apply_ite some _ _ _).symm

theorem Ordinary.contribution {o : Operand} (h : o.Ordinary) :
    ∃ t, o.contribution = some t ∧ t.Contributed ∧ t.isMap = o.type.any Ty.isMap := by
  cases h with
  | scalar hk ho => exact ⟨_, contribution_of_type ho, .scalar hk, by rw [ho]; rfl⟩
  | @container s k hk ho =>
    cases s with
    | array | list => exact ⟨_, contribution_of_type ho, .scalar hk, by rw [ho]; rfl⟩
    | map => exact ⟨_, contribution_of_type ho, .map hk, by rw [ho]; rfl⟩

/-- The types of a list, merged one after the other, by induction on the list. -/
theorem foldl_contributed {ops : List Operand} (hops : ∀ o ∈ ops, o.Ordinary) :
    ∀ {t : Ty}, t.Contributed → ∃ u,
      ops.foldl (fun t o => Ty.merge? t o.contribution) (some t) = some u ∧ u.Contributed ∧
        u.isMap = (t.isMap && ops.all fun o => o.type.any Ty.isMap) := by
  induction ops with
  | nil => exact fun {t} ht => ⟨t, rfl, ht, by simp⟩
  | cons o rest ih =>
    intro t ht
    obtain ⟨ho, hrest⟩ := List.forall_mem_cons.mp hops
    obtain ⟨c, hc, hcontributed, hmap⟩ := ho.contribution
    -- the common type stays of the kind that merges, and is a map only of maps
    obtain ⟨hmerged, hmergedMap⟩ := ht.merge hcontributed
    obtain ⟨u, hu, hcommon, hcommonMap⟩ := ih hrest hmerged
    refine ⟨u, ?_, hcommon, ?_⟩
    · rw [List.foldl_cons, hc]
      exact hu
    · rw [hcommonMap, hmergedMap, hmap, List.all_cons, Bool.and_assoc]

/-- The common type of ordinary elements is a scalar type, unless they are maps, and then a map. -/
theorem elementType_contributed {ops : List Operand} (hops : ∀ o ∈ ops, o.Ordinary) :
    (elementType ops).Contributed ∧ (elementType ops).isMap = onlyMaps ops := by
  unfold elementType onlyMaps
  have hdefined : ∀ o ∈ ops.filter (fun o => !o.undef), o.Ordinary :=
    fun o ho => hops o (List.mem_filter.mp ho).1
  revert hdefined
  generalize ops.filter (fun o => !o.undef) = defined
  intro hdefined
  -- the first contribution is the start of the fold
  cases defined with
  | nil => exact ⟨.scalar (by decide), rfl⟩
  | cons o rest =>
    obtain ⟨ho, hrest⟩ := List.forall_mem_cons.mp hdefined
    obtain ⟨c, hc, hcontributed, hmap⟩ := ho.contribution
    obtain ⟨u, hu, hcommon, hcommonMap⟩ := foldl_contributed hrest hcontributed
    have hfold : (o :: rest).foldl (fun t o => Ty.merge? t o.contribution) none = some u := by
      rw [List.foldl_cons, hc]
      exact hu
    rw [hfold]
    refine ⟨hcommon, ?_⟩
    rw [Option.getD_some, hcommonMap, hmap]
    rfl

end Operand

namespace Collection

open Conversion (convert)

/-! ## Lists of ordinary elements -/

/-- Ordinary elements can all be converted for an array of scalars. -/
theorem ordinary_converts {o : Operand} (ho : o.Ordinary) {k : Kind} (hk : k ≠ .file) :
    Succeeds (convert o (some (storedAs o .array (.scalar k)))) := by
  refine Conversion.convert_succeeds ?_
  cases ho with
  | @scalar k' hk' htype =>
    have hsource : o.sourceType (.scalar k) = some (.scalar k') := by
      simp [Operand.sourceType, Operand.elemType, htype, Ty.elem, Ty.isAggregate]
    have hvalue : o.isAggregate = false := by
      simp [Operand.isAggregate, htype, Ty.isAggregate]
    rw [storedAs_value hvalue, hsource]
    exact .scalar hk
  | @container s k' hk' htype =>
    rw [storedAs_container htype, Conversion.sourceType_aggregate, htype]
    exact .agg (.scalar hk) fun _ _ => .scalar hk

/-- No map becomes an array of maps: its keys are texts. -/
theorem map_refused {o : Operand} (ho : o.undef = false) {e' : Ty}
    (htype : o.type = some (.agg .map e')) (e : Ty) :
    ¬Succeeds (convert o (some (storedAs o .array (.agg .map e)))) := by
  rw [storedAs_container htype, Conversion.convert_aggregate_iff ho, htype]
  intro h
  have hkeys : Convertible .string (.agg .map e) :=
    (Convertible.agg_iff.mp h).2 rfl (by decide)
  cases hkeys

/-- An array of the common type of ordinary elements can be built, unless the defined elements are
all maps. -/
theorem build_elementType_iff {ops : List Operand} (hops : ∀ o ∈ ops, o.Ordinary) :
    Succeeds (build ops (some (.arrayOf (Operand.elementType ops)))) ↔
      Operand.onlyMaps ops = false := by
  obtain ⟨hcommon, hmap⟩ := Operand.elementType_contributed hops
  generalize Operand.elementType ops = elem at hcommon hmap ⊢
  -- a common scalar takes every element; a common map would need a row of keys and values
  cases hcommon with
  | scalar hk =>
    refine iff_of_true ?_ hmap.symm
    exact (build_sequence_succeeds_iff (by decide) rfl ops).mpr fun o ho =>
      ordinary_converts (hops o ho) hk
  | map hk =>
    refine iff_of_false (fun hbuilt => ?_) (hmap ▸ nofun)
    have hall := (build_sequence_succeeds_iff (by decide) rfl ops).mp hbuilt
    obtain ⟨o, ho, hdefined, e, htype⟩ := Operand.exists_map_of_onlyMaps hmap.symm
    exact map_refused hdefined htype _ (hall o ho)

end Collection

namespace Compile

open Collection (build)

/-- A list of scalars and containers of scalars can be built as an array of the common type of its
elements, unless its defined elements are all maps. So can a new array without a written type, and
so can a list in parentheses. -/
theorem commonArray_succeeds_iff {ops : List Operand} (hops : ∀ o ∈ ops, o.Ordinary) :
    (Succeeds (build ops (some (.arrayOf (Operand.elementType ops)))) ↔
      Operand.onlyMaps ops = false) ∧
    (∀ type, (writtenContainer type).any Ty.isAggregate = false →
      (Succeeds (anonArrayOutput ops type) ↔ Operand.onlyMaps ops = false)) ∧
    (∀ u, u.assigned = false → u.isVoid = false →
      (Succeeds (listOutput ops u) ↔ Operand.onlyMaps ops = false)) := by
  have hbuild := Collection.build_elementType_iff hops
  refine ⟨hbuild, fun type htype => ?_, fun u hassigned hvoid => ?_⟩
  · unfold anonArrayOutput
    -- a written container type would be used instead of the common one
    split
    · rename_i s e hwritten
      rw [hwritten] at htype
      cases htype
    · exact Succeeds.bind_pure_iff.trans hbuild
  · simp only [listOutput, hassigned, hvoid, Bool.or_self, Bool.false_eq_true, if_false]
    exact Succeeds.bind_pure_iff.trans hbuild

/-- A number, a map of texts and a list of decimals. -/
def mixedList : List Operand :=
  [{ code := "1", type := some .integer, notNull := true, constant := true },
    .nonNull "h" (some (.agg .map .string)), .plain "xs" (some (.agg .list .double))]

/-- They become an array of dynamic values. -/
theorem mixedList_succeeds :
    Operand.elementType mixedList = .box ∧
    Succeeds (build mixedList (some (.arrayOf (Operand.elementType mixedList)))) ∧
    Succeeds (anonArrayOutput mixedList none) ∧ Succeeds (listOutput mixedList .list) := by
  have hordinary : ∀ o ∈ mixedList, o.Ordinary := by
    simp only [mixedList, List.forall_mem_cons]
    exact ⟨.scalar (by decide) rfl, .container (by decide) rfl, .container (by decide) rfl, nofun⟩
  have hmixed : Operand.onlyMaps mixedList = false := rfl
  obtain ⟨hbuild, hanon, hlist⟩ := commonArray_succeeds_iff hordinary
  exact ⟨rfl, hbuild.mpr hmixed, (hanon none rfl).mpr hmixed, (hlist .list rfl rfl).mpr hmixed⟩

/-- Two maps of texts. -/
def twoMaps : List Operand :=
  [.nonNull "h" (some (.agg .map .string)), .nonNull "g" (some (.agg .map .string))]

/-- Their common type is a map of texts, and as an array of such maps they are refused: a text, which
is a value of the first map, would have to become a map. -/
theorem twoMaps_refused :
    (∀ o ∈ twoMaps, o.Ordinary) ∧ Operand.elementType twoMaps = .agg .map .string ∧
    build twoMaps (some (.arrayOf (Operand.elementType twoMaps))) =
      .error (.incompatible (some .string) (some (.agg .map .string))) ∧
    listOutput twoMaps .list = .error (.incompatible (some .string) (some (.agg .map .string))) ∧
    anonArrayOutput twoMaps none =
      .error (.incompatible (some .string) (some (.agg .map .string))) := by
  refine ⟨?_, rfl, rfl, rfl, rfl⟩
  simp only [twoMaps, List.forall_mem_cons]
  exact ⟨.container (by decide) rfl, .container (by decide) rfl, nofun⟩

end Compile

end TypedPerl
