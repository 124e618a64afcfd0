import TypedPerl.Proofs.Conversion.Quiet

/-!
# Which maps raise the error of an odd list

A map is made of rows of values, each taken in pairs, and of the containers between the rows. The
pieces of an odd row cannot be paired, and what stands for it raises an error when it runs. A list
raises the error exactly when one of its rows is odd: so it does when its values are odd in number,
but also when a container parts a key from its value.
-/

namespace TypedPerl.Collection

open Text (Within Quiet supplier)
open Conversion (quiet_convert)

theorem arityRaise_supplier (t : Ty) : Within supplier (arityRaise t) := by
  have hstart : Within supplier "((java.util.function.Supplier<" := by decide +kernel
  exact ((hstart.behind _).behind _ |>.behind _).behind _

/-- The piece is quiet, and so are the names in its type. -/
structure Chunk.Quiet (c : Chunk) : Prop where
  /-- The code is quiet. -/
  code : Text.Quiet c.code
  /-- The names of classes in the type are quiet. -/
  type : c.type.QuietNames

/-- One of the pieces raises the error where a row is odd, and all are quiet where none is. -/
structure Accounts (elem : Ty) (odd : Prop) (cs : List Chunk) : Prop where
  /-- An odd row raises the error. -/
  raises : odd → ∃ c ∈ cs, c.code = arityRaise (.mapOf elem)
  /-- Nothing else does. -/
  quiet : ¬odd → ∀ c ∈ cs, c.Quiet

namespace Accounts

variable {elem : Ty} {odd odd' : Prop} {cs cs' : List Chunk}

theorem append (h : Accounts elem odd cs) (h' : Accounts elem odd' cs') :
    Accounts elem (odd ∨ odd') (cs ++ cs') where
  raises
    | .inl hodd =>
      have ⟨c, hc, hcode⟩ := h.raises hodd
      ⟨c, List.mem_append_left _ hc, hcode⟩
    | .inr hodd =>
      have ⟨c, hc, hcode⟩ := h'.raises hodd
      ⟨c, List.mem_append_right _ hc, hcode⟩
  quiet heven :=
    List.forall_mem_append.mpr ⟨h.quiet fun hodd => heven (.inl hodd),
      h'.quiet fun hodd => heven (.inr hodd)⟩

theorem cons {c : Chunk} (hc : c.Quiet) (h : Accounts elem odd cs) :
    Accounts elem odd (c :: cs) where
  raises hodd :=
    have ⟨c', hc', hcode⟩ := h.raises hodd
    ⟨c', List.mem_cons_of_mem c hc', hcode⟩
  quiet heven := List.forall_mem_cons.mpr ⟨hc, h.quiet heven⟩

theorem congr (h : Accounts elem odd cs) (hiff : odd ↔ odd') : Accounts elem odd' cs :=
  ⟨fun hodd => h.raises (hiff.mpr hodd), fun heven => h.quiet fun hodd => heven (hiff.mp hodd)⟩

end Accounts

/-! ## Rows -/

variable {α : Type}

/-- The values of a row are left over exactly when it is odd. -/
theorem odd_iff (run : List α) :
    run.length % 2 ≠ 0 ↔ (if run.length % 2 = 0 then [] else run) ≠ [] := by
  by_cases heven : run.length % 2 = 0
  · simp [heven]
  · rw [if_neg heven]
    refine ⟨fun _ hnil => ?_, fun _ => heven⟩
    simp [hnil] at heven

/-- Containers do not change whether the values are odd in number: an even row leaves none over, and
an odd one all. -/
theorem length_unpaired (container : α → Bool) (xs : List α) : ∀ run : List α,
    (unpaired container run xs).length % 2 =
      (run.length + (xs.filter fun x => !container x).length) % 2 := by
  -- a row that ends is either dropped, being even, or kept whole
  have hrow (run : List α) :
      (if run.length % 2 = 0 then [] else run).length % 2 = run.length % 2 := by
    split
    · rename_i heven
      exact heven.symm
    · rfl
  induction xs with
  | nil => exact hrow
  | cons x rest ih =>
    intro run
    rw [unpaired]
    cases hx : container x with
    | true =>
      have hrest := ih []
      have hhere := hrow run
      simp only [if_true, List.length_append, List.filter_cons, hx, Bool.not_true,
        Bool.false_eq_true, if_false, List.length_nil] at hrest ⊢
      omega
    | false =>
      have hrest := ih (run ++ [x])
      simp only [Bool.false_eq_true, if_false, List.filter_cons, hx, Bool.not_false, if_true,
        List.length_append, List.length_cons, List.length_nil] at hrest ⊢
      omega

/-- A list whose values are odd in number has an odd row. -/
theorem unpaired_ne_nil {container : α → Bool} {xs : List α}
    (hodd : (xs.filter fun x => !container x).length % 2 = 1) : unpaired container [] xs ≠ [] := by
  intro hnil
  have hlength := length_unpaired container xs []
  rw [hnil] at hlength
  simp only [List.length_nil] at hlength
  omega

/-! ## Pieces -/

variable {elem : Ty} (helem : elem.QuietNames)

include helem

theorem quietNames_map : (Ty.mapOf elem).QuietNames := by
  cases elem <;> exact helem

/-- The keys and the values of an even row. -/
theorem mapRun_quiet {run : List Operand} (hrun : ∀ o ∈ run, o.Quiet)
    (heven : run.length % 2 = 0) : Gives (mapRun run elem) Chunk.Quiet := by
  have hstring : Ty.string.QuietNames := trivial
  have hentries := entries_all (fun o ho => quiet_convert (hrun o ho) hstring.known)
    fun o ho => quiet_convert (hrun o ho) helem.known
  unfold mapRun
  rw [if_neg (not_not.mpr heven)]
  refine .bind hentries fun entries ⟨hkeys, hvalues⟩ => .pure ⟨?_, quietNames_map helem⟩
  have htype : Text.Quiet (Java.declType (.mapOf elem)) :=
    Java.quiet_declType (quietNames_map helem).named
  have hkeyArray := Java.quiet_arrayInitializer .string hkeys
  have hvalueArray := Java.quiet_arrayInitializer elem hvalues
  exact .behind (.between (.between (.before rfl htype) rfl hkeyArray) rfl hvalueArray) rfl

theorem runChunk_accounts {run : List Operand} (hrun : ∀ o ∈ run, o.Quiet) :
    Gives (runChunk .map elem run) (Accounts elem (run.length % 2 ≠ 0)) := by
  unfold runChunk
  split
  · rename_i hempty
    have hnil : run = [] := by simpa using hempty
    subst hnil
    exact .ok ⟨fun hodd => absurd rfl hodd, fun _ c hc => absurd hc List.not_mem_nil⟩
  · rw [if_pos rfl]
    -- an odd run gives the code that raises, and nothing else
    by_cases heven : run.length % 2 = 0
    · refine .bind (mapRun_quiet helem hrun heven) fun c hc =>
        .pure ⟨fun hodd => absurd heven hodd, ?_⟩
      exact fun _ => List.forall_mem_singleton.mpr hc
    · have hraise : mapRun run elem = .ok ⟨arityRaise (.mapOf elem), .mapOf elem⟩ := by
        unfold mapRun
        rw [if_pos heven]
        rfl
      rw [hraise]
      exact .pure ⟨fun _ => ⟨_, List.mem_singleton_self _, rfl⟩, fun hnot => absurd heven hnot⟩

theorem splice_quiet {o : Operand} (ho : o.Quiet) {t : Ty} (ht : o.type = some t) :
    Gives (splice o t .map elem) Chunk.Quiet := by
  have hdest : (Ty.agg .map elem).QuietNames := helem
  refine .ite (fun _ => .ok ⟨ho.code, ho.type t ht⟩) fun _ => ?_
  exact .bind (quiet_convert ho hdest.known) fun code hcode => .pure ⟨hcode, helem⟩

/-- The pieces of a list raise the error where some value is in an odd row. -/
theorem chunks_accounts (ops : List Operand) (hops : ∀ o ∈ ops, o.Quiet) :
    ∀ run : List Operand, (∀ o ∈ run, o.Quiet) → Gives (chunks .map elem run ops)
      (Accounts elem (unpaired Operand.isAggregate run ops ≠ [])) := by
  induction ops with
  | nil =>
    intro run hrun
    exact (runChunk_accounts helem hrun).mono fun cs hcs => hcs.congr (odd_iff run)
  | cons o rest ih =>
    intro run hrun
    obtain ⟨ho, hrest⟩ := List.forall_mem_cons.mp hops
    rw [chunks, unpaired]
    split
    · -- a container ends the row before it
      rename_i s' e' htype
      have hcontainer : o.isAggregate = true := by
        simp [Operand.isAggregate, htype, Ty.isAggregate]
      refine .bind (runChunk_accounts helem hrun) fun before hbefore => ?_
      refine .bind (splice_quiet helem ho htype) fun c hc => ?_
      refine .bind (ih hrest [] (by simp)) fun after hafter => .pure ?_
      refine (hbefore.append (hafter.cons hc)).congr ?_
      simp only [if_pos hcontainer, odd_iff run, ne_eq, List.append_eq_nil_iff, not_and_or]
    · rename_i htype
      rw [Operand.isAggregate_eq_false htype, if_neg Bool.false_ne_true]
      exact ih hrest (run ++ [o])
        (List.forall_mem_append.mpr ⟨hrun, List.forall_mem_singleton.mpr ho⟩)

theorem joinChunks_quiet {cs : List Chunk} (hcs : ∀ c ∈ cs, c.Quiet) :
    Gives (joinChunks .map elem cs) Text.Quiet := by
  have hdest : (Ty.agg .map elem).QuietNames := helem
  unfold joinChunks
  split
  · rename_i c
    obtain ⟨hcode, htype⟩ := hcs c List.mem_cons_self
    exact quiet_convert (.nonNull hcode htype) hdest.known
  · refine .ok (.append (.append (.call (.lit rfl) (.lit rfl) (by simp)) ?_) (.lit rfl))
    refine .concat fun y hy => ?_
    obtain ⟨c, hc, rfl⟩ := List.mem_map.mp hy
    exact .behind (.before rfl (hcs c hc).code) rfl

theorem joinChunks_raises {odd : Prop} {cs : List Chunk} (hcs : Accounts elem odd cs) :
    Gives (joinChunks .map elem cs) fun text =>
      Within (arityRaise (.mapOf elem)) text ↔ odd := by
  intro text htext
  refine ⟨fun hwithin => ?_, fun hodd => ?_⟩
  · -- without an odd row the whole text is quiet, and then it cannot hold the word
    by_contra heven
    have hquiet := joinChunks_quiet helem (hcs.quiet heven) text htext
    exact hquiet.not_within ((arityRaise_supplier _).trans hwithin)
  · obtain ⟨c, hc, hcode⟩ := hcs.raises hodd
    exact hcode ▸ joinChunks_kept .map elem cs text htext c hc

/-- A list of values and maps raises the error of an odd list exactly when one of its rows of values
is odd. It does so whenever its values are odd in number; but where they are even in number it also
does, if a map stands between a key and its value. -/
theorem build_raises_iff {ops : List Operand} (hvalues : ∀ o ∈ ops, o.isSequence = false)
    (hops : ∀ o ∈ ops, o.Quiet) {text : String}
    (htext : build ops (some (.agg .map elem)) = .ok text) :
    (Within (arityRaise (.mapOf elem)) text ↔ unpaired Operand.isAggregate [] ops ≠ []) ∧
      ((ops.filter fun o => !o.isAggregate).length % 2 = 1 →
        Within (arityRaise (.mapOf elem)) text) := by
  have hiff : Within (arityRaise (.mapOf elem)) text ↔
      unpaired Operand.isAggregate [] ops ≠ [] := by
    -- an empty map is built without pieces
    rcases ops with _ | ⟨o, rest⟩
    · cases htext
      have hempty : Text.Quiet (Java.emptyOf (.agg .map elem)) :=
        Java.quiet_newAggregate (.agg .map elem) (.lit rfl)
      refine ⟨fun hwithin => ?_, fun hne => absurd rfl hne⟩
      exact absurd ((arityRaise_supplier _).trans hwithin) hempty.not_within
    · have hany : (o :: rest).any Operand.isSequence = false := by
        simpa using hvalues
      unfold build at htext
      simp only [List.isEmpty_cons, Bool.false_eq_true, if_false, hany, Bool.and_false] at htext
      have hpieces := chunks_accounts helem (o :: rest) hops [] (by simp)
      exact Gives.bind hpieces (fun cs hcs => joinChunks_raises helem hcs) text htext
  exact ⟨hiff, fun hodd => hiff.mpr (unpaired_ne_nil hodd)⟩

omit helem

/-- A key and its value before a map. -/
def pairBeforeMap : List Operand :=
  [{ code := "\"a\"", type := some .string, notNull := true, constant := true },
    { code := "1", type := some .integer, notNull := true, constant := true },
    .nonNull "h" (some (.agg .map .integer))]

theorem pairBeforeMap_silent : ∃ text,
    build pairBeforeMap (some (.agg .map .integer)) = .ok text ∧
      ¬Within (arityRaise (.mapOf .integer)) text := by
  have hops : ∀ o ∈ pairBeforeMap, o.Quiet := by
    simp only [pairBeforeMap, List.forall_mem_cons]
    refine ⟨⟨.lit rfl, Ty.QuietNames.known ?_⟩, ⟨.lit rfl, Ty.QuietNames.known ?_⟩,
      .nonNull (.lit rfl) ?_, by simp⟩
    all_goals trivial
  -- only that there is a text is computed; what is in it follows
  have hbuilt : (build pairBeforeMap (some (.agg .map .integer))).toBool = true := by
    decide +kernel
  rcases htext : build pairBeforeMap (some (.agg .map .integer)) with f | text
  · rw [htext] at hbuilt
    cases hbuilt
  · have hiff := build_raises_iff (by trivial) (by decide) hops htext
    exact ⟨text, rfl, fun hwithin => hiff.1.mp hwithin (by decide)⟩

/-- A key and its value with a map between them. -/
def pairAroundMap : List Operand :=
  [{ code := "\"a\"", type := some .string, notNull := true, constant := true },
    .nonNull "h" (some (.agg .map .integer)),
    { code := "1", type := some .integer, notNull := true, constant := true }]

/-- The list has two values, and yet it raises the error of an odd list. -/
theorem pairAroundMap_raises : (∀ o ∈ pairAroundMap, o.isSequence = false) ∧
    (pairAroundMap.filter fun o => !o.isAggregate).length = 2 ∧
    ∃ text, build pairAroundMap (some (.agg .map .integer)) = .ok text ∧
      Within (arityRaise (.mapOf .integer)) text := by
  -- each value is a row of its own
  let raise : Chunk := ⟨arityRaise (.mapOf .integer), .mapOf .integer⟩
  have hpieces : chunks .map .integer [] pairAroundMap =
      .ok [raise, ⟨"h", .mapOf .integer⟩, raise] := rfl
  have hbuild : build pairAroundMap (some (.agg .map .integer)) = (do
      let cs ← chunks .map .integer [] pairAroundMap
      joinChunks .map .integer cs) := rfl
  rw [hpieces] at hbuild
  rcases hjoin : joinChunks .map .integer [raise, ⟨"h", .mapOf .integer⟩, raise] with f | text
  · cases hjoin
  · have hkept : Within raise.code text :=
      joinChunks_kept .map .integer _ text hjoin raise List.mem_cons_self
    exact ⟨by decide, by decide, text, hbuild.trans hjoin, hkept⟩

end TypedPerl.Collection
