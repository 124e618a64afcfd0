import TypedPerl.Proofs.Scope.Taken
import TypedPerl.Proofs.Walk.Growing
import TypedPerl.Proofs.Walk.Phrases

/-!
# Texts of statements

A `Sentence` is a text that is put together as statements are: from phrases, the words and signs
between them, comments, declarations, braces and the headers of loops. It comes with the variables
and the auxiliary identifiers that it declares, with the bodies that stand in it, in the order of
the text, and with the blocks in which all this stands. As no phrase is a declaration, the text of a
sentence declares nothing else.
-/

namespace TypedPerl.Compile

open Java (Phrase)
open Name (AliasPool)

/-! ## Atoms -/

/-- The names and operators that stand in expressions as they are. -/
inductive Word (F : State) (steps : String → Prop) : String → Prop where
  /-- The identifier of an auxiliary variable. -/
  | auxiliary (n : Nat) : Word F steps (AliasPool.numbered n "")
  /-- A variable that a node means. -/
  | bound {st : State} {v : Variable} {b : Binding} (hst : st.Grows F)
      (hb : F.binding? v = some b) : Word F steps (st.nameOf b)
  /-- A subroutine that a node means. -/
  | sub {st : State} {n : Nat} {s : Sub} (hst : st.Grows F) (hs : F.subs.get? n = some s) :
      Word F steps (st.subName s)
  /-- The arguments of a subroutine. -/
  | arguments (pool : AliasPool) (visible : Bool) : Word F steps (pool.aliasFor "_" visible).1
  /-- The operator of a step beside a variable. -/
  | beside {op : String} (hop : steps op) : Word F steps op
  /-- The operator of a step between a value and one. -/
  | between {op : String} (hop : steps op) : Word F steps (" " ++ stepSign op ++ " 1")

/-- The words and signs between the parts of statements. -/
def separators : List String :=
  ["if (", ") ", " else ", " else if (", "do ", " while (", "while (", ");", "return ", "return;",
    "continue;", "break;", ";", "; ", "\n"]

/-- The lines are those of the statements in order. An absent body among the statements is no
statement of its own. -/
def State.LinesOf (F : State) (ss : List Stmt) (lines : List String) : Prop :=
  ∃ each : List (Option String),
    List.Forall₂ (fun s line => s.isPresent = true → line = F.lineOf? s.id) ss each ∧
    lines = each.filterMap id

/-! ## Sentences -/

/-- Bodies of blocks, each with the variables that its text declares. -/
abbrev Bodies := List (Locals × List Stmt)

/-- The text is one of statements, in which texts of `A` stand as they are. It declares the
variables and the auxiliary identifiers, and holds the bodies, all in order; `Locals` are the
declarations in it, those of the bodies included. -/
inductive Sentence (A : String → Prop) (F : State) :
    List Variable → List String → Bodies → Locals → String → Prop where
  /-- An expression. -/
  | phrase {s} (h : Phrase A s) : Sentence A F [] [] [] .done s
  /-- A word or sign. -/
  | separator {s} (h : s ∈ separators) : Sentence A F [] [] [] .done s
  /-- A comment. -/
  | comment (text : String) : Sentence A F [] [] [] .done (commentCode text)
  /-- The declaration of a variable of a method. -/
  | declared {v b} (hlocal : F.isLocalDecl v = true) (hb : F.binding? v = some b) :
      Sentence A F [v] [] [] (.decl b.javaName .done) (Java.declType b.type ++ " " ++ b.javaName)
  /-- The declaration of an auxiliary variable. -/
  | auxiliary (t : Option Ty) (n : Nat) :
      Sentence A F [] [AliasPool.numbered n ""] [] (.decl (AliasPool.numbered n "") .done)
        (Java.declType? t ++ " " ++ AliasPool.numbered n "")
  /-- A sentence behind a sentence. -/
  | append {vs vs' as as' bs bs' l l' x y} (hx : Sentence A F vs as bs l x)
      (hy : Sentence A F vs' as' bs' l' y) :
      Sentence A F (vs ++ vs') (as ++ as') (bs ++ bs') (l.append l') (x ++ y)
  /-- A sentence in braces. -/
  | block {vs as bs l x} (h : Sentence A F vs as bs l x) :
      Sentence A F vs as bs (.block l .done) (Java.braces [x])
  /-- A body in braces. -/
  | body {ss lines} (l : Locals) (hlines : F.LinesOf ss lines) :
      Sentence A F [] [] [(l, ss)] (.block l .done) (Java.braces lines)
  /-- A sentence and a body in braces. -/
  | led {vs as bs l x ss lines} (h : Sentence A F vs as bs l x) (l' : Locals)
      (hlines : F.LinesOf ss lines) :
      Sentence A F vs as (bs ++ [(l', ss)]) (.block (l.append l') .done) (Java.braces (x :: lines))
  /-- A loop, which encloses what its header declares. -/
  | loop {vs as bs l s} (h : Sentence A F vs as bs l s) :
      Sentence A F vs as bs (.block l .done) ("for (" ++ s)

/-- The identifiers of variables. -/
def State.namesOf (F : State) (vs : List Variable) : List String :=
  vs.flatMap fun v => (F.binding? v).toList.map (·.javaName)

theorem State.namesOf_append (F : State) (vs more : List Variable) :
    F.namesOf (vs ++ more) = F.namesOf vs ++ F.namesOf more :=
  List.flatMap_append

namespace Sentence

variable {A A' : String → Prop} {F : State} {vs vs' : List Variable} {as as' : List String}
  {bs bs' : Bodies} {l l' : Locals} {x y : String}

theorem mono (h : Sentence A F vs as bs l x) (hA : ∀ s, A s → A' s) :
    Sentence A' F vs as bs l x := by
  induction h with
  | phrase h => exact .phrase (h.mono hA)
  | separator h => exact .separator h
  | comment text => exact .comment text
  | declared hlocal hb => exact .declared hlocal hb
  | auxiliary t n => exact .auxiliary t n
  | append _ _ ihx ihy => exact .append ihx ihy
  | block _ ih => exact .block ih
  | body l hlines => exact .body l hlines
  | led _ l' hlines ih => exact .led ih l' hlines
  | loop _ ih => exact .loop ih

theorem empty : Sentence A F [] [] [] .done "" :=
  .phrase .empty

/-- A sentence with something behind it that declares nothing. -/
theorem before (hx : Sentence A F vs as bs l x) (hy : Sentence A F [] [] [] .done y) :
    Sentence A F vs as bs l (x ++ y) := by
  have h := hx.append hy
  rwa [List.append_nil, List.append_nil, List.append_nil, Locals.append_done] at h

/-- A sentence with something in front of it that declares nothing. -/
theorem behind (hx : Sentence A F vs as bs l x) (hy : Sentence A F [] [] [] .done y) :
    Sentence A F vs as bs l (y ++ x) :=
  hy.append hx

/-- The declaration of a variable of a method with a value. -/
theorem declaration {v : Variable} {b : Binding} {value : String}
    (hlocal : F.isLocalDecl v = true) (hb : F.binding? v = some b) (h : Phrase A value) :
    Sentence A F [v] [] [] (.decl b.javaName .done) (Compile.declaration b value) :=
  ((Sentence.declared hlocal hb).before (.phrase (.piece rfl))).before (.phrase h)

/-- What a sentence declares in its own block is among what it declares. -/
theorem names_subset (h : Sentence A F vs as bs l x) : ∀ a ∈ l.names, a ∈ F.namesOf vs ++ as := by
  induction h with
  | phrase | separator | comment | body | led | block | loop =>
    exact fun a ha => absurd ha List.not_mem_nil
  | @declared v b hlocal hb =>
    intro a ha
    simpa [State.namesOf, hb, Locals.names] using ha
  | auxiliary t n => exact fun a ha => ha
  | append _ _ ihx ihy =>
    intro a ha
    have hin := (List.mem_append.mp (Locals.names_append _ _ ▸ ha)).imp (ihx a) (ihy a)
    simp only [State.namesOf_append, List.mem_append] at hin ⊢
    tauto

/-- A sentence without text declares nothing. -/
theorem of_empty (h : Sentence A F vs as bs l x) (hx : x = "") :
    vs = [] ∧ as = [] ∧ bs = [] ∧ l = .done := by
  have hne {s t : String} (ht : t ≠ "") (h : s ++ t = "") : False :=
    ht (String.append_eq_empty_iff.mp h).2
  induction h with
  | phrase | separator | comment => exact ⟨rfl, rfl, rfl, rfl⟩
  | declared | auxiliary =>
    rw [String.append_assoc] at hx
    exact absurd hx (by simp)
  | append _ _ ihx ihy =>
    obtain ⟨hx, hy⟩ := String.append_eq_empty_iff.mp hx
    obtain ⟨rfl, rfl, rfl, rfl⟩ := ihx hx
    exact ihy hy
  | block | body | led =>
    unfold Java.braces at hx
    split at hx <;> simp at hx
  | loop => simp at hx

/-- A sentence declares nothing twice if what it declares differs, is not in scope, and what its
bodies declare is apart from it. -/
theorem apart (h : Sentence A F vs as bs l x) : ∀ {scope : List String},
    (F.namesOf vs ++ as).Nodup → (∀ a ∈ F.namesOf vs ++ as, a ∉ scope) →
    (∀ b ∈ bs, b.1.Apart (F.namesOf vs ++ as ++ scope)) → l.Apart scope := by
  induction h with
  | phrase | separator | comment => exact fun _ _ _ => trivial
  | @declared v b hlocal hb =>
    intro scope _ hnew _
    exact ⟨hnew _ (by simp [State.namesOf, hb]), trivial⟩
  | auxiliary t n =>
    intro scope _ hnew _
    exact ⟨hnew _ (by simp), trivial⟩
  | @append vs vs' as as' bs bs' l l' x y hx hy ihx ihy =>
    intro scope hnodup hnew hbodies
    rw [State.namesOf_append] at hnodup hnew hbodies
    -- what the first part declares is in scope behind it
    have hperm : (F.namesOf vs ++ F.namesOf vs' ++ (as ++ as')).Perm
        (F.namesOf vs ++ as ++ (F.namesOf vs' ++ as')) := by
      simp only [List.append_assoc]
      exact (List.perm_append_comm_assoc _ _ _).append_left _
    have hsplit := List.nodup_append.mp (hperm.nodup_iff.mp hnodup)
    obtain ⟨hfirst, hrest, hdisjoint⟩ := hsplit
    have hmem (a : String) : a ∈ F.namesOf vs ++ F.namesOf vs' ++ (as ++ as') ↔
        a ∈ F.namesOf vs ++ as ∨ a ∈ F.namesOf vs' ++ as' := by
      rw [hperm.mem_iff, List.mem_append]
    refine (ihx hfirst (fun a ha => hnew a ((hmem a).mpr (.inl ha))) fun b hb =>
      (hbodies b (List.mem_append_left _ hb)).mono fun a ha => ?_).append
      (ihy hrest (fun a ha hin => ?_) fun b hb =>
        (hbodies b (List.mem_append_right _ hb)).mono fun a ha => ?_)
    · exact (List.mem_append.mp ha).elim
        (fun ha => List.mem_append_left _ ((hmem a).mpr (.inl ha))) (List.mem_append_right _)
    · rcases List.mem_append.mp hin with hin | hin
      · exact hdisjoint a (hx.names_subset a hin) a ha rfl
      · exact hnew a ((hmem a).mpr (.inr ha)) hin
    · rcases List.mem_append.mp ha with ha | ha
      · exact List.mem_append_left _ ((hmem a).mpr (.inr ha))
      · rcases List.mem_append.mp ha with ha | ha
        · exact List.mem_append_left _ ((hmem a).mpr (.inl (hx.names_subset a ha)))
        · exact List.mem_append_right _ ha
  | block _ ih | loop _ ih =>
    intro scope hnodup hnew hbodies
    exact ⟨ih hnodup hnew hbodies, trivial⟩
  | body l hlines =>
    intro scope _ _ hbodies
    exact ⟨hbodies _ (List.mem_singleton_self _), trivial⟩
  | led h l' hlines ih =>
    intro scope hnodup hnew hbodies
    have hlast := hbodies _ (List.mem_append_right _ (List.mem_singleton_self _))
    refine ⟨(ih hnodup hnew fun b hb => hbodies b (List.mem_append_left _ hb)).append
      (hlast.mono fun a ha => ?_), trivial⟩
    rcases List.mem_append.mp ha with ha | ha
    · exact List.mem_append_left _ (h.names_subset a ha)
    · exact List.mem_append_right _ ha

end Sentence

/-! ## Lines -/

/-- Sentences in order. -/
inductive Lines (A : String → Prop) (F : State) :
    List Variable → List String → Bodies → Locals → List String → Prop where
  /-- No sentence. -/
  | nil : Lines A F [] [] [] .done []
  /-- A sentence before others. -/
  | cons {vs vs' as as' bs bs' l l' x lines} (h : Sentence A F vs as bs l x)
      (hrest : Lines A F vs' as' bs' l' lines) :
      Lines A F (vs ++ vs') (as ++ as') (bs ++ bs') (l.append l') (x :: lines)

namespace Lines

variable {A : String → Prop} {F : State} {vs vs' : List Variable} {as as' : List String}
  {bs bs' : Bodies} {l l' : Locals} {x : String} {lines more : List String}

theorem single (h : Sentence A F vs as bs l x) : Lines A F vs as bs l [x] := by
  have hline := Lines.cons h .nil
  rwa [List.append_nil, List.append_nil, List.append_nil, Locals.append_done] at hline

theorem append (h : Lines A F vs as bs l lines) (h' : Lines A F vs' as' bs' l' more) :
    Lines A F (vs ++ vs') (as ++ as') (bs ++ bs') (l.append l') (lines ++ more) := by
  induction h with
  | nil => exact h'
  | cons hx _ ih =>
    rw [List.append_assoc, List.append_assoc, List.append_assoc, Locals.append_assoc]
    exact .cons hx ih

/-- Sentences with a sentence between each two that declares nothing. -/
theorem join {sep : String} (hsep : Sentence A F [] [] [] .done sep)
    (h : Lines A F vs as bs l lines) :
    Sentence A F vs as bs l (Text.join sep lines) := by
  rw [Text.join]
  induction h with
  | nil => exact .empty
  | @cons vs vs' as as' bs bs' l l' x lines hx hrest ih =>
    cases hrest with
    | nil =>
      rw [String.intercalate_singleton, List.append_nil, List.append_nil, List.append_nil,
        Locals.append_done]
      exact hx
    | cons hy hmore =>
      rw [String.intercalate_cons_cons]
      exact (hx.before hsep).append ih

/-- Lines without text declare nothing and can be left out. -/
theorem nonEmpty (h : Lines A F vs as bs l lines) : Lines A F vs as bs l (Java.nonEmpty lines) := by
  induction h with
  | nil => exact .nil
  | @cons vs vs' as as' bs bs' l l' x lines hx hrest ih =>
    by_cases hempty : x = ""
    · obtain ⟨rfl, rfl, rfl, rfl⟩ := hx.of_empty hempty
      simpa [Java.nonEmpty, hempty, Locals.append] using ih
    · have hkept : Java.nonEmpty (x :: lines) = x :: Java.nonEmpty lines := by
        simp [Java.nonEmpty, hempty]
      rw [hkept]
      exact .cons hx ih

end Lines

/-! ## Auxiliary variables by nodes -/

/-- The text is a sentence that declares auxiliary variables of `R`, each of another one of the
nodes. -/
def Written (A : String → Prop) (F : State) (R : List (Nat × String)) (ids : List Nat)
    (vs : List Variable) (bs : Bodies) (l : Locals) (text : String) : Prop :=
  ∃ rs : List (Nat × String), (∀ r ∈ rs, r ∈ R) ∧ (rs.map (·.1)).Sublist ids ∧
    Sentence A F vs (rs.map (·.2)) bs l text

/-- The lines are sentences that declare auxiliary variables of `R`, each of another one of the
nodes. -/
def WrittenLines (A : String → Prop) (F : State) (R : List (Nat × String)) (ids : List Nat)
    (vs : List Variable) (bs : Bodies) (l : Locals) (lines : List String) : Prop :=
  ∃ rs : List (Nat × String), (∀ r ∈ rs, r ∈ R) ∧ (rs.map (·.1)).Sublist ids ∧
    Lines A F vs (rs.map (·.2)) bs l lines

section

variable {A A' : String → Prop} {F : State} {R : List (Nat × String)} {ids ids' : List Nat}
  {vs vs' : List Variable} {bs bs' : Bodies} {l l' : Locals} {x y : String} {lines : List String}

namespace Written

theorem of_sentence (h : Sentence A F vs [] bs l x) : Written A F R ids vs bs l x :=
  ⟨[], fun _ h => absurd h List.not_mem_nil, List.nil_sublist _, h⟩

theorem mono (h : Written A F R ids vs bs l x) (hids : ids.Sublist ids')
    (hA : ∀ s, A s → A' s) : Written A' F R ids' vs bs l x := by
  obtain ⟨rs, hR, hrs, hs⟩ := h
  exact ⟨rs, hR, hrs.trans hids, hs.mono hA⟩

theorem of_nodes (h : Written A F R ids vs bs l x) (hids : ids.Sublist ids') :
    Written A F R ids' vs bs l x :=
  h.mono hids fun _ h => h

theorem append (hx : Written A F R ids vs bs l x) (hy : Written A F R ids' vs' bs' l' y) :
    Written A F R (ids ++ ids') (vs ++ vs') (bs ++ bs') (l.append l') (x ++ y) := by
  obtain ⟨rs, hR, hrs, hx⟩ := hx
  obtain ⟨rs', hR', hrs', hy⟩ := hy
  refine ⟨rs ++ rs', fun r hr => (List.mem_append.mp hr).elim (hR r) (hR' r), ?_, ?_⟩
  · rw [List.map_append]
    exact hrs.append hrs'
  · rw [List.map_append]
    exact hx.append hy

theorem before (hx : Written A F R ids vs bs l x) (hy : Sentence A F [] [] [] .done y) :
    Written A F R ids vs bs l (x ++ y) := by
  obtain ⟨rs, hR, hrs, hx⟩ := hx
  exact ⟨rs, hR, hrs, hx.before hy⟩

theorem behind (hx : Written A F R ids vs bs l x) (hy : Sentence A F [] [] [] .done y) :
    Written A F R ids vs bs l (y ++ x) := by
  obtain ⟨rs, hR, hrs, hx⟩ := hx
  exact ⟨rs, hR, hrs, hx.behind hy⟩

theorem block (h : Written A F R ids vs bs l x) :
    Written A F R ids vs bs (.block l .done) (Java.braces [x]) := by
  obtain ⟨rs, hR, hrs, hx⟩ := h
  exact ⟨rs, hR, hrs, hx.block⟩

theorem loop (h : Written A F R ids vs bs l x) :
    Written A F R ids vs bs (.block l .done) ("for (" ++ x) := by
  obtain ⟨rs, hR, hrs, hx⟩ := h
  exact ⟨rs, hR, hrs, hx.loop⟩

end Written

namespace WrittenLines

theorem nil : WrittenLines A F R ids [] [] .done [] :=
  ⟨[], fun _ h => absurd h List.not_mem_nil, List.nil_sublist _, .nil⟩

theorem cons (hx : Written A F R ids vs bs l x) (h : WrittenLines A F R ids' vs' bs' l' lines) :
    WrittenLines A F R (ids ++ ids') (vs ++ vs') (bs ++ bs') (l.append l') (x :: lines) := by
  obtain ⟨rs, hR, hrs, hx⟩ := hx
  obtain ⟨rs', hR', hrs', hlines⟩ := h
  refine ⟨rs ++ rs', fun r hr => (List.mem_append.mp hr).elim (hR r) (hR' r), ?_, ?_⟩
  · rw [List.map_append]
    exact hrs.append hrs'
  · rw [List.map_append]
    exact .cons hx hlines

/-- The lines that have text, with a sentence between each two that declares nothing. -/
theorem join {sep : String} (hsep : Sentence A F [] [] [] .done sep)
    (h : WrittenLines A F R ids vs bs l lines) :
    Written A F R ids vs bs l (Text.join sep (Java.nonEmpty lines)) := by
  obtain ⟨rs, hR, hrs, hlines⟩ := h
  exact ⟨rs, hR, hrs, hlines.nonEmpty.join hsep⟩

end WrittenLines

end

end TypedPerl.Compile
