import TypedPerl.Proofs.Document.Meant

/-!
# Documents with their aliases replaced

A document whose aliases are replaced by copies of what they stand for is read like the document
itself, if each alias is looked at where it is followed; and no document with an alias that is
looked at elsewhere is read at all (`SourceUnit.decode_copy`).
-/

namespace TypedPerl

namespace Document

open Yaml (Node Anchors Copy)

section Copy

variable (name : String) {anchors anchors' : Anchors} {root root' : Node}
  (hcopy : Copy anchors root root')

include hcopy

/-- A root with a copy settles for the tree that it describes, within as many levels as the copy is
high. -/
theorem settles_of_copy : Settles ⟨name, "", anchors⟩ (unitWithin root'.height name root)
    (UnitOf name anchors root) := by
  have hfit := hcopy.fits (Nat.le_refl root'.height)
  have hpos := Node.height_pos root'
  obtain ⟨d, hd⟩ : ∃ d, root'.height = d + 1 := ⟨root'.height - 1, by omega⟩
  rw [hd] at hfit ⊢
  exact @settles_unitWithin ⟨name, "", anchors⟩ d (d + 1) root hfit (Nat.lt_succ_self d)

/-- Reading a root with a copy has an end. -/
theorem ends_of_copy :
    unitWithin root'.height name root ⟨name, "", anchors⟩ 0 ≠ .error .endless := by
  have hsettles := settles_of_copy name hcopy 0
  intro hend
  rw [hend] at hsettles
  exact hsettles.ne_endless rfl

/-- A root and its copy are read alike if each alias is followed. -/
theorem unit_alike_of_copy (hfollowed : Followed anchors root) :
    SameReading name ((unit name root ⟨name, "", anchors⟩ 0).map (·.1))
      ((unit name root' ⟨name, "", anchors'⟩ 0).map (·.1)) := by
  have hends := unit_ends (ends_of_copy name hcopy)
  rw [unit_eq_unitWithin] at hends
  have halike := (@follows_copy anchors anchors' root hfollowed name "" root' hcopy _ 0 0
    rfl).resolve_left hends
  -- the copy is read within the levels that are allowed for the root, and so within its own
  have hcopied := @unitWithin_alike ⟨name, "", anchors'⟩ name root' _ _ 0 halike.right_ne
    (by rw [← unit_eq_unitWithin]; exact unit_ends halike.right_ne)
  rw [unit_eq_unitWithin, unit_eq_unitWithin]
  exact (halike.trans hcopied).answer

/-- If a root with a copy is read, then each alias is followed, as long as none is a key. -/
theorem followed_of_read (hkeys : ∀ k, Looked anchors root .key k → k.isAlias = false)
    {u : SourceUnit} {n : Nat} (hrun : unit name root ⟨name, "", anchors⟩ 0 = .ok (u, n)) :
    Followed anchors root := by
  have hends : unit name root ⟨name, "", anchors⟩ 0 ≠ .error .endless := hrun ▸ nofun
  -- the reading ended, so it settled on the tree that the copy is read as
  have hu : UnitOf name anchors root u := by
    have hsettles := settles_of_copy name hcopy 0
    rw [unit_eq_unitWithin] at hends hrun
    have halike := unitWithin_alike (ends_of_copy name hcopy) hends
    rw [hrun] at halike
    generalize unitWithin root'.height name root ⟨name, "", anchors⟩ 0 = r at halike hsettles
    cases halike with
    | ok heq => exact heq ▸ hsettles
  intro p c hc halias
  -- what is said of a key is a hypothesis; every other place is followed because the tree describes
  -- it
  by_cases hp : p = .key
  · subst hp
    exact absurd halias (Bool.eq_false_iff.mp (hkeys c hc))
  · exact (hc.meant hu).follows hp halias

/-- A root and its copy are read alike if each alias that is looked at is followed; and as long as no
alias is a key, the root is read exactly if each is followed and the copy is read. -/
theorem readRoot_copy :
    (Followed anchors root →
      SameReading name (readRoot name anchors root) (readRoot name anchors' root')) ∧
    ((∀ k, Looked anchors root .key k → k.isAlias = false) →
      ((∃ u, readRoot name anchors root = .ok u) ↔
        Followed anchors root ∧ ∃ u, readRoot name anchors' root' = .ok u)) := by
  -- the aliases that are followed leave nothing for the readings to differ in
  have halike (hfollowed : Followed anchors root) :
      SameReading name (readRoot name anchors root) (readRoot name anchors' root') :=
    unit_alike_of_copy name hcopy hfollowed
  refine ⟨halike, fun hkeys => ⟨fun ⟨u, hu⟩ => ?_, fun ⟨hfollowed, u, hu⟩ => ?_⟩⟩
  · have hfollowed : Followed anchors root := by
      unfold readRoot at hu
      cases hrun : unit name root { name, file := "", anchors } 0 with
      | error f =>
        rw [hrun] at hu
        cases hu
      | ok r => exact followed_of_read name hcopy hkeys hrun
    have hsame := halike hfollowed
    rw [hu] at hsame
    generalize readRoot name anchors' root' = r at hsame ⊢
    cases hsame with
    | tree => exact ⟨hfollowed, u, rfl⟩
  · have hsame := halike hfollowed
    rw [hu] at hsame
    generalize readRoot name anchors root = r at hsame ⊢
    cases hsame with
    | tree => exact ⟨u, rfl⟩

end Copy

end Document

/-- A document whose aliases are replaced by copies of what they stand for is read like the document
with its aliases, if each alias that is looked at is followed. As long as no alias is a key, a
document is read exactly if each is followed and the copy is read. This is so for all nodes that a
document and its copy may consist of, and so for each two texts that spell them. -/
theorem SourceUnit.decode_copy (name : String) :
    (∀ (root root' : Yaml.Node) (anchors anchors' : Yaml.Anchors), Yaml.Copy anchors root root' →
      (Document.Followed anchors root → SameReading name (Document.readRoot name anchors root)
        (Document.readRoot name anchors' root')) ∧
      ((∀ k, Document.Looked anchors root .key k → k.isAlias = false) →
        ((∃ u, Document.readRoot name anchors root = .ok u) ↔
          Document.Followed anchors root ∧
            ∃ u, Document.readRoot name anchors' root' = .ok u))) ∧
    ∀ (text text' : String) (root root' : Yaml.Node) (anchors anchors' : Yaml.Anchors),
      Yaml.parse text = .root root anchors → Yaml.parse text' = .root root' anchors' →
      Yaml.Copy anchors root root' →
      (Document.Followed anchors root → SameReading name (decode text name) (decode text' name)) ∧
      ((∀ k, Document.Looked anchors root .key k → k.isAlias = false) →
        ((∃ u, decode text name = .ok u) ↔
          Document.Followed anchors root ∧ ∃ u, decode text' name = .ok u)) := by
  refine ⟨fun root root' anchors anchors' hcopy => Document.readRoot_copy name hcopy,
    fun text text' root root' anchors anchors' h h' hcopy => ?_⟩
  rw [decode_of_parse h, decode_of_parse h']
  exact Document.readRoot_copy name hcopy

namespace SourceUnit

/-- A document with an alias of a statement. -/
def sharedDocument : String :=
  "statements: [&a {kind: undef}, *a]\n"

/-- The document without its alias. -/
def unsharedDocument : String :=
  "statements: [{kind: undef}, {kind: undef}]\n"

/-- Whether the second text spells a copy of what the first one spells, both with plain keys. -/
def spellsCopy (text text' : String) : Bool :=
  match Yaml.parse text, Yaml.parse text' with
  | .root root anchors, .root root' _ =>
    root.isCopy anchors 6 root' && root.plainKeys && anchors.all (·.2.plainKeys)
  | _, _ => false

theorem exists_of_spellsCopy {text text' : String} (h : spellsCopy text text' = true) :
    ∃ root anchors root' anchors', Yaml.parse text = .root root anchors ∧
      Yaml.parse text' = .root root' anchors' ∧ Yaml.Copy anchors root root' ∧
      ∀ k, Document.Looked anchors root .key k → k.isAlias = false := by
  unfold spellsCopy at h
  split at h
  · rename_i root anchors root' anchors' hparse hparse'
    simp only [Bool.and_eq_true, List.all_eq_true] at h
    obtain ⟨⟨hcopy, hroot⟩, hanchors⟩ := h
    exact ⟨root, anchors, root', anchors', hparse, hparse', Yaml.Node.copy_of_isCopy hcopy,
      fun k hk => (hk.plainKeys hroot hanchors).2 rfl⟩
  · cases h

theorem exists_of_toBool {r : Except Fault SourceUnit} (h : r.toBool = true) : ∃ u, r = .ok u := by
  cases r with
  | ok u => exact ⟨u, rfl⟩
  | error f => cases h

theorem exists_of_toBool_false {r : Except Fault SourceUnit} (h : r.toBool = false) :
    ∃ f, r = .error f := by
  cases r with
  | ok u => cases h
  | error f => exact ⟨f, rfl⟩

theorem sharedDocument_copy :
    ∃ root anchors root' anchors', Yaml.parse sharedDocument = .root root anchors ∧
      Yaml.parse unsharedDocument = .root root' anchors' ∧ Yaml.Copy anchors root root' ∧
      Document.Followed anchors root ∧
      SameReading "t.yaml" (decode sharedDocument "t.yaml") (decode unsharedDocument "t.yaml") ∧
      ∃ u, decode unsharedDocument "t.yaml" = .ok u := by
  obtain ⟨root, anchors, root', anchors', h, h', hcopy, hkeys⟩ :=
    @exists_of_spellsCopy sharedDocument unsharedDocument (by decide +kernel)
  have hread : ∃ u, decode sharedDocument "t.yaml" = .ok u := exists_of_toBool (by decide +kernel)
  have ⟨halike, hiff⟩ := (decode_copy "t.yaml").2 _ _ _ _ _ _ h h' hcopy
  obtain ⟨hfollowed, hcopied⟩ := (hiff hkeys).mp hread
  exact ⟨root, anchors, root', anchors', h, h', hcopy, hfollowed, halike hfollowed, hcopied⟩

/-- A document with an alias of a list of statements. -/
def listDocument : String :=
  "l: &l [{kind: undef}]\nstatements: *l\n"

/-- The document without its alias. -/
def unlistedDocument : String :=
  "l: [{kind: undef}]\nstatements: [{kind: undef}]\n"

/-- An alias of a list is refused where the list itself is read. -/
theorem listDocument_refused :
    ∃ root anchors root' anchors', Yaml.parse listDocument = .root root anchors ∧
      Yaml.parse unlistedDocument = .root root' anchors' ∧ Yaml.Acyclic anchors ∧
      Yaml.Copy anchors root root' ∧ (∃ f, decode listDocument "t.yaml" = .error f) ∧
      ∃ u, decode unlistedDocument "t.yaml" = .ok u := by
  obtain ⟨root, anchors, root', anchors', h, h', hcopy, -⟩ :=
    @exists_of_spellsCopy listDocument unlistedDocument (by decide +kernel)
  have hordered : (match Yaml.parse listDocument with
      | .root _ anchors => anchors.all fun e => e.2.aliases.all (· < e.1)
      | _ => true) = true := by
    decide +kernel
  rw [h] at hordered
  refine ⟨root, anchors, root', anchors', h, h', Yaml.acyclic_of_lt (by simpa using hordered),
    hcopy, exists_of_toBool_false (by decide +kernel), exists_of_toBool (by decide +kernel)⟩

end SourceUnit

end TypedPerl