import TypedPerl.Proofs.Document.Levels
import TypedPerl.Proofs.Yaml.Copy

/-!
# Where aliases are followed

A reader looks at the nodes of a document at a number of places (`Looked`), and at some of them it
takes an alias for what it stands for (`Place.Follows`): where a mapping is wanted, a truth value or
a number, but not where a text or a sequence is, and not where it matters whether a node denotes
nothing. The main result is that a document and its copy are read alike if each alias is looked at
where it is followed (`follows_copy`).
-/

namespace TypedPerl

namespace Document

open Yaml (Node Mark Tag Anchors Copy keysOf)

/-! ## Places -/

/-- Where a node of a document is looked at. -/
inductive Place where
  /-- As what a field holds. -/
  | field (l : Look)
  /-- As a node that is read in a role. -/
  | node (r : Role)
  /-- As the key of a mapping. -/
  | key
deriving DecidableEq, Repr

/-- An alias that is looked at is taken for the node that it stands for. -/
def Place.Follows (anchors : Anchors) (p : Place) (c : Node) : Prop :=
  match p with
  | field .text | field (.row _) | node .target | key => False
  | field .truth => (c.resolve anchors).isNull = true → c.toBool? anchors = some false
  | field .number => (c.resolve anchors).isNull = true → c.toInt? anchors = some 0
  | field (.part _) => (c.resolve anchors).isNull = false
  | field .block => (c.resolve anchors).isNull = false ∧ kindText (c.resolve anchors) ≠ "a list"
  | node .piece => kindText (c.resolve anchors) ≠ "a scalar"
  | node _ => True

/-- The readers of a document look at the node at the place, as long as they refuse nothing. -/
inductive Looked (anchors : Anchors) (root : Node) : Place → Node → Prop
  | unit {m : Mark} {es : List Node} {key : String} {l : Look} {c : Node}
    (hn : root.resolve anchors = .mapping m es) (hl : (key, l) ∈ unitLooks)
    (hc : (Fields.mk (.mapping m es) es).get? key = some c) : Looked anchors root (.field l) c
  | unitKey {m : Mark} {es : List Node} {k : Node} (hn : root.resolve anchors = .mapping m es)
    (hk : k ∈ keysOf es) : Looked anchors root .key k
  | field {r : Role} {n : Node} {m : Mark} {es : List Node} {key : String} {l : Look} {c : Node}
    (h : Looked anchors root (.node r) n) (hn : n.resolve anchors = .mapping m es)
    (hl : (key, l) ∈ r.looks ⟨.mapping m es, es⟩)
    (hc : (Fields.mk (.mapping m es) es).get? key = some c) : Looked anchors root (.field l) c
  | key {r : Role} {n : Node} {m : Mark} {es : List Node} {k : Node}
    (h : Looked anchors root (.node r) n) (hn : n.resolve anchors = .mapping m es)
    (hk : k ∈ keysOf es) : Looked anchors root .key k
  | part {r : Role} {c : Node} (h : Looked anchors root (.field (.part r)) c) :
    Looked anchors root (.node r) c
  | entry {r : Role} {m : Mark} {items : List Node} {c : Node}
    (h : Looked anchors root (.field (.row r)) (.sequence m items)) (hc : c ∈ items) :
    Looked anchors root (.node r) c
  | statement {m : Mark} {items : List Node} {c : Node}
    (h : Looked anchors root (.field .block) (.sequence m items)) (hc : c ∈ items) :
    Looked anchors root (.node .stmt) c
  | body {c : Node} (h : Looked anchors root (.field .block) c) (hc : kindText c ≠ "a list") :
    Looked anchors root (.node .stmt) c
  | bare {n : Node} {m : Mark} {es : List Node} (h : Looked anchors root (.node .stmt) n)
    (hn : n.resolve anchors = .mapping m es)
    (hkind : (Fields.mk (.mapping m es) es).kind ∈ exprKinds) : Looked anchors root (.node .expr) n

/-- Each alias that is looked at is followed. -/
def Followed (anchors : Anchors) (root : Node) : Prop :=
  ∀ p c, Looked anchors root p c → c.isAlias = true → p.Follows anchors c

/-- In a document without aliases as keys no alias is looked at as one. -/
theorem Looked.plainKeys {anchors : Anchors} {root : Node} (hroot : root.plainKeys = true)
    (hanchors : ∀ e ∈ anchors, e.2.plainKeys = true) {p : Place} {c : Node}
    (h : Looked anchors root p c) : c.plainKeys = true ∧ (p = .key → c.isAlias = false) := by
  -- a node is read through one alias at most, and the named nodes have plain keys too
  have hfields {n : Node} {m : Mark} {es : List Node} (hn : n.resolve anchors = .mapping m es)
      (hplain : n.plainKeys = true) :
      (keysOf es).all (!·.isAlias) = true ∧ Node.plainKeysList es = true := by
    have hresolved : (n.resolve anchors).plainKeys = true := by
      rcases Yaml.alias_or_self anchors n with ⟨m, t, k, node, rfl, hk⟩ | hself
      · rw [Node.resolve, hk, Option.getD_some]
        exact hanchors _ (Keyed.mem_of_get? hk)
      · rwa [hself]
    rw [hn, Node.plainKeys, Bool.and_eq_true] at hresolved
    exact hresolved
  have hvalue {m : Mark} {es : List Node} {key : String} {c : Node}
      (hplain : Node.plainKeysList es = true)
      (hc : (Fields.mk (.mapping m es) es).get? key = some c) : c.plainKeys = true :=
    Node.plainKeys_of_mem hplain (mem_of_lastValue? (Option.filter_eq_some_iff.mp hc).1)
  have hkey {es : List Node} {k : Node}
      (hplain : (keysOf es).all (!·.isAlias) = true ∧ Node.plainKeysList es = true)
      (hk : k ∈ keysOf es) : k.plainKeys = true ∧ k.isAlias = false :=
    ⟨Node.plainKeys_of_mem hplain.2 (Yaml.mem_of_mem_keysOf hk),
      by simpa using List.all_eq_true.mp hplain.1 k hk⟩
  -- on the way that leads to the place
  induction h with
  | unit hn _ hc => exact ⟨hvalue (hfields hn hroot).2 hc, fun hp => by cases hp⟩
  | unitKey hn hk => exact ⟨(hkey (hfields hn hroot) hk).1, fun _ => (hkey (hfields hn hroot) hk).2⟩
  | field _ hn _ hc ih => exact ⟨hvalue (hfields hn ih.1).2 hc, fun hp => by cases hp⟩
  | key _ hn hk ih => exact ⟨(hkey (hfields hn ih.1) hk).1, fun _ => (hkey (hfields hn ih.1) hk).2⟩
  | entry _ hc ih | statement _ hc ih =>
    exact ⟨Node.plainKeys_of_mem ih.1 hc, fun hp => by cases hp⟩
  | part _ ih | body _ _ ih | bare _ _ _ ih => exact ⟨ih.1, fun hp => by cases hp⟩

/-! ## Reading the copy -/

section Copy

variable {anchors anchors' : Anchors} {root : Node}

/-- A key of a mapping is found in its copy, as long as no key is an alias. -/
theorem lastValue_copy (key : String) : ∀ {es es' : List Node},
    List.Forall₂ (Copy anchors) es es' → (∀ k ∈ keysOf es, k.isAlias = false) →
      Option.Rel (Copy anchors) (lastValue? key es) (lastValue? key es')
  | [], _, .nil, _ => .none
  | [_], _, .cons _ .nil, _ => .none
  | k :: v :: rest, k' :: v' :: rest', .cons hk (.cons hv hrest), hkeys => by
    obtain ⟨hplain, hkeys⟩ := List.forall_mem_cons.mp hkeys
    -- plain keys are copied as they are
    have htext : k.text = k'.text := by
      cases hk with
      | scalar | sequence | mapping => rfl
      | refer => cases hplain
    have ih := lastValue_copy key hrest hkeys
    rw [lastValue?, lastValue?, htext]
    generalize lastValue? key rest = o, lastValue? key rest' = o' at ih
    -- a later entry of the same key is the one that counts
    cases ih with
    | some h => exact .some h
    | none =>
      dsimp only
      split
      · exact .some hv
      · exact .none

/-- What a field holds and what it holds in the copy. An alias of a node that denotes nothing is a
node that is given, but the copy of it is none. -/
inductive FieldCopy (anchors : Anchors) : Option Node → Option Node → Prop
  | absent : FieldCopy anchors none none
  | given {c c' : Node} (h : Copy anchors c c') : FieldCopy anchors (some c) (some c')
  | nothing {c : Node} (halias : c.isAlias = true) (hnull : (c.resolve anchors).isNull = true) :
    FieldCopy anchors (some c) none

theorem fieldCopy {f f' : Fields} (key : String)
    (h : List.Forall₂ (Copy anchors) f.entries f'.entries)
    (hkeys : ∀ k ∈ keysOf f.entries, k.isAlias = false) :
    FieldCopy anchors (f.get? key) (f'.get? key) := by
  have hvalue := lastValue_copy key h hkeys
  unfold Fields.get?
  generalize lastValue? key f.entries = o, lastValue? key f'.entries = o' at hvalue ⊢
  cases hvalue with
  | none => exact .absent
  | @some c c' hc =>
    have hnull := hc.isNull_eq
    cases halias : c.isAlias with
    | false =>
      rw [Node.resolve_of_not_alias anchors halias] at hnull
      rw [Option.filter_some, Option.filter_some, hnull]
      cases c'.isNull with
      | true => exact .absent
      | false => exact .given hc
    | true =>
      -- an alias itself never denotes nothing
      have hgiven : c.isNull = false := by
        cases c <;> first | rfl | cases halias
      rw [Option.filter_some, Option.filter_some, hgiven]
      cases hnull' : c'.isNull with
      | true => exact .nothing halias (hnull.trans hnull')
      | false => exact .given hc

variable (hfollowed : Followed anchors root)

/-- A node that is read in a role, and its copy. -/
def ReadCopy (anchors : Anchors) (root : Node) (r : Role) (n n' : Node) : Prop :=
  Looked anchors root (.node r) n ∧ Copy anchors n n'

include hfollowed

/-- Where an alias would not be followed there is none. -/
theorem not_alias_of_followed {p : Place} {c : Node} (hc : Looked anchors root p c)
    (hp : ¬p.Follows anchors c) : c.isAlias = false :=
  Bool.eq_false_iff.mpr fun halias => hp (hfollowed p c hc halias)

/-- A reader sees no difference between what a field holds and what it holds in the copy. -/
theorem agree_copy {l : Look} {o o' : Option Node} (h : FieldCopy anchors o o')
    (hlooked : ∀ c ∈ o, Looked anchors root (.field l) c) :
    l.Agree (ReadCopy anchors root) anchors anchors' o o' := by
  -- an alias of nothing is followed where the field may be missing, and then it is missing in the
  -- copy
  cases h with
  | absent =>
    cases l with
    | truth | number => rfl
    | text | part | row | block => exact .none
  | nothing halias hnull =>
    have hfollows := hfollowed _ _ (hlooked _ rfl) halias
    cases l with
    | truth | number => exact hfollows hnull
    | text | row => exact hfollows.elim
    | part => exact absurd hnull (Bool.eq_false_iff.mp hfollows)
    | block => exact absurd hnull (Bool.eq_false_iff.mp hfollows.1)
  | @given c c' hcopy =>
    have hlooked := hlooked c rfl
    have hentries {r : Role} {ns ns' : List Node} (hns : List.Forall₂ (Copy anchors) ns ns')
        (h : ∀ x ∈ ns, Looked anchors root (.node r) x) :
        List.Forall₂ (ReadCopy anchors root r) ns ns' :=
      (List.forall₂_and_left ns ns').mpr ⟨h, hns⟩
    cases l with
    | truth => exact congrArg (Option.bind · Yaml.Datum.toBool?) (hcopy.datum_eq anchors')
    | number => exact congrArg (Option.bind · Yaml.Datum.toInt?) (hcopy.datum_eq anchors')
    | text =>
      have hplain := not_alias_of_followed hfollowed hlooked id
      cases hcopy with
      | scalar => exact .some .scalar
      | sequence => exact .some .sequence
      | mapping => exact .some .mapping
      | refer => cases hplain
    | part r => exact .some ⟨hlooked.part, hcopy⟩
    | row r =>
      have hplain := not_alias_of_followed hfollowed hlooked id
      cases hcopy with
      | scalar => exact .some .scalar
      | sequence h => exact .some (.sequence (hentries h fun x hx => hlooked.entry hx))
      | mapping => exact .some .mapping
      | refer => cases hplain
    | block =>
      -- a list of statements is read as it stands, and anything else as one statement
      by_cases hlist : kindText c = "a list"
      · cases hcopy with
        | sequence h => exact .some (.sequence (hentries h fun x hx => hlooked.statement hx))
        | scalar | mapping | refer => exact absurd hlist (by simp [kindText])
      · refine .some (.other ⟨hlooked.body hlist, hcopy⟩ hlist ?_)
        rw [← hcopy.kindText_eq]
        cases halias : c.isAlias with
        | false => rwa [Node.resolve_of_not_alias anchors halias]
        | true => exact (hfollowed _ _ hlooked halias).2

/-- A reader of a node sees no difference between the fields of the node and those of the copy. -/
theorem agreeOn_copy {looks : Fields → List (String × Look)} {n n' : Node}
    (hcopy : Copy anchors n n')
    (hlooked : ∀ m es key l c, n.resolve anchors = .mapping m es →
      (key, l) ∈ looks ⟨.mapping m es, es⟩ →
      (Fields.mk (.mapping m es) es).get? key = some c → Looked anchors root (.field l) c)
    (hkeys : ∀ m es k, n.resolve anchors = .mapping m es → k ∈ keysOf es →
      Looked anchors root .key k) :
    AgreeOn (ReadCopy anchors root) anchors anchors' looks n n' := by
  have hn' := Node.resolve_of_not_alias anchors' hcopy.not_alias
  have hkind := hcopy.kindText_eq
  obtain ⟨hresolved, hplain⟩ := hcopy.resolve
  -- only a mapping has fields to compare
  cases hn : n.resolve anchors with
  | mapping m es =>
    rw [hn] at hresolved
    cases hresolved with
    | mapping h =>
      refine .mapping hn hn' fun p hp => agree_copy hfollowed (fieldCopy p.1 h fun k hk => ?_)
        fun c hc => hlooked m es p.1 p.2 c hn hp hc
      exact not_alias_of_followed hfollowed (hkeys m es k hn hk) id
  | scalar | sequence | refer =>
    exact .other (by rw [hn', hkind]) (by simp [hn, kindText])

/-- Nodes that are read in a role agree with their copies. -/
theorem agreeAs_copy {r : Role} {n n' : Node} (h : ReadCopy anchors root r n n') :
    AgreeAs (ReadCopy anchors root) anchors anchors' r n n' := by
  obtain ⟨hlooked, hcopy⟩ := h
  have hon : AgreeOn (ReadCopy anchors root) anchors anchors' r.looks n n' :=
    agreeOn_copy hfollowed hcopy (fun _ _ _ _ _ hn hl hc => hlooked.field hn hl hc)
      fun _ _ _ hn hk => hlooked.key hn hk
  cases r with
  | expr | branch => exact hon
  | stmt => exact ⟨hon, fun m es hn hkind => ⟨hlooked.bare hn hkind, hcopy⟩⟩
  | target =>
    have hplain := not_alias_of_followed hfollowed hlooked id
    cases hcopy with
    | scalar => exact .scalar
    | sequence => exact .sequence
    | mapping => exact .mapping
    | refer => cases hplain
  | piece =>
    -- a piece that is an alias does not stand for a scalar
    have hscalar : n.isAlias = true → kindText n' ≠ "a scalar" := fun halias => by
      rw [← hcopy.kindText_eq]
      exact hfollowed _ _ hlooked halias
    cases hcopy with
    | scalar => exact .scalar
    | sequence | mapping => exact .other hon (by simp [kindText]) (by simp [kindText])
    | refer => exact .other hon (by simp [kindText]) (hscalar rfl)

/-- The roots of a document and of its copy are read alike. -/
theorem follows_copy {name file : String} {root' : Node} (hcopy : Copy anchors root root')
    (d : Nat) : Follows (fun n => n) ⟨name, file, anchors⟩ anchors' (unitWithin d name root)
      (unitWithin d name root') fun u u' => u = u' := by
  have hroot : AgreeOn (ReadCopy anchors root) anchors anchors' (fun _ => unitLooks) root root' :=
    agreeOn_copy hfollowed hcopy (fun _ _ _ _ _ hn hl hc => .unit hn hl hc)
      fun _ _ _ hn hk => .unitKey hn hk
  refine (follows_unitWithin name (hroot.mono fun _ _ _ r _ c c' hc file => ?_)).mono
    fun u u' hu => by rwa [SourceUnit.renumber_id, SourceUnit.renumber_id] at hu
  exact follows_of_simulation steady_same (fun _ _ _ => agreeAs_copy hfollowed) r (Nat.le_refl d) hc

end Copy

end Document

end TypedPerl
