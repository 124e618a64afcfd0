import Mathlib.Data.List.Forall2
import TypedPerl.Document.Fields
import TypedPerl.Proofs.Yaml.Acyclic

/-!
# Copies of nodes without aliases

A `Copy` of a node has in the place of each alias a copy of the node that the alias stands for. A
node has a copy only if it does not hold itself, so that it fits as many levels as the copy is high
(`Copy.fits`). Whether a node is a copy is decided by `Node.isCopy`, and whether no key of a mapping
is an alias by `Node.plainKeys`.
-/

namespace TypedPerl

namespace Yaml

/-- The node is a name that stands for a named node. -/
def Node.isAlias : Node → Bool
  | .refer _ _ _ => true
  | .scalar _ _ _ | .sequence _ _ | .mapping _ _ => false

/-- The second node is the first with each alias replaced by a copy of the node that it stands for,
which is a scalar, a sequence or a mapping. Where the nodes start does not matter. -/
inductive Copy (anchors : Anchors) : Node → Node → Prop
  | scalar {m m' : Mark} {t : String} {tag : Tag} :
    Copy anchors (.scalar m t tag) (.scalar m' t tag)
  | sequence {m m' : Mark} {items items' : List Node}
    (h : List.Forall₂ (Copy anchors) items items') :
    Copy anchors (.sequence m items) (.sequence m' items')
  | mapping {m m' : Mark} {es es' : List Node} (h : List.Forall₂ (Copy anchors) es es') :
    Copy anchors (.mapping m es) (.mapping m' es')
  | refer {m : Mark} {t : String} {k : Nat} {node n' : Node} (hk : anchors.get? k = some node)
    (hnode : node.isAlias = false) (h : Copy anchors node n') : Copy anchors (.refer m t k) n'

/-- The keys of a mapping, which is given as the row of its keys and values in turn. -/
def keysOf : List Node → List Node
  | k :: _ :: rest => k :: keysOf rest
  | _ => []

variable {anchors : Anchors} {n n' : Node}

theorem Node.resolve_of_not_alias (anchors : Anchors) (h : n.isAlias = false) :
    n.resolve anchors = n := by
  cases n with
  | scalar | sequence | mapping => rfl
  | refer => cases h

theorem exists_of_forall₂ {α β : Type} {R : α → β → Prop} {as : List α} {bs : List β}
    (h : List.Forall₂ R as bs) {a : α} (ha : a ∈ as) : ∃ b ∈ bs, R a b := by
  induction h with
  | nil => cases ha
  | cons hhead _ ih =>
    rcases List.mem_cons.mp ha with rfl | ha
    · exact ⟨_, List.mem_cons_self, hhead⟩
    · obtain ⟨b, hb, h⟩ := ih ha
      exact ⟨b, List.mem_cons_of_mem _ hb, h⟩

namespace Copy

/-- The copy of an alias is a copy of what it stands for. -/
theorem resolve (h : Copy anchors n n') :
    Copy anchors (n.resolve anchors) n' ∧ (n.resolve anchors).isAlias = false := by
  cases h with
  | scalar => exact ⟨.scalar, rfl⟩
  | sequence h => exact ⟨.sequence h, rfl⟩
  | mapping h => exact ⟨.mapping h, rfl⟩
  | refer hk hnode h =>
    rw [Node.resolve, hk, Option.getD_some]
    exact ⟨h, hnode⟩

/-- A copy is no alias. -/
theorem not_alias (h : Copy anchors n n') : n'.isAlias = false := by
  obtain ⟨h, hnode⟩ := h.resolve
  generalize n.resolve anchors = c at h hnode
  cases h with
  | scalar | sequence | mapping => rfl
  | refer => cases hnode

theorem isNull_eq (h : Copy anchors n n') : (n.resolve anchors).isNull = n'.isNull := by
  obtain ⟨h, hnode⟩ := h.resolve
  generalize n.resolve anchors = c at h hnode
  cases h with
  | scalar | sequence | mapping => rfl
  | refer => cases hnode

theorem kindText_eq (h : Copy anchors n n') :
    Document.kindText (n.resolve anchors) = Document.kindText n' := by
  obtain ⟨h, hnode⟩ := h.resolve
  generalize n.resolve anchors = c at h hnode
  cases h with
  | scalar | sequence | mapping => rfl
  | refer => cases hnode

/-- A copy denotes what the node denotes. -/
theorem datum_eq (h : Copy anchors n n') (anchors' : Anchors) :
    n.datum? anchors = n'.datum? anchors' := by
  rw [Node.datum?, Node.datum?, Node.resolve_of_not_alias anchors' h.not_alias]
  obtain ⟨h, hnode⟩ := h.resolve
  generalize n.resolve anchors = c at h hnode
  cases h with
  | scalar | sequence | mapping => rfl
  | refer => cases hnode

/-- A node with a copy has no more levels than the copy is high. -/
theorem fits {d : Nat} (h : Copy anchors n n') (hd : n'.height ≤ d) : Fits anchors d n := by
  -- following the reference leaves the copy alone, so the height of the copy bounds the descent
  induction d generalizing n n' with
  | zero => exact absurd hd (Nat.not_le_of_lt (Node.height_pos n'))
  | succ d ih =>
    have hitems {ns ns' : List Node} (hns : List.Forall₂ (Copy anchors) ns ns')
        (hd : Node.heights ns' ≤ d) : ∀ c ∈ ns, Fits anchors d c := by
      intro c hc
      obtain ⟨c', hc', hcopy⟩ := exists_of_forall₂ hns hc
      exact ih hcopy (Nat.le_trans (Node.height_le_heights hc') hd)
    obtain ⟨h, hnode⟩ := h.resolve
    rw [Fits]
    generalize n.resolve anchors = c at h hnode
    cases h with
    | scalar => trivial
    | sequence hns | mapping hns => exact hitems hns (Nat.le_of_succ_le_succ hd)
    | refer => cases hnode

end Copy

namespace Node

/-- Whether the second node is a copy of the first, down to a number of levels. -/
def isCopy (anchors : Anchors) : Nat → Node → Node → Bool
  | 0, _, _ => false
  | _ + 1, scalar _ t tag, scalar _ t' tag' => t = t' && tag = tag'
  | d + 1, sequence _ ns, sequence _ ns' | d + 1, mapping _ ns, mapping _ ns' =>
    ns.length = ns'.length && (ns.zip ns').all fun p => isCopy anchors d p.1 p.2
  | d + 1, refer _ _ k, n' =>
    match anchors.get? k with
    | some node => !node.isAlias && isCopy anchors d node n'
    | none => false
  | _, _, _ => false

theorem copy_of_isCopy {d : Nat} (h : isCopy anchors d n n' = true) : Copy anchors n n' := by
  -- one case for each pair of shapes that the search compares; a reference costs it a step and the
  -- copy none
  fun_induction isCopy anchors d n n' with
  | case1 => cases h
  | case2 =>
    obtain ⟨rfl, rfl⟩ : _ ∧ _ := by simpa using h
    exact .scalar
  | case3 d m ns m' ns' ih =>
    simp only [Bool.and_eq_true, decide_eq_true_eq, List.all_eq_true] at h
    exact .sequence (List.forall₂_iff_zip.mpr ⟨h.1, fun hp => ih _ (h.2 _ hp)⟩)
  | case4 d m ns m' ns' ih =>
    simp only [Bool.and_eq_true, decide_eq_true_eq, List.all_eq_true] at h
    exact .mapping (List.forall₂_iff_zip.mpr ⟨h.1, fun hp => ih _ (h.2 _ hp)⟩)
  | case5 d m t k n' node hk ih =>
    simp only [Bool.and_eq_true, Bool.not_eq_true'] at h
    exact .refer hk h.1 (ih h.2)
  | case6 => cases h
  | case7 => cases h

mutual

/-- No key of a mapping in the node is an alias. -/
def plainKeys : Node → Bool
  | scalar _ _ _ | refer _ _ _ => true
  | sequence _ items => plainKeysList items
  | mapping _ es => (keysOf es).all (!·.isAlias) && plainKeysList es

/-- No key of a mapping in the nodes is an alias. -/
def plainKeysList : List Node → Bool
  | [] => true
  | n :: rest => n.plainKeys && plainKeysList rest

end

theorem plainKeys_of_mem {ns : List Node} (h : plainKeysList ns = true) {c : Node} (hc : c ∈ ns) :
    c.plainKeys = true := by
  induction ns with
  | nil => cases hc
  | cons m rest ih =>
    rw [plainKeysList, Bool.and_eq_true] at h
    rcases List.mem_cons.mp hc with rfl | hc
    · exact h.1
    · exact ih h.2 hc

end Node

theorem mem_of_mem_keysOf {es : List Node} {k : Node} (h : k ∈ keysOf es) : k ∈ es := by
  fun_induction keysOf es with
  | case1 x v rest ih =>
    rcases List.mem_cons.mp h with rfl | h
    · exact List.mem_cons_self
    · exact List.mem_cons_of_mem _ (List.mem_cons_of_mem _ (ih h))
  | case2 => cases h

end Yaml

end TypedPerl
