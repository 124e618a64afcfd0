import Mathlib.Data.Finset.Card
import Mathlib.Logic.Relation
import TypedPerl.Yaml.Node

/-!
# Documents that do not hold themselves

An alias stands for a named node, so that a document is a graph. It is `Acyclic` when no named node
is met again on a way down from itself. A node `Fits` a number of levels when every way down from it
ends within them, aliases followed. The main result is that the root of an acyclic document fits
the number of levels that `levels` allows for: fewer named nodes can be met below each named node
than above it, and between two of them a way is no longer than the node is high.
-/

namespace TypedPerl

namespace Keyed

variable {κ α : Type} [DecidableEq κ] {m : Keyed κ α} {k : κ} {a : α}

theorem mem_keys_of_get? (h : m.get? k = some a) : k ∈ m.keys :=
  List.mem_map_of_mem (mem_of_get? h)

theorem mem_values_of_get? (h : m.get? k = some a) : a ∈ m.values :=
  List.mem_map_of_mem (mem_of_get? h)

end Keyed

namespace Yaml

namespace Node

/-! ## Aliases -/

mutual

/-- The numbers that the aliases in a node stand for. -/
def aliases : Node → List Nat
  | scalar _ _ _ => []
  | sequence _ items => aliasesList items
  | mapping _ entries => aliasesList entries
  | refer _ _ k => [k]

/-- The numbers that the aliases in several nodes stand for. -/
def aliasesList : List Node → List Nat
  | [] => []
  | n :: rest => n.aliases ++ aliasesList rest

end

theorem mem_aliasesList {ns : List Node} {n : Node} {k : Nat} (hn : n ∈ ns)
    (hk : k ∈ n.aliases) : k ∈ aliasesList ns := by
  induction ns with
  | nil => cases hn
  | cons m rest ih =>
    rw [aliasesList, List.mem_append]
    rcases List.mem_cons.mp hn with rfl | hn
    · exact .inl hk
    · exact .inr (ih hn)

theorem height_le_heights {ns : List Node} {n : Node} (hn : n ∈ ns) : n.height ≤ heights ns := by
  induction ns with
  | nil => cases hn
  | cons m rest ih =>
    rw [heights]
    rcases List.mem_cons.mp hn with rfl | hn
    · exact Nat.le_max_left _ _
    · exact Nat.le_trans (ih hn) (Nat.le_max_right _ _)

theorem height_pos (n : Node) : 0 < n.height := by
  cases n <;> simp [height]

end Node

/-- A node is an alias of a named node, or it is all that it stands for. -/
theorem alias_or_self (anchors : Anchors) (n : Node) :
    (∃ m t k node, n = .refer m t k ∧ anchors.get? k = some node) ∨ n.resolve anchors = n := by
  cases n with
  | scalar | sequence | mapping => exact .inr rfl
  | refer m t k =>
    rcases hk : anchors.get? k with _ | node
    · exact .inr (by rw [Node.resolve, hk, Option.getD_none])
    · exact .inl ⟨m, t, k, node, rfl, hk⟩

/-- An alias in the node named `i` stands for the node named `j`. -/
def Holds (anchors : Anchors) (i j : Nat) : Prop :=
  ∃ n, anchors.get? i = some n ∧ j ∈ n.aliases

/-- No way down from a named node meets the node again. -/
def Acyclic (anchors : Anchors) : Prop :=
  ∀ i, ¬ Relation.TransGen (Holds anchors) i i

/-- A document is acyclic when the aliases in each named node stand for nodes of smaller numbers. -/
theorem acyclic_of_lt {anchors : Anchors} (h : ∀ e ∈ anchors, ∀ j ∈ e.2.aliases, j < e.1) :
    Acyclic anchors := by
  have hlt {i j : Nat} (hreach : Relation.TransGen (Holds anchors) i j) : j < i := by
    induction hreach with
    | single hstep =>
      obtain ⟨n, hn, hj⟩ := hstep
      exact h _ (Keyed.mem_of_get? hn) _ hj
    | tail _ hstep ih =>
      obtain ⟨n, hn, hj⟩ := hstep
      exact Nat.lt_trans (h _ (Keyed.mem_of_get? hn) _ hj) ih
  exact fun i hloop => Nat.lt_irrefl i (hlt hloop)

/-! ## Levels -/

/-- Every way down from the node ends within a number of levels. -/
def Fits (anchors : Anchors) : Nat → Node → Prop
  | 0, _ => False
  | d + 1, n =>
    match n.resolve anchors with
    | .sequence _ items => ∀ c ∈ items, Fits anchors d c
    | .mapping _ entries => ∀ c ∈ entries, Fits anchors d c
    | .scalar _ _ _ | .refer _ _ _ => True

namespace Fits

variable {anchors : Anchors}

theorem mono {d d' : Nat} {n : Node} (h : Fits anchors d n) (hle : d ≤ d') :
    Fits anchors d' n := by
  induction d generalizing n d' with
  | zero => cases h
  | succ d ih =>
    obtain ⟨d', rfl⟩ : ∃ k, d' = k + 1 := ⟨d' - 1, by omega⟩
    have hle : d ≤ d' := by omega
    unfold Fits at h ⊢
    split at h
    · exact fun c hc => ih (h c hc) hle
    · exact fun c hc => ih (h c hc) hle
    · trivial
    · trivial

/-- What an alias stands for has as many levels as the alias. -/
theorem refer {d : Nat} {mark : Mark} {name : String} {k : Nat}
    (h : ∀ m, anchors.get? k = some m → Fits anchors (d + 1) m) :
    Fits anchors (d + 1) (.refer mark name k) := by
  rcases hk : anchors.get? k with _ | m
  · simp [Fits, Node.resolve, hk]
  · have hm := h m hk
    -- an alias is looked up once: what it stands for is taken as it is
    cases m with
    | scalar _ _ _ | refer _ _ _ => simp [Fits, Node.resolve, hk]
    | sequence _ items | mapping _ items => simpa [Fits, Node.resolve, hk] using hm

/-- A node fits as many levels as it has itself, beside those of the nodes that it names. -/
theorem of_aliases {b : Nat} (n : Node)
    (h : ∀ k ∈ n.aliases, ∀ m, anchors.get? k = some m → Fits anchors b m) :
    Fits anchors (b + n.height) n := by
  -- An alias is left to the hypothesis: the recursion goes down the node itself only.
  match n with
  | .scalar _ _ _ => trivial
  | .refer _ _ k =>
    exact refer fun m hm => (h k List.mem_cons_self m hm).mono (Nat.le_succ b)
  | .sequence _ items | .mapping _ items =>
    intro c hc
    have hle : b + c.height ≤ b + Node.heights items :=
      Nat.add_le_add_left (Node.height_le_heights hc) b
    exact (of_aliases c fun k hk => h k (Node.mem_aliasesList hc hk)).mono hle

end Fits

/-! ## Acyclic documents -/

open scoped Classical in
/-- The named nodes that are met on the ways down from a named node. -/
noncomputable def below (anchors : Anchors) (i : Nat) : Finset Nat :=
  anchors.keys.toFinset.filter (Relation.TransGen (Holds anchors) i)

variable {anchors : Anchors}

theorem mem_below {i j : Nat} :
    j ∈ below anchors i ↔ j ∈ anchors.keys ∧ Relation.TransGen (Holds anchors) i j := by
  simp [below]

namespace Acyclic

variable (hacyclic : Acyclic anchors)

include hacyclic

/-- A named node meets itself and all that the nodes in it meet, but they do not meet it. -/
theorem below_lt {i j : Nat} {m : Node} (hij : Holds anchors i j)
    (hj : anchors.get? j = some m) : (below anchors j).card < (below anchors i).card := by
  have hsub : below anchors j ⊆ below anchors i := fun k hk =>
    have ⟨hkey, hreach⟩ := mem_below.mp hk
    mem_below.mpr ⟨hkey, hreach.head hij⟩
  have hmem : j ∈ below anchors i := mem_below.mpr ⟨Keyed.mem_keys_of_get? hj, .single hij⟩
  have hnot : j ∉ below anchors j := fun hj => hacyclic j (mem_below.mp hj).2
  exact Finset.card_lt_card ⟨hsub, fun hback => hnot (hback hmem)⟩

/-- No named node is met below itself, so that fewer than all are. -/
theorem below_lt_length {i : Nat} {m : Node} (hi : anchors.get? i = some m) :
    (below anchors i).card < anchors.length := by
  have hsub : below anchors i ⊂ anchors.keys.toFinset := by
    refine ⟨fun k hk => List.mem_toFinset.mpr (mem_below.mp hk).1, fun hback => ?_⟩
    have hmem := hback (List.mem_toFinset.mpr (Keyed.mem_keys_of_get? hi))
    exact hacyclic i (mem_below.mp hmem).2
  have hkeys : anchors.keys.length = anchors.length := List.length_map _
  calc (below anchors i).card < anchors.keys.toFinset.card := Finset.card_lt_card hsub
    _ ≤ anchors.keys.length := List.toFinset_card_le _
    _ = anchors.length := hkeys

/-- A named node fits the levels of itself and of the named nodes below it. -/
theorem fits_named {i : Nat} {m : Node} (hi : anchors.get? i = some m) :
    Fits anchors (((below anchors i).card + 1) * Node.heights anchors.values) m := by
  -- the induction is on how many named nodes are met below this one
  induction hcard : (below anchors i).card using Nat.strong_induction_on generalizing i m with
  | _ c ih =>
    have hnamed : ∀ k ∈ m.aliases, ∀ m', anchors.get? k = some m' →
        Fits anchors (c * Node.heights anchors.values) m' := by
      intro k hk m' hm'
      have hlt : (below anchors k).card < c := hcard ▸ hacyclic.below_lt ⟨m, hi, hk⟩ hm'
      exact (ih _ hlt hm' rfl).mono (Nat.mul_le_mul_right _ hlt)
    have hheight : m.height ≤ Node.heights anchors.values :=
      Node.height_le_heights (Keyed.mem_values_of_get? hi)
    refine (Fits.of_aliases m hnamed).mono ?_
    rw [Nat.succ_mul]
    exact Nat.add_le_add_left hheight _

/-- The root of a document that does not hold itself fits the levels that are allowed for. -/
theorem fits_levels (root : Node) : Fits anchors (levels root anchors) root := by
  have hnamed : ∀ k ∈ root.aliases, ∀ m, anchors.get? k = some m →
      Fits anchors (anchors.length * Node.heights anchors.values) m := fun k _ m hm =>
    (hacyclic.fits_named hm).mono (Nat.mul_le_mul_right _ (hacyclic.below_lt_length hm))
  have hheight : root.height ≤ max root.height (Node.heights anchors.values) + 1 :=
    Nat.le_succ_of_le (Nat.le_max_left _ _)
  have hheights : Node.heights anchors.values ≤ max root.height (Node.heights anchors.values) + 1 :=
    Nat.le_succ_of_le (Nat.le_max_right _ _)
  refine (Fits.of_aliases root hnamed).mono ?_
  rw [levels, Nat.succ_mul]
  exact Nat.add_le_add (Nat.mul_le_mul_left _ hheights) hheight

end Acyclic

end Yaml

end TypedPerl
