import Mathlib.Data.List.Perm.Basic
import TypedPerl.Proofs.Tree.Nodes
import TypedPerl.Usage

/-!
# The parts of an expression and how they are used

`parts` lists the direct parts of an expression in the order in which they are walked, each with
the usage that it is walked with. An expression is its own node and the nodes of its parts
(`preorder_parts`), so that what holds of all expressions can be proved without a look at their
kinds. `Everywhere P` says that `P` holds of an expression and of all its parts.
-/

namespace TypedPerl.Expr

/-- The direct parts of an expression with their usages, in the order of the walk. -/
def parts : Expr → Usage → List (Expr × Usage)
  | number _ _, _ | undef _, _ | var _, _ => []
  | string _ _ es, _ => es.map (·, .scalar)
  | index _ throughRef target key _ context, _ =>
    [(target, if throughRef then .scalar else .list), (key, keyUsage key context)]
  | deref _ target _, _ | makeRef _ target, _ => [(target, .scalar)]
  | anonArray _ es _, _ | anonHash _ es _, _ => es.map (·, .list)
  | list _ es, u => es.map (·, elementUsage es.length u)
  | assign _ op left right, u => [(right, sourceUsage left), (left, targetUsage op u)]
  | incDec _ _ _ target, _ => [(target, .update)]
  | binary _ op left right, u => [(left, leftUsage op u), (right, rightUsage op u)]
  | unary _ op x, _ => [(x, operandUsage op)]
  | ternary _ cond yes no, u => [(cond, .boolean), (yes, branchUsage u), (no, branchUsage u)]
  | call _ package name args, _ => args.mapIdx fun i x => (x, argUsage package name i)

theorem preorderList_eq_flatMap (es : List Expr) : preorderList es = es.flatMap preorder := by
  induction es with
  | nil => rfl
  | cons e es ih => rw [preorderList, ih, List.flatMap_cons]

theorem preorderList_mapIdx (usage : Nat → Usage) (es : List Expr) :
    preorderList es = (es.mapIdx fun i x => (x, usage i)).flatMap fun p => p.1.preorder := by
  induction es generalizing usage with
  | nil => rfl
  | cons e es ih =>
    rw [preorderList, List.mapIdx_cons, List.flatMap_cons, ih fun i => usage (i + 1)]

/-- An expression is itself and what its parts are. -/
theorem preorder_parts (e : Expr) (u : Usage) :
    e.preorder.Perm (e :: (e.parts u).flatMap fun p => p.1.preorder) := by
  cases e with
  | assign i op left right =>
    -- the right side is walked first
    simp only [preorder, parts, List.flatMap_cons, List.flatMap_nil, List.append_nil]
    exact .cons _ List.perm_append_comm
  | call i package name args => rw [preorder, parts, preorderList_mapIdx]
  | _ =>
    simp [preorder, parts, preorderList_eq_flatMap, List.flatMap_map]

theorem mem_preorder_iff {e n : Expr} (u : Usage) :
    n ∈ e.preorder ↔ n = e ∨ ∃ p ∈ e.parts u, n ∈ p.1.preorder := by
  rw [(e.preorder_parts u).mem_iff]
  simp

theorem self_mem_preorder (e : Expr) : e ∈ e.preorder :=
  (mem_preorder_iff .scalar).mpr (.inl rfl)

theorem nodes_parts (e : Expr) (u : Usage) :
    e.nodes.Perm (e.id :: (e.parts u).flatMap fun p => p.1.nodes) := by
  have hmap := (e.preorder_parts u).map id
  rw [List.map_cons, List.map_flatMap] at hmap
  exact hmap

/-- A part has fewer nodes than the whole. -/
theorem nodes_length_lt {e : Expr} {u : Usage} {p : Expr × Usage} (h : p ∈ e.parts u) :
    p.1.nodes.length < e.nodes.length := by
  have hsub : p.1.nodes.Sublist ((e.parts u).flatMap fun p => p.1.nodes) := by
    rw [List.flatMap_def]
    exact List.sublist_flatten_of_mem (List.mem_map_of_mem h)
  rw [(e.nodes_parts u).length_eq, List.length_cons]
  exact Nat.lt_succ_of_le hsub.length_le

/-- What holds of an expression whenever it holds of all its parts, holds of every expression. -/
theorem parts_induction {P : Expr → Usage → Prop}
    (h : ∀ e u, (∀ p ∈ e.parts u, P p.1 p.2) → P e u) (e : Expr) (u : Usage) : P e u :=
  h e u fun p _hp => parts_induction h p.1 p.2
termination_by e.nodes.length
decreasing_by exact nodes_length_lt _hp

/-- `P` holds of the expression and of its parts, each with its usage. -/
inductive Everywhere (P : Expr → Usage → Prop) : Expr → Usage → Prop
  | intro {e : Expr} {u : Usage} (here : P e u)
      (parts : ∀ p ∈ e.parts u, Everywhere P p.1 p.2) : Everywhere P e u

namespace Everywhere

variable {P : Expr → Usage → Prop} {e : Expr} {u : Usage}

theorem self (h : Everywhere P e u) : P e u := by
  obtain ⟨here, -⟩ := h
  exact here

theorem part (h : Everywhere P e u) {p : Expr × Usage} (hp : p ∈ e.parts u) :
    Everywhere P p.1 p.2 := by
  obtain ⟨-, hparts⟩ := h
  exact hparts p hp

/-- What holds of all nodes of the expression holds of each beside `P`. -/
theorem and_nodes {R : Expr → Prop} (h : Everywhere P e u) (hR : ∀ x ∈ e.preorder, R x) :
    Everywhere (fun x v => P x v ∧ R x) e u := by
  induction h with
  | @intro e u here _ ih =>
    refine ⟨⟨here, hR e e.self_mem_preorder⟩, fun p hp => ih p hp fun x hx => ?_⟩
    exact hR x ((mem_preorder_iff u).mpr (.inr ⟨p, hp, hx⟩))

/-- What holds everywhere in an expression holds everywhere in each of its nodes. -/
theorem of_mem {n : Expr} (h : Everywhere P e u) (hn : n ∈ e.preorder) :
    ∃ v, Everywhere P n v := by
  induction h with
  | @intro e u here parts ih =>
    rcases (mem_preorder_iff u).mp hn with rfl | ⟨p, hp, hn⟩
    · exact ⟨u, here, parts⟩
    · exact ih p hp hn

/-- What follows for an expression from `P` and from all that is known of its parts, holds
everywhere. -/
theorem extend {Q : Expr → Usage → Prop} (h : Everywhere P e u)
    (hQ : ∀ e u, P e u → (∀ p ∈ e.parts u, Everywhere Q p.1 p.2) → Q e u) : Everywhere Q e u := by
  induction h with
  | @intro e u here _ ih => exact ⟨hQ e u here ih, ih⟩

end Everywhere

end TypedPerl.Expr
