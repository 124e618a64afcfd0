import Mathlib.Data.Finset.Prod
import TypedPerl.Proofs.Document.Following

/-!
# How many levels reading takes

A document may hold itself, so that reading it within a number of levels may run out of them.
Whether it does so for every number of levels is decided within the levels that are allowed for: if
any number of levels is enough, then these are (`ends_levels`). A named node is read in a role with
no more levels than it is high beyond those that the named nodes read before it in time need, and
there are no more of these than names and roles.
-/

namespace TypedPerl

namespace Document

open Yaml (Node Mark Tag Anchors)

variable {α β : Type}

/-! ## Renumberings and ends -/

theorem steady_same : Steady fun n => n :=
  fun _ _ h => congrArg (· + 1) h

theorem steady_zero : Steady fun _ => 0 :=
  fun _ _ _ => rfl

namespace Alike

variable {name : String} {num : Nat → Nat} {post : α → β → Prop} {r : Except Fault (α × Nat)}
  {r' : Except Fault (β × Nat)}

theorem symm {post' : β → α → Prop} (hpost : ∀ a b, post a b → post' b a)
    (h : Alike name num post r r') : Alike name num post' r' r := by
  cases h with
  | ok h hn => exact .ok (hpost _ _ h) hn.symm
  | error hf hg h => exact .error hg hf h.symm

theorem trans {r'' : Except Fault (β × Nat)} (h : Alike name num post r r')
    (h' : Alike name num (fun b b' => b = b') r' r'') : Alike name num post r r'' := by
  cases h with
  | ok h hn =>
    cases h' with
    | ok h' hn' => exact .ok (h' ▸ h) (hn.trans hn')
  | error hf hg h =>
    cases h' with
    | error hf' hg' h' => exact .error hf hg' (h.trans h')

theorem left_ne (h : Alike name num post r r') : r ≠ .error .endless := by
  cases h with
  | ok => exact nofun
  | error hf => exact fun heq => hf.ne_endless (Except.error.inj heq)

theorem right_ne (h : Alike name num post r r') : r' ≠ .error .endless :=
  have hsymm : Alike name num (fun b a => post a b) r' r := h.symm fun _ _ h => h
  hsymm.left_ne

end Alike

theorem Role.Same.symm {num : Nat → Nat} {r : Role} {a b : r.Result} (h : r.Same num a b) :
    r.Same num b a := by
  cases r <;> exact Eq.symm h

/-! ## Nodes that resolve alike -/

section Resolve

variable {R : Role → Node → Node → Prop} {anchors : Anchors}

theorem SameText.refl (n : Node) : SameText n n := by
  cases n with
  | scalar => exact .scalar
  | sequence => exact .sequence
  | mapping => exact .mapping
  | refer => exact .refer

/-- A field agrees with itself as long as the nodes that are read in it are related to
themselves. -/
theorem Look.Agree.refl {l : Look} {o : Option Node}
    (h : ∀ r, l.role? = some r → ∀ c ∈ o, R r c c ∧ ∀ m items, c = .sequence m items →
      ∀ x ∈ items, R r x x) : l.Agree R anchors anchors o o := by
  have hitems (r : Role) (hr : l.role? = some r) {m : Mark} {items : List Node}
      (ho : .sequence m items ∈ o) : List.Forall₂ (R r) items items :=
    List.forall₂_same.mpr ((h r hr _ ho).2 m items rfl)
  -- only the nodes that are read further have to agree with themselves
  cases l with
  | truth | number => rfl
  | text =>
    cases o with
    | none => exact .none
    | some c => exact .some (.refl c)
  | part r =>
    cases o with
    | none => exact .none
    | some c => exact .some (h r rfl c rfl).1
  | row r =>
    cases o with
    | none => exact .none
    | some c =>
      cases c with
      | scalar => exact .some .scalar
      | sequence m items => exact .some (.sequence (hitems r rfl rfl))
      | mapping => exact .some .mapping
      | refer => exact .some .refer
  | block =>
    cases o with
    | none => exact .none
    | some c =>
      cases c with
      | sequence m items => exact .some (.sequence (hitems .stmt rfl rfl))
      | scalar | mapping | refer =>
        exact .some (.other (h .stmt rfl _ rfl).1 (by simp [kindText]) (by simp [kindText]))

/-- Nodes that resolve alike agree as long as the nodes that are less high are related to
themselves. -/
theorem AgreeOn.of_resolve {looks : Fields → List (String × Look)} {n n' : Node}
    (hres : n.resolve anchors = n'.resolve anchors)
    (hR : ∀ f, ∀ p ∈ looks f, ∀ r, p.2.role? = some r →
      ∀ c, c.height < (n.resolve anchors).height → R r c c) :
    AgreeOn R anchors anchors looks n n' := by
  cases hn : n.resolve anchors with
  | mapping m es =>
    refine .mapping hn (hres ▸ hn) fun p hp => .refl fun r hr c hc => ?_
    -- the value of a field is lower than the mapping that has it
    have hheight : c.height < (n.resolve anchors).height := by
      rw [hn]
      exact Nat.lt_succ_of_le
        (Node.height_le_heights (mem_of_lastValue? (Option.filter_eq_some_iff.mp hc).1))
    refine ⟨hR _ p hp r hr c hheight, ?_⟩
    rintro m' items rfl x hx
    exact hR _ p hp r hr x
      (Nat.lt_trans (Nat.lt_succ_of_le (Node.height_le_heights hx)) hheight)
  | scalar | sequence | refer =>
    exact .other (by rw [hres]) (by simp [hn, kindText])

theorem AgreeAs.of_resolve {r : Role} {n n' : Node}
    (hres : n.resolve anchors = n'.resolve anchors) (htext : SameText n n')
    (hR : ∀ s, r.MayHold s → ∀ c, c.height < (n.resolve anchors).height → R s c c)
    (hself : r = .stmt → R .expr n n') : AgreeAs R anchors anchors r n n' := by
  have hon : AgreeOn R anchors anchors r.looks n n' :=
    .of_resolve hres fun f p hp s hs => hR s (Role.mayHold_of_mem hp hs)
  -- a statement may be read as an expression too, and a piece or a target as a scalar
  cases r with
  | expr | branch => exact hon
  | stmt => exact ⟨hon, fun _ _ _ _ => hself rfl⟩
  | piece =>
    cases htext with
    | scalar => exact .scalar
    | sequence | mapping | refer =>
      exact .other hon (by simp [kindText]) (by simp [kindText])
  | target => exact htext

end Resolve

/-! ## Runs with an end -/

/-- Reading the node in the role within a number of levels has an end, from some number on. -/
def Ends (src : Source) (d : Nat) (r : Role) (n : Node) : Prop :=
  ∃ k, r.read d n src k ≠ .error .endless

section Ends

variable {src : Source} {d d' : Nat} {r : Role} {n : Node}

/-- With more levels a node is read alike. -/
theorem follows_more {num : Nat → Nat} (hnum : Steady num) (src : Source) (hle : d ≤ d') (r : Role)
    (n : Node) : FollowsAs num src src.anchors d d' r n n := by
  refine follows_of_simulation hnum (R := fun _ c c' => c = c') ?_ r hle rfl
  rintro s c _ rfl
  exact .of_resolve rfl (.refl c) (fun _ _ _ _ => rfl) fun _ => rfl

/-- Readers that follow have an end where the readers before them have one, whatever numbers the two
start from. -/
theorem FollowsAs.ends {n' : Node} (h : FollowsAs (fun _ => 0) src src.anchors d d' r n n')
    (hends : Ends src d r n) (k' : Nat) : r.read d' n' src k' ≠ .error .endless := by
  obtain ⟨k, hk⟩ := hends
  exact ((h k k' rfl).resolve_left hk).right_ne

theorem Ends.all (h : Ends src d r n) (k : Nat) : r.read d n src k ≠ .error .endless :=
  (follows_more steady_zero src (Nat.le_refl d) r n).ends h k

theorem Ends.mono (h : Ends src d r n) (hle : d ≤ d') : Ends src d' r n :=
  ⟨0, (follows_more steady_zero src hle r n).ends h 0⟩

/-- A node is read alike within any two numbers of levels, as long as the second is enough where the
first is. -/
theorem follows_of_ends (h : Ends src d r n → Ends src d' r n) :
    FollowsAs (fun _ => 0) src src.anchors d d' r n n := by
  rcases Nat.le_total d d' with hle | hle
  · exact follows_more steady_zero src hle r n
  · intro k k' _
    by_cases hrun : r.read d n src k = .error .endless
    · exact .inl hrun
    · have halike := follows_more steady_zero src hle r n k' k rfl
      exact .inr ((halike.resolve_left ((h ⟨k, hrun⟩).all k')).symm fun _ _ => Role.Same.symm)

/-- The names and the positions of aliases do not matter. -/
theorem Ends.rename {m m' : Mark} {t t' : String} {k : Nat} {node : Node}
    (hk : src.anchors.get? k = some node) (h : Ends src d r (.refer m t k)) :
    Ends src d r (.refer m' t' k) := by
  have hres {m : Mark} {t : String} : (Node.refer m t k).resolve src.anchors = node := by
    rw [Node.resolve, hk, Option.getD_some]
  have hfollows : FollowsAs (fun _ => 0) src src.anchors d d r (.refer m t k) (.refer m' t' k) := by
    refine follows_of_simulation steady_zero
      (R := fun _ c c' => c = c' ∨ c = .refer m t k ∧ c' = .refer m' t' k) ?_ r (Nat.le_refl d)
      (.inr ⟨rfl, rfl⟩)
    rintro s c c' (rfl | ⟨rfl, rfl⟩)
    · exact .of_resolve rfl (.refl c) (fun _ _ _ _ => .inl rfl) fun _ => .inl rfl
    · exact .of_resolve (hres.trans hres.symm) .refer (fun _ _ _ _ => .inl rfl)
        fun _ => .inr ⟨rfl, rfl⟩
  exact ⟨0, hfollows.ends h 0⟩

end Ends

/-! ## Levels that are enough -/

/-- The order in which nodes are read: later for more levels, and for the roles that take none. -/
def Role.time (r : Role) (d : Nat) : Nat :=
  2 * d + if r.isFree then 1 else 0

theorem Role.time_lt {r s : Role} (h : r.MayHold s) (d : Nat) : s.time d < r.time (r.above d) := by
  cases r <;> cases s <;>
    first
    | exact absurd h (by decide)
    | simp only [time, above, isFree, if_true, if_false, Bool.false_eq_true]
      omega

theorem Role.extra_le_one (r : Role) : r.extra ≤ 1 := by
  cases r <;> decide

/-- As many levels as a node is high are enough beyond those that the aliases in it need. -/
theorem ends_of_aliases {src : Source} {b t : Nat}
    (h : ∀ r d m name k node, src.anchors.get? k = some node → r.time d < t →
      Ends src d r (.refer m name k) → Ends src b r (.refer m name k))
    {r : Role} {d : Nat} {n : Node} (htime : r.time d ≤ t) (hends : Ends src d r n) :
    Ends src (b + (n.resolve src.anchors).height + r.extra) r n := by
  induction r, d using Role.levels_induction generalizing n with
  | expr | stmt =>
    obtain ⟨k, hk⟩ := hends
    exact absurd rfl hk
  | above r d ih =>
    have hpos := Node.height_pos (n.resolve src.anchors)
    obtain ⟨below, hbelow⟩ : ∃ below, b + (n.resolve src.anchors).height + r.extra = below + 1 :=
      Nat.exists_eq_add_one.mpr (by omega)
    obtain ⟨d', hd', hle⟩ : ∃ d', below + 1 = r.above d' ∧ below ≤ d' :=
      Role.exists_above (r.above_le_succ below)
    -- what is read inside needs less
    have hinside (s : Role) (hs : r.MayHold s) (c : Node) (hc : b + c.height + s.extra ≤ d') :
        FollowsAs (fun _ => 0) src src.anchors d d' s c c := by
      refine follows_of_ends fun hends => ?_
      have hlt : s.time d < t := Nat.lt_of_lt_of_le (Role.time_lt hs d) htime
      rcases Yaml.alias_or_self src.anchors c with ⟨m, name, k, node, rfl, hk⟩ | hself
      · exact (h s d m name k node hk hlt hends).mono (by omega)
      · have hown := ih s hs (Nat.le_of_lt hlt) hends
        rw [hself] at hown
        exact hown.mono hc
    rw [hbelow, hd']
    refine ⟨0, FollowsAs.ends (AgreeAs.follows steady_zero
      (.of_resolve rfl (.refl n) (fun s hs c hc => ?_) fun hr => ?_)) hends 0⟩
    · have hextra := hs.2
      exact hinside s hs c (by omega)
    · subst hr
      rcases Yaml.alias_or_self src.anchors n with ⟨m, name, k, node, rfl, hk⟩ | hself
      · have hlt : Role.expr.time d < t :=
          Nat.lt_of_lt_of_le (Role.time_lt (r := .stmt) (by decide) d) htime
        exact follows_of_ends fun hends => (h .expr d m name k node hk hlt hends).mono (by omega)
      · rw [hself] at hbelow
        exact hinside .expr (by decide) n (by simp only [Role.extra] at hbelow ⊢; omega)

section Named

variable (src : Source)

/-- The roles in which a node may hold itself: a target of a pragma holds no node. -/
def nodeRoles : Finset Role :=
  {.expr, .stmt, .branch, .piece}

open scoped Classical in
/-- The named nodes, each with a role in which an alias of it is read with an end before a time. -/
noncomputable def ended (t : Nat) : Finset (Role × Nat) :=
  (nodeRoles ×ˢ src.anchors.keys.toFinset).filter fun p =>
    ∃ d m name, p.1.time d < t ∧ Ends src d p.1 (.refer m name p.2)

variable {src}

theorem mem_ended {t : Nat} {r : Role} {k : Nat} : (r, k) ∈ ended src t ↔
    (r ∈ nodeRoles ∧ k ∈ src.anchors.keys) ∧
      ∃ d m name, r.time d < t ∧ Ends src d r (.refer m name k) := by
  simp [ended]

theorem ended_mono {t : Nat} : ended src t ⊆ ended src (t + 1) := by
  rintro ⟨r, k⟩ hp
  obtain ⟨hkey, d, m, name, hlt, hends⟩ := mem_ended.mp hp
  exact mem_ended.mpr ⟨hkey, d, m, name, Nat.lt_succ_of_lt hlt, hends⟩

theorem card_ended_le (t : Nat) : (ended src t).card ≤ 4 * src.anchors.length := by
  classical
  have hkeys : src.anchors.keys.length = src.anchors.length := List.length_map _
  calc (ended src t).card ≤ (nodeRoles ×ˢ src.anchors.keys.toFinset).card :=
        Finset.card_filter_le _ _
    _ = 4 * src.anchors.keys.toFinset.card := by rw [Finset.card_product]; rfl
    _ ≤ 4 * src.anchors.keys.length := Nat.mul_le_mul_left 4 (List.toFinset_card_le _)
    _ = 4 * src.anchors.length := by rw [hkeys]

/-- An alias of a named node that is read with an end before a time needs no more levels than the
named nodes of that kind allow for. -/
theorem ends_named {height : Nat} (hheight : Node.heights src.anchors.values < height) (t : Nat) :
    ∀ r d m name k node, src.anchors.get? k = some node → r.time d < t →
      Ends src d r (.refer m name k) →
        Ends src ((ended src t).card * height) r (.refer m name k) := by
  induction t with
  | zero => exact fun _ _ _ _ _ _ _ hlt => absurd hlt (Nat.not_lt_zero _)
  | succ t ih =>
    intro r d m name k node hk hlt hends
    by_cases htarget : r = .target
    · -- reading a target takes no levels
      subst htarget
      exact hends
    have hrole : r ∈ nodeRoles := by
      cases r <;> first | exact absurd rfl htarget | decide
    by_cases hold : (r, k) ∈ ended src t
    · obtain ⟨-, d', m', name', hlt', hends'⟩ := mem_ended.mp hold
      refine (ih r d' m name k node hk hlt' (hends'.rename hk)).mono ?_
      exact Nat.mul_le_mul_right _ (Finset.card_le_card ended_mono)
    · -- the alias is new, so that there are as many levels more as the named node is high
      have hnew : (r, k) ∈ ended src (t + 1) :=
        mem_ended.mpr ⟨⟨hrole, Keyed.mem_keys_of_get? hk⟩, d, m, name, hlt, hends⟩
      have hcard : (ended src t).card + 1 ≤ (ended src (t + 1)).card :=
        Finset.card_lt_card ⟨ended_mono, fun hback => hold (hback hnew)⟩
      have hnode : node.height ≤ Node.heights src.anchors.values :=
        Node.height_le_heights (Keyed.mem_values_of_get? hk)
      have hextra := r.extra_le_one
      have hown := ends_of_aliases ih (Nat.le_of_lt_succ hlt) hends
      rw [Node.resolve, hk, Option.getD_some] at hown
      refine hown.mono ?_
      calc (ended src t).card * height + node.height + r.extra
          ≤ (ended src t).card * height + height := by omega
        _ = ((ended src t).card + 1) * height := (Nat.succ_mul _ _).symm
        _ ≤ (ended src (t + 1)).card * height := Nat.mul_le_mul_right _ hcard

/-- What is read in a document with any number of levels is read with the levels that are allowed
for. -/
theorem ends_levels (src : Source) {root c : Node} {r : Role} {d : Nat}
    (hc : c.height ≤ max root.height (Node.heights src.anchors.values)) (h : Ends src d r c) :
    Ends src (4 * Yaml.levels root src.anchors) r c := by
  obtain ⟨height, hheight⟩ : ∃ height,
    height = max root.height (Node.heights src.anchors.values) + 1 := ⟨_, rfl⟩
  have hlevels :
      4 * Yaml.levels root src.anchors = 4 * src.anchors.length * height + 4 * height := by
    rw [Yaml.levels, ← hheight, ← Nat.mul_assoc, ← Nat.add_mul, ← Nat.mul_succ]
  -- a named node is met in four roles at most, and each time costs no more than the greatest height
  have hcard : (ended src (r.time d + 1)).card * height ≤ 4 * src.anchors.length * height :=
    Nat.mul_le_mul_right _ (card_ended_le _)
  have hnamed := @ends_named src height (by omega) (r.time d + 1)
  rcases Yaml.alias_or_self src.anchors c with ⟨m, name, k, node, rfl, hk⟩ | hself
  · exact (hnamed r d m name k node hk (Nat.lt_succ_self _) h).mono (by omega)
  · have hextra := r.extra_le_one
    have hown := ends_of_aliases hnamed (Nat.le_succ _) h
    rw [hself] at hown
    exact hown.mono (by omega)

end Named

/-! ## Units -/

section Units

variable {src : Source} {name : String} {root : Node} {d d' : Nat}

theorem follows_unit_of {num : Nat → Nat}
    (h : ∀ file c, c.height < (root.resolve src.anchors).height →
      FollowsAs num { src with file } src.anchors d d' .stmt c c) :
    Follows num src src.anchors (unitWithin d name root) (unitWithin d' name root)
      fun u u' => u.renumber num = u'.renumber num := by
  refine follows_unitWithin name (.of_resolve rfl fun _ p hp r hr c hc file => ?_)
  have hrole : r = .stmt := by
    simp only [unitLooks, List.mem_cons, List.not_mem_nil, or_false] at hp
    rcases hp with rfl | rfl | rfl
    · cases hr
    · cases hr
    · exact (Option.some.inj hr).symm
  subst hrole
  exact h file c hc

/-- The levels that are allowed for are enough for the root of a document if any are. -/
theorem unit_ends {k : Nat} (h : unitWithin d name root src k ≠ .error .endless) :
    unit name root src k ≠ .error .endless := by
  rw [unit_eq_unitWithin]
  -- following the root leads to a node of the document or to a named one
  have hheight : (root.resolve src.anchors).height ≤
      max root.height (Node.heights src.anchors.values) := by
    rcases Yaml.alias_or_self src.anchors root with ⟨m, t, k, node, rfl, hk⟩ | hself
    · rw [Node.resolve, hk, Option.getD_some]
      exact Nat.le_trans (Node.height_le_heights (Keyed.mem_values_of_get? hk))
        (Nat.le_max_right _ _)
    · rw [hself]
      exact Nat.le_max_left _ _
  have hfollows : Follows (fun _ => 0) src src.anchors (unitWithin d name root)
      (unitWithin (4 * Yaml.levels root src.anchors) name root)
      fun u u' => u.renumber (fun _ => 0) = u'.renumber fun _ => 0 :=
    follows_unit_of fun file c hc => follows_of_ends fun hends =>
      ends_levels { src with file }
        (Nat.le_trans (Nat.le_of_lt hc) hheight) hends
  exact ((hfollows k k rfl).resolve_left h).right_ne

/-- Reading the root within any two numbers of levels that are enough ends alike. -/
theorem unitWithin_alike {k : Nat} (h : unitWithin d name root src k ≠ .error .endless)
    (h' : unitWithin d' name root src k ≠ .error .endless) :
    Alike src.name (fun n => n) (fun u u' => u = u') (unitWithin d name root src k)
      (unitWithin d' name root src k) := by
  -- more levels change nothing for a reading that ended with fewer
  have hmore {d d' : Nat} (hle : d ≤ d') (h : unitWithin d name root src k ≠ .error .endless) :
      Alike src.name (fun n => n) (fun u u' => u = u') (unitWithin d name root src k)
        (unitWithin d' name root src k) := by
    have hfollows : Follows (fun n => n) src src.anchors (unitWithin d name root)
        (unitWithin d' name root) fun u u' => u = u' :=
      (follows_unit_of fun file c _ => follows_more steady_same { src with file } hle .stmt c).mono
        fun u u' hu => by rwa [SourceUnit.renumber_id, SourceUnit.renumber_id] at hu
    exact (hfollows k k rfl).resolve_left h
  rcases Nat.le_total d d' with hle | hle
  · exact hmore hle h
  · exact (hmore hle h').symm fun _ _ => Eq.symm

end Units

end Document

/-! ## Documents -/

/-- Two readings of a document give the same tree, or refuse the document for the same reason. -/
inductive SameReading (name : String) : Except Fault SourceUnit → Except Fault SourceUnit → Prop
  /-- The same tree. -/
  | tree (u : SourceUnit) : SameReading name (.ok u) (.ok u)
  /-- Refusals of the document that differ in their positions at most. -/
  | refused {f g : Fault} (hf : f.Refuses name) (hg : g.Refuses name)
    (h : f.unplaced = g.unplaced) : SameReading name (.error f) (.error g)

theorem Document.Alike.answer {name : String} {r r' : Except Fault (SourceUnit × Nat)}
    (h : Alike name (fun n => n) (fun u u' => u = u') r r') :
    SameReading name (r.map (·.1)) (r'.map (·.1)) := by
  cases h with
  | ok h =>
    subst h
    exact .tree _
  | error hf hg h => exact .refused hf hg h

/-- An answer is a tree or a refusal that names the document. -/
theorem SameReading.returns {name : String} {r r' : Except Fault SourceUnit}
    (h : SameReading name r r') : (∃ u, r' = .ok u) ∨ ∃ f, r' = .error f ∧ f.Refuses name := by
  cases h with
  | tree u => exact .inl ⟨u, rfl⟩
  | refused _ hg _ => exact .inr ⟨_, rfl, hg⟩

namespace Document

open Yaml (Node Anchors)

/-- Reads the root of a document. -/
def readRoot (name : String) (anchors : Anchors) (root : Node) : Except Fault SourceUnit :=
  (unit name root { name, file := "", anchors } 0).map (·.1)

/-- Reads the root of a document within a number of levels: as many readers of nodes may stand inside
one another. -/
def readRootWithin (levels : Nat) (name : String) (anchors : Anchors) (root : Node) :
    Except Fault SourceUnit :=
  (unitWithin levels name root { name, file := "", anchors } 0).map (·.1)

section Root

variable (name : String) (anchors : Anchors) (root : Node)

/-- A root is read within the levels that are allowed for. -/
theorem readRoot_eq :
    readRoot name anchors root = readRootWithin (4 * Yaml.levels root anchors) name anchors root := by
  rw [readRoot, readRootWithin, unit_eq_unitWithin]

/-- Where some number of levels is enough, the levels that are allowed for are, and the answer is
the same. -/
theorem sameReading_of_readRootWithin {levels : Nat}
    (h : readRootWithin levels name anchors root ≠ .error .endless) :
    SameReading name (readRootWithin levels name anchors root) (readRoot name anchors root) := by
  have hrun : unitWithin levels name root { name, file := "", anchors } 0 ≠
      .error .endless := fun hrun => h (by rw [readRootWithin, hrun]; rfl)
  have hends := unit_ends hrun
  rw [readRootWithin, readRoot]
  rw [unit_eq_unitWithin] at hends ⊢
  exact (unitWithin_alike hrun hends).answer

/-- A root that does not hold itself is read within the levels that are allowed for. -/
theorem readRoot_ne_endless (h : Yaml.Acyclic anchors) :
    readRoot name anchors root ≠ .error .endless := by
  have hanswers : Answers name anchors root (readRoot name anchors root) :=
    unit_answers name h root
  intro hend
  rw [hend] at hanswers
  cases hanswers with
  | refused hf => exact hf.ne_endless rfl

end Root

end Document

namespace SourceUnit

/-- Reads the text of a tree document with the given name, within a number of levels. -/
def decodeWithin (levels : Nat) (text name : String) : Except Fault SourceUnit :=
  match Yaml.parse text with
  | .malformed =>
    .error (Fault.locate .invalidTree ⟨name, 0, 0⟩ (.plain "yaml: malformed document"))
  | .empty => .error (Document.refusal name 0 0 "empty tree document")
  | .root root anchors => Document.readRootWithin levels name anchors root

theorem decode_of_parse {text : String} {root : Yaml.Node} {anchors : Yaml.Anchors}
    (h : Yaml.parse text = .root root anchors) (name : String) :
    decode text name = Document.readRoot name anchors root := by
  unfold decode
  rw [h]
  rfl

theorem decodeWithin_of_parse {text : String} {root : Yaml.Node} {anchors : Yaml.Anchors}
    (h : Yaml.parse text = .root root anchors) (levels : Nat) (name : String) :
    decodeWithin levels text name = Document.readRootWithin levels name anchors root := by
  unfold decodeWithin
  rw [h]

/-- A text without a tree of nodes is refused whatever the levels. -/
theorem decode_refuses {text : String} (name : String)
    (h : ∀ root anchors, Yaml.parse text ≠ .root root anchors) :
    ∃ f, f.Refuses name ∧ decode text name = .error f ∧
      ∀ levels, decodeWithin levels text name = .error f := by
  unfold decode decodeWithin
  cases hparse : Yaml.parse text with
  | malformed => exact ⟨_, ⟨_, _, rfl, rfl, rfl⟩, rfl, fun _ => rfl⟩
  | empty => exact ⟨_, ⟨_, _, rfl, rfl, rfl⟩, rfl, fun _ => rfl⟩
  | root root anchors => exact absurd hparse (h root anchors)

/-- With each number of levels that is enough for a text the answer is the same. -/
theorem sameReading_of_decodeWithin {levels : Nat} {text name : String}
    (h : decodeWithin levels text name ≠ .error .endless) :
    SameReading name (decodeWithin levels text name) (decode text name) := by
  by_cases hparse : ∃ root anchors, Yaml.parse text = .root root anchors
  · obtain ⟨root, anchors, hparse⟩ := hparse
    rw [decodeWithin_of_parse hparse] at h ⊢
    rw [decode_of_parse hparse]
    exact Document.sameReading_of_readRootWithin name anchors root h
  · obtain ⟨f, hrefuses, hdecode, hwithin⟩ :=
      decode_refuses name fun root anchors h => hparse ⟨root, anchors, h⟩
    rw [hwithin, hdecode]
    exact .refused hrefuses hrefuses rfl

/-- Reading a document returns, with a tree or with a diagnostic that names the document, exactly if
some number of levels is enough for it; with every such number the answer is the same. A document
that does not hold itself is of this kind. This is so for all nodes that a document may consist of,
and so for each text. -/
theorem decode_returns_iff (name : String) :
    (∀ (anchors : Yaml.Anchors) (root : Yaml.Node),
      ((∃ u, Document.readRoot name anchors root = .ok u) ∨
          (∃ f, Document.readRoot name anchors root = .error f ∧ f.Refuses name) ↔
        ∃ levels, Document.readRootWithin levels name anchors root ≠ .error .endless) ∧
      (∀ levels, Document.readRootWithin levels name anchors root ≠ .error .endless →
        SameReading name (Document.readRootWithin levels name anchors root)
          (Document.readRoot name anchors root)) ∧
      (Yaml.Acyclic anchors →
        ∃ levels, Document.readRootWithin levels name anchors root ≠ .error .endless)) ∧
    ∀ text : String,
      ((∃ u, decode text name = .ok u) ∨ (∃ f, decode text name = .error f ∧ f.Refuses name) ↔
        ∃ levels, decodeWithin levels text name ≠ .error .endless) ∧
      (∀ levels, decodeWithin levels text name ≠ .error .endless →
        SameReading name (decodeWithin levels text name) (decode text name)) ∧
      ((∀ root anchors, Yaml.parse text = .root root anchors → Yaml.Acyclic anchors) →
        ∃ levels, decodeWithin levels text name ≠ .error .endless) := by
  -- neither a tree nor a refusal is the fault of running out of levels
  have hne {r : Except Fault SourceUnit}
      (hr : (∃ u, r = .ok u) ∨ ∃ f, r = .error f ∧ f.Refuses name) : r ≠ .error .endless := by
    rintro rfl
    obtain ⟨u, hu⟩ | ⟨f, hf, hrefuses⟩ := hr
    · cases hu
    · exact hrefuses.ne_endless (Except.error.inj hf).symm
  have hroot (anchors : Yaml.Anchors) (root : Yaml.Node) :
      ((∃ u, Document.readRoot name anchors root = .ok u) ∨
          (∃ f, Document.readRoot name anchors root = .error f ∧ f.Refuses name) ↔
        ∃ levels, Document.readRootWithin levels name anchors root ≠ .error .endless) ∧
      (∀ levels, Document.readRootWithin levels name anchors root ≠ .error .endless →
        SameReading name (Document.readRootWithin levels name anchors root)
          (Document.readRoot name anchors root)) ∧
      (Yaml.Acyclic anchors →
        ∃ levels, Document.readRootWithin levels name anchors root ≠ .error .endless) := by
    have hallowed := Document.readRoot_eq name anchors root
    have hsame {levels : Nat} (h : Document.readRootWithin levels name anchors root ≠
        .error .endless) := Document.sameReading_of_readRootWithin name anchors root h
    exact ⟨⟨fun h => ⟨_, hallowed ▸ hne h⟩, fun ⟨d, hd⟩ => (hsame hd).returns⟩,
      fun d hd => hsame hd,
      fun h => ⟨_, hallowed ▸ Document.readRoot_ne_endless name anchors root h⟩⟩
  refine ⟨hroot, fun text => ?_⟩
  suffices h : (((∃ u, decode text name = .ok u) ∨
        (∃ f, decode text name = .error f ∧ f.Refuses name) →
          ∃ levels, decodeWithin levels text name ≠ .error .endless) ∧
      ((∀ root anchors, Yaml.parse text = .root root anchors → Yaml.Acyclic anchors) →
        ∃ levels, decodeWithin levels text name ≠ .error .endless)) from
    ⟨⟨h.1, fun ⟨d, hd⟩ => (sameReading_of_decodeWithin hd).returns⟩,
      fun d hd => sameReading_of_decodeWithin hd, h.2⟩
  -- a text without a tree of nodes is refused with no levels at all
  by_cases hparse : ∃ root anchors, Yaml.parse text = .root root anchors
  · obtain ⟨root, anchors, hparse⟩ := hparse
    simp only [decode_of_parse hparse, decodeWithin_of_parse hparse]
    obtain ⟨hiff, -, hacyclic⟩ := hroot anchors root
    exact ⟨hiff.mp, fun h => hacyclic (h root anchors hparse)⟩
  · obtain ⟨f, hrefuses, -, hwithin⟩ :=
      decode_refuses name fun root anchors h => hparse ⟨root, anchors, h⟩
    have hreturns : ∃ levels, decodeWithin levels text name ≠ .error .endless :=
      ⟨0, hwithin 0 ▸ hne (.inr ⟨f, rfl, hrefuses⟩)⟩
    exact ⟨fun _ => hreturns, fun _ => hreturns⟩

theorem aliasDocument_returns :
    ((∃ u, decode aliasDocument "tree.yaml" = .ok u) ∨
      ∃ f, decode aliasDocument "tree.yaml" = .error f ∧ f.Refuses "tree.yaml") :=
  have h := (decode_returns_iff "tree.yaml").2 aliasDocument
  h.1.mpr (h.2.2 aliasDocument_acyclic)

/-- A document with a block that is a statement of its own. -/
def selfDocument : String :=
  "file: f.pl\nstatements:\n  - &s {kind: block, statements: [*s]}\n"

/-- No number of levels is enough for a block that is a statement of its own, so that it is neither
read nor refused. -/
theorem selfDocument_endless :
    decode selfDocument "t.yaml" = .error .endless ∧
      ∀ levels, decodeWithin levels selfDocument "t.yaml" = .error .endless := by
  -- the fault has no decidable equality, so its shape is computed instead
  have hread {r : Except Fault SourceUnit}
      (hr : (match r with | .error .endless => true | _ => false) = true) :
      r = .error .endless := by
    split at hr
    · rfl
    · cases hr
  have hend : decode selfDocument "t.yaml" = .error .endless := hread (by decide +kernel)
  refine ⟨hend, fun levels => by_contra fun h => ?_⟩
  obtain ⟨u, hu⟩ | ⟨f, hf, hrefuses⟩ := (sameReading_of_decodeWithin h).returns
  · rw [hend] at hu
    cases hu
  · rw [hend] at hf
    exact hrefuses.ne_endless (Except.error.inj hf).symm

end SourceUnit

end TypedPerl
