import Mathlib.Data.List.Basic
import TypedPerl.Proofs.Ty.Rows
import TypedPerl.Proofs.Ty.WellFormed

/-!
# Operations on types as operations on rows

The linear form of a type is its row of tag codes together with the name of its object class. Each
operation on types does to that row what an operation on lists does: a level is put in before the
last code or in front, a reference is dropped or put in front, codes are dropped from the front, and
the last code is replaced. `Operation.onRow` and `Operation.onName` say so for one operation,
`tagCodes_run` and `objectName_run` for a sequence of them.

As the linear form tells types apart (`eq_iff_linear`), this describes the operations completely.
A sequence of them keeps references outermost, and no other object without a name comes into a
type than one that is put in as its terminal.
-/

namespace TypedPerl.Ty

/-! ## The linear form tells types apart -/

@[simp] theorem tagCodes_ne_empty (t : Ty) : t.tagCodes ≠ [] := by
  obtain ⟨c, cs, h⟩ := tagCodes_ne_nil t
  exact h ▸ List.cons_ne_nil c cs

theorem length_tagCodes (t : Ty) : t.tagCodes.length = t.depth := by
  induction t with
  | scalar k => rfl
  | object n => rfl
  | agg s e ih | ref e ih => rw [tagCodes, List.length_cons, ih, depth, Nat.add_comm]

theorem depth_pos (t : Ty) : 0 < t.depth := by
  rw [← length_tagCodes]
  exact List.length_pos_iff.mpr (tagCodes_ne_empty t)

theorem shape_ne_refCode (s : Shape) : s.tagCode ≠ refCode := by
  cases s <;> decide

theorem kind_ne_refCode (k : Kind) : k.tagCode ≠ refCode := by
  cases k <;> decide

/-- Types with the same codes and the same class name are the same, by induction on the levels. -/
theorem eq_of_linear {a b : Ty} (hcodes : a.tagCodes = b.tagCodes)
    (hname : a.objectName = b.objectName) : a = b := by
  -- the first code says which constructor the type has, and only a terminal has no code after it
  induction a generalizing b with
  | scalar k =>
    cases b with
    | scalar k' => rw [kind_tagCode_injective (List.head_eq_of_cons_eq hcodes)]
    | object n => exact absurd (List.head_eq_of_cons_eq hcodes) (kind_ne_objectCode k)
    | agg s e | ref e => exact absurd (List.tail_eq_of_cons_eq hcodes).symm (tagCodes_ne_empty e)
  | object n =>
    cases b with
    | scalar k => exact absurd (List.head_eq_of_cons_eq hcodes).symm (kind_ne_objectCode k)
    | object n' => exact congrArg object hname
    | agg s e | ref e => exact absurd (List.tail_eq_of_cons_eq hcodes).symm (tagCodes_ne_empty e)
  | agg s e ih =>
    cases b with
    | scalar k | object n => exact absurd (List.tail_eq_of_cons_eq hcodes) (tagCodes_ne_empty e)
    | agg s' e' =>
      rw [shape_tagCode_injective (List.head_eq_of_cons_eq hcodes),
        ih (List.tail_eq_of_cons_eq hcodes) hname]
    | ref e' => exact absurd (List.head_eq_of_cons_eq hcodes) (shape_ne_refCode s)
  | ref e ih =>
    cases b with
    | scalar k | object n => exact absurd (List.tail_eq_of_cons_eq hcodes) (tagCodes_ne_empty e)
    | agg s' e' => exact absurd (List.head_eq_of_cons_eq hcodes).symm (shape_ne_refCode s')
    | ref e' => rw [ih (List.tail_eq_of_cons_eq hcodes) hname]

theorem eq_iff_linear {a b : Ty} :
    a = b ↔ a.tagCodes = b.tagCodes ∧ a.objectName = b.objectName :=
  ⟨fun h => h ▸ ⟨rfl, rfl⟩, fun h => eq_of_linear h.1 h.2⟩

/-! ## What each operation does to the row -/

/-- A row without the reference in front. -/
def dropRef : List UInt8 → List UInt8
  | [] => []
  | c :: row => if c = refCode then row else c :: row

theorem dropRef_tagCodes (t : Ty) : dropRef t.tagCodes = t.unref.tagCodes := by
  cases t with
  | scalar k => exact if_neg (kind_ne_refCode k)
  | object n => rfl
  | agg s e => exact if_neg (shape_ne_refCode s)
  | ref e => rw [tagCodes, dropRef, if_pos rfl, unref]

theorem tagCodes_wrap (s : Shape) (t : Ty) :
    (wrap s t).tagCodes = s.tagCode :: dropRef t.tagCodes := by
  rw [wrap, tagCodes, dropRef_tagCodes]

theorem tagCodes_refTo (t : Ty) :
    t.refTo.tagCodes =
      if t.tagCodes.head? = some refCode then t.tagCodes else refCode :: t.tagCodes := by
  cases t with
  | scalar k => exact (if_neg fun h => kind_ne_refCode k (Option.some.inj h)).symm
  | object n => rfl
  | agg s e => exact (if_neg fun h => shape_ne_refCode s (Option.some.inj h)).symm
  | ref e => exact (if_pos rfl).symm

theorem tagCodes_append (t : Ty) (s : Shape) :
    (t.append s).tagCodes = t.tagCodes.insertIdx (t.tagCodes.length - 1) s.tagCode := by
  -- with a level on top the place directly before the last code moves on by one
  have hlevel (c : UInt8) (e : Ty) :
      c :: e.tagCodes.insertIdx (e.tagCodes.length - 1) s.tagCode =
        (c :: e.tagCodes).insertIdx ((c :: e.tagCodes).length - 1) s.tagCode := by
    have hpos := List.length_pos_iff.mpr (tagCodes_ne_empty e)
    rw [List.length_cons, Nat.add_sub_cancel, ← Nat.sub_add_cancel hpos, List.insertIdx_succ_cons,
      Nat.add_sub_cancel]
  induction t with
  | scalar k => rfl
  | object n => rfl
  | agg s' e ih => rw [append, tagCodes, tagCodes, ih, hlevel]
  | ref e ih => rw [append, tagCodes, tagCodes, ih, hlevel]

theorem tagCodes_subtype (n : Nat) (t : Ty) :
    (subtype n t).tagCodes = t.tagCodes.drop (min n (t.tagCodes.length - 1)) := by
  -- going down one level takes off one code, as long as there is a level below
  have hlevel (n : Nat) (c : UInt8) (e : Ty) :
      e.tagCodes.drop (min n (e.tagCodes.length - 1)) =
        (c :: e.tagCodes).drop (min (n + 1) ((c :: e.tagCodes).length - 1)) := by
    have hpos := List.length_pos_iff.mpr (tagCodes_ne_empty e)
    rw [List.length_cons, Nat.add_sub_cancel,
      show min (n + 1) e.tagCodes.length = min n (e.tagCodes.length - 1) + 1 by omega,
      List.drop_succ_cons]
  induction n generalizing t with
  | zero => rw [subtype, Nat.zero_min, List.drop_zero]
  | succ n ih =>
    rw [subtype, ih]
    cases t with
    | scalar k => simp [elem, tagCodes]
    | object m => simp [elem, tagCodes]
    | agg s e => exact hlevel n _ e
    | ref e => exact hlevel n _ e

theorem tagCodes_withTerminal (t u : Ty) :
    (t.withTerminal u).tagCodes = t.tagCodes.dropLast ++ u.tagCodes := by
  induction t with
  | scalar k => rfl
  | object n => rfl
  | agg s e ih | ref e ih =>
    rw [withTerminal, tagCodes, tagCodes, ih,
      List.dropLast_cons_of_ne_nil (tagCodes_ne_empty e), List.cons_append]

/-- A type of one tag has one code, which is not that of a reference. -/
theorem tagCodes_of_depth_one {u : Ty} (h : u.depth = 1) :
    ∃ c, u.tagCodes = [c] ∧ c ≠ refCode := by
  cases u with
  | scalar k => exact ⟨_, rfl, kind_ne_refCode k⟩
  | object n => exact ⟨_, rfl, by decide⟩
  | agg s e | ref e =>
    have hpos := depth_pos e
    rw [depth] at h
    omega

/-! ## What each operation does to the terminal -/

theorem objectName_terminal (t : Ty) : t.terminal.objectName = t.objectName := by
  induction t with
  | scalar k => rfl
  | object n => rfl
  | agg s e ih | ref e ih => exact ih

theorem terminal_unref (t : Ty) : t.unref.terminal = t.terminal := by
  cases t with
  | scalar | object | agg | ref => rfl

theorem terminal_elem (t : Ty) : t.elem.terminal = t.terminal := by
  cases t with
  | scalar | object | agg | ref => rfl

theorem terminal_append (t : Ty) (s : Shape) : (t.append s).terminal = t.terminal := by
  induction t with
  | scalar k => rfl
  | object n => rfl
  | agg s' e ih | ref e ih => exact ih

theorem terminal_subtype (n : Nat) (t : Ty) : (subtype n t).terminal = t.terminal := by
  induction n generalizing t with
  | zero => rfl
  | succ n ih => rw [subtype, ih, terminal_elem]

theorem terminal_withTerminal (t u : Ty) : (t.withTerminal u).terminal = u.terminal := by
  induction t with
  | scalar k => rfl
  | object n => rfl
  | agg s e ih | ref e ih => exact ih

/-! ## Well-formed types by their linear form -/

theorem refFree_iff_linear {t : Ty} :
    t.RefFree ↔ refCode ∉ t.tagCodes ∧ t.terminal ≠ .object "" := by
  induction t with
  | scalar k =>
    exact iff_of_true trivial ⟨by simpa [tagCodes] using (kind_ne_refCode k).symm, nofun⟩
  | object n => simp [RefFree, tagCodes, terminal, objectCode, refCode]
  | agg s e ih =>
    rw [RefFree, ih, tagCodes, List.mem_cons, not_or, and_assoc, terminal]
    exact (and_iff_right (shape_ne_refCode s).symm).symm
  | ref e => exact iff_of_false id fun h => h.1 List.mem_cons_self

/-- No code behind the first is a reference, if the type below an outermost reference has none. -/
theorem refCode_not_mem_unref {t : Ty} :
    refCode ∉ t.unref.tagCodes ↔ refCode ∉ t.tagCodes.tail := by
  cases t with
  | scalar k => simpa [unref, tagCodes] using (kind_ne_refCode k).symm
  | object n => simp [unref, tagCodes, objectCode, refCode]
  | agg s e => simp [unref, tagCodes, (shape_ne_refCode s).symm]
  | ref e => exact Iff.rfl

/-- A type is well formed if a reference stands only in front and its terminal has a name. -/
theorem wellFormed_iff_linear {t : Ty} :
    t.WellFormed ↔ refCode ∉ t.tagCodes.tail ∧ t.terminal ≠ .object "" := by
  rw [← refCode_not_mem_unref, ← terminal_unref, ← refFree_iff_linear]
  cases t with
  | scalar | object | agg | ref => exact Iff.rfl

/-! ## One operation -/

/-- The operations that make one type of another. -/
inductive Operation where
  /-- A level directly above the terminal. -/
  | append (s : Shape)
  /-- A level in front, which absorbs a reference. -/
  | prepend (s : Shape)
  /-- A reference in front, unless there is one. -/
  | refTo
  /-- The type `n` levels down. -/
  | subtype (n : Nat)
  /-- Another terminal. -/
  | withTerminal (u : Ty)

namespace Operation

/-- The type that an operation makes. -/
def apply : Operation → Ty → Ty
  | append s, t => t.append s
  | prepend s, t => wrap s t
  | refTo, t => t.refTo
  | subtype n, t => Ty.subtype n t
  | withTerminal u, t => t.withTerminal u

/-- What the operation does to the codes. -/
def onRow : Operation → List UInt8 → List UInt8
  | append s, row => row.insertIdx (row.length - 1) s.tagCode
  | prepend s, row => s.tagCode :: dropRef row
  | refTo, row => if row.head? = some refCode then row else refCode :: row
  | subtype n, row => row.drop (min n (row.length - 1))
  | withTerminal u, row => row.dropLast ++ u.tagCodes

/-- What the operation does to the terminal. -/
def onTerminal : Operation → Ty → Ty
  | withTerminal u, _ => u.terminal
  | _, t => t

/-- What the operation does to the class name. -/
def onName : Operation → String → String
  | withTerminal u, _ => u.objectName
  | _, name => name

variable (op : Operation) (t : Ty)

theorem tagCodes_apply : (op.apply t).tagCodes = op.onRow t.tagCodes := by
  cases op with
  | append s => exact tagCodes_append t s
  | prepend s => exact tagCodes_wrap s t
  | refTo => exact tagCodes_refTo t
  | subtype n => exact tagCodes_subtype n t
  | withTerminal u => exact tagCodes_withTerminal t u

theorem terminal_apply : (op.apply t).terminal = op.onTerminal t.terminal := by
  cases op with
  | append s => exact terminal_append t s
  | prepend s => exact terminal_unref t
  | refTo => exact terminal_unref t
  | subtype n => exact terminal_subtype n t
  | withTerminal u => exact terminal_withTerminal t u

theorem objectName_apply : (op.apply t).objectName = op.onName t.objectName := by
  rw [← objectName_terminal, terminal_apply]
  cases op with
  | append | prepend | refTo | subtype => exact objectName_terminal t
  | withTerminal u => exact objectName_terminal u

/-! ## References and names stay where they are -/

variable {op t}

/-- Codes of references do not come behind the first code. -/
theorem refCode_apply (hop : ∀ u, op = .withTerminal u → u.depth = 1)
    (ht : refCode ∉ t.tagCodes.tail) : refCode ∉ (op.apply t).tagCodes.tail := by
  cases op with
  | append s =>
    -- the level comes in below a reference, and elsewhere it may be the first of the row
    rw [← refCode_not_mem_unref] at ht ⊢
    have hbelow (e : Ty) (he : refCode ∉ e.tagCodes) : refCode ∉ (e.append s).tagCodes := by
      rw [tagCodes_append, List.mem_insertIdx (Nat.sub_le _ _), not_or]
      exact ⟨(shape_ne_refCode s).symm, he⟩
    cases t with
    | scalar | object | agg | ref => exact hbelow _ ht
  | prepend s => exact refCode_not_mem_unref.mpr ht
  | refTo => exact refCode_not_mem_unref.mpr ht
  | subtype n =>
    rw [tagCodes_apply, onRow, List.tail_drop, Nat.add_comm, ← List.drop_drop, List.drop_one]
    exact fun hmem => ht (List.mem_of_mem_drop hmem)
  | withTerminal u =>
    -- only the last code changes, and the new one is not that of a reference
    obtain ⟨c, hc, hne⟩ := tagCodes_of_depth_one (hop u rfl)
    rw [tagCodes_apply, onRow, hc]
    cases hrow : t.tagCodes.dropLast with
    | nil => exact List.not_mem_nil
    | cons d row =>
      have hrest : row = t.tagCodes.tail.dropLast := by
        rw [← List.tail_dropLast, hrow, List.tail_cons]
      rw [List.cons_append, List.tail_cons, List.mem_append, List.mem_singleton, not_or, hrest]
      exact ⟨fun hmem => ht (List.dropLast_subset _ hmem), hne.symm⟩

/-- A type stays well formed if it is given a well-formed terminal. -/
theorem wellFormed_apply (hop : ∀ u, op = .withTerminal u → u.depth = 1 ∧ u.WellFormed)
    (ht : t.WellFormed) : (op.apply t).WellFormed := by
  obtain ⟨hrefs, hname⟩ := wellFormed_iff_linear.mp ht
  refine wellFormed_iff_linear.mpr ⟨refCode_apply (fun u hu => (hop u hu).1) hrefs, ?_⟩
  rw [terminal_apply]
  cases op with
  | append | prepend | refTo | subtype => exact hname
  | withTerminal u => exact (wellFormed_iff_linear.mp (hop u rfl).2).2

end Operation

/-! ## Sequences of operations -/

/-- The type that operations make one after the other. -/
def run (ops : List Operation) (t : Ty) : Ty :=
  ops.foldl (fun t op => op.apply t) t

theorem tagCodes_run (ops : List Operation) (t : Ty) :
    (run ops t).tagCodes = ops.foldl (fun row op => op.onRow row) t.tagCodes :=
  (List.foldl_hom tagCodes fun t op => (op.tagCodes_apply t).symm).symm

theorem objectName_run (ops : List Operation) (t : Ty) :
    (run ops t).objectName = ops.foldl (fun name op => op.onName name) t.objectName :=
  (List.foldl_hom objectName fun t op => (op.objectName_apply t).symm).symm

/-- What each operation of a sequence keeps, the sequence keeps. -/
theorem run_induction (keeps : Ty → Prop) {ops : List Operation}
    (hstep : ∀ op ∈ ops, ∀ t, keeps t → keeps (op.apply t)) {t : Ty} (ht : keeps t) :
    keeps (run ops t) := by
  induction ops generalizing t with
  | nil => exact ht
  | cons op rest ih =>
    obtain ⟨hop, hrest⟩ := List.forall_mem_cons.mp hstep
    exact ih hrest (hop t ht)

/-- The operations on types are operations on rows. A level is put in directly before the last
code, or in front of a row that loses its reference; a reference is put in front unless it is there;
going down drops codes, but never the last one; a terminal replaces the last code. The number of
codes is the depth, and types with the same codes and the same class name are the same, which is
what comparing them level by level finds out.

A sequence of these operations, each new terminal of one tag, does the same to the codes and the
class name as the operations on them do in this order. From a well-formed type it never leads to a
reference behind the first code, and if the new terminals are well formed, it leads to a well-formed
type. -/
theorem operations_on_linear_form (t : Ty) :
    (∀ s, (t.append s).tagCodes = t.tagCodes.insertIdx (t.tagCodes.length - 1) s.tagCode) ∧
    (∀ s, (wrap s t).tagCodes = s.tagCode :: dropRef t.tagCodes) ∧
    (t.refTo.tagCodes =
      if t.tagCodes.head? = some refCode then t.tagCodes else refCode :: t.tagCodes) ∧
    (∀ n, (subtype n t).tagCodes = t.tagCodes.drop (min n (t.depth - 1))) ∧
    (∀ u, u.depth = 1 → ∃ c, u.tagCodes = [c] ∧
      (t.withTerminal u).tagCodes = t.tagCodes.dropLast ++ [c]) ∧
    t.depth = t.tagCodes.length ∧
    (∀ u, t.equal u = true ↔ t = u) ∧
    (∀ u, t = u ↔ t.tagCodes = u.tagCodes ∧ t.objectName = u.objectName) ∧
    ∀ ops : List Operation, (∀ u, .withTerminal u ∈ ops → u.depth = 1) →
      (run ops t).tagCodes = ops.foldl (fun row op => op.onRow row) t.tagCodes ∧
      (run ops t).objectName = ops.foldl (fun name op => op.onName name) t.objectName ∧
      (t.WellFormed → refCode ∉ (run ops t).tagCodes.tail ∧
        ((∀ u, .withTerminal u ∈ ops → u.WellFormed) → (run ops t).WellFormed)) := by
  refine ⟨tagCodes_append t, fun s => tagCodes_wrap s t, tagCodes_refTo t, fun n => ?_,
    fun u hu => ?_, (length_tagCodes t).symm, fun u => equal_iff, fun u => eq_iff_linear,
    fun ops hops => ?_⟩
  · rw [← length_tagCodes]
    exact tagCodes_subtype n t
  · obtain ⟨c, hc, -⟩ := tagCodes_of_depth_one hu
    exact ⟨c, hc, hc ▸ tagCodes_withTerminal t u⟩
  · refine ⟨tagCodes_run ops t, objectName_run ops t, fun ht => ⟨?_, fun hnamed => ?_⟩⟩
    -- no operation puts the code of a reference behind the front
    · refine run_induction (fun t => refCode ∉ t.tagCodes.tail) (fun op hop t ht => ?_)
        (wellFormed_iff_linear.mp ht).1
      exact Operation.refCode_apply (fun u hu => hops u (hu ▸ hop)) ht
    · refine run_induction WellFormed (fun op hop t ht => ?_) ht
      exact Operation.wellFormed_apply (fun u hu => ⟨hops u (hu ▸ hop), hnamed u (hu ▸ hop)⟩) ht

/-- A reference to an array of lists of integers, after five operations a reference to a list of
such arrays of lists of maps to texts. -/
theorem reshapedReference_linear_form :
    let t : Ty := .ref (.agg .array (.agg .list .integer))
    let text : Ty := .object "Text"
    let ops : List Operation :=
      [.append .map, .subtype 1, .prepend .list, .refTo, .withTerminal text]
    t.WellFormed ∧ (∀ u, .withTerminal u ∈ ops → u.depth = 1 ∧ u.WellFormed) ∧
      (t.withTerminal text).tagCodes = [refCode, 11, 12, objectCode] ∧
      (run ops t).tagCodes = [refCode, 12, 11, 12, 13, objectCode] ∧
      (run ops t).objectName = "Text" ∧ (run ops t).WellFormed := by
  intro t text ops
  obtain ⟨-, -, -, -, hterminal, -, -, -, hrun⟩ := operations_on_linear_form t
  have ht : t.WellFormed := trivial
  have hnew : ∀ u, .withTerminal u ∈ ops → u.depth = 1 ∧ u.WellFormed := by
    intro u hu
    obtain rfl : u = text := by simpa [ops] using hu
    exact ⟨rfl, show "Text" ≠ "" by decide⟩
  obtain ⟨c, hc, hreplaced⟩ := hterminal text rfl
  obtain ⟨hcodes, hname, hkept⟩ := hrun ops fun u hu => (hnew u hu).1
  refine ⟨ht, hnew, ?_, hcodes.trans (by decide), hname.trans rfl,
    (hkept ht).2 fun u hu => (hnew u hu).2⟩
  rw [hreplaced, ← hc]
  decide

end TypedPerl.Ty
