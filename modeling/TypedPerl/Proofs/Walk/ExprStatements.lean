import TypedPerl.Proofs.Walk.Effects
import TypedPerl.Proofs.Walk.Hoisting

/-!
# Expression statements keep their effects

The text of a statement that is an expression tells of every call, assignment and step in it. The
elements of a list are statements of their own, and so is the right side of an operator that guards
it, which stands in braces with its lines moved in. What is left without a word are lists to the
right of an operator that does not guard it (`Expr.unsaid`).
-/

namespace TypedPerl

namespace Expr

mutual

/-- The lists in an expression statement that have no text: those on the right side of an operator
that asks whether its left side is defined. -/
def unsaid : Expr → List Expr
  | list _ es => unsaidList es
  | binary _ op _ right =>
    if (Compile.guardSign? op).isSome then right.unsaid
    else if isLogical op then right.silent
    else []
  | _ => []

/-- The lists in several expression statements that have no text. -/
def unsaidList : List Expr → List Expr
  | [] => []
  | e :: rest => e.unsaid ++ unsaidList rest

end

end Expr

namespace Compile

open Text (Within Shown)
open TypedPerl.Expr (Everywhere)
open Conversion (convertNonNull)

variable {env : Env} {S st : State} {e n x : Expr} {u : Usage} {text : String}

/-! ## The statement that an expression is -/

theorem Told.braces (h : Told S e n text) : Told S e n (Java.braces [text]) := by
  rcases h with h | ⟨hrow, h⟩ | h
  · exact .inl h.braces
  · exact .inr (.inl ⟨hrow, h.braces⟩)
  · exact .inr (.inr h)

theorem within_empty (text : String) : Within "" text :=
  List.nil_infix

/-- An expression in which something changes is evaluated as it is, or by the runtime. -/
theorem evaluated_kept (strict : Bool) (st : State) (hn : n ∈ e.preorder)
    (hchanges : n.changes = true) :
    Within (st.output e.id).code (evaluated strict st e) := by
  -- what changes something is not repeatable, so its code is never dropped
  have hrepeat : e.isRepeatable = false := by
    rw [Expr.isRepeatable, Bool.not_eq_false', List.any_eq_true]
    exact ⟨n, hn, hchanges⟩
  unfold evaluated
  dsimp only
  split
  · next hempty =>
    rw [hempty]
    exact .refl _
  · split
    · exact (Within.refl _).behind _
    · rw [hrepeat, Bool.false_and, if_neg Bool.false_ne_true, Java.call, Text.join,
        String.intercalate_singleton]
      exact (Within.refl _).unparen _ _

/-- What a settled expression statement that is evaluated as a whole tells. -/
theorem evaluated_tells (hsound : Sound env S e .void) (strict : Bool)
    (hsame : st.output e.id = S.output e.id) (hn : n ∈ e.preorder) (hchanges : n.changes = true) :
    (∃ c ∈ e.silent, n ∈ c.preorder) ∨ Told S e n (evaluated strict st e) := by
  rcases hsound.tells rfl n hn hchanges with ⟨-, hsilent⟩ | htold
  · exact .inl hsilent
  · refine .inr (htold.mono (fun m hm => hm) ?_)
    rw [← hsame]
    exact evaluated_kept strict st hn hchanges

/-- The left side of an operator is kept where the operator is evaluated as a whole. -/
theorem binary_tells_left {i : Info} {op : String} {left right : Expr}
    (h : Everywhere (Sound env S) (.binary i op left right) u) :
    Tells S (.binary i op left right) (S.output i.id).code left := by
  have hleft : (left, leftUsage op u) ∈ (Expr.binary i op left right).parts u := List.mem_cons_self
  exact (h.part hleft).self.tells_of_kept (leftUsage_isPlain op u) (part_subset hleft)
    (Made.both h.self.made).1

/-- A condition holds its operand, with a sign in front or without. -/
theorem condition_kept {left : Operand} (hlive : left.Live) (nullChecks : Bool)
    (sign rest : String) :
    Gives (convertNonNull nullChecks left (some .boolean)) fun cond =>
      Within left.code ("if (" ++ Java.unparen (sign ++ cond) ++ ") " ++ rest) := by
  refine (Conversion.convertNonNull_kept nullChecks hlive _).mono fun cond hcond => ?_
  have htext : "if (" ++ Java.unparen (sign ++ cond) ++ ") " ++ rest =
      "if " ++ "(" ++ Java.unparen (sign ++ cond) ++ ")" ++ (" " ++ rest) := by
    apply String.toList_injective
    simp
  rw [htext]
  exact (hcond.before sign).unparen _ _

/-- What is to be shown of the statement that an expression is. -/
def StatementTells (S : State) (e : Expr) (text : String) : Prop :=
  ∀ n ∈ e.preorder, n.changes = true → (∃ c ∈ e.unsaid, n ∈ c.preorder) ∨ Told S e n text

theorem exprStatements_gives {post : Expr → String → Prop} {es : List Expr}
    (h : ∀ x ∈ es, Gives (exprStatement env st x) (post x)) :
    Gives (exprStatements env st es) fun lines => ∀ x ∈ es, ∃ line ∈ lines, post x line := by
  induction es with
  | nil =>
    rw [exprStatements]
    exact .ok fun x hx => absurd hx List.not_mem_nil
  | cons e rest ih =>
    -- each element is a line of its own
    rw [exprStatements]
    refine .bind (h e List.mem_cons_self) fun line hline => ?_
    refine .bind (ih fun x hx => h x (List.mem_cons_of_mem e hx)) fun lines hlines => .pure ?_
    intro x hx
    obtain rfl | hx := List.mem_cons.mp hx
    · exact ⟨line, List.mem_cons_self, hline⟩
    · obtain ⟨line', hline', hpost⟩ := hlines x hx
      exact ⟨line', List.mem_cons_of_mem _ hline', hpost⟩

theorem mem_unsaidList {c : Expr} {es : List Expr} (hx : x ∈ es) (hc : c ∈ x.unsaid) :
    c ∈ Expr.unsaidList es := by
  induction es with
  | nil => exact absurd hx List.not_mem_nil
  | cons e rest ih =>
    rw [Expr.unsaidList]
    obtain rfl | hx := List.mem_cons.mp hx
    · exact List.mem_append_left _ hc
    · exact List.mem_append_right _ (ih hx)

/-- Each element of a list is a statement of its own. -/
theorem listStatement_tells {i : Info} {es : List Expr}
    (h : ∀ x ∈ es, Gives (exprStatement env st x) (StatementTells S x)) :
    Gives (exprStatement env st (.list i es)) (StatementTells S (.list i es)) := by
  rw [exprStatement]
  refine .bind (exprStatements_gives h) fun lines hlines => .pure fun n hn hchanges => ?_
  rcases (Expr.mem_preorder_iff .void).mp hn with rfl | ⟨p, hp, hn⟩
  · cases hchanges
  have hsub := part_subset hp
  obtain ⟨x, hx, rfl⟩ := List.mem_map.mp hp
  obtain ⟨line, hline, htells⟩ := hlines x hx
  rcases htells n hn hchanges with ⟨c, hc, hnc⟩ | htold
  · exact .inl ⟨c, mem_unsaidList hx hc, hnc⟩
  · exact .inr (htold.mono hsub (.join_nonEmpty "\n" ⟨line, hline, .refl _⟩))

theorem operandOf_of_output (h : st.output x.id = S.output x.id) :
    st.operandOf x = S.operandOf x := by
  unfold State.operandOf
  rw [h]

/-- The right side of a guard is a statement in braces, and its left side is the condition. -/
theorem guardStatement_tells {i : Info} {op sign : String} {left right : Expr}
    (hsign : guardSign? op = some sign)
    (h : Everywhere (Sound env S) (.binary i op left right) .void)
    (hsame : ∀ x ∈ (Expr.binary i op left right).preorder, st.output x.id = S.output x.id)
    (hright : Gives (exprStatement env st right) (StatementTells S right)) :
    Gives (exprStatement env st (.binary i op left right))
      (StatementTells S (.binary i op left right)) := by
  have hleft : (left, leftUsage op .void) ∈ (Expr.binary i op left right).parts .void :=
    List.mem_cons_self
  have hpart : (right, rightUsage op .void) ∈ (Expr.binary i op left right).parts .void :=
    List.mem_cons_of_mem _ List.mem_cons_self
  have hunsaid : (Expr.binary i op left right).unsaid = right.unsaid := by
    rw [Expr.unsaid, hsign, Option.isSome_some, if_pos rfl]
  have hoperand : st.operandOf left = S.operandOf left :=
    operandOf_of_output (hsame left (part_subset hleft left left.self_mem_preorder))
  -- the statement tells of all if it tells of the left side, and of what the body tells of
  have hsides {body text : String} (hbody : StatementTells S right body)
      (hl : Tells S (.binary i op left right) text left)
      (hr : ∀ n, Told S right n body → Told S (.binary i op left right) n text) :
      StatementTells S (.binary i op left right) text := by
    intro n hn hchanges
    rcases (Expr.mem_preorder_iff .void).mp hn with rfl | ⟨p, hp, hn⟩
    · cases hchanges
    simp only [Expr.parts, List.mem_cons, List.not_mem_nil, or_false] at hp
    rcases hp with rfl | rfl
    · exact .inr (hl n hn hchanges)
    · rw [hunsaid]
      exact (hbody n hn hchanges).imp_right (hr n)
  rw [exprStatement, hsign]
  refine .bind hright fun body hbody => .ite (fun hempty => .pure ?_) fun _ => ?_
  · -- nothing in the body has a text, and the operator is evaluated for its left side
    subst hempty
    refine hsides hbody (fun n hn hchanges => ?_) fun n htold =>
      htold.mono (part_subset hpart) (within_empty _)
    have hmem := part_subset hleft n hn
    refine (binary_tells_left h n hn hchanges).mono (fun m hm => hm) ?_
    have hcode := evaluated_kept env.strictStatements st hmem hchanges
    rw [hsame _ (Expr.self_mem_preorder _)] at hcode
    exact hcode
  · rw [hoperand]
    refine .bind (fun cond hcond hlive => condition_kept hlive env.nullChecks sign
      (Java.braces [body]) cond hcond) fun cond hcond => .pure ?_
    refine hsides hbody ?_ fun n htold => ?_
    · exact (h.part hleft).self.tells_of_kept (leftUsage_isPlain op .void) (part_subset hleft) hcond
    · exact htold.braces.mono (part_subset hpart) ((Within.refl _).before _)

/-- A guard is an operator that is evaluated for its right side. -/
theorem rightUsage_of_guard {op sign : String} (h : guardSign? op = some sign) :
    rightUsage op .void = .void := by
  unfold guardSign? at h
  split at h
  · rfl
  · rfl
  · rfl
  · rfl
  · cases h

/-- The statement that an expression is tells of all that changes something in it. -/
theorem exprStatement_tells (e : Expr) (h : Everywhere (Sound env S) e .void)
    (hsame : ∀ x ∈ e.preorder, st.output x.id = S.output x.id) :
    Gives (exprStatement env st e) (StatementTells S e) := by
  -- by induction on the parts, since the parts that become statements are used as the whole is
  refine e.parts_induction (P := fun e u => u = .void → Everywhere (Sound env S) e u →
    (∀ x ∈ e.preorder, st.output x.id = S.output x.id) →
    Gives (exprStatement env st e) (StatementTells S e)) (fun e u ih hu h hsame => ?_) .void rfl h
    hsame
  subst hu
  have hpart {p : Expr × Usage} (hp : p ∈ e.parts .void) (hvoid : p.2 = .void) :
      Gives (exprStatement env st p.1) (StatementTells S p.1) :=
    ih p hp hvoid (h.part hp) fun x hx => hsame x (part_subset hp x hx)
  have hwhole (hsilent : ∀ c ∈ e.silent, c ∈ e.unsaid) :
      Gives (.ok (evaluated env.strictStatements st e)) (StatementTells S e) := by
    refine .ok fun n hn hchanges => ?_
    have htells := evaluated_tells h.self env.strictStatements
      (hsame e e.self_mem_preorder) hn hchanges
    refine htells.imp_left fun hc => ?_
    obtain ⟨c, hc, hnc⟩ := hc
    exact ⟨c, hsilent c hc, hnc⟩
  have hnone (hsilent : e.silent = []) : ∀ c ∈ e.silent, c ∈ e.unsaid := by
    intro c hc
    rw [hsilent] at hc
    exact absurd hc List.not_mem_nil
  cases e with
  | var v =>
    intro text _ n hn hchanges
    obtain rfl := List.mem_singleton.mp hn
    cases hchanges
  | list i es => exact listStatement_tells fun x hx => hpart (List.mem_map_of_mem hx) rfl
  | binary i op left right =>
    cases hsign : guardSign? op with
    | some sign =>
      exact guardStatement_tells hsign h hsame
        (hpart (List.mem_cons_of_mem _ List.mem_cons_self) (rightUsage_of_guard hsign))
    | none =>
      rw [exprStatement, hsign]
      refine hwhole fun c hc => ?_
      rw [Expr.silent] at hc
      rw [Expr.unsaid, hsign, if_neg (by simp)]
      exact hc
  | _ =>
    simp only [exprStatement]
    exact hwhole (hnone rfl)

end Compile

end TypedPerl
