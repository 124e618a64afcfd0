import TypedPerl.Proofs.Walk.ExprStatements
import TypedPerl.Proofs.Walk.Variables

/-!
# Variables that are declared in place

`Stmt.placed` says which variables the code of a statement declares in place. Their value is not
used (`Stmt.placed_sublist`). Those of its variables whose value is not used and that a statement
does not place are lost (`Stmt.lost`).
-/

namespace TypedPerl

/-! ## Variables that are declared in place -/

namespace Expr

/-- The variable that the expression is. -/
def asVar : Expr → List Variable
  | var v => [v]
  | _ => []

/-- The variables that an assignment to the expression stores to. -/
def targetVars : Expr → List Variable
  | list _ es => es.flatMap asVar
  | e => e.asVar

mutual

/-- The variables that the expression declares in place as a statement. -/
def placed : Expr → List Variable
  | var v => [v]
  | list _ es => placedList es
  | binary _ op _ right => if (Compile.guardSign? op).isSome then right.placed else []
  | assign _ op left _ => if op = "=" then left.targetVars else []
  | _ => []

/-- The variables that several expressions declare in place as statements. -/
def placedList : List Expr → List Variable
  | [] => []
  | e :: rest => e.placed ++ placedList rest

end

/-- The variables that the expression declares in place in the header of a loop. -/
def headed : Expr → List Variable
  | assign _ op left _ => if op = "=" then left.targetVars else []
  | list _ es =>
    match es with
    | [x] => x.headed
    | _ => []
  | _ => []

end Expr

namespace Stmt

/-- The variables that the code of the statement declares in place. -/
def placed : Stmt → List Variable
  | .expr _ e => e.placed
  | .steps _ init _ post _ => (init ++ post).flatMap Expr.headed
  | .foreach i var implicit _ _ => [var.getD (implicitVar i implicit)]
  | _ => []

/-- The variables of the statement that are declared neither before its code nor in place: their
value is not used, but they do not stand where a declaration can. -/
def lost (s : Stmt) : List Variable :=
  (s.vars.filter fun p => p.2 && !decide (p.1 ∈ s.placed)).map (·.1)

end Stmt

/-! ## Placed variables are not used as values -/

namespace Expr

/-- The variables among visited expressions whose value is not used. -/
def unused (ps : List (Expr × Usage)) : List Variable :=
  ((varsIn ps).filter (·.2)).map (·.1)

theorem unused_append (ps qs : List (Expr × Usage)) :
    unused (ps ++ qs) = unused ps ++ unused qs := by
  rw [unused, varsIn_append, List.filter_append, List.map_append]
  rfl

theorem unused_var {v : Variable} {u : Usage} (h : u.isVoid = true) :
    unused [(var v, u)] = [v] := by
  rw [unused, varsIn_var, varsIn_nil, h]
  rfl

/-- Variables in order, found element by element in a list. -/
theorem sublist_unused_orderList {f : Expr → List Variable} {usage : Usage} (es : List Expr)
    (h : ∀ e ∈ es, (f e).Sublist (unused (e.order usage))) :
    (es.flatMap f).Sublist (unused (orderList es fun _ => usage)) := by
  induction es with
  | nil => exact .refl _
  | cons e rest ih =>
    rw [List.flatMap_cons, orderList, unused_append]
    exact (h e List.mem_cons_self).append (ih fun x hx => h x (List.mem_cons_of_mem _ hx))

theorem asVar_sublist (e : Expr) {u : Usage} (h : u.isVoid = true) :
    e.asVar.Sublist (unused (e.order u)) := by
  cases e with
  | var v =>
    rw [order, unused_var h]
    exact .refl _
  | _ => exact List.nil_sublist _

theorem targetVars_sublist (left : Expr) {u : Usage} (h : u.isVoid = true) :
    left.targetVars.Sublist (unused (left.order u)) := by
  cases left with
  | list i es =>
    have hvoid : (elementUsage es.length u).isVoid = true := by rw [isVoid_elementUsage, h]
    rw [order, unused_append]
    exact (sublist_unused_orderList es fun e _ => e.asVar_sublist hvoid).trans
      (List.sublist_append_left _ _)
  | var v => exact (var v).asVar_sublist h
  | _ => exact List.nil_sublist _

/-- The targets of a plain assignment whose value is not used are not used as values. -/
theorem assign_sublist (i : Info) {op : String} (left right : Expr) {u : Usage}
    (h : u.isVoid = true) :
    (if op = "=" then left.targetVars else []).Sublist
      (unused ((assign i op left right).order u)) := by
  split
  · next hop =>
    have hvoid : (targetUsage op u).isVoid = true := by
      rw [isVoid_targetUsage, h, hop]
      rfl
    rw [order, unused_append, unused_append]
    exact ((left.targetVars_sublist hvoid).trans (List.sublist_append_left _ _)).trans
      (List.sublist_append_right _ _)
  · exact List.nil_sublist _

theorem headed_sublist : ∀ (e : Expr) {u : Usage}, u.isVoid = true →
    e.headed.Sublist (unused (e.order u))
  | assign i op left right, u, h => assign_sublist i left right h
  | list i [x], u, h => by
    have hvoid : (elementUsage 1 u).isVoid = true := by rw [isVoid_elementUsage, h]
    rw [order, unused_append, orderList, orderList, List.append_nil]
    exact (x.headed_sublist hvoid).trans (List.sublist_append_left _ _)
  | list i [], u, h | list i (_ :: _ :: _), u, h | number _ _, u, h | string _ _ _, u, h
  | undef _, u, h | var _, u, h | index _ _ _ _ _ _, u, h | deref _ _ _, u, h | makeRef _ _, u, h
  | anonArray _ _ _, u, h | anonHash _ _ _, u, h | incDec _ _ _ _, u, h | binary _ _ _ _, u, h
  | unary _ _ _, u, h | ternary _ _ _ _, u, h | call _ _ _ _, u, h => List.nil_sublist _

theorem placedList_eq (es : List Expr) : placedList es = es.flatMap placed := by
  induction es with
  | nil => rfl
  | cons e rest ih => rw [placedList, List.flatMap_cons, ih]

/-- A guard is a logical operator. -/
theorem isLogical_of_guard {op : String} (h : (Compile.guardSign? op).isSome = true) :
    isLogical op = true := by
  unfold Compile.guardSign? at h
  split at h
  · rfl
  · rfl
  · rfl
  · rfl
  · cases h

theorem placed_sublist (e : Expr) {u : Usage} (h : u.isVoid = true) :
    e.placed.Sublist (unused (e.order u)) := by
  -- induction on the parts with their usages: only a part without a use is placed where it stands
  refine e.parts_induction (P := fun e u => u.isVoid = true →
    e.placed.Sublist (unused (e.order u))) (fun e u ih h => ?_) u h
  cases e with
  | var v => exact (var v).asVar_sublist h
  | assign i op left right => exact assign_sublist i left right h
  | list i es =>
    rw [placed, placedList_eq, order, unused_append]
    refine (sublist_unused_orderList es fun e he => ?_).trans (List.sublist_append_left _ _)
    have hvoid : (elementUsage es.length u).isVoid = true := by rw [isVoid_elementUsage, h]
    exact ih (e, elementUsage es.length u) (List.mem_map_of_mem he) hvoid
  | binary i op left right =>
    rw [placed, order, unused_append, unused_append]
    -- the right side of a guard stands alone; that of any other operator is used
    split
    · next hguard =>
      have hvoid : (rightUsage op u).isVoid = true := by
        rw [isVoid_rightUsage, isLogical_of_guard hguard, h]
        rfl
      have hright := ih (right, rightUsage op u) (List.mem_cons_of_mem _ List.mem_cons_self) hvoid
      exact (hright.trans (List.sublist_append_left _ _)).trans (List.sublist_append_right _ _)
    · exact List.nil_sublist _
  | _ => exact List.nil_sublist _

end Expr

namespace Expr

theorem order_of_part {e : Expr} {u : Usage} {p q : Expr × Usage} (hp : p ∈ e.parts u)
    (hq : q ∈ p.1.order p.2) : q ∈ e.order u := by
  rw [Expr.order_eq]
  exact List.mem_append_left _ (List.mem_flatMap.mpr ⟨p, hp, hq⟩)

theorem mem_unused {ps : List (Expr × Usage)} {v : Variable} :
    v ∈ unused ps ↔ ∃ u, (var v, u) ∈ ps ∧ u.isVoid = true := by
  induction ps with
  | nil => simp [unused]
  | cons p rest ih =>
    have hsplit : unused (p :: rest) = unused [p] ++ unused rest := unused_append [p] rest
    rw [hsplit, List.mem_append, ih]
    obtain ⟨e, w⟩ := p
    cases e with
    | var x =>
      have hfirst : v ∈ unused [(var x, w)] ↔ v = x ∧ w.isVoid = true := by
        cases hw : w.isVoid <;> simp [unused, varsIn_var, hw]
      rw [hfirst]
      constructor
      · rintro (⟨rfl, hw⟩ | ⟨u, hu, hvoid⟩)
        · exact ⟨w, List.mem_cons_self, hw⟩
        · exact ⟨u, List.mem_cons_of_mem _ hu, hvoid⟩
      · rintro ⟨u, hu, hvoid⟩
        rcases List.mem_cons.mp hu with heq | hu
        · cases heq
          exact .inl ⟨rfl, hvoid⟩
        · exact .inr ⟨u, hu, hvoid⟩
    | _ => simp [unused, varsIn, marked]

end Expr

/-- The variables that a statement places are among those whose value is not used, each as often. -/
theorem Stmt.placed_sublist (s : Stmt) :
    s.placed.Sublist ((s.vars.filter (·.2)).map (·.1)) := by
  have happend (ps qs : List (Variable × Bool)) : ((ps ++ qs).filter (·.2)).map (·.1) =
      (ps.filter (·.2)).map (·.1) ++ (qs.filter (·.2)).map (·.1) := by
    rw [List.filter_append, List.map_append]
  cases s with
  | expr i e =>
    have hplaced := e.placed_sublist (u := .void) rfl
    rw [vars, outline, Compile.Outline.vars, happend]
    exact hplaced.trans (List.sublist_append_left _ _)
  | steps i init test post b =>
    -- both ends of the header may declare, each in its own part of the walk
    have hheaded (es : List Expr) :=
      Expr.sublist_unused_orderList es fun e _ => e.headed_sublist (u := .void) rfl
    rw [vars, outline, Compile.Outline.vars, Compile.Outline.vars, Compile.Outline.vars,
      Compile.Outline.vars, happend, happend, happend, placed, List.flatMap_append]
    exact (hheaded init).append (((hheaded post).trans (List.sublist_append_left _ _)).trans
      (List.sublist_append_right _ _))
  | foreach i var implicit list b =>
    rw [vars, outline, Compile.Outline.vars, Compile.Outline.vars, Compile.Outline.vars, happend,
      happend]
    exact (List.sublist_append_left _ _).trans (List.sublist_append_right _ _)
  | _ => exact List.nil_sublist _

end TypedPerl
