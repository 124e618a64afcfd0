import TypedPerl.Proofs.Access.Captured
import TypedPerl.Proofs.Conversion.Referents
import TypedPerl.Proofs.Walk.Choices

/-!
# Assignments to lists

A row of values that is assigned to several targets is kept in an auxiliary variable, and each
target is assigned from it by its position: a place that is left undefined counts, and the first
target that takes a list takes the rest. `listAssignment_positional` says this of every assignment
that is walked, and that the code of the row stands in the assignment at one place.
-/

namespace TypedPerl

/-! ## The row as a sequence -/

/-- The type of the auxiliary variable for a source of the type: a map becomes the list of its keys
and values, and a value that is no container becomes an array of one. -/
def Ty.row : Ty → Ty
  | .agg .map e => .listOf e
  | .agg s e => .agg s e
  | t => .arrayOf t

namespace Collection

open Conversion (convert)

/-- An array of one value is written around the code of the value. -/
theorem singleton_linear {o : Operand} (ho : o.isAggregate = false) {elem : Ty}
    (hitem : Linear fun code => convert (o.withCode code) (some elem)) :
    Linear fun code => build [o.withCode code] (some (.agg .array elem)) := by
  -- the array is converted once more if its elements are no values of their own type
  have hbuild (code : String) : build [o.withCode code] (some (.agg .array elem)) =
      convert (o.withCode code) (some elem) >>= fun item =>
        convert (.nonNull (Java.arrayInitializer elem [item]) (some (.arrayOf elem)))
          (some (.agg .array elem)) := by
    rw [build_value (o := o.withCode code) ho (by decide), sequenceRun, List.mapM_cons]
    cases convert (o.withCode code) (some elem) with
    | error f => rfl
    | ok item => rfl
  have harray : Wraps fun item => Java.arrayInitializer elem [item] := by
    simp only [Java.arrayInitializer, Text.join, String.intercalate_singleton]
    exact .behind (.before _ .id) _
  have harrays := Conversion.convert_linear (o := .nonNull "" (some (.arrayOf elem))) rfl rfl
    (some (.agg .array elem))
  simp only [hbuild]
  exact hitem.bind (harrays.comp harray)

end Collection

namespace Compile

open Conversion (convert convertTo)

variable {o : Operand} {t : Ty}

/-- The sequence is written by `f` from the code of the source, whatever that is. -/
theorem sequenceOf_context {f : String → Except Fault String} (hf : Linear f)
    (hsequence : ∀ code, sequenceOf (o.withCode code) = f code >>= fun s => pure (s, some t.row))
    {row : String × Option Ty} (h : sequenceOf o = .ok row) :
    ∃ pre post, ∀ code, sequenceOf (o.withCode code) = .ok (pre ++ code ++ post, some t.row) := by
  rcases hf with ⟨pre, post, hf⟩ | ⟨refusal, hf⟩
  · exact ⟨pre, post, fun code => by rw [hsequence, hf]; rfl⟩
  · have hrefused := hsequence o.code
    rw [hf] at hrefused
    cases h.symm.trans hrefused

/-- A value that is no container is the one element of its sequence. -/
theorem sequenceOf_value (htype : o.type = some t) (ht : t.isAggregate = false) :
    sequenceOf o = Collection.build [o] (some t.arrayOf) >>= fun s => pure (s, some t.row) := by
  unfold sequenceOf
  rw [htype]
  cases t with
  | agg s e => cases ht
  | scalar k => rfl
  | object n => rfl
  | ref e => rfl

/-- The code of a source stands in its sequence at one place. -/
theorem sequenceOf_once (htype : o.type = some t) (hu : o.undef = false)
    (hm : t.isSequence = false → o.multi = false) {row : String × Option Ty}
    (h : sequenceOf o = .ok row) :
    ∃ pre post, ∀ code, sequenceOf (o.withCode code) = .ok (pre ++ code ++ post, some t.row) := by
  have hvalue (ht : t.isAggregate = false) (hnot : t.isSequence = false) :
      ∃ pre post, ∀ code,
        sequenceOf (o.withCode code) = .ok (pre ++ code ++ post, some t.row) := by
    have hnone : o.isAggregate = false := by
      rw [Operand.isAggregate, htype]
      exact ht
    exact sequenceOf_context
      (Collection.singleton_linear hnone (Conversion.ownElement_linear htype ht hu (hm hnot)))
      (fun code => sequenceOf_value (o := o.withCode code) htype ht) h
  -- rows are used as they are, a map is turned into a list, anything else becomes a row of one
  cases t with
  | agg s e =>
    cases s with
    | map =>
      have hlist (code : String) : convert (o.withCode code) (some (.listOf e)) =
          convertTo (.listOf e) (o.withCode code) 0 :=
        convert_container (o := o.withCode code) hu rfl
      have hlinear := Conversion.nonScalar_linear (o := o) htype rfl (.listOf e) 0
      refine sequenceOf_context hlinear (fun code => ?_) h
      rw [← hlist]
      simp only [sequenceOf, Operand.withCode, htype]
      rfl
    | array =>
      refine ⟨"", "", fun code => ?_⟩
      simp [sequenceOf, Operand.withCode, htype, Ty.row]
    | list =>
      refine ⟨"", "", fun code => ?_⟩
      simp [sequenceOf, Operand.withCode, htype, Ty.row]
  | scalar k => exact hvalue rfl rfl
  | object n => exact hvalue rfl rfl
  | ref e => exact hvalue rfl rfl

/-- The undefined value is written as any code of a dynamic value is. -/
theorem sequenceOf_undefined (htype : o.type = some .box) (hu : o.undef = true)
    (hm : o.multi = false) (hcode : o.code = "null") :
    sequenceOf o = sequenceOf { o with undef := false } := by
  have hnone : o.isAggregate = false := by
    rw [Operand.isAggregate, htype]
    rfl
  -- its code is already the text of an undefined value
  have hitem : convert o (some .box) = convert { o with undef := false } (some .box) := by
    simp [convert, hu, hm, hcode, convertTo, Conversion.toScalar, Conversion.toBox, htype,
      Ty.isBoolean, Ty.kind?]
  have hrow : Collection.sequenceRun [o] .box =
      Collection.sequenceRun [{ o with undef := false }] .box := by
    rw [Collection.sequenceRun, Collection.sequenceRun, List.mapM_cons, List.mapM_cons, hitem]
  rw [sequenceOf_value htype rfl, sequenceOf_value (o := { o with undef := false }) htype rfl]
  have hbuild := Collection.build_value hnone (s := .array) (by decide) .box
  have hbuild' := Collection.build_value (o := { o with undef := false }) hnone (s := .array)
    (by decide) .box
  rw [hrow, ← hbuild'] at hbuild
  exact congrArg (· >>= fun s => pure (s, some Ty.box.row)) hbuild

/-! ## Positions -/

/-- What a target receives of the row in the auxiliary variable, which depends on the targets in
front of it: its position is their number. -/
inductive Receives (aux : String) (t : Ty) (before : List Expr) (target : Expr) : Operand → Prop
  /-- The element at the position. -/
  | element : (∀ x ∈ before, x.isListTarget = false) → target.isListTarget = false →
      Receives aux t before target
        (.ofElement (Java.call "Pd" "at" [aux, toString before.length]) (some t.elem))
  /-- The first target that takes a list takes what is left from the position on. -/
  | rest : (∀ x ∈ before, x.isListTarget = false) → target.isListTarget = true →
      Receives aux t before target
        (.nonNull (Java.call "Pd" "rest" [aux, toString before.length]) (some t))
  /-- For a further list nothing is left. -/
  | empty : (∃ x ∈ before, x.isListTarget = true) → target.isListTarget = true →
      Receives aux t before target (.nonNull (Java.emptyOf t) (some t))
  /-- Nor is there a value. -/
  | undefined : (∃ x ∈ before, x.isListTarget = true) → target.isListTarget = false →
      Receives aux t before target { code := "null", type := some .box, undef := true }

/-- The code assigns an operand to a target, as a value of the type of the target. -/
inductive Assigns (nullChecks : Bool) (st : State) (o : Operand) : Expr → String → Prop
  /-- A variable, which is declared in place if it is one of a method and the target declares it. -/
  | variable {v : Variable} {b : Binding} {value : String} : st.binding? v = some b →
      valueFor st none o (some b.type) = .ok value →
      Assigns nullChecks st o (.var v)
        (if st.isLocalDecl v then declaration b value else st.nameOf b ++ " = " ++ value)
  /-- An element or a dereference. -/
  | access {target : Expr} {p : Path} {t : Option Ty} {value code : String} :
      path? st target = some p → p.target = .ok t → valueFor st none o t = .ok value →
      p.write nullChecks value = .ok code → Assigns nullChecks st o target code

/-- What stands in the assignment for a target: a place that is left undefined has no code. -/
inductive Slot (nullChecks : Bool) (st : State) (aux : String) (t : Ty) (before : List Expr)
    (target : Expr) : Option String → Prop
  | skipped : target.isUndef = true → Slot nullChecks st aux t before target none
  | assigned {item : Operand} {code : String} : target.isUndef = false →
      Receives aux t before target item → Assigns nullChecks st item target code →
      Slot nullChecks st aux t before target (some code)

variable {nullChecks : Bool} {st : State} {aux : String}

theorem listItem_receives (before : List Expr) (target : Expr) :
    Receives aux t before target (listItem aux (some t) before.length target
      (before.any Expr.isListTarget)) := by
  unfold listItem
  -- behind a target that takes the rest nothing is left
  cases hbefore : before.any Expr.isListTarget with
  | true =>
    have hlist : ∃ x ∈ before, x.isListTarget = true := List.any_eq_true.mp hbefore
    cases htarget : target.isListTarget with
    | true => exact .empty hlist htarget
    | false => exact .undefined hlist htarget
  | false =>
    have hnone : ∀ x ∈ before, x.isListTarget = false := by
      simpa using List.any_eq_false.mp hbefore
    cases htarget : target.isListTarget with
    | true => exact .rest hnone htarget
    | false => exact .element hnone htarget

theorem bindingOf_inv {v : Variable} {b : Binding} (h : bindingOf st v = .ok b) :
    st.binding? v = some b := by
  unfold bindingOf at h
  split at h
  · next hb => exact hb.trans (congrArg some (Except.ok.inj h))
  · cases h

theorem pathOf_inv {e : Expr} {p : Path} (h : pathOf st e = .ok p) : path? st e = some p := by
  unfold pathOf at h
  split at h
  · next hp => exact hp.trans (congrArg some (Except.ok.inj h))
  · cases h

theorem storePath_assigns {target : Expr} {o : Operand} {row : String × Option Ty}
    (h : storePath nullChecks st target none o = .ok row) :
    Assigns nullChecks st o target row.1 := by
  obtain ⟨p, hp, h⟩ := exists_of_bind_ok h
  obtain ⟨t, ht, h⟩ := exists_of_bind_ok h
  obtain ⟨value, hvalue, h⟩ := exists_of_bind_ok h
  obtain ⟨code, hcode, h⟩ := exists_of_bind_ok h
  cases h
  exact .access (pathOf_inv hp) ht hvalue hcode

theorem store_assigns {target : Expr} {o : Operand} {row : String × Option Ty}
    (h : store nullChecks st target none o true = .ok row) :
    Assigns nullChecks st o target row.1 := by
  unfold store at h
  split at h
  · next v =>
    obtain ⟨b, hb, h⟩ := exists_of_bind_ok h
    obtain ⟨value, hvalue, h⟩ := exists_of_bind_ok h
    have hassigns : Assigns nullChecks st o (.var v)
        (if st.isLocalDecl v then declaration b value else st.nameOf b ++ " = " ++ value) :=
      .variable (bindingOf_inv hb) hvalue
    rw [Bool.true_and] at h
    -- a variable declared here is declared with the value, a known one is assigned
    split at h
    · next hlocal =>
      cases h
      rwa [if_pos hlocal] at hassigns
    · next hlocal =>
      cases h
      rwa [if_neg hlocal] at hassigns
  · exact storePath_assigns h
  · exact storePath_assigns h
  · cases h

/-- The targets are assigned one by one, each with its number: by induction on the targets, whose
state is the list of the targets in front of them. -/
theorem storeItems_slots {targets : List Expr} : ∀ {before : List Expr} {lines : List String},
    storeItems nullChecks st aux (some t) before.length (before.any Expr.isListTarget) targets =
      .ok lines →
    ∃ slots : List (Option String), lines = slots.filterMap id ∧ slots.length = targets.length ∧
      ∀ k target, targets[k]? = some target → ∃ slot, slots[k]? = some slot ∧
        Slot nullChecks st aux t (before ++ targets.take k) target slot := by
  induction targets with
  | nil =>
    intro before lines h
    cases h
    exact ⟨[], rfl, rfl, fun k target hk => by simp at hk⟩
  | cons target rest ih =>
    intro before lines h
    have hlength : before.length + 1 = (before ++ [target]).length := by simp
    -- the slots behind the first one, and the first one itself
    have hcons {slot : Option String} {slots : List (Option String)}
        (hslot : Slot nullChecks st aux t before target slot)
        (hslots : ∀ k target', rest[k]? = some target' → ∃ slot, slots[k]? = some slot ∧
          Slot nullChecks st aux t (before ++ [target] ++ rest.take k) target' slot) :
        ∀ k target', (target :: rest)[k]? = some target' → ∃ slot', (slot :: slots)[k]? = some slot' ∧
          Slot nullChecks st aux t (before ++ (target :: rest).take k) target' slot' := by
      intro k target' hk
      cases k with
      | zero =>
        cases hk
        exact ⟨slot, rfl, by simpa using hslot⟩
      | succ k =>
        obtain ⟨slot', hslot', h⟩ := hslots k target' hk
        exact ⟨slot', hslot', by simpa using h⟩
    rw [storeItems] at h
    split at h
    · next hundef =>
      have hlist : target.isListTarget = false := by
        cases target <;> first | rfl | cases hundef
      have hany : before.any Expr.isListTarget = (before ++ [target]).any Expr.isListTarget := by
        simp [hlist]
      rw [hlength, hany] at h
      obtain ⟨slots, rfl, hcount, hslots⟩ := ih h
      exact ⟨none :: slots, rfl, by simp [hcount], hcons (.skipped hundef) hslots⟩
    · next hundef =>
      obtain ⟨row, hstore, h⟩ := exists_of_bind_ok h
      obtain ⟨more, hmore, h⟩ := exists_of_bind_ok h
      cases h
      have hany : (before.any Expr.isListTarget || target.isListTarget) =
          (before ++ [target]).any Expr.isListTarget := by
        simp
      rw [hlength, hany] at hmore
      obtain ⟨slots, rfl, hcount, hslots⟩ := ih hmore
      refine ⟨some row.1 :: slots, rfl, by simp [hcount], hcons ?_ hslots⟩
      exact .assigned (Bool.eq_false_iff.mpr hundef) (listItem_receives before target)
        (store_assigns hstore)

/-! ## Assignments in the walk -/

variable {targets : List Expr} {right : Expr} {u : Usage} {env : Env} {st' : State} {out : Output}

/-- The assignment of a row to targets by way of an auxiliary variable. -/
theorem assignItems_inv {src : Operand}
    (h : assignItems nullChecks st src targets env st = (.ok out, st')) :
    ∃ seq t lines, sequenceOf src = .ok (seq, t) ∧
      storeItems nullChecks st (st.table.auxiliary "").1 t 0 false targets = .ok lines ∧
      out = { code := Text.join "; "
                ((Java.declType? t ++ " " ++ (st.table.auxiliary "").1 ++ " = " ++ seq) :: lines),
              type := t } := by
  obtain ⟨⟨seq, t⟩, st₁, hrow, h⟩ := run_bind_inv h
  obtain ⟨hseq, rfl⟩ := run_lift_inv hrow
  obtain ⟨aux, st₂, haux, h⟩ := run_bind_inv h
  rw [run_onTable] at haux
  cases haux
  obtain ⟨lines, st₃, hitems, h⟩ := run_bind_inv h
  obtain ⟨hlines, rfl⟩ := run_lift_inv hitems
  cases h
  exact ⟨seq, t, lines, hseq, hlines, rfl⟩

/-- An assignment to several targets, or to one that takes a list, is a statement that keeps the row
in an auxiliary variable. -/
theorem assignList_inv (hseveral : ∀ target, targets = [target] → target.isListTarget = true)
    (h : assignList targets right u env st = (.ok out, st')) :
    u.isVoid = true ∧ ∃ seq t lines,
      sequenceOf (st.operandOf right) = .ok (seq, t) ∧
      storeItems env.nullChecks st (st.table.auxiliary "").1 t 0 false targets = .ok lines ∧
      out = { code := Text.join "; "
                ((Java.declType? t ++ " " ++ (st.table.auxiliary "").1 ++ " = " ++ seq) :: lines),
              type := t } := by
  -- a single target would have to take one element, which is excluded
  have hnone : singleTarget? targets = none := by
    unfold singleTarget?
    split
    · next target => rw [if_pos (hseveral target rfl)]
    · rfl
  rw [assignList_eq, run_read_bind, run_get_bind, hnone] at h
  dsimp only at h
  unfold assignSeveral at h
  split at h
  · next hvoid => exact ⟨hvoid, assignItems_inv h⟩
  · cases h

/-- The source of an assignment, which was generated, is written in its sequence at one place; so is
the undefined value, whose code is null. -/
theorem Generated.sequenceOf_once {S : State} {e : Expr} {void : Bool}
    (h : Generated env S e void) {row : String × Option Ty}
    (hrow : sequenceOf (S.operandOf e) = .ok row) :
    ∃ t pre post, (S.operandOf e).type = some t ∧
      row = (pre ++ (S.operandOf e).code ++ post, some t.row) ∧
      ∀ code, sequenceOf { S.operandOf e with code := code, undef := false } =
        .ok (pre ++ code ++ post, some t.row) := by
  obtain ⟨t, ht⟩ : ∃ t, (S.operandOf e).type = some t := by
    cases htype : (S.operandOf e).type with
    | some t => exact ⟨t, rfl⟩
    | none =>
      rw [sequenceOf, htype] at hrow
      cases hrow
  have hm : t.isSequence = false → (S.operandOf e).multi = false := by
    intro hsequence
    have hmulti : (S.operandOf e).multi =
        (e.isMultiValued && (S.operandOf e).type.any Ty.isSequence) := rfl
    rw [hmulti, ht, Option.any_some, hsequence, Bool.and_false]
  -- an undefined source is read as the constant it generates
  have hlive : sequenceOf { S.operandOf e with undef := false } = .ok row := by
    cases hundef : (S.operandOf e).undef with
    | false =>
      rw [← hrow, ← hundef]
    | true =>
      have hnull : S.output e.id = { code := "null", type := some .box } :=
        h.output_of_undef hundef
      have htype : (S.operandOf e).type = some .box := congrArg Output.type hnull
      obtain rfl : t = .box := Option.some.inj (ht.symm.trans htype)
      rw [← sequenceOf_undefined htype hundef (hm rfl) (congrArg Output.code hnull)]
      exact hrow
  obtain ⟨pre, post, hone⟩ := Compile.sequenceOf_once (o := { S.operandOf e with undef := false })
    ht rfl hm hlive
  refine ⟨t, pre, post, ht, ?_, hone⟩
  exact Except.ok.inj (hlive.symm.trans (hone (S.operandOf e).code))

/-- An assignment to several targets, or to one that takes a list, is generated as the declaration
of a new variable, which holds the source as a sequence, and the assignments to the targets from it,
each by its position. -/
theorem listAssignment_positional {i j : Info}
    (hseveral : ∀ target, targets = [target] → target.isListTarget = true)
    (h : walkExpr (.assign i "=" (.list j targets) right) u env st = (.ok (), st')) :
    u.isVoid = true ∧ ∃ (st₁ : State) (t : Ty) (pre post : String) (slots : List (Option String)),
      walkParts ((Expr.assign i "=" (.list j targets) right).parts u) env st = (.ok (), st₁) ∧
      (st₁.operandOf right).type = some t ∧
      (∀ code, sequenceOf { st₁.operandOf right with code := code, undef := false } =
        .ok (pre ++ code ++ post, some t.row)) ∧
      (∀ issued, st₁.table.Ledger issued →
        ∀ x ∈ issued, x.javaName ≠ (st₁.table.auxiliary "").1) ∧
      slots.length = targets.length ∧
      (∀ k target, targets[k]? = some target → ∃ slot, slots[k]? = some slot ∧
        Slot env.nullChecks st₁ (st₁.table.auxiliary "").1 t.row (targets.take k) target slot) ∧
      st'.output i.id =
        { code := Text.join "; "
            ((Java.declType t.row ++ " " ++ (st₁.table.auxiliary "").1 ++ " = " ++
              (pre ++ (st₁.operandOf right).code ++ post)) :: slots.filterMap id),
          type := some t.row } := by
  rw [walkExpr_eq] at h
  obtain ⟨_, st₁, hparts, hfinish⟩ := run_bind_inv h
  obtain ⟨st₂, st₃, hresolve, hout, -⟩ := finishExpr_inv hfinish
  obtain rfl : st₁ = st₂ := congrArg Prod.snd hresolve
  have hassign : assignList targets right u env st₁ = (.ok (st'.output i.id), st₃) := hout
  obtain ⟨hvoid, seq, rowType, lines, hrow, hlines, hcode⟩ := assignList_inv hseveral hassign
  have hright := walkParts_each hparts (right, sourceUsage (.list j targets)) List.mem_cons_self
  obtain ⟨t, pre, post, htype, hseq, hone⟩ := hright.sequenceOf_once hrow
  cases hseq
  -- nothing stands in front of the first target
  have hfront : storeItems env.nullChecks st₁ (st₁.table.auxiliary "").1 (some t.row)
      ([] : List Expr).length (([] : List Expr).any Expr.isListTarget) targets = .ok lines := hlines
  obtain ⟨slots, rfl, hlength, hslots⟩ := storeItems_slots hfront
  refine ⟨hvoid, st₁, t, pre, post, slots, hparts, htype, hone, ?_, hlength, hslots, hcode⟩
  exact fun issued hledger => hledger.auxiliary_new rfl

/-- A variable that a target declares. -/
def declaredTarget (id : Nat) (name : String) (sigil : Sigil) (t : Ty) : Expr :=
  .var { info := ⟨id, default⟩, name := name, sigil := sigil, decl := .my, type := some t }

/-- The targets `my ($x, undef, @r, $z)`. -/
def splitTargets : List Expr :=
  [declaredTarget 9 "x" .scalar .integer, .undef ⟨10, default⟩,
    declaredTarget 11 "r" .array (.agg .list .integer), declaredTarget 12 "z" .scalar .integer]

/-- The third target takes the list from its position on, and nothing is left for the fourth. -/
theorem splitList_positional :
    (∀ target, splitTargets = [target] → target.isListTarget = true) ∧
    ∃ st', walkExpr (.assign ⟨7, default⟩ "=" (.list ⟨8, default⟩ splitTargets)
        (listVariable 13 "b")) .void {} declaredState = (.ok (), st') ∧
      (st'.output 7).code =
        "PerlList<Integer> pd_1 = b; x = Pd.at(pd_1, 0); r = Pd.rest(pd_1, 2); z = null" ∧
      ∃ (st₁ : State) (t : Ty) (slots : List (Option String)), slots.length = 4 ∧
        ∀ k target, splitTargets[k]? = some target → ∃ slot, slots[k]? = some slot ∧
          Slot false st₁ (st₁.table.auxiliary "").1 t.row (splitTargets.take k) target slot := by
  have hseveral : ∀ target, splitTargets = [target] → target.isListTarget = true := nofun
  have hok : (walkExpr (.assign ⟨7, default⟩ "=" (.list ⟨8, default⟩ splitTargets)
      (listVariable 13 "b")) .void {} declaredState).1.isOk = true := by
    decide +kernel
  -- the slots are given by the general theorem; only the code is computed
  obtain ⟨-, st₁, t, pre, post, slots, -, -, -, -, hlength, hslots, -⟩ :=
    listAssignment_positional hseveral (run_eq_ok hok)
  exact ⟨hseveral, _, run_eq_ok hok, by decide +kernel, st₁, t, slots, hlength, hslots⟩

end Compile

end TypedPerl
