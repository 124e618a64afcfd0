import TypedPerl.Proofs.Walk.Blocks

/-!
# Faults that are raised

Which faults the computations of a unit can fail with. `Raises P x` says that every fault of `x` is
of the class `P`. Three classes are used, each wider than the one before:

- a refused conversion (`Fault.IsRefusal`), which is all that conversions fail with;
- a fault that holds no diagnostic (`Fault.Bare`), which is all that generated code fails with;
- a fault whose diagnostic, if it holds one, has a code of the walk (`Fault.Walkable`), which is
  all that resolving names fails with.
-/

namespace TypedPerl

/-! ## Classes of faults -/

/-- The codes of the diagnostics that the walk over a unit records. -/
def Code.ofWalk : List Code :=
  [.incompatible, .undeclared, .untyped, .unknownPackage, .ourOutside, .unknownSub, .unsupported]

/-- The texts of the codes of the walk. -/
theorem Code.toText_ofWalk :
    Code.ofWalk.map Code.toText = ["T001", "S001", "S002", "S003", "S004", "S005", "G001"] := rfl

namespace Fault

/-- The fault refuses the conversion of one type into another. -/
def IsRefusal (f : Fault) : Prop := ∃ src dest, f = .incompatible src dest

/-- The fault holds no diagnostic. -/
def Bare (f : Fault) : Prop := f.report? = none

/-- A diagnostic in the fault, if there is one, has a code of the walk. -/
def Walkable (f : Fault) : Prop :=
  ∀ r cause, f.report? = some (r, cause) → r.code ∈ Code.ofWalk

theorem isRefusal_incompatible (src dest : Option Ty) : (incompatible src dest).IsRefusal :=
  ⟨src, dest, rfl⟩

theorem IsRefusal.bare {f : Fault} (h : f.IsRefusal) : f.Bare := by
  obtain ⟨src, dest, rfl⟩ := h
  rfl

theorem bare_unsupported (what : String) : (unsupported what).Bare := rfl

theorem bare_incompatible (src dest : Option Ty) : (incompatible src dest).Bare := rfl

theorem Bare.walkable {f : Fault} (h : f.Bare) : f.Walkable := by
  intro r cause hr
  rw [h] at hr
  cases hr

theorem walkable_report {r : Report} {cause : Option Fault} (h : r.code ∈ Code.ofWalk) :
    (report r cause).Walkable := by
  intro r' cause' hr
  cases hr
  exact h

/-- Locating a fault of the walk at a code of the walk gives a diagnostic with such a code. -/
theorem Walkable.locate {f : Fault} (h : f.Walkable) {code : Code} (hc : code ∈ Code.ofWalk)
    (pos : Pos) : ∃ r cause, f.locate code pos = .report r cause ∧ r.code ∈ Code.ofWalk := by
  unfold Fault.locate
  split
  · rename_i r cause hr
    refine ⟨_, cause, rfl, ?_⟩
    have hcode := h r cause hr
    split
    · exact hcode
    · exact hcode
  · exact ⟨_, _, rfl, hc⟩

/-- The diagnostic of a fault of the walk has a code of the walk. -/
theorem Walkable.diagnose {f : Fault} (h : f.Walkable) (pos : Pos) :
    ∃ r cause, f.diagnose pos = .report r cause ∧ r.code ∈ Code.ofWalk := by
  apply h.locate
  split <;> decide

end Fault

/-- A computation that succeeds went through a first step that did. -/
theorem exists_of_bind_ok {α β : Type} {x : Except Fault α} {k : α → Except Fault β} {b : β}
    (h : x >>= k = .ok b) : ∃ a, x = .ok a ∧ k a = .ok b := by
  cases x with
  | error f => cases h
  | ok a => exact ⟨a, rfl, h⟩

/-! ## Raising -/

/-- Every fault that a computation fails with is of the class `P`. -/
def Raises (P : Fault → Prop) {α : Type} (x : Except Fault α) : Prop :=
  ∀ f, x = .error f → P f

namespace Raises

variable {α β : Type} {P Q : Fault → Prop}

theorem ok (a : α) : Raises P (.ok a) := by
  intro f h
  cases h

theorem pure (a : α) : Raises P (Pure.pure a) := ok a

theorem error {f : Fault} (h : P f) : Raises P (.error f : Except Fault α) := by
  intro g hg
  cases hg
  exact h

theorem throw {f : Fault} (h : P f) : Raises P (MonadExcept.throw f : Except Fault α) :=
  error h

theorem mono {x : Except Fault α} (h : Raises P x) (hPQ : ∀ f, P f → Q f) : Raises Q x :=
  fun f hf => hPQ f (h f hf)

theorem bind {x : Except Fault α} {k : α → Except Fault β} (hx : Raises P x)
    (hk : ∀ a, Raises P (k a)) : Raises P (x >>= k) := by
  cases x with
  | error f => exact error (hx f rfl)
  | ok a => exact hk a

theorem mapM {k : α → Except Fault β} (hk : ∀ a, Raises P (k a)) (xs : List α) :
    Raises P (xs.mapM k) := by
  induction xs with
  | nil => exact pure []
  | cons x xs ih =>
    rw [List.mapM_cons]
    exact bind (hk x) fun _ => bind ih fun _ => pure _

theorem foldlM {k : β → α → Except Fault β} (hk : ∀ b a, Raises P (k b a)) (xs : List α) :
    ∀ b, Raises P (xs.foldlM k b) := by
  induction xs with
  | nil => exact pure
  | cons x xs ih =>
    intro b
    rw [List.foldlM_cons]
    exact bind (hk b x) ih

end Raises

/-! ## Conversions -/

namespace Conversion

open Fault (IsRefusal isRefusal_incompatible)

theorem toScalar_raises (o : Operand) (k : Kind) : Raises IsRefusal (toScalar o k) := by
  cases k with
  | number =>
    simp only [toScalar, toNumber]
    split
    · exact .error (isRefusal_incompatible _ _)
    · exact .ok _
    · exact .ok _
    · exact .ok _
    · split <;> exact .ok _
  | file =>
    simp only [toScalar, toFile]
    split
    · exact .ok _
    · exact .ok _
    · exact .error (isRefusal_incompatible _ _)
  | _ => exact .ok _

theorem mapLoop_raises {conv : Operand → Except Fault String}
    (hconv : ∀ o, Raises IsRefusal (conv o)) (n : LoopNames) (elem : Ty) (dest : Shape) :
    Raises IsRefusal (mapLoop conv n elem dest) := by
  refine .bind (hconv _) fun v => ?_
  cases dest with
  | map => exact .pure _
  | array => exact .bind (hconv _) fun k => .pure _
  | list => exact .bind (hconv _) fun k => .pure _

theorem sequenceLoop_raises {conv : Operand → Except Fault String}
    (hconv : ∀ o, Raises IsRefusal (conv o)) (n : LoopNames) (src : Shape) (elem : Ty)
    (dest : Shape) : Raises IsRefusal (sequenceLoop conv n src elem dest) := by
  cases dest <;> exact .bind (hconv _) fun v => .pure _

theorem aggregateTo_raises {conv : Operand → Except Fault String}
    (hconv : ∀ o, Raises IsRefusal (conv o)) (code : String) (depth : Nat) (s : Shape) (selem : Ty)
    (d : Shape) (delem : Ty) : Raises IsRefusal (aggregateTo conv code depth s selem d delem) := by
  -- only a loop over the elements converts, and it converts each with `conv`
  have hloop : Raises IsRefusal (elementwise conv code depth s selem d delem) := by
    unfold elementwise
    dsimp only
    split
    · exact .bind (mapLoop_raises hconv _ _ _) fun loop => .pure _
    · exact .bind (sequenceLoop_raises hconv _ _ _ _) fun loop => .pure _
  unfold aggregateTo
  dsimp only
  split
  · exact .ok _
  · split
    · split <;> exact .ok _
    · split
      · exact .ok _
      · exact hloop

/-- A conversion of one value fails only by refusing its types. -/
theorem convertTo_raises (dest : Ty) : ∀ (o : Operand) (depth : Nat),
    Raises IsRefusal (convertTo dest o depth) := by
  induction dest with
  | scalar k =>
    intro o depth
    exact toScalar_raises o k
  | object n =>
    intro o depth
    simp only [convertTo]
    split
    · exact .ok _
    · exact .error (isRefusal_incompatible _ _)
  | ref d ih =>
    intro o depth
    simp only [convertTo]
    split
    · split
      · exact .ok _
      · -- the refusal of what is referred to becomes one of the reference
        split
        · exact .ok _
        · exact .error (isRefusal_incompatible _ _)
    · exact .ok _
    · exact .error (isRefusal_incompatible _ _)
  | agg s d ih =>
    intro o depth
    simp only [convertTo]
    split
    · exact .ok _
    · rename_i f hf
      split
      · exact .error (isRefusal_incompatible _ _)
      · -- the fault is the one of the container that the references lead to
        refine .error ?_
        revert hf
        split
        · intro hf
          cases hf
        · intro hf
          exact aggregateTo_raises (fun x => ih x _) _ _ _ _ _ _ f hf
        · intro hf
          cases hf
          exact isRefusal_incompatible _ _

/-- A conversion fails only by refusing its types. -/
theorem convert_raises (o : Operand) (dest : Option Ty) : Raises IsRefusal (convert o dest) := by
  unfold convert
  generalize (if o.multi && !dest.any Ty.isAggregate then o.reduce else o) = one
  dsimp only
  split
  · exact .ok _
  · split
    · exact convertTo_raises _ _ _
    · exact .error (isRefusal_incompatible _ _)

theorem convertNonNull_raises (nullChecks : Bool) (o : Operand) (dest : Option Ty) :
    Raises IsRefusal (convertNonNull nullChecks o dest) := by
  unfold convertNonNull
  split
  · exact .ok _
  · refine .bind (convert_raises o dest) fun code => ?_
    split <;> exact .pure _

end Conversion

/-! ## Containers and accesses -/

namespace Collection

open Fault (IsRefusal isRefusal_incompatible)
open Conversion (convert_raises)

theorem runChunk_raises (s : Shape) (elem : Ty) (run : List Operand) :
    Raises IsRefusal (runChunk s elem run) := by
  unfold runChunk
  split
  · exact .ok _
  · split
    · refine .bind ?_ fun c => .pure _
      unfold mapRun
      dsimp only
      split
      · exact .pure _
      · refine .bind (.mapM (fun p => ?_) _) fun entries => .pure _
        exact .bind (convert_raises _ _) fun k => .bind (convert_raises _ _) fun v => .pure _
    · refine .bind ?_ fun c => .pure _
      exact .bind (.mapM (fun o => convert_raises _ _) _) fun items => .pure _

theorem splice_raises (o : Operand) (t : Ty) (s : Shape) (elem : Ty) :
    Raises IsRefusal (splice o t s elem) := by
  -- a row that cannot be spliced piece by piece is converted as a whole
  have hwhole : Raises IsRefusal (do
      let code ← Conversion.convert o (some (.agg s elem))
      Pure.pure (⟨code, .agg s elem⟩ : Chunk)) :=
    .bind (convert_raises _ _) fun code => .pure _
  unfold splice
  dsimp only
  split
  · split
    · exact .ok _
    · exact hwhole
  · split
    · exact .ok _
    · exact hwhole

theorem chunks_raises (s : Shape) (elem : Ty) (elems : List Operand) : ∀ run : List Operand,
    Raises IsRefusal (chunks s elem run elems) := by
  induction elems with
  | nil =>
    intro run
    exact runChunk_raises s elem run
  | cons o rest ih =>
    intro run
    unfold chunks
    -- a row of values ends the run of single values in front of it
    split
    · exact .bind (runChunk_raises _ _ _) fun before => .bind (splice_raises _ _ _ _) fun c =>
        .bind (ih []) fun after => .pure _
    · exact ih _

theorem buildFrom_raises (elems : List Operand) (s : Shape) (elem : Ty) :
    Raises IsRefusal (buildFrom elems s elem) := by
  refine .bind (chunks_raises _ _ _ _) fun cs => ?_
  unfold joinChunks
  split
  · exact convert_raises _ _
  · exact .ok _

/-- Building a container fails only by refusing types. -/
theorem build_raises (elems : List Operand) (dest : Option Ty) :
    Raises IsRefusal (build elems dest) := by
  unfold build
  split
  · split
    · exact .ok _
    · split
      · exact .bind (buildFrom_raises _ _ _) fun code => convert_raises _ _
      · exact buildFrom_raises _ _ _
  · exact .error (isRefusal_incompatible _ _)

end Collection

namespace Path

open Fault (Bare IsRefusal isRefusal_incompatible bare_unsupported)
open Conversion (convert_raises convertNonNull_raises)

theorem container_raises (p : Path) : Raises IsRefusal p.container := by
  refine .bind ?_ fun cont => ?_
  · unfold reached
    split
    · exact .ok _
    · split
      · exact .ok _
      · exact .ok _
      · exact .error (isRefusal_incompatible _ _)
  · split
    · split
      · exact .pure _
      · exact .throw (isRefusal_incompatible _ _)
    · split
      · exact .pure _
      · exact .throw (isRefusal_incompatible _ _)

theorem key_raises (nullChecks : Bool) (p : Path) (cont : Option Ty) :
    Raises IsRefusal (p.key nullChecks cont) := by
  unfold key
  dsimp only
  split
  · exact .bind (convert_raises _ _) fun code => .pure _
  · exact .bind (convertNonNull_raises _ _ _) fun code => .pure _

theorem keyArray_raises (p : Path) (cont : Option Ty) : Raises IsRefusal (p.keyArray cont) :=
  Collection.build_raises _ _

private theorem container_bare (p : Path) : Raises Bare p.container :=
  p.container_raises.mono fun _ => Fault.IsRefusal.bare

private theorem key_bare (nullChecks : Bool) (p : Path) (cont : Option Ty) :
    Raises Bare (p.key nullChecks cont) :=
  (p.key_raises nullChecks cont).mono fun _ => Fault.IsRefusal.bare

private theorem keyArray_bare (p : Path) (cont : Option Ty) : Raises Bare (p.keyArray cont) :=
  (p.keyArray_raises cont).mono fun _ => Fault.IsRefusal.bare

theorem target_raises (p : Path) : Raises Bare p.target := by
  refine .bind p.container_bare fun cont => ?_
  split
  · exact .pure _
  · split
    · exact .pure _
    · split
      · exact .pure _
      · exact .throw (bare_unsupported _)

theorem read_raises (nullChecks : Bool) (p : Path) : Raises Bare (p.read nullChecks) := by
  refine .bind p.container_bare fun cont => ?_
  split
  · exact .pure _
  · split
    · exact .bind (p.key_bare nullChecks _) fun k => .pure _
    · refine .bind (p.keyArray_bare _) fun ks => ?_
      split
      · exact .pure _
      · exact .pure _
      · exact .pure _

theorem write_raises (nullChecks : Bool) (p : Path) (value : String) :
    Raises Bare (p.write nullChecks value) := by
  unfold write
  split
  · split
    · exact .ok _
    · exact .error (bare_unsupported _)
  · refine .bind p.container_bare fun cont => ?_
    split
    · exact .bind (p.key_bare nullChecks _) fun k => .pure _
    · refine .bind (p.keyArray_bare _) fun ks => ?_
      split
      · exact .pure _
      · exact .pure _
      · exact .throw (bare_unsupported _)

theorem readWrite_raises (nullChecks : Bool) (p : Path) (acc : AccessState) :
    Raises Bare (p.readWrite nullChecks acc) := by
  unfold readWrite
  split
  · split
    · exact .error (bare_unsupported _)
    · exact .ok _
  · split
    · exact .error (bare_unsupported _)
    · exact .bind p.container_bare fun cont => .bind (p.key_bare nullChecks _) fun k => .pure _

theorem delete_raises (nullChecks : Bool) (p : Path) : Raises Bare (p.delete nullChecks) := by
  unfold delete
  split
  · exact .error (bare_unsupported _)
  · refine .bind p.container_bare fun cont => ?_
    split
    · exact .bind (p.key_bare nullChecks _) fun k => .pure _
    · refine .bind (p.keyArray_bare _) fun ks => ?_
      split
      · exact .pure _
      · split
        · exact .pure _
        · exact .bind ((convertNonNull_raises _ _ _).mono fun _ => Fault.IsRefusal.bare)
            fun last => .pure _

theorem isPresent_raises (nullChecks : Bool) (p : Path) :
    Raises Bare (p.isPresent nullChecks) := by
  unfold isPresent
  split
  · exact .error (bare_unsupported _)
  · refine .bind p.container_bare fun cont => .bind (p.key_bare nullChecks _) fun r => ?_
    obtain ⟨k, t⟩ := r
    dsimp only
    split
    · exact .pure _
    · exact .pure _

end Path

/-! ## Generated code -/

namespace Compile

open Fault (Bare bare_unsupported bare_incompatible)

theorem convert_bare (o : Operand) (dest : Option Ty) :
    Raises Bare (Conversion.convert o dest) :=
  (Conversion.convert_raises o dest).mono fun _ => Fault.IsRefusal.bare

theorem convertNonNull_bare (nullChecks : Bool) (o : Operand) (dest : Option Ty) :
    Raises Bare (Conversion.convertNonNull nullChecks o dest) :=
  (Conversion.convertNonNull_raises nullChecks o dest).mono fun _ => Fault.IsRefusal.bare

theorem build_bare (elems : List Operand) (dest : Option Ty) :
    Raises Bare (Collection.build elems dest) :=
  (Collection.build_raises elems dest).mono fun _ => Fault.IsRefusal.bare

theorem numberOutput_raises (text : String) : Raises Bare (numberOutput text) := by
  unfold numberOutput
  split
  · exact .ok _
  · exact .error (bare_unsupported _)

theorem stringOperand_raises (o : Operand) : Raises Bare (stringOperand o) := by
  unfold stringOperand
  split
  · exact .ok _
  · split
    · exact .ok _
    · exact convert_bare _ _

theorem stringPieces_raises (pieces : List (Option String)) : ∀ ops : List Operand,
    Raises Bare (stringPieces pieces ops) := by
  induction pieces with
  | nil =>
    intro ops
    exact .ok _
  | cons p ps ih =>
    intro ops
    cases p with
    | some t => exact .bind (ih ops) fun rest => .pure _
    | none =>
      cases ops with
      | nil => exact ih []
      | cons o ops =>
        refine .bind ?_ fun c => .bind (ih ops) fun rest => .pure _
        unfold stringPiece
        split
        · exact .ok _
        · exact stringOperand_raises o

theorem stringOutput_raises (pieces : List (Option String)) (ops : List Operand) :
    Raises Bare (stringOutput pieces ops) := by
  unfold stringOutput
  dsimp only
  split
  · exact .pure _
  · refine .bind (stringPieces_raises _ _) fun cs => ?_
    split
    · exact .pure _
    · exact .pure _

theorem newContainer_raises (ops : List Operand) (t : Ty) : Raises Bare (newContainer ops t) :=
  .bind (build_bare _ _) fun _ => .pure _

theorem anonArrayOutput_raises (ops : List Operand) (type : Option Ty) :
    Raises Bare (anonArrayOutput ops type) := by
  unfold anonArrayOutput
  split
  · exact newContainer_raises _ _
  · exact newContainer_raises _ _

theorem anonHashOutput_raises (ops : List Operand) (type : Option Ty) :
    Raises Bare (anonHashOutput ops type) := by
  unfold anonHashOutput
  split
  · exact newContainer_raises _ _
  · exact newContainer_raises _ _

theorem listOutput_raises (ops : List Operand) (u : Usage) : Raises Bare (listOutput ops u) := by
  unfold listOutput
  split
  · exact .ok _
  · exact .bind (build_bare _ _) fun code => .pure _

theorem ternaryOutput_raises (nullChecks : Bool) (cond a b : Operand) :
    Raises Bare (ternaryOutput nullChecks cond a b) :=
  .bind (convertNonNull_bare _ _ _) fun _ => .bind (convert_bare _ _) fun _ =>
    .bind (convert_bare _ _) fun _ => .pure _

theorem unaryOutput_raises (nullChecks : Bool) (op : String) (o : Operand) (out : Output) :
    Raises Bare (unaryOutput nullChecks op o out) := by
  have hsigned (sign : String) (t : Ty) : Raises Bare (signed nullChecks sign o t) :=
    .bind (convertNonNull_bare _ _ _) fun c => .pure _
  unfold unaryOutput
  split
  · exact hsigned _ _
  · exact hsigned _ _
  · exact hsigned _ _
  · exact .ok _
  · exact hsigned _ _
  · exact .error (bare_unsupported _)

theorem binaryOp_raises (nullChecks : Bool) (op : String) (l r : Operand) :
    Raises Bare (binaryOp nullChecks op l r) := by
  have hboth (t : Ty) : Raises Bare (both nullChecks l r t) :=
    .bind (convertNonNull_bare _ _ _) fun lc => .bind (convertNonNull_bare _ _ _) fun rc => .pure _
  have hstrings : Raises Bare (bothStrings l r) :=
    .bind (stringOperand_raises _) fun lc => .bind (stringOperand_raises _) fun rc => .pure _
  have hinfix (op : String) (t result : Ty) : Raises Bare (infixOp nullChecks op l r t result) :=
    .bind (hboth t) fun _ => .pure _
  have hcompare (op : String) : Raises Bare (compareNumbers nullChecks op l r) :=
    .bind (hboth _) fun _ => .pure _
  have horder (sign : String) : Raises Bare (compareStrings sign l r) :=
    .bind hstrings fun _ => .pure _
  -- the cases are the operators in the order in which `binaryOp` lists them
  fun_cases binaryOp nullChecks op l r with
  | case1 | case2 | case3 | case4 | case5 | case6 | case7 | case8 | case9 | case10 | case19
  | case20 | case21 | case22 | case23 => exact hinfix _ _ _
  | case12 | case13 | case14 | case15 | case16 | case17 => exact hcompare _
  | case29 | case30 | case31 | case32 => exact horder _
  | case11 | case18 | case33 => exact .bind (hboth _) fun _ => .pure _
  | case24 | case26 | case27 | case28 => exact .bind hstrings fun _ => .pure _
  | case25 =>
    exact .bind (stringOperand_raises _) fun lc => .bind (convertNonNull_bare _ _ _) fun rc =>
      .pure _
  | case34 => exact .error (bare_unsupported _)

theorem logicalTest_raises (op : String) (l : Operand) (t : Option Ty) (repeatable : Bool)
    (first : String) : Raises Bare (logicalTest op l t repeatable first) := by
  unfold logicalTest
  split
  · exact .ok _
  · exact convert_bare _ _

theorem bindingOf_raises (st : State) (v : Variable) : Raises Bare (bindingOf st v) := by
  unfold bindingOf
  split
  · exact .ok _
  · exact .error (bare_unsupported _)

theorem pathOf_raises (st : State) (e : Expr) : Raises Bare (pathOf st e) := by
  unfold pathOf
  split
  · exact .ok _
  · exact .error (bare_unsupported _)

theorem valueFor_raises (st : State) (right : Option Expr) (o : Operand) (t : Option Ty) :
    Raises Bare (valueFor st right o t) := by
  unfold valueFor
  split
  · exact convert_bare _ _
  · split
    · exact build_bare _ _
    · split
      · exact convert_bare _ _
      · exact build_bare _ _

theorem storePath_raises (nullChecks : Bool) (st : State) (target : Expr) (right : Option Expr)
    (o : Operand) : Raises Bare (storePath nullChecks st target right o) :=
  .bind (pathOf_raises _ _) fun p => .bind p.target_raises fun _ =>
    .bind (valueFor_raises _ _ _ _) fun _ => .bind (p.write_raises _ _) fun _ => .pure _

theorem store_raises (nullChecks : Bool) (st : State) (target : Expr) (right : Option Expr)
    (o : Operand) (statement : Bool) :
    Raises Bare (store nullChecks st target right o statement) := by
  unfold store
  split
  · refine .bind (bindingOf_raises _ _) fun b => .bind (valueFor_raises _ _ _ _) fun value => ?_
    split
    · exact .pure _
    · exact .pure _
  · exact storePath_raises _ _ _ _ _
  · exact storePath_raises _ _ _ _ _
  · exact .error (bare_unsupported _)

theorem sequenceOf_raises (src : Operand) : Raises Bare (sequenceOf src) := by
  unfold sequenceOf
  split
  · exact .bind (convert_bare _ _) fun code => .pure _
  · exact .ok _
  · exact .bind (build_bare _ _) fun code => .pure _

theorem storeItems_raises (nullChecks : Bool) (st : State) (aux : String) (t : Option Ty)
    (targets : List Expr) : ∀ (i : Nat) (consumed : Bool),
      Raises Bare (storeItems nullChecks st aux t i consumed targets) := by
  induction targets with
  | nil =>
    intro i consumed
    exact .ok _
  | cons target rest ih =>
    intro i consumed
    unfold storeItems
    split
    · exact ih _ _
    · exact .bind (store_raises _ _ _ _ _ _) fun _ => .bind (ih _ _) fun lines => .pure _

theorem beforeStep_raises (nullChecks : Bool) (op stored : String) (t : Option Ty) (k : Kind) :
    Raises Bare (beforeStep nullChecks op stored t k) := by
  unfold beforeStep
  dsimp only
  split
  · exact .pure _
  · exact .bind (convertNonNull_bare _ _ _) fun c => .pure _

theorem grow_raises (st : State) (name : String) (target : Expr) (added : List Operand)
    (u : Usage) : Raises Bare (grow st name target added u) := by
  unfold grow
  dsimp only
  split
  · exact .error (bare_incompatible _ _)
  · refine .bind (build_bare _ _) fun values => ?_
    split
    · exact .pure _
    · split
      · split
        · split
          · exact .pure _
          · exact .pure _
        · exact .throw (bare_unsupported _)
      · exact .throw (bare_unsupported _)

theorem shrink_raises (st : State) (name : String) (args : List Operand) :
    Raises Bare (shrink st name args) := by
  refine .bind ?_ fun o => ?_
  · -- without an argument it is the innermost subroutine that gives the container
    unfold shrinkTarget
    split
    · exact .ok _
    · exact .ok _
    · exact .error (bare_unsupported _)
  · split
    · exact .pure _
    · exact .throw (bare_unsupported _)

theorem sizeOperand_raises (o : Operand) : Raises Bare (sizeOperand o) :=
  .bind (convert_bare _ _) fun _ => .pure _

theorem scalarOperand_raises (o : Operand) : Raises Bare (scalarOperand o) := by
  unfold scalarOperand
  split
  · exact .ok _
  · split
    · exact sizeOperand_raises o
    · exact .ok _

theorem mapPart_raises (name : String) (o : Operand) (u : Usage) :
    Raises Bare (mapPart name o u) := by
  unfold mapPart
  split
  · split
    · exact sizeOperand_raises o
    · split
      · exact .ok _
      · exact .ok _
  · exact .error (bare_incompatible _ _)

theorem builtinOn_raises (nullChecks : Bool) (st : State) (name : String) (first : Expr)
    (rest : List Expr) (u : Usage) :
    Raises Bare (builtinOn nullChecks st name first rest u) := by
  unfold builtinOn
  dsimp only
  split
  -- texts
  · exact .bind (stringOperand_raises _) fun sep => .bind (build_bare _ _) fun list => .pure _
  · exact .bind (stringOperand_raises _) fun s => .pure _
  -- single values
  · exact .pure _
  · exact .bind (scalarOperand_raises _) fun o => .pure _
  -- entries, which have to be accesses
  · split
    · exact .pure _
    · exact .throw (bare_unsupported _)
  · split
    · exact .bind (Path.isPresent_raises _ _) fun o => .pure _
    · exact .throw (bare_unsupported _)
  -- containers
  · exact .bind (mapPart_raises _ _ _) fun o => .pure _
  · exact .bind (mapPart_raises _ _ _) fun o => .pure _
  · exact .bind (grow_raises _ _ _ _ _) fun o => .pure _
  · exact .bind (grow_raises _ _ _ _ _) fun o => .pure _
  · exact .throw (bare_unsupported _)

theorem printOutput_raises (st : State) (name : String) (args : List Expr) :
    Raises Bare (printOutput st name args) :=
  .bind (build_bare _ _) fun _ => .pure _

theorem builtin_raises (nullChecks : Bool) (st : State) (name : String) (args : List Expr)
    (u : Usage) : Raises Bare (builtin nullChecks st name args u) := by
  unfold builtin
  split
  · exact printOutput_raises st "print" args
  · exact printOutput_raises st "say" args
  · exact printOutput_raises st "die" args
  · exact printOutput_raises st "warn" args
  · exact .bind (shrink_raises _ _ _) fun o => .pure _
  · exact .bind (shrink_raises _ _ _) fun o => .pure _
  · split
    · dsimp only
      split
      · exact .throw (bare_unsupported _)
      · exact builtinOn_raises _ _ _ _ _ _
    · dsimp only
      split
      · exact .throw (bare_unsupported _)
      · exact .throw (bare_unsupported _)

mutual

/-- The statement that an expression is fails only with bare faults. -/
theorem exprStatement_raises (env : Env) (st : State) :
    ∀ e : Expr, Raises Bare (exprStatement env st e)
  | .var v => by
    unfold exprStatement
    split
    · split
      · exact .ok _
      · split
        · exact .ok _
        · exact .ok _
    · split
      · exact .ok _
      · exact .ok _
  | .list _ es => by
    unfold exprStatement
    exact .bind (exprStatements_raises env st es) fun lines => .pure _
  | .binary _ op left right => by
    unfold exprStatement
    dsimp only
    split
    · exact .pure _
    · refine .bind (exprStatement_raises env st right) fun body => ?_
      split
      · exact .pure _
      · exact .bind (convertNonNull_bare _ _ _) fun cond => .pure _
  | .number _ _ | .string _ _ _ | .undef _ | .index _ _ _ _ _ _ | .deref _ _ _ | .makeRef _ _
  | .anonArray _ _ _ | .anonHash _ _ _ | .assign _ _ _ _ | .incDec _ _ _ _ | .unary _ _ _
  | .ternary _ _ _ _ | .call _ _ _ _ => .ok _

theorem exprStatements_raises (env : Env) (st : State) :
    ∀ es : List Expr, Raises Bare (exprStatements env st es)
  | [] => .ok _
  | e :: rest => by
    unfold exprStatements
    exact .bind (exprStatement_raises env st e) fun line =>
      .bind (exprStatements_raises env st rest) fun lines => .pure _

end

theorem conditionCode_raises (nullChecks : Bool) (st : State) (e : Expr) (negated : Bool) :
    Raises Bare (conditionCode nullChecks st e negated) :=
  .bind (convertNonNull_bare _ _ _) fun _ => .pure _

theorem condCode_raises (nullChecks : Bool) (st : State) (negated : Bool) (test : Expr)
    (yes : Block) (elsifs : List ElseIf) (no : Block) :
    Raises Bare (condCode nullChecks st negated test yes elsifs no) := by
  refine .bind (conditionCode_raises _ _ _ _) fun c =>
    .bind (.mapM (fun b => ?_) _) fun branches => .pure _
  cases b with
  | mk i test body => exact .bind (conditionCode_raises _ _ _ _) fun c => .pure _

theorem loopCode_raises (nullChecks : Bool) (st : State) (negated bodyFirst : Bool) (test : Expr)
    (body : Block) : Raises Bare (loopCode nullChecks st negated bodyFirst test body) := by
  refine .bind (conditionCode_raises _ _ _ _) fun c => ?_
  split
  · exact .pure _
  · exact .pure _

theorem stepsCode_raises (nullChecks : Bool) (st : State) (init test post : List Expr)
    (body : Block) : Raises Bare (stepsCode nullChecks st init test post body) :=
  .bind (.mapM (fun _ => convertNonNull_bare _ _ _) _) fun _ => .pure _

theorem returnCode_raises (st : State) (value : Option Expr) :
    Raises Bare (returnCode st value) := by
  unfold returnCode
  split
  · exact .error (bare_unsupported _)
  · exact .ok _
  · exact .ok _
  · exact .bind (valueFor_raises _ _ _ _) fun v => .pure _

theorem jumpCode_raises (keyword : String) : Raises Bare (jumpCode keyword) := by
  unfold jumpCode
  split
  · exact .ok _
  · exact .ok _
  · exact .error (bare_unsupported _)

end Compile

/-! ## The catalog -/

namespace Catalog

open Fault (Bare)

private theorem decodeType_raises (words : String) (bytes : List UInt8) :
    Raises Bare (decodeType words bytes) := by
  unfold decodeType
  split
  · exact .ok _
  · exact .error rfl
  · exact .error rfl

/-- The catalog fails only with bare faults. -/
theorem get_raises (c : Catalog) (name : String) : Raises Bare (c.get name) := by
  unfold get
  split
  · exact .error rfl
  · refine .bind (.foldlM (fun p v => ?_) _ _) fun p => .foldlM (fun p s => ?_) _ _
    · unfold addVar
      split
      · exact .error rfl
      · exact .bind (decodeType_raises _ _) fun t => .pure _
    · exact .bind (decodeType_raises _ _) fun t => .pure _

end Catalog

end TypedPerl
