import TypedPerl.Proofs.Access.ReadWrite
import TypedPerl.Proofs.Scope.Aliases
import TypedPerl.Proofs.Walk.Visits

/-!
# Auxiliary names

Generating code changes what names mean in one way only: it draws auxiliary names from the pool,
and may queue declarations of them. `Draws` says so of two states, with the numbers of the names
that are queued, and `Drawing` of every run of a step. The exception is a variable that is declared
where it is generated; it draws nothing and queues its own declaration (`run_variableOutput`).
-/

namespace TypedPerl

open Name (AliasPool)

/-- The names are auxiliary ones, in order, with numbers behind `lo` and up to `hi`. -/
def Drawn (lo hi : Nat) (names : List String) : Prop :=
  ∃ numbers : List Nat, names = numbers.map (AliasPool.numbered · "") ∧
    numbers.Pairwise (· < ·) ∧ ∀ k ∈ numbers, lo < k ∧ k ≤ hi

namespace Drawn

variable {lo mid hi : Nat} {names more : List String}

theorem nil : Drawn lo hi [] :=
  ⟨[], rfl, .nil, fun _ h => absurd h List.not_mem_nil⟩

theorem append (h₁ : Drawn lo mid names) (h₂ : Drawn mid hi more) (hlo : lo ≤ mid)
    (hhi : mid ≤ hi) : Drawn lo hi (names ++ more) := by
  obtain ⟨ks, rfl, hks, hksIn⟩ := h₁
  obtain ⟨ls, rfl, hls, hlsIn⟩ := h₂
  refine ⟨ks ++ ls, by rw [List.map_append], ?_, ?_⟩
  · refine List.pairwise_append.mpr ⟨hks, hls, fun k hk l hl => ?_⟩
    exact Nat.lt_of_le_of_lt (hksIn k hk).2 (hlsIn l hl).1
  · intro k hk
    rcases List.mem_append.mp hk with hk | hk
    · exact ⟨(hksIn k hk).1, Nat.le_trans (hksIn k hk).2 hhi⟩
    · exact ⟨Nat.lt_of_le_of_lt hlo (hlsIn k hk).1, (hlsIn k hk).2⟩

end Drawn

/-! ## Accesses -/

/-- Between the two states auxiliary names are drawn, and declarations of some of them queued. -/
structure AccessState.Draws (acc acc' : AccessState) : Prop where
  table : ∃ pool, acc'.table = { acc.table with pool := pool }
  count : acc.table.pool.count "" ≤ acc'.table.pool.count ""
  others : ∀ id, id ≠ "" → acc'.table.pool.count id = acc.table.pool.count id
  queue : ∃ ds, acc'.pending.decls = acc.pending.decls ++ ds ∧
    Drawn (acc.table.pool.count "") (acc'.table.pool.count "") (ds.map (·.javaName)) ∧
    ∀ d ∈ ds, d.init = ""

namespace AccessState.Draws

variable {acc acc₁ acc₂ : AccessState}

theorem refl (acc : AccessState) : Draws acc acc :=
  ⟨⟨_, rfl⟩, Nat.le_refl _, fun _ _ => rfl, [], (List.append_nil _).symm, .nil,
    fun _ h => absurd h List.not_mem_nil⟩

theorem trans (h₁ : Draws acc acc₁) (h₂ : Draws acc₁ acc₂) : Draws acc acc₂ where
  table := by
    obtain ⟨p, hp⟩ := h₁.table
    obtain ⟨q, hq⟩ := h₂.table
    refine ⟨q, ?_⟩
    rw [hq, hp]
  count := Nat.le_trans h₁.count h₂.count
  others id hid := (h₂.others id hid).trans (h₁.others id hid)
  queue := by
    obtain ⟨ds, hds, hdrawn, hinit⟩ := h₁.queue
    obtain ⟨es, hes, hmore, hinit'⟩ := h₂.queue
    refine ⟨ds ++ es, ?_, ?_, ?_⟩
    · rw [hes, hds, List.append_assoc]
    · rw [List.map_append]
      exact hdrawn.append hmore h₁.count h₂.count
    · intro d hd
      exact (List.mem_append.mp hd).elim (hinit d) (hinit' d)

end AccessState.Draws

theorem Table.count_auxiliary (t : Table) :
    (t.auxiliary "").2.pool.count "" = t.pool.count "" + 1 :=
  AliasPool.count_fresh_self t.pool ""

theorem Table.count_auxiliary_of_ne (t : Table) {id : String} (h : id ≠ "") :
    (t.auxiliary "").2.pool.count id = t.pool.count id := by
  show ((t.pool.counters.put "" (t.pool.count "" + 1)).get? id).getD 0 = _
  rw [Keyed.get?_put_of_ne _ _ (Ne.symm h)]
  rfl

/-- Drawing a name and queueing nothing. -/
theorem AccessState.Draws.auxiliary (acc : AccessState) :
    Draws acc { acc with table := (acc.table.auxiliary "").2 } where
  table := ⟨_, rfl⟩
  count := by
    rw [Table.count_auxiliary]
    exact Nat.le_succ _
  others _ hid := Table.count_auxiliary_of_ne _ hid
  queue := ⟨[], (List.append_nil _).symm, .nil, fun _ h => absurd h List.not_mem_nil⟩

namespace Path

theorem capture_draws (t : Option Ty) (code : String) (acc : AccessState) :
    AccessState.Draws acc (capture t code acc).2 where
  table := ⟨_, rfl⟩
  count := by
    show _ ≤ (acc.table.auxiliary "").2.pool.count ""
    rw [Table.count_auxiliary]
    exact Nat.le_succ _
  others _ hid := Table.count_auxiliary_of_ne _ hid
  -- one declaration with the next number, and no value in it yet
  queue := by
    refine ⟨[{ type := t, javaName := (acc.table.auxiliary "").1 }], rfl,
      ⟨[acc.table.pool.count "" + 1], rfl, List.pairwise_singleton _ _, ?_⟩, ?_⟩
    · intro k hk
      rw [List.mem_singleton.mp hk]
      exact ⟨Nat.lt_succ_self _, Nat.le_of_eq (Table.count_auxiliary acc.table).symm⟩
    · intro d hd
      rw [List.mem_singleton.mp hd]

theorem pieceOnce_draws {repeatable : Bool} {t : Option Ty} {code : String}
    {codes : String × String} {acc acc' : AccessState}
    (h : pieceOnce repeatable t code acc = (codes, acc')) : AccessState.Draws acc acc' := by
  unfold pieceOnce at h
  split at h
  · cases h
    exact .refl acc
  · obtain rfl : (capture t code acc).2 = acc' := congrArg Prod.snd h
    exact capture_draws t code acc

theorem readWrite_draws {nullChecks : Bool} {p : Path} {acc acc' : AccessState} {rw : ReadWrite}
    (h : p.readWrite nullChecks acc = .ok (rw, acc')) : AccessState.Draws acc acc' := by
  cases hderef : p.deref with
  | true =>
    obtain ⟨cell, t, r, w, -, hbase, -⟩ := readWrite_cell hderef h
    exact pieceOnce_draws hbase
  | false =>
    obtain ⟨-, cont, k, kt, rb, wb, rk, wk, acc₁, -, -, hbase, hkeys, -⟩ :=
      readWrite_element hderef h
    -- the base is captured before the key
    exact (pieceOnce_draws hbase).trans (pieceOnce_draws hkeys)

end Path

namespace Compile

/-! ## Steps that draw names -/

/-- Between the two states auxiliary names are drawn, and nodes mean the same. -/
structure State.Draws (st st' : State) : Prop
    extends AccessState.Draws st.toAccessState st'.toAccessState where
  bindings : st'.bindings = st.bindings

namespace State.Draws

variable {st st₁ st₂ : State}

/-- States with the same names, queue and meanings. -/
theorem of_same (hacc : st₁.toAccessState = st.toAccessState) (hb : st₁.bindings = st.bindings) :
    Draws st st₁ := by
  refine ⟨?_, hb⟩
  rw [hacc]
  exact .refl _

theorem refl (st : State) : Draws st st :=
  of_same rfl rfl

theorem trans (h₁ : Draws st st₁) (h₂ : Draws st₁ st₂) : Draws st st₂ :=
  ⟨h₁.toDraws.trans h₂.toDraws, h₂.bindings.trans h₁.bindings⟩

theorem inner (h : Draws st st₁) : st₁.table.inner = st.table.inner := by
  obtain ⟨pool, hpool⟩ := h.table
  rw [hpool]

theorem fileScope (h : Draws st st₁) : st₁.table.fileScope = st.table.fileScope := by
  obtain ⟨pool, hpool⟩ := h.table
  rw [hpool]

theorem scopes (h : Draws st st₁) : st₁.table.scopes = st.table.scopes := by
  rw [Table.scopes, Table.scopes, h.inner, h.fileScope]

end State.Draws

variable {α β : Type}

/-- Every run of the step draws auxiliary names, and changes nothing else of names. -/
def Drawing (x : Compile α) : Prop :=
  ∀ env st, State.Draws st (x env st).2

namespace Drawing

theorem pure (a : α) : Drawing (Pure.pure a : Compile α) := fun _ st => .refl st

theorem throw (f : Fault) : Drawing (MonadExcept.throw f : Compile α) := fun _ st => .refl st

theorem lift (x : Except Fault α) : Drawing (liftM x : Compile α) := fun _ st => .refl st

theorem get : Drawing (MonadState.get : Compile State) := fun _ st => .refl st

theorem read : Drawing (MonadReader.read : Compile Env) := fun _ st => .refl st

theorem change {f : State → State} (hacc : ∀ st, (f st).toAccessState = st.toAccessState)
    (hb : ∀ st, (f st).bindings = st.bindings) : Drawing (modify f : Compile Unit) :=
  fun _ st => .of_same (hacc st) (hb st)

theorem auxiliary : Drawing (onTable (·.auxiliary "")) := fun _ st =>
  ⟨.auxiliary st.toAccessState, rfl⟩

theorem onAccess {f : AccessState → α × AccessState}
    (h : ∀ acc, AccessState.Draws acc (f acc).2) :
    Drawing (Compile.onAccess f) := fun _ st => ⟨h st.toAccessState, rfl⟩

theorem bind {x : Compile α} {k : α → Compile β} (hx : Drawing x) (hk : ∀ a, Drawing (k a)) :
    Drawing (x >>= k) := by
  intro env st
  rw [run_bind]
  have hfirst := hx env st
  generalize x env st = r at hfirst ⊢
  rcases r with ⟨f | a, st'⟩
  · exact hfirst
  · exact hfirst.trans (hk a env st')

/-- A step that reads its state may put back a state made from it. -/
theorem get_bind {k : State → Compile α} (h : ∀ env st, State.Draws st (k st env st).2) :
    Drawing (MonadState.get >>= k) := h

end Drawing

/-! ## Generating code -/

theorem setOutput_drawing (id : Nat) (out : Output) : Drawing (setOutput id out) := by
  intro env st
  rw [run_setOutput]
  split
  · exact .refl st
  · exact .of_same rfl rfl

theorem markEffect_drawing (id : Nat) : Drawing (markEffect id) :=
  .change (fun _ => rfl) fun _ => rfl

theorem choice_drawing (op : String) (l : Operand) (t : Option Ty) (repeatable : Bool)
    (rc again first : String) : Drawing (choice op l t repeatable rc again first) := by
  refine .bind (.lift _) fun test => ?_
  split
  · exact .pure _
  · exact .pure _

theorem logicalValue_drawing (op : String) (l r : Operand) (repeatable : Bool) :
    Drawing (logicalValue op l r repeatable) := by
  rw [logicalValue_eq]
  refine .bind (.lift _) fun lc => .bind (.lift _) fun rc => ?_
  dsimp only
  split
  · exact .bind (.pure _) fun _ => choice_drawing _ _ _ _ _ _ _
  · exact .bind (.onAccess fun acc => Path.capture_draws _ _ acc) fun _ =>
      choice_drawing _ _ _ _ _ _ _

theorem binaryValue_drawing (op : String) (l r : Operand) (repeatable : Bool) (u : Usage) :
    Drawing (binaryValue op l r repeatable u) := by
  unfold binaryValue
  dsimp only
  split
  · exact logicalValue_drawing _ _ _ _
  · exact .bind .read fun env => .lift _

theorem updatedVariable_drawing (v : Variable) (st : State) : Drawing (updatedVariable v st) :=
  .bind (.lift _) fun _ => .pure _

theorem updatedPath_draws (target : Expr) (env : Env) (st : State) :
    State.Draws st (updatedPath target st env st).2 := by
  rw [updatedPath, run_lift_bind]
  split
  · rw [run_lift_bind]
    split
    · rw [run_read_bind, run_lift_bind]
      split
      · next hrw => exact ⟨Path.readWrite_draws hrw, rfl⟩
      · exact .refl st
    · exact .refl st
  · exact .refl st

theorem updatedPlace_drawing (target : Expr) : Drawing (updatedPlace target) := by
  rw [updatedPlace_eq]
  refine .get_bind fun env st => ?_
  cases target with
  | var v => exact updatedVariable_drawing v st env st
  | index i throughRef target key brace context => exact updatedPath_draws _ env st
  | deref i target sigil => exact updatedPath_draws _ env st
  | _ => exact .refl st

theorem updateOutput_drawing (place : Path.ReadWrite) (t : Option Ty) (u : Usage)
    (result : Operand) : Drawing (updateOutput place t u result) :=
  .bind (.lift _) fun _ => .pure _

theorem compoundAssign_drawing (op : String) (left right : Expr) (u : Usage) :
    Drawing (compoundAssign op left right u) := by
  rw [compoundAssign_eq]
  refine .bind (updatedPlace_drawing left) fun r => .bind .get fun st => ?_
  dsimp only
  split
  · exact .bind (logicalValue_drawing _ _ _ _) fun result => updateOutput_drawing _ _ _ _
  · exact .bind .read fun env => .bind (.lift _) fun result => updateOutput_drawing _ _ _ _

theorem assignItems_drawing (nullChecks : Bool) (st : State) (src : Operand)
    (targets : List Expr) : Drawing (assignItems nullChecks st src targets) :=
  .bind (.lift _) fun _ => .bind .auxiliary fun _ => .bind (.lift _) fun _ => .pure _

theorem assignSeveral_drawing (nullChecks : Bool) (st : State) (src : Operand)
    (targets : List Expr) (u : Usage) : Drawing (assignSeveral nullChecks st src targets u) := by
  unfold assignSeveral
  split
  · exact assignItems_drawing _ _ _ _
  · exact .throw _

theorem assignList_drawing (targets : List Expr) (right : Expr) (u : Usage) :
    Drawing (assignList targets right u) := by
  rw [assignList_eq]
  refine .bind .read fun env => .bind .get fun st => ?_
  split
  · exact .bind (.lift _) fun r => .pure _
  · exact assignSeveral_drawing _ _ _ _ _

theorem assignOutput_drawing (op : String) (left right : Expr) (u : Usage) :
    Drawing (assignOutput op left right u) := by
  unfold assignOutput
  split
  · exact compoundAssign_drawing _ _ _ _
  · split
    · exact assignList_drawing _ _ _
    · exact .bind .get fun st => .bind .read fun env => .bind (.lift _) fun r => .pure _

theorem stepOutput_drawing (op : String) (before : Bool) (target : Expr) (u : Usage) :
    Drawing (stepOutput op before target u) := by
  refine .bind .get fun st => ?_
  split
  · exact .pure _
  · refine .bind .read fun env => .bind (updatedPlace_drawing target) fun r => ?_
    refine .bind (.lift _) fun rc => .bind (.lift _) fun value => ?_
    split
    · exact .pure _
    · exact .lift _

theorem callOutput_drawing (id : Nat) (name : String) (args : List Expr) (u : Usage) :
    Drawing (callOutput id name args u) := by
  refine .bind .get fun st => ?_
  split
  · exact .bind (.lift _) fun list => .bind (markEffect_drawing id) fun _ => .pure _
  · refine .bind .read fun env => .bind (.lift _) fun r => ?_
    dsimp only
    split
    · exact .bind (markEffect_drawing id) fun _ => .pure _
    · exact .pure _

theorem pathOutput_drawing (id : Nat) (p : Path) (u : Usage) : Drawing (pathOutput id p u) := by
  refine .bind .read fun env => .bind (.change (fun _ => rfl) fun _ => rfl) fun _ => ?_
  split
  · exact .bind (.lift _) fun o => .bind (markEffect_drawing id) fun _ => .pure _
  · split
    · exact .bind (.lift _) fun t => .pure _
    · exact .bind (.lift _) fun o => .pure _

/-- The expression is a variable. -/
def isVar : Expr → Bool
  | .var _ => true
  | _ => false

/-- Generating any expression but a variable draws auxiliary names only. -/
theorem exprOutput_drawing {e : Expr} (h : isVar e = false) (u : Usage) :
    Drawing (exprOutput e u) := by
  refine .bind .get fun st => .bind .read fun env => ?_
  -- a variable is the only node whose own name may be queued
  cases e with
  | var v => cases h
  | number i text => exact .lift _
  | string i pieces es => exact .lift _
  | undef i => exact .pure _
  | index i throughRef target key brace context => exact pathOutput_drawing _ _ _
  | deref i target sigil => exact pathOutput_drawing _ _ _
  | makeRef i target => exact .pure _
  | anonArray i es t => exact .lift _
  | anonHash i es t => exact .lift _
  | list i es =>
    rcases es with _ | ⟨x, _ | ⟨y, rest⟩⟩
    · exact .lift _
    · exact .pure _
    · exact .lift _
  | assign i op left right => exact assignOutput_drawing op left right u
  | incDec i op before target => exact stepOutput_drawing op before target u
  | binary i op left right => exact .bind (binaryValue_drawing _ _ _ _ _) fun o => .pure _
  | unary i op x => exact .lift _
  | ternary i cond yes no => exact .lift _
  | call i package name args => exact callOutput_drawing i.id name args u

theorem foreachCode_drawing (v : Variable) (list : Expr) (b : Block) :
    Drawing (foreachCode v list b) := by
  refine .bind .get fun st => .bind (.lift _) fun r => ?_
  dsimp only
  split
  · exact .throw _
  · split
    · exact .pure _
    · exact .bind .auxiliary fun aux => .bind (.lift _) fun value => .pure _

theorem defineMethod_drawing (id : Nat) (name : String) (b : Block) :
    Drawing (defineMethod id name b) := by
  refine .get_bind fun env st => ?_
  rcases st.frames with _ | ⟨f, rest⟩
  · exact .refl st
  · rcases st.subs.get? id with _ | s
    · exact .refl st
    · exact .of_same rfl rfl

/-- Generating the code of a statement draws auxiliary names only. -/
theorem stmtCode_drawing (s : Stmt) : Drawing (stmtCode s) := by
  refine .bind .read fun env => .bind .get fun st => ?_
  cases s with
  | expr i e => exact .lift _
  | block b => exact .pure _
  | cond i negated test yes elsifs no => exact .lift _
  | loop i negated bodyFirst test b => exact .lift _
  | steps i init test post b => exact .lift _
  | foreach i var implicit list b => exact foreachCode_drawing _ _ _
  | ret i value => exact .lift _
  | jump i keyword => exact .lift _
  | sub i name returns b => exact .bind (defineMethod_drawing _ _ _) fun _ => .pure _
  | comment | package | use | pragma => exact .pure _

/-! ## Variables -/

/-- The declaration of a variable before its statement. -/
def hoisted (b : Binding) : Declaration :=
  { type := some b.type, javaName := b.javaName, init := Java.emptyOf b.type }

/-- The variables that a node declares before its statement, when it is used so: the one that the
node was resolved to, if it is a variable of a method that the node declares inside an
expression. -/
def State.hoists (st : State) (e : Expr) (u : Usage) : List Binding :=
  match e with
  | .var v => if st.isLocalDecl v && !u.isVoid then (st.binding? v).toList else []
  | _ => []

/-- A variable of a method that is declared inside an expression queues its declaration. -/
theorem run_variableOutput {v : Variable} {st : State} {b : Binding}
    (h : st.binding? v = some b) (u : Usage) (env : Env) :
    ∃ fields, variableOutput v u env st =
      (.ok { code := st.nameOf b, type := some b.type },
        { st with
          fields := fields,
          pending := ⟨st.pending.decls ++ (st.hoists (.var v) u).map hoisted⟩ }) := by
  -- a field of the class is noted before; that changes nothing asked for below
  have hfields : ∃ fields, (if (b.isField && (v.decl = .my || v.decl = .our)) = true
      then st.addField b else st) = { st with fields := fields } := by
    split
    · unfold State.addField
      split
      · exact ⟨st.fields, rfl⟩
      · exact ⟨_, rfl⟩
    · exact ⟨st.fields, rfl⟩
  obtain ⟨fields, hfields⟩ := hfields
  refine ⟨fields, ?_⟩
  have hbinding : bindingOf st v = .ok b := by
    unfold bindingOf
    rw [h]
  have hlocal : State.isLocalDecl { st with fields := fields } v = st.isLocalDecl v := rfl
  have hrun : variableOutput v u env st = localOutput v u b env { st with fields := fields } := by
    rw [variableOutput_eq, run_get_bind, hbinding, run_lift_bind]
    dsimp only
    split
    · next hfield =>
      rw [if_pos hfield] at hfields
      rw [← hfields]
      rfl
    · next hfield =>
      rw [if_neg hfield] at hfields
      rw [← hfields]
  rw [hrun, localOutput, run_get_bind, hlocal]
  unfold State.hoists
  dsimp only
  -- queued is a declaration that is used as a value
  by_cases hqueue : (st.isLocalDecl v && !u.isVoid) = true
  · rw [if_pos hqueue, if_pos hqueue, h]
    rfl
  · rw [if_neg hqueue, if_neg hqueue, List.map_nil, List.append_nil]
    rfl

end Compile

end TypedPerl
