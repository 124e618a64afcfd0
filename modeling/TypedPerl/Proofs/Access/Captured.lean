import TypedPerl.Proofs.Access.ReadWrite
import TypedPerl.Proofs.Conversion.InOrder
import TypedPerl.Proofs.Conversion.NullChecks
import TypedPerl.Proofs.Scope.Aliases

/-!
# Paths that are read and written in one expression

An element has two pieces, the container and the key, and a whole dereference has one, the reference
cell. A read is a text with one hole for each piece, and a store is one with a hole for the value
behind them (`Path.parts`). Where a path is read and then written, each piece that may not be
evaluated twice is captured: the store assigns an auxiliary variable in its hole, and the read has
the variable in its own (`Held`). All other text is that of the read and the store by themselves.
-/

namespace TypedPerl

/-- An auxiliary variable is named as nothing that was given an identifier before. -/
theorem Table.Ledger.auxiliary_new {τ : Type} {t : Table τ} {issued : List (Issued τ)}
    (h : t.Ledger issued) {hint : String} (hdigit : Name.leadingDigit hint = false) :
    ∀ i ∈ issued, i.javaName ≠ (t.auxiliary hint).1 := by
  intro i hi heq
  have hnumbered : i.javaName = (t.pool.aliasFor hint true).1 := heq
  obtain ⟨-, -, hbare, -⟩ := h.next_eq hi hdigit hnumbered
  cases hbare

/-- Of an element nothing else depends on the code. -/
theorem Operand.ofElement_withCode (code code' : String) (elem : Option Ty) :
    (ofElement code elem).withCode code' = ofElement code' elem := by
  rw [ofElement_eq, ofElement_eq]
  rfl

namespace Path

/-! ## The pieces of a path -/

/-- A piece of a path. -/
structure Piece where
  /-- The code. -/
  code : String
  /-- The type of its value. -/
  type : Option Ty
  /-- It may be evaluated twice. -/
  repeatable : Bool

/-- A path by its pieces, in the order in which they are evaluated. -/
structure Parts where
  /-- The container and the key of an element, or the reference cell of a dereference. -/
  pieces : List Piece
  /-- The text of a read, with a hole for each piece. -/
  readText : Template
  /-- The text of a store, with a hole for each piece and one for the value. -/
  storeText : Template

/-- The element of a container: holes for the container and the key. -/
def elementText (t : Option Ty) : Template :=
  if t.any Ty.isArray then [none, some "[", none, some "]"]
  else [none, some ".get(", none, some ")"]

/-- The store in a container: holes for the container, the key and the value. -/
def storeText (t : Option Ty) : Template :=
  if t.any Ty.isArray then [none, some "[", none, some "] = ", none]
  else if t.any Ty.isList then [none, some ".set(", none, some ", ", none, some ")"]
  else [none, some ".put(", none, some ", ", none, some ")"]

/-- The path as one element or as a whole dereference. -/
def parts (nullChecks : Bool) (p : Path) : Except Fault Parts :=
  if p.deref then
    match p.cell? with
    | none => .error nestedDeref
    | some (cell, t) =>
      .ok
        { pieces := [⟨cell, some t, p.baseRepeatable⟩]
          readText := [none, some ".get()"]
          storeText := [none, some ".set(", none, some ")"] }
  else do
    let cont ← p.container
    let (k, kt) ← p.key nullChecks cont.type
    return {
      pieces := [⟨cont.code, cont.type, p.baseRepeatable⟩, ⟨k, some kt, p.keysRepeatable⟩]
      readText := elementText cont.type
      storeText := storeText cont.type }

theorem holes_elementText (t : Option Ty) : (elementText t).holes = 2 := by
  unfold elementText
  split <;> rfl

theorem holes_storeText (t : Option Ty) : (storeText t).holes = 3 := by
  unfold storeText
  split
  · rfl
  · split <;> rfl

theorem elementCode_eq (cont : String) (t : Option Ty) (key : String) :
    elementCode cont t key = (elementText t).fill [cont, key] := by
  unfold elementCode elementText
  split <;> simp [Template.fill, String.append_assoc]

theorem storeCode_eq (cont : String) (t : Option Ty) (key value : String) :
    storeCode cont t key value = (storeText t).fill [cont, key, value] := by
  unfold storeCode storeText
  split
  · simp [Template.fill, String.append_assoc]
  · split <;> simp [Template.fill, String.append_assoc]

/-! ## Pieces that are held -/

/-- A piece as it is rendered where its path is read and written. -/
structure Held extends Piece where
  /-- The auxiliary variable that holds the piece, if it is captured. -/
  alias? : Option String

namespace Held

/-- The code for the read: the variable that holds the piece, if there is one. -/
def forReading (h : Held) : String :=
  h.alias?.getD h.code

/-- The code for the store, which assigns the variable. -/
def forStoring (h : Held) : String :=
  match h.alias? with
  | none => h.code
  | some a => Java.paren (a ++ " = " ++ h.code)

/-- The declaration of the variable, of the type of the piece and without a first value. -/
def declaration? (h : Held) : Option Declaration :=
  h.alias?.map fun a => { type := h.type, javaName := a }

end Held

/-- What happens to the state when the pieces are held. -/
structure Captures (st : AccessState) (held : List Held) (st' : AccessState) : Prop where
  /-- Exactly the pieces that may not be evaluated twice are captured. -/
  needed : ∀ h ∈ held, h.alias?.isSome = !h.repeatable
  /-- The variables are queued in the order of the pieces. -/
  queued : st'.pending.decls = st.pending.decls ++ held.filterMap Held.declaration?
  /-- If no piece is captured, nothing happens. -/
  idle : (∀ h ∈ held, h.repeatable = true) → st' = st
  /-- The variables are named differently, and as nothing that was given an identifier before. -/
  fresh : ∀ issued, st.table.Ledger issued →
    st'.table.Ledger (issued ++ (held.filterMap Held.alias?).map (.auxiliary "")) ∧
      (held.filterMap Held.alias?).Nodup ∧
      ∀ a ∈ held.filterMap Held.alias?, ∀ i ∈ issued, i.javaName ≠ a

namespace Captures

variable {st st₁ st₂ : AccessState} {held more : List Held}

/-- Pieces are held one after the other. -/
theorem append (h : Captures st held st₁) (hmore : Captures st₁ more st₂) :
    Captures st (held ++ more) st₂ where
  needed := by
    intro q hq
    obtain hq | hq := List.mem_append.mp hq
    · exact h.needed q hq
    · exact hmore.needed q hq
  queued := by
    rw [hmore.queued, h.queued, List.filterMap_append, List.append_assoc]
  idle := by
    intro hall
    rw [hmore.idle fun q hq => hall q (List.mem_append_right _ hq),
      h.idle fun q hq => hall q (List.mem_append_left _ hq)]
  fresh := by
    intro issued hledger
    obtain ⟨hledger₁, hnodup, hnew⟩ := h.fresh issued hledger
    obtain ⟨hledger₂, hnodup', hnew'⟩ := hmore.fresh _ hledger₁
    rw [List.filterMap_append, List.map_append, ← List.append_assoc]
    refine ⟨hledger₂, List.nodup_append.mpr ⟨hnodup, hnodup', ?_⟩, ?_⟩
    · -- the variables of the first pieces were given an identifier before the others
      intro a ha b hb
      exact hnew' b hb (.auxiliary "" a) (List.mem_append_right _ (List.mem_map_of_mem ha))
    · intro a ha i hi
      obtain ha | ha := List.mem_append.mp ha
      · exact hnew a ha i hi
      · exact hnew' a ha i (List.mem_append_left _ hi)

end Captures

/-- A piece that may be evaluated twice is held as it stands, and any other in a variable. -/
theorem pieceOnce_captures {q : Piece} {st st' : AccessState} {r w : String}
    (h : pieceOnce q.repeatable q.type q.code st = ((r, w), st')) :
    ∃ held : Held, held.toPiece = q ∧ Captures st [held] st' ∧ r = held.forReading ∧
      w = held.forStoring := by
  unfold pieceOnce at h
  -- a piece that may be repeated stays as it is; any other is captured in a variable of its own
  cases hrepeatable : q.repeatable with
  | true =>
    rw [hrepeatable, if_pos rfl] at h
    cases h
    refine ⟨{ q with alias? := none }, rfl, ?_, rfl, rfl⟩
    exact
      { needed := by simp [hrepeatable]
        queued := by simp [Held.declaration?]
        idle := fun _ => rfl
        fresh := fun issued hledger => by simpa using hledger }
  | false =>
    rw [hrepeatable, if_neg Bool.false_ne_true] at h
    cases h
    refine ⟨{ q with alias? := some (st.table.auxiliary "").1 }, rfl, ?_, rfl, rfl⟩
    exact
      { needed := by simp [hrepeatable]
        queued := rfl
        idle := fun hall => by simp [hrepeatable] at hall
        fresh := fun issued hledger => by
          have hdigit : Name.leadingDigit "" = false := rfl
          simpa using ⟨hledger.auxiliary hdigit, hledger.auxiliary_new hdigit⟩ }

/-! ## A path that is read and written -/

variable {nullChecks : Bool} {p : Path} {st st' : AccessState} {rw : ReadWrite} {o : Operand}

theorem assumedReferent_elem (p : Path) : p.assumedReferent.refTo.elem = p.assumedReferent := by
  unfold assumedReferent
  split
  · split <;> rfl
  · split <;> rfl

/-- What a dereference reads is in its cell. -/
theorem reached_of_cell {cell : String} {t : Ty} (hderef : p.deref = true)
    (hcell : p.cell? = some (cell, t)) :
    p.reached = .ok (.plain (cell ++ ".get()") (some t.elem)) := by
  have hthrough : (!p.throughRef && !p.deref) = false := by simp [hderef]
  unfold cell? at hcell
  rw [reached, if_neg (by simp [hthrough])]
  split at hcell
  · next e htype =>
    split at hcell
    -- an element that holds a container has no cell
    · cases hcell
    · next hraw =>
      cases hcell
      simp [htype, Operand.referent, hraw, Operand.elemType]
  · next htype =>
    cases hcell
    rw [assumedReferent_elem]
  · cases hcell

/-! ### Reads and stores of one place -/

theorem read_deref {cell : String} {t : Ty} (hderef : p.deref = true)
    (hcell : p.cell? = some (cell, t)) (h : p.read nullChecks = .ok o) :
    o = .plain (cell ++ ".get()") (some t.elem) := by
  have hcont : p.container = if p.context.accepts (some t.elem)
      then .ok (.plain (cell ++ ".get()") (some t.elem))
      else .error (.incompatible p.base.type (some p.assumedReferent.refTo)) := by
    simp [container, reached_of_cell hderef hcell, hderef, Operand.plain, bind, Except.bind, pure,
      Except.pure, throw, throwThe, MonadExceptOf.throw]
  rw [read, hcont] at h
  split at h
  · exact (Except.ok.inj h).symm
  · cases h

theorem write_deref {cell : String} {t : Ty} (hderef : p.deref = true)
    (hcell : p.cell? = some (cell, t)) (value : String) :
    p.write nullChecks value = .ok (cell ++ ".set(" ++ value ++ ")") := by
  simp [write, hderef, hcell]

/-! ### Reads and stores that share their pieces -/

/-- How a path renders that is read and written, next to its read and its store by themselves. -/
structure RendersAs (nullChecks : Bool) (p : Path) (rw : ReadWrite) (o : Operand) (q : Parts)
    (held : List Held) : Prop where
  /-- The pieces that are held are those of the path. -/
  pieces : p.parts nullChecks = .ok q ∧ held.map Held.toPiece = q.pieces
  /-- A read has one place for each piece, and a store has another one for the value. -/
  places : q.readText.holes = q.pieces.length ∧ q.storeText.holes = q.pieces.length + 1
  /-- The read is that of the path by itself, but for the code. -/
  read : rw.read = o.withCode (q.readText.fill (held.map Held.forReading))
  /-- Without the variables the code is that of the read by itself. -/
  readAlone : o.code = q.readText.fill (q.pieces.map Piece.code)
  /-- The store assigns the variables. -/
  store : ∀ v, rw.write v = q.storeText.fill (held.map Held.forStoring ++ [v])
  /-- Without the assignments it is the store by itself. -/
  storeAlone : ∀ v, p.write nullChecks v = .ok (q.storeText.fill (q.pieces.map Piece.code ++ [v]))

theorem deref_captures (hderef : p.deref = true)
    (hrw : p.readWrite nullChecks st = .ok (rw, st')) (hread : p.read nullChecks = .ok o) :
    ∃ q held, RendersAs nullChecks p rw o q held ∧ Captures st held st' ∧
      (p.baseRepeatable = true → st' = st) := by
  obtain ⟨cell, t, r, w, hcell, hbase, rfl⟩ := readWrite_cell hderef hrw
  obtain ⟨base, hpiece, hcaptures, rfl, rfl⟩ :=
    pieceOnce_captures (q := ⟨cell, some t, p.baseRepeatable⟩) hbase
  obtain rfl := read_deref hderef hcell hread
  -- the only piece of a whole referent is the cell that holds it
  let q : Parts :=
    { pieces := [⟨cell, some t, p.baseRepeatable⟩]
      readText := [none, some ".get()"]
      storeText := [none, some ".set(", none, some ")"] }
  have hparts : p.parts nullChecks = .ok q := by simp [parts, hderef, hcell, q]
  have hidle (hrepeatable : p.baseRepeatable = true) : st' = st :=
    hcaptures.idle (by simp [hpiece, hrepeatable])
  refine ⟨q, [base], ?_, hcaptures, hidle⟩
  exact
    { pieces := ⟨hparts, congrArg (fun q => [q]) hpiece⟩
      places := ⟨rfl, rfl⟩
      read := by simp [q, Operand.plain, Operand.withCode, Template.fill]
      readAlone := by simp [q, Operand.plain, Template.fill]
      store := fun v => by simp [q, Template.fill, String.append_assoc]
      storeAlone := fun v => by
        rw [write_deref hderef hcell]
        simp [q, Template.fill, String.append_assoc] }

theorem element_captures (hderef : p.deref = false)
    (hrw : p.readWrite nullChecks st = .ok (rw, st')) (hread : p.read nullChecks = .ok o) :
    ∃ q held, RendersAs nullChecks p rw o q held ∧ Captures st held st' ∧
      (p.baseRepeatable = true → p.keysRepeatable = true → st' = st) := by
  obtain ⟨hmulti, cont, k, kt, rb, wb, rk, wk, st₁, hcont, hkey, hbase, hkeys, rfl⟩ :=
    readWrite_element hderef hrw
  obtain ⟨base, hbasePiece, hcaptures, rfl, rfl⟩ :=
    pieceOnce_captures (q := ⟨cont.code, cont.type, p.baseRepeatable⟩) hbase
  obtain ⟨key, hkeyPiece, hcaptures', rfl, rfl⟩ :=
    pieceOnce_captures (q := ⟨k, some kt, p.keysRepeatable⟩) hkeys
  obtain rfl := Except.ok.inj (hread.symm.trans (read_element hderef hmulti hcont hkey))
  let q : Parts :=
    { pieces := [⟨cont.code, cont.type, p.baseRepeatable⟩, ⟨k, some kt, p.keysRepeatable⟩]
      readText := elementText cont.type
      storeText := storeText cont.type }
  have hparts : p.parts nullChecks = .ok q := by
    simp [parts, hderef, hcont, hkey, bind, Except.bind, pure, Except.pure, q]
  -- the container is held before the key, so its variable is queued first
  have hboth := hcaptures.append hcaptures'
  have hidle (hbase : p.baseRepeatable = true) (hkeys : p.keysRepeatable = true) : st' = st :=
    hboth.idle (by simp [hbasePiece, hkeyPiece, hbase, hkeys])
  refine ⟨q, [base, key], ?_, hboth, hidle⟩
  exact
    { pieces := ⟨hparts, congrArg₂ (fun q q' => [q, q']) hbasePiece hkeyPiece⟩
      places := ⟨holes_elementText _, holes_storeText _⟩
      read := by rw [Operand.ofElement_withCode, elementCode_eq]; rfl
      readAlone := by rw [code_ofElement, elementCode_eq]; rfl
      store := fun v => storeCode_eq ..
      storeAlone := fun v => by rw [write_element hderef hmulti hcont hkey, storeCode_eq]; rfl }

/-- A path that is read and written renders as its read and its store, but for the pieces that may
not be evaluated twice. Each of these is held in a fresh variable that is declared for it, which the
store assigns in the place of the piece, and the read has in its place. -/
theorem readWrite_captures (hrw : p.readWrite nullChecks st = .ok (rw, st'))
    (hread : p.read nullChecks = .ok o) :
    ∃ q held, RendersAs nullChecks p rw o q held ∧ Captures st held st' ∧
      (p.baseRepeatable = true → p.keysRepeatable = true → st' = st) := by
  cases hderef : p.deref with
  | true =>
    obtain ⟨q, held, hrenders, hcaptures, hidle⟩ := deref_captures hderef hrw hread
    exact ⟨q, held, hrenders, hcaptures, fun hrepeatable _ => hidle hrepeatable⟩
  | false => exact element_captures hderef hrw hread

/-- The element of a list that a call gives, at an index that another call gives. -/
def calledElement : Path where
  base := .nonNull "f()" (some (.listOf .integer))
  keys := [.nonNull "g()" (some .integer)]

/-- Both calls are made once, by the store. -/
theorem calledElement_captures :
    ∃ rw st' o q held, calledElement.readWrite false ⟨{ registry := {} }, {}⟩ = .ok (rw, st') ∧
      calledElement.read false = .ok o ∧ RendersAs false calledElement rw o q held ∧
      Captures ⟨{ registry := {} }, {}⟩ held st' ∧ o.code = "f().get(g())" ∧
      rw.read.code = "pd_1.get(pd_2)" ∧ rw.write "x" = "(pd_1 = f()).set((pd_2 = g()), x)" ∧
      st'.pending.decls = [{ type := some (.listOf .integer), javaName := "pd_1" },
        { type := some .integer, javaName := "pd_2" }] := by
  have hrw : calledElement.readWrite false ⟨{ registry := {} }, {}⟩ = .ok (_, _) := rfl
  have hread : calledElement.read false = .ok _ := rfl
  obtain ⟨q, held, hrenders, hcaptures, -⟩ := readWrite_captures hrw hread
  refine ⟨_, _, _, q, held, hrw, hread, hrenders, hcaptures, ?_⟩
  decide +kernel

end Path

end TypedPerl
