import TypedPerl.Compile.Expr
import TypedPerl.Proofs.Document.Places
import TypedPerl.Proofs.Twin.Step

/-!
# Expressions in two runs

What is generated for an expression from twin states is alike: of the same type, and with the same
code if the code is compared. One lemma stands for each generator; those that depend on operands
only are taken from the lemmas on values.
-/

namespace TypedPerl.Compile

open Conversion (convert convert_alike convertNonNull convertNonNull_alike)

variable {c : Comparison} {s t : State} {o p : Operand} {x y : Path}

/-- Code of a type that both runs give to it. -/
structure Comparison.Coded (c : Comparison) (a b : String × Option Ty) : Prop where
  type : a.2 = b.2
  fine : Ty.Fine a.2
  code : c.Code a.1 b.1

/-! ## Conversions of twin operands -/

theorem convert_code (h : c.Also Operand.Like o p) (dest : Option Ty) :
    Agree c.Code (convert o dest) (convert p dest) :=
  c.code (convert_alike h.1.shape dest) fun hs => by rw [h.2 hs]

theorem convertNonNull_code (h : c.Also Operand.Like o p) (dest : Option Ty) :
    Agree c.Code (convertNonNull c.left.nullChecks o dest)
      (convertNonNull c.right.nullChecks p dest) :=
  c.code (convertNonNull_alike _ _ h.1.shape dest) fun hs => by rw [h.2 hs, c.nullChecks hs]

theorem build_code {os ps : List Operand} (h : c.Also Operand.Row os ps) (dest : Option Ty) :
    Agree c.Code (Collection.build os dest) (Collection.build ps dest) :=
  c.code (Collection.build_alike h.1 dest) fun hs => by rw [h.2 hs]

/-! ## Captured pieces -/

/-- A piece is captured in the same variable. -/
theorem capture_twins (h : Twins c s t) (type : Option Ty) {a b : String} (hab : c.Code a b) :
    (c.same → (Path.capture type a s.toAccessState).1 = (Path.capture type b t.toAccessState).1) ∧
      Twins c { s with toAccessState := (Path.capture type a s.toAccessState).2 }
        { t with toAccessState := (Path.capture type b t.toAccessState).2 } := by
  -- both tables hand out the same name, and so they stay alike
  obtain ⟨hname, htable⟩ := (Table.apart_auxiliary "").eq h.table
  have hstates := h.setTable htable (h.left.auxiliary "") (h.right.auxiliary "") (.of_eq rfl rfl)
    (.of_eq rfl rfl)
  refine ⟨fun hs => ?_, ?_⟩
  · simp only [Path.capture]
    rw [hname, hab hs]
  · have hqueued := hstates.queue { type := type, javaName := (s.table.auxiliary "").1 }
    have hqueue : (t.setTable (t.table.auxiliary "").2).queue
        { type := type, javaName := (s.table.auxiliary "").1 } =
        { t with toAccessState := (Path.capture type b t.toAccessState).2 } := by
      rw [hname]
      rfl
    exact hqueue ▸ hqueued

theorem pieceOnce_twins (h : Twins c s t) (repeatable : Bool) (type : Option Ty) {a b : String}
    (hab : c.Code a b) :
    (c.same → (Path.pieceOnce repeatable type a s.toAccessState).1
      = (Path.pieceOnce repeatable type b t.toAccessState).1) ∧
      Twins c { s with toAccessState := (Path.pieceOnce repeatable type a s.toAccessState).2 }
        { t with toAccessState := (Path.pieceOnce repeatable type b t.toAccessState).2 } := by
  cases repeatable with
  | true => exact ⟨fun hs => Prod.ext (hab hs) (hab hs), h⟩
  | false => exact capture_twins h type hab

theorem capture_twin (type : Option Ty) {a b : String} (hab : c.Code a b) :
    Twin c (fun x y => c.same → x = y) (onAccess (Path.capture type a))
      (onAccess (Path.capture type b)) := by
  intro s t h
  obtain ⟨hpieces, hstates⟩ := capture_twins h type hab
  exact ⟨hstates, .ok hpieces⟩

/-! ## Operators -/

/-- The sides are chosen between alike, once the left one is in a form that can be repeated. -/
theorem choice_twin (op : String) {l l' : Operand} (hl : c.Also Operand.Like l l')
    {type : Option Ty} (ht : Ty.Fine type) (repeatable : Bool)
    {rc rc' again again' first first' : String} (hrc : c.Code rc rc')
    (hagain : c.same → again = again' ∧ first = first') :
    Twin c (c.Also Operand.Like) (choice op l type repeatable rc again first)
      (choice op l' type repeatable rc' again' first') := by
  intro s t h
  have htest : Agree c.Code (logicalTest op l type repeatable first)
      (logicalTest op l' type repeatable first') :=
    c.code (logicalTest_alike op hl.1 _ repeatable _ _) fun hs => by rw [hl.2 hs, (hagain hs).2]
  refine .lift_bind htest h fun test test' hcode => ?_
  -- the operator decides on which side of the choice the right operand stands
  split
  · refine .pure h ⟨Operand.like_plain _ _ ht, fun hs => ?_⟩
    rw [hcode hs, hrc hs, (hagain hs).1]
  · refine .pure h ⟨Operand.like_plain _ _ ht, fun hs => ?_⟩
    rw [hcode hs, hrc hs, (hagain hs).1]

theorem logicalValue_twin (op : String) {l r l' r' : Operand} (hl : c.Also Operand.Like l l')
    (hr : c.Also Operand.Like r r') (repeatable : Bool) :
    Twin c (c.Also Operand.Like) (logicalValue op l r repeatable)
      (logicalValue op l' r' repeatable) := by
  intro s t h
  obtain ⟨htype, hfine⟩ := logicalType_eq hl.1 hr.1
  rw [logicalValue_eq, logicalValue_eq, ← htype]
  refine .lift_bind (convert_code hl _) h fun lc lc' hlc => ?_
  refine .lift_bind (convert_code hr _) h fun rc rc' hrc => ?_
  cases repeatable with
  | true => exact choice_twin op hl hfine true hrc (fun hs => ⟨hlc hs, hlc hs⟩) s t h
  | false =>
    refine (capture_twin _ hlc s t h).bind fun x y s t h hxy => ?_
    exact choice_twin op hl hfine false hrc (fun hs => Prod.mk.inj (hxy hs)) s t h

theorem binaryOp_twin (op : String) {l r l' r' : Operand} (hl : c.Also Operand.Like l l')
    (hr : c.Also Operand.Like r r') :
    Agree (c.Also Operand.Like) (binaryOp c.left.nullChecks op l r)
      (binaryOp c.right.nullChecks op l' r') :=
  c.also (binaryOp_like hl.1 hr.1 op) fun hs => by rw [hl.2 hs, hr.2 hs, c.nullChecks hs]

theorem binaryValue_twin (op : String) {l r l' r' : Operand} (hl : c.Also Operand.Like l l')
    (hr : c.Also Operand.Like r r') (repeatable : Bool) (u : Usage) :
    Twin c (c.Also Operand.Like) (binaryValue op l r repeatable u)
      (binaryValue op l' r' repeatable u) := by
  intro s t h
  unfold binaryValue
  dsimp only
  split
  · exact logicalValue_twin op hl hr repeatable s t h
  · exact .read_bind (.lift (binaryOp_twin op hl hr) h)

/-! ## Assignments -/

theorem valueFor_code (h : Twins c s t) (right : Option Expr) (ho : c.Also Operand.Like o p)
    (type : Option Ty) : Agree c.Code (valueFor s right o type) (valueFor t right p type) := by
  have hone : c.Also Operand.Row [o] [p] :=
    ⟨.cons ho.1 .nil, fun hs => by rw [ho.2 hs]⟩
  unfold valueFor
  rw [ho.1.isAggregate]
  split
  · exact convert_code ho type
  split
  · exact build_code (h.operands _) type
  split
  · exact convert_code ho type
  · exact build_code hone type

theorem write_code (hx : c.Also Path.Like x y) {a b : String} (hab : c.Code a b) :
    Agree c.Code (x.write c.left.nullChecks a) (y.write c.right.nullChecks b) :=
  c.code (Path.write_alike hx.1 a b) fun hs => by rw [hx.2 hs, hab hs, c.nullChecks hs]

theorem storePath_coded (h : Twins c s t) (target : Expr) (right : Option Expr)
    (ho : c.Also Operand.Like o p) :
    Agree c.Coded (storePath c.left.nullChecks s target right o)
      (storePath c.right.nullChecks t target right p) := by
  refine (h.pathOf target).bind fun x y hxy => ?_
  refine (Path.target_agree hxy.1).bind fun type type' htype => ?_
  obtain ⟨rfl, hfine⟩ := htype
  refine (valueFor_code h right ho type).bind fun value value' hvalue => ?_
  exact (write_code hxy hvalue).bind fun code code' hcode => .pure ⟨rfl, hfine, hcode⟩

/-- A value is stored alike. -/
theorem store_coded (h : Twins c s t) (target : Expr) (right : Option Expr)
    (ho : c.Also Operand.Like o p) (statement : Bool) :
    Agree c.Coded (store c.left.nullChecks s target right o statement)
      (store c.right.nullChecks t target right p statement) := by
  unfold store
  -- a variable, an element or a dereference
  split
  · rename_i v
    refine (h.bindingOf v).bind fun b b' hb => ?_
    rw [hb.like.type, h.isLocalDecl v]
    have hfine : Ty.Fine (some b'.type) := hb.like.type ▸ Ty.fine_some hb.type
    refine (valueFor_code h right ho _).bind fun value value' hvalue => ?_
    split
    · refine .pure ⟨rfl, hfine, fun hs => ?_⟩
      simp only [declaration, hb.like.type, hb.like.javaName, hvalue hs]
    · refine .pure ⟨rfl, hfine, fun hs => ?_⟩
      simp only [hb.name, hvalue hs]
  · exact storePath_coded h _ right ho
  · exact storePath_coded h _ right ho
  · exact .error _

theorem sequenceOf_coded (ho : c.Also Operand.Like o p) :
    Agree c.Coded (sequenceOf o) (sequenceOf p) := by
  refine ((sequenceOf_agree ho.1).and_eq fun hs => by rw [ho.2 hs]).mono fun a b hab => ?_
  exact ⟨hab.1.1, hab.1.2, fun hs => congrArg Prod.fst (hab.2 hs)⟩

/-- The targets of a list receive the same, by induction on the targets. -/
theorem storeItems_code (h : Twins c s t) (aux : String) {type : Option Ty} (ht : Ty.Fine type)
    (targets : List Expr) : ∀ (i : Nat) (consumed : Bool),
    Agree (fun a b => c.same → a = b) (storeItems c.left.nullChecks s aux type i consumed targets)
      (storeItems c.right.nullChecks t aux type i consumed targets) := by
  induction targets with
  | nil =>
    intro i consumed
    exact .ok fun _ => rfl
  | cons target rest ih =>
    intro i consumed
    -- an item of the right side is fine whatever its place in the row
    have hitem : c.Also Operand.Like (listItem aux type i target consumed)
        (listItem aux type i target consumed) := by
      refine .refl c (.refl ?_)
      unfold listItem
      split
      · split
        · exact ht
        · exact Ty.fine_scalar _
      · split
        · exact ht
        · exact (Operand.like_ofElement _ "" (ht.map Ty.WellFormed.elem)).fine
    unfold storeItems
    split
    · exact ih _ _
    · refine (store_coded h target none hitem true).bind fun a b hab => ?_
      refine (ih _ _).bind fun lines lines' hlines => .pure fun hs => ?_
      rw [hab.code hs, hlines hs]

/-- Output that is code with its type. -/
theorem Comparison.Coded.output {a b : String × Option Ty} (h : c.Coded a b) (u : Usage) :
    c.Also Output.Like { code := wrap u a.1, type := a.2 } { code := wrap u b.1, type := b.2 } :=
  ⟨⟨h.type, rfl, h.fine⟩, fun hs => by rw [h.type, h.code hs]⟩

/-- A single target takes the first value of a row. -/
theorem assignFirst_twin (target right : Expr) (u : Usage) (h : Twins c s t) :
    TwinAt c (fun a b _ _ => c.Also Output.Like a b)
      (assignFirst c.left.nullChecks s target right u)
      (assignFirst c.right.nullChecks t target right u) s t := by
  have hright := h.operandOf right
  -- the right side keeps its shape when it is read as the first of many
  have hfirst : c.Also Operand.Like
      { s.operandOf right with
        multi := (s.operandOf right).multi || (s.operandOf right).isSequence
        firstOfMany := true }
      { t.operandOf right with
        multi := (t.operandOf right).multi || (t.operandOf right).isSequence
        firstOfMany := true } := by
    refine ⟨⟨?_, hright.1.fine⟩, fun hs => by rw [hright.2 hs]⟩
    obtain ⟨code, hcode⟩ := Operand.eq_recode hright.1.shape
    rw [hcode]
    rfl
  refine .lift_bind (store_coded h target (some right) hfirst _) h fun a b hab => ?_
  exact .pure h (hab.output u)

theorem assignItems_twin (targets : List Expr) (ho : c.Also Operand.Like o p)
    (h : Twins c s t) :
    TwinAt c (fun a b _ _ => c.Also Output.Like a b)
      (assignItems c.left.nullChecks s o targets) (assignItems c.right.nullChecks t p targets)
      s t := by
  refine .lift_bind (sequenceOf_coded ho) h fun a b hab => ?_
  obtain ⟨code, type⟩ := a
  obtain ⟨code', type'⟩ := b
  obtain ⟨rfl, hfine, hcode⟩ := hab
  refine (auxiliary_twin "" s t h).bind fun aux aux' s' t' h' haux => ?_
  cases haux
  refine .lift_bind (storeItems_code h aux hfine targets 0 false) h' fun lines lines' hlines => ?_
  refine .pure h' ⟨⟨rfl, rfl, hfine⟩, fun hs => ?_⟩
  rw [hlines hs, show code = code' from hcode hs]

/-- Several targets are assigned from an auxiliary variable. -/
theorem assignSeveral_twin (targets : List Expr) (u : Usage) (ho : c.Also Operand.Like o p)
    (h : Twins c s t) :
    TwinAt c (fun a b _ _ => c.Also Output.Like a b)
      (assignSeveral c.left.nullChecks s o targets u)
      (assignSeveral c.right.nullChecks t p targets u) s t := by
  unfold assignSeveral
  split
  · exact assignItems_twin targets ho h
  · exact .throw h _

theorem assignList_twin (targets : List Expr) (right : Expr) (u : Usage) :
    Twin c (c.Also Output.Like) (assignList targets right u) (assignList targets right u) := by
  intro s t h
  rw [assignList_eq]
  refine .read_bind (.get_bind ?_)
  split
  · exact assignFirst_twin _ right u h
  · exact assignSeveral_twin targets u (h.operandOf right) h

/-! ## Assignments with an operator -/

/-- A place that both runs read and write. -/
structure Place (c : Comparison) (a b : Path.ReadWrite) : Prop where
  read : c.Also Operand.Like a.read b.read
  write : c.same → a.write = b.write

theorem container_twin (hx : c.Also Path.Like x y) :
    Agree (c.Also Operand.Like) x.container y.container :=
  c.also (Path.container_like hx.1) fun hs => by rw [hx.2 hs]

theorem key_coded (hx : c.Also Path.Like x y) (type : Option Ty) :
    Agree (fun a b => a.2 = b.2 ∧ c.Code a.1 b.1) (x.key c.left.nullChecks type)
      (y.key c.right.nullChecks type) := by
  refine ((Path.key_agree hx.1 type).and_eq fun hs => by rw [hx.2 hs, c.nullChecks hs]).mono
    fun a b hab => ?_
  exact ⟨hab.1.1, fun hs => congrArg Prod.fst (hab.2 hs)⟩

/-- A dereference is read and written through its cell. -/
theorem readWrite_deref (hx : c.Also Path.Like x y) (h : Twins c s t) (hderef : x.deref = true) :
    Agree (fun a b => Place c a.1 b.1 ∧
        Twins c { s with toAccessState := a.2 } { t with toAccessState := b.2 })
      (x.readWrite c.left.nullChecks s.toAccessState)
      (y.readWrite c.right.nullChecks t.toAccessState) := by
  have hderef' : y.deref = true := hx.1.deref ▸ hderef
  unfold Path.readWrite
  rw [if_pos hderef, if_pos hderef', hx.1.baseRepeatable]
  -- the cell is the only piece, and both sides have it or neither
  rcases rel_cases (Path.cell_rel hx.1) with ⟨a, b, ha, hb, htype, hwf⟩ | ⟨ha, hb⟩
  · have hcell : c.Code a.1 b.1 := by
      intro hs
      rw [hx.2 hs, hb] at ha
      cases ha
      rfl
    obtain ⟨hpieces, hstates⟩ := pieceOnce_twins h y.baseRepeatable (some a.2) hcell
    rw [ha, hb]
    dsimp only
    rw [← htype]
    refine .ok ⟨⟨⟨Operand.like_plain _ _ (Ty.fine_some hwf.elem), fun hs => ?_⟩, fun hs => ?_⟩,
      hstates⟩
    · exact congrArg (fun r : String × String =>
        Operand.plain (r.1 ++ ".get()") (some a.2.elem)) (hpieces hs)
    · exact congrArg (fun (r : String × String) v => r.2 ++ ".set(" ++ v ++ ")") (hpieces hs)
  · rw [ha, hb]
    exact .error _

/-- A path is read and written alike; what cannot be repeated is captured in both runs. -/
theorem readWrite_twins (hx : c.Also Path.Like x y) (h : Twins c s t) :
    Agree (fun a b => Place c a.1 b.1 ∧
        Twins c { s with toAccessState := a.2 } { t with toAccessState := b.2 })
      (x.readWrite c.left.nullChecks s.toAccessState)
      (y.readWrite c.right.nullChecks t.toAccessState) := by
  by_cases hderef : x.deref = true
  · exact readWrite_deref hx h hderef
  have hderef' : ¬y.deref = true := hx.1.deref ▸ hderef
  unfold Path.readWrite
  rw [if_neg hderef, if_neg hderef', hx.1.isMulti, hx.1.baseRepeatable, hx.1.keysRepeatable]
  split
  · exact .error _
  · refine (container_twin hx).bind fun cont cont' hcont => ?_
    rw [← hcont.1.type, ← hcont.1.elemType]
    refine (key_coded hx cont.type).bind fun k k' hk => ?_
    obtain ⟨k, kt⟩ := k
    obtain ⟨k', kt'⟩ := k'
    obtain ⟨rfl, hk⟩ := hk
    dsimp only
    have hbase : c.Code cont.code cont'.code := fun hs => by rw [hcont.2 hs]
    -- the container is captured before the key, so the states are followed in that order
    obtain ⟨hbases, hstates⟩ := pieceOnce_twins h y.baseRepeatable cont.type hbase
    obtain ⟨hkeys, hstates⟩ := pieceOnce_twins hstates y.keysRepeatable (some kt) hk
    refine .pure ⟨⟨⟨Operand.like_ofElement _ _ hcont.1.fine_elem, fun hs => ?_⟩, fun hs => ?_⟩,
      hstates⟩
    · exact congrArg₂ (fun b k : String × String =>
        Operand.ofElement (Path.elementCode b.1 cont.type k.1) cont.elemType) (hbases hs) (hkeys hs)
    · exact congrArg₂ (fun (b k : String × String) v => Path.storeCode b.2 cont.type k.2 v)
        (hbases hs) (hkeys hs)

theorem updatedVariable_twin (v : Variable) (h : Twins c s t) :
    TwinAt c (fun a b _ _ => Place c a.1 b.1 ∧ a.2 = b.2 ∧ Ty.Fine a.2) (updatedVariable v s)
      (updatedVariable v t) s t := by
  refine .lift_bind (h.bindingOf v) h fun b b' hb => ?_
  refine .pure h ⟨⟨⟨?_, fun _ => ?_⟩, fun _ => ?_⟩, ?_, Ty.fine_some hb.type⟩
  · rw [hb.like.type, hb.name]
    exact Operand.like_plain _ _ (hb.like.type ▸ Ty.fine_some hb.type)
  · rw [hb.like.type, hb.name]
  · rw [hb.name]
  · rw [hb.like.type]

theorem updatedPath_twin (target : Expr) (h : Twins c s t) :
    TwinAt c (fun a b _ _ => Place c a.1 b.1 ∧ a.2 = b.2 ∧ Ty.Fine a.2) (updatedPath target s)
      (updatedPath target t) s t := by
  refine .lift_bind (h.pathOf target) h fun x y hxy => ?_
  refine .lift_bind (Path.target_agree hxy.1) h fun type type' htype => ?_
  refine .read_bind (.lift_bind (readWrite_twins hxy h) h fun a b hab => ?_)
  exact (TwinAt.set hab.2).bind fun _ _ _ _ h _ => .pure h ⟨hab.1, htype⟩

theorem updatedPlace_twin (target : Expr) :
    Twin c (fun a b => Place c a.1 b.1 ∧ a.2 = b.2 ∧ Ty.Fine a.2) (updatedPlace target)
      (updatedPlace target) := by
  intro s t h
  rw [updatedPlace_eq]
  refine .get_bind ?_
  split
  · exact updatedVariable_twin _ h
  · exact updatedPath_twin _ h
  · exact updatedPath_twin _ h
  · exact .throw h _

theorem updateOutput_twin {place place' : Path.ReadWrite} (hplace : Place c place place')
    {type : Option Ty} (ht : Ty.Fine type) (u : Usage) (ho : c.Also Operand.Like o p)
    (h : Twins c s t) :
    TwinAt c (fun a b _ _ => c.Also Output.Like a b) (updateOutput place type u o)
      (updateOutput place' type u p) s t := by
  refine .lift_bind (convert_code ho type) h fun value value' hvalue => ?_
  refine .pure h ⟨⟨rfl, rfl, ht⟩, fun hs => ?_⟩
  rw [hplace.write hs, hvalue hs]

theorem compoundAssign_twin (op : String) (left right : Expr) (u : Usage) :
    Twin c (c.Also Output.Like) (compoundAssign op left right u)
      (compoundAssign op left right u) := by
  intro s t h
  rw [compoundAssign_eq]
  dsimp only
  refine (updatedPlace_twin left s t h).bind fun a b s t h hab => ?_
  obtain ⟨place, type⟩ := a
  obtain ⟨place', type'⟩ := b
  obtain ⟨hplace, rfl, hfine⟩ := hab
  refine .get_bind ?_
  have hright := h.operandOf right
  dsimp only
  -- the operator either chooses between the sides or combines them
  split
  · exact (logicalValue_twin _ hplace.read hright true s t h).bind fun a b s t h hab =>
      updateOutput_twin hplace hfine u hab h
  · exact .read_bind (.lift_bind (binaryOp_twin _ hplace.read hright) h fun a b hab =>
      updateOutput_twin hplace hfine u hab h)

theorem assignOutput_twin (op : String) (left right : Expr) (u : Usage) :
    Twin c (c.Also Output.Like) (assignOutput op left right u) (assignOutput op left right u) := by
  intro s t h
  unfold assignOutput
  split
  · exact compoundAssign_twin op left right u s t h
  split
  · exact assignList_twin _ right u s t h
  · refine .get_bind (.read_bind ?_)
    refine .lift_bind (store_coded h _ (some right) (h.operandOf right) _) h fun a b hab => ?_
    exact .pure h (hab.output u)

/-! ## Steps -/

theorem primitiveVariable?_rel (h : Twins c s t) (target : Expr) :
    Option.Rel (Bound s t) (primitiveVariable? s target) (primitiveVariable? t target) := by
  unfold primitiveVariable?
  split
  · rename_i v
    rcases rel_cases (h.binding? v) with ⟨b, b', hb, hb', hbb'⟩ | ⟨hb, hb'⟩
    · rw [hb, hb']
      simp only [Option.filter_some, hbb'.like.type]
      split
      · exact .some hbb'
      · exact .none
    · rw [hb, hb']
      exact .none
  · exact .none

theorem beforeStep_like (m n : Bool) (op : String) (a b : String) {type : Option Ty}
    (ht : Ty.Fine type) (k : Kind) :
    Agree Output.Like (beforeStep m op a type k) (beforeStep n op b type k) := by
  unfold beforeStep
  dsimp only
  split
  · exact .pure ⟨rfl, rfl, ht⟩
  · exact (convertNonNull_alike m n (by rfl) _).bind fun _ _ _ =>
      .pure ⟨rfl, rfl, Ty.fine_scalar k⟩

theorem stepOutput_twin (op : String) (before : Bool) (target : Expr) (u : Usage) :
    Twin c (c.Also Output.Like) (stepOutput op before target u)
      (stepOutput op before target u) := by
  intro s t h
  refine .get_bind ?_
  rcases rel_cases (primitiveVariable?_rel h target) with ⟨b, b', hb, hb', hbb'⟩ | ⟨hb, hb'⟩
  -- a variable of a primitive type is stepped in place
  · rw [hb, hb']
    refine .pure h ⟨⟨?_, rfl, Ty.fine_some hbb'.type⟩, fun _ => ?_⟩
    · rw [hbb'.like.type]
    · rw [hbb'.like.type, hbb'.name]
  -- anything else is read, counted on and written back
  · rw [hb, hb']
    refine .read_bind ((updatedPlace_twin target s t h).bind fun a b s t h hab => ?_)
    obtain ⟨place, type⟩ := a
    obtain ⟨place', type'⟩ := b
    obtain ⟨hplace, rfl, hfine⟩ := hab
    refine .lift_bind (convertNonNull_code hplace.read _) h fun rc rc' hrc => ?_
    have hstep (k : Kind) : c.Also Operand.Like
        (.nonNull (Java.paren (rc ++ " " ++ stepSign op ++ " 1")) (some (.scalar k)))
        (.nonNull (Java.paren (rc' ++ " " ++ stepSign op ++ " 1")) (some (.scalar k))) :=
      ⟨Operand.like_nonNull _ _ (Ty.fine_scalar k), fun hs => by rw [hrc hs]⟩
    refine .lift_bind (convert_code (hstep _) _) h fun value value' hvalue => ?_
    have hwritten : c.Code (place.write value) (place'.write value') :=
      fun hs => by rw [hplace.write hs, hvalue hs]
    -- the result is the new value, or what it was before the step
    split
    · exact .pure h ⟨⟨rfl, rfl, hfine⟩, fun hs => by rw [hwritten hs]⟩
    · refine .lift (c.also (beforeStep_like _ _ op _ _ hfine _) fun hs => ?_) h
      rw [hwritten hs, c.nullChecks hs]

/-! ## Calls -/

/-- Elements are added alike. -/
theorem grow_twin (h : Twins c s t) (name : String) (target : Expr) {os ps : List Operand}
    (hadded : c.Also Operand.Row os ps) (u : Usage) :
    Agree (c.Also Operand.Like) (grow s name target os u) (grow t name target ps u) := by
  have htarget := h.operandOf target
  unfold grow
  dsimp only
  rw [htarget.1.isSequence, htarget.1.type, htarget.1.elemType]
  have hfine : Ty.Fine (t.operandOf target).type := htarget.1.type ▸ htarget.1.fine
  split
  · exact .error _
  · refine (build_code hadded _).bind fun values values' hvalues => ?_
    split
    · refine .pure ⟨Operand.like_nonNull _ _ (Ty.fine_scalar _), fun hs => ?_⟩
      rw [htarget.2 hs, hvalues hs]
    · split
      · rename_i v _ _
        -- an array grows by an assignment, so it has to be a variable that is known
        rcases rel_cases (h.binding? v) with ⟨b, b', hb, hb', hbb'⟩ | ⟨hb, hb'⟩
        · rw [hb, hb']
          dsimp only
          split
          · refine .pure ⟨Operand.like_nonNull _ _ hfine, fun hs => ?_⟩
            rw [hbb'.name, hvalues hs]
          · refine .pure ⟨Operand.like_nonNull _ _ (Ty.fine_scalar _), fun hs => ?_⟩
            rw [hbb'.name, hvalues hs]
        · rw [hb, hb']
          exact .throw _
      · exact .throw _

theorem shrink_twin (h : Twins c s t) (name : String) {os ps : List Operand}
    (hargs : c.Also Operand.Row os ps) :
    Agree (c.Also Operand.Like) (shrink s name os) (shrink t name ps) := by
  -- without an argument the parameter of the subroutine is meant, if there is one
  have htarget : Agree (c.Also Operand.Like) (shrinkTarget s name os) (shrinkTarget t name ps) := by
    obtain ⟨hrow, heq⟩ := hargs
    unfold shrinkTarget
    rw [h.frames]
    cases hrow with
    | cons ho _ => exact .ok ⟨ho, fun hs => (List.cons.inj (heq hs)).1⟩
    | nil =>
      cases t.frames with
      | nil => exact .error _
      | cons f _ => exact .ok (.refl c (.refl (Ty.fine_some trivial)))
  refine htarget.bind fun o p hop => ?_
  rw [hop.1.type, hop.1.elemType]
  have helem : Ty.Fine p.elemType := hop.1.elemType ▸ hop.1.fine_elem
  split
  · refine .pure ⟨Operand.like_ofElement _ _ helem, fun hs => ?_⟩
    rw [hop.2 hs]
  · exact .throw _

/-- The value of a builtin function, and whether it has an effect. -/
def Comparison.Built (c : Comparison) (a b : Operand × Bool) : Prop :=
  c.Also Operand.Like a.1 b.1 ∧ a.2 = b.2

/-- A value with an effect or without. -/
theorem built_of {x y : Except Fault Operand} (h : Agree (c.Also Operand.Like) x y)
    (effect : Bool) :
    Agree c.Built (do return (← x, effect)) (do return (← y, effect)) :=
  h.bind fun _ _ hab => .pure ⟨hab, rfl⟩

theorem stringOperand_code (h : c.Also Operand.Like o p) :
    Agree c.Code (stringOperand o) (stringOperand p) :=
  c.code (stringOperand_alike h.1) fun hs => by rw [h.2 hs]

theorem mapPart_also (name : String) (h : c.Also Operand.Like o p) (u : Usage) :
    Agree (c.Also Operand.Like) (mapPart name o u) (mapPart name p u) :=
  c.also (mapPart_like name h.1 u) fun hs => by rw [h.2 hs]

/-- A builtin function of one argument and more. -/
theorem builtinOn_built (h : Twins c s t) (name : String) (first : Expr) (rest : List Expr)
    (u : Usage) :
    Agree c.Built (builtinOn c.left.nullChecks s name first rest u)
      (builtinOn c.right.nullChecks t name first rest u) := by
  have hfirst := h.operandOf first
  have hrest := h.operands rest
  unfold builtinOn
  dsimp only
  split
  · -- join
    refine (stringOperand_code hfirst).bind fun sep sep' hsep => ?_
    refine (build_code hrest _).bind fun list list' hlist => ?_
    refine .pure ⟨⟨Operand.like_nonNull _ _ (Ty.fine_scalar _), fun hs => ?_⟩, rfl⟩
    rw [hsep hs, hlist hs]
  · -- length
    refine (stringOperand_code hfirst).bind fun code code' hcode => ?_
    refine .pure ⟨⟨Operand.like_nonNull _ _ (Ty.fine_scalar _), fun hs => ?_⟩, rfl⟩
    rw [hcode hs]
  · -- defined
    exact .pure ⟨⟨definedOperand_like _ _, fun hs => by rw [hfirst.2 hs]⟩, rfl⟩
  · -- scalar
    exact built_of (c.also (scalarOperand_like hfirst.1) fun hs => by rw [hfirst.2 hs]) false
  · -- delete, which the access has done
    rcases rel_cases (h.path? first) with ⟨x, y, hx, hy, -⟩ | ⟨hx, hy⟩
    · rw [hx, hy]
      exact .pure ⟨hfirst, rfl⟩
    · rw [hx, hy]
      exact .throw _
  · -- exists
    rcases rel_cases (h.path? first) with ⟨x, y, hx, hy, hxy⟩ | ⟨hx, hy⟩
    · rw [hx, hy]
      refine built_of (c.also (Path.isPresent_like hxy.1) fun hs => ?_) false
      rw [hxy.2 hs, c.nullChecks hs]
    · rw [hx, hy]
      exact .throw _
  -- keys and values, then push and unshift
  · exact built_of (mapPart_also _ hfirst u) false
  · exact built_of (mapPart_also _ hfirst u) false
  · exact built_of (grow_twin h _ first hrest u) true
  · exact built_of (grow_twin h _ first hrest u) true
  · exact .throw _

theorem printOutput_built (h : Twins c s t) (name : String) (args : List Expr) :
    Agree c.Built (printOutput s name args) (printOutput t name args) := by
  refine (build_code (h.operands args) _).bind fun list list' hlist => ?_
  refine .pure ⟨⟨Operand.like_nonNull _ _ (Ty.fine_scalar _), fun hs => ?_⟩, rfl⟩
  rw [hlist hs]

theorem builtin_built (h : Twins c s t) (name : String) (args : List Expr) (u : Usage) :
    Agree c.Built (builtin c.left.nullChecks s name args u)
      (builtin c.right.nullChecks t name args u) := by
  have hargs := h.operands args
  -- the name alone decides which builtin it is
  unfold builtin
  split
  · exact printOutput_built h "print" args
  · exact printOutput_built h "say" args
  · exact printOutput_built h "die" args
  · exact printOutput_built h "warn" args
  · exact built_of (shrink_twin h _ hargs) true
  · exact built_of (shrink_twin h _ hargs) true
  · dsimp only
    split
    · exact .throw _
    split
    · exact builtinOn_built h name _ _ u
    · exact .throw _

theorem toOutput_also (h : c.Also Operand.Like o p) : c.Also Output.Like o.toOutput p.toOutput :=
  ⟨h.1.toOutput, fun hs => by rw [h.2 hs]⟩

theorem callOutput_twin (id : Nat) (name : String) (args : List Expr) (u : Usage) :
    Twin c (c.Also Output.Like) (callOutput id name args u) (callOutput id name args u) := by
  intro s t h
  refine .get_bind ?_
  rw [← h.subs]
  split
  -- a call of a subroutine has an effect, whatever the subroutine does
  · rename_i sub hsub
    obtain ⟨htype, hplaced⟩ := h.called id sub hsub
    have hname : s.subName sub = t.subName sub := h.inClass hplaced _
    refine .lift_bind (build_code (h.operands args) _) h fun list list' hlist => ?_
    refine (markEffect_twin id s t h).bind fun _ _ s' t' h' _ => ?_
    refine .pure h' ⟨⟨rfl, rfl, Ty.fine_some htype⟩, fun hs => ?_⟩
    rw [hname, hlist hs]
  -- a builtin has an effect in both runs or in neither
  · refine .read_bind (.lift_bind (builtin_built h name args u) h fun a b hab => ?_)
    obtain ⟨a, effect⟩ := a
    obtain ⟨b, effect'⟩ := b
    obtain ⟨hlike, rfl⟩ := hab
    dsimp only
    split
    · exact (markEffect_twin id s t h).bind fun _ _ s t h _ => .pure h (toOutput_also hlike)
    · exact .pure h (toOutput_also hlike)

/-! ## Variables and accesses -/

theorem Bound.of_table {s' t' : State} {b b' : Binding} (h : Bound s t b b')
    (hs : s'.table = s.table) (ht : t'.table = t.table) : Bound s' t' b b' := by
  refine ⟨h.like, h.type, ?_⟩
  have hname := h.name
  unfold State.nameOf State.inClass at hname ⊢
  rw [hs, ht]
  exact hname

theorem table_addField (st : State) (b : Binding) : (st.addField b).table = st.table := by
  unfold State.addField
  split <;> rfl

theorem nameOutput_twin {b b' : Binding} (h : Twins c s t) (hb : Bound s t b b') :
    TwinAt c (fun a b _ _ => c.Also Output.Like a b) (nameOutput b) (nameOutput b') s t := by
  refine .get_bind (.pure h ⟨⟨?_, rfl, Ty.fine_some hb.type⟩, fun _ => ?_⟩)
  · rw [hb.like.type]
  · rw [hb.like.type, hb.name]

theorem localOutput_twin (v : Variable) (u : Usage) {b b' : Binding} (h : Twins c s t)
    (hb : Bound s t b b') :
    TwinAt c (fun a b _ _ => c.Also Output.Like a b) (localOutput v u b) (localOutput v u b')
      s t := by
  refine .get_bind ?_
  rw [h.isLocalDecl v]
  dsimp only
  split
  · refine .change_bind (nameOutput_twin ?_ (hb.of_table rfl rfl))
    rw [hb.like.type, hb.like.javaName]
    exact h.queue _
  · exact nameOutput_twin h hb

/-- A variable is named alike, and is declared alike where it is declared. -/
theorem variableOutput_twin (v : Variable) (u : Usage) :
    Twin c (c.Also Output.Like) (variableOutput v u) (variableOutput v u) := by
  intro s t h
  rw [variableOutput_eq]
  refine .get_bind (.lift_bind (h.bindingOf v) h fun b b' hb => ?_)
  rw [hb.like.isField]
  dsimp only
  split
  · exact .change_bind (localOutput_twin v u (h.addField hb.like)
      (hb.of_table (table_addField s b) (table_addField t b')))
  · exact localOutput_twin v u h hb

theorem pathOutput_twin (id : Nat) (hx : c.Also Path.Like x y) (u : Usage) :
    Twin c (c.Also Output.Like) (pathOutput id x u) (pathOutput id y u) := by
  intro s t h
  unfold pathOutput
  refine .read_bind ?_
  refine (TwinAt.change (h.putPath id hx)).bind fun _ _ s t h _ => ?_
  -- what the path is used for decides which of its codes is wanted
  split
  · refine .lift_bind (c.also (Path.delete_like hx.1) fun hs => ?_) h fun a b hab => ?_
    · rw [hx.2 hs, c.nullChecks hs]
    · exact (markEffect_twin id s t h).bind fun _ _ s t h _ => .pure h (toOutput_also hab)
  split
  · refine .lift_bind (Path.target_agree hx.1) h fun a b hab => ?_
    obtain ⟨rfl, hfine⟩ := hab
    exact .pure h (.refl c ⟨rfl, rfl, hfine⟩)
  · refine .lift_bind (c.also (Path.read_like hx.1) fun hs => ?_) h fun a b hab => ?_
    · rw [hx.2 hs, c.nullChecks hs]
    · exact .pure h (toOutput_also hab)

theorem accessPath_also (h : Twins c s t) (throughRef : Bool) (target key : Expr) (brace : Bool)
    (context : Sigil) :
    c.Also Path.Like (accessPath s throughRef target key brace context)
      (accessPath t throughRef target key brace context) := by
  -- the shapes agree in any case, and the codes when the options are the same
  constructor
  · refine ⟨(h.operandOf target).1, ?_, rfl, rfl, rfl, rfl, rfl, rfl⟩
    unfold accessPath
    dsimp only
    split
    · exact (h.operands _).1
    · exact (h.operands [key]).1
  · intro hs
    unfold accessPath
    rw [(h.operandOf target).2 hs]
    split
    · rw [(h.operands _).2 hs]
    · rw [(h.operandOf key).2 hs]

theorem derefPath_also (h : Twins c s t) (target : Expr) (sigil : Sigil) :
    c.Also Path.Like (derefPath s target sigil) (derefPath t target sigil) := by
  refine ⟨⟨(h.operandOf target).1, .nil, rfl, rfl, rfl, rfl, rfl, rfl⟩, fun hs => ?_⟩
  unfold derefPath
  rw [(h.operandOf target).2 hs]

/-! ## All expressions -/

/-- What is generated for an expression is alike in both runs. -/
theorem exprOutput_twin {e : Expr} (he : Ty.Fine e.writtenType) (u : Usage) :
    Twin c (c.Also Output.Like) (exprOutput e u) (exprOutput e u) := by
  intro s t h
  refine .get_bind (.read_bind ?_)
  -- each construct is generated from the outputs of its parts, which are alike
  cases e with
  | number i text => exact .lift (c.also (numberOutput_like text) fun _ => rfl) h
  | string i pieces es =>
    have hes := h.operands es
    exact .lift (c.also (stringOutput_like pieces hes.1) fun hs => by rw [hes.2 hs]) h
  | undef i => exact .pure h (.refl c ⟨rfl, rfl, Ty.fine_scalar _⟩)
  | var v => exact variableOutput_twin v u s t h
  | index i throughRef target key brace context =>
    exact pathOutput_twin i.id (accessPath_also h throughRef target key brace context) u s t h
  | deref i target sigil => exact pathOutput_twin i.id (derefPath_also h target sigil) u s t h
  | makeRef i target =>
    have htarget := h.operandOf target
    exact .pure h (toOutput_also ⟨htarget.1.makeRef, fun hs => by rw [htarget.2 hs]⟩)
  | anonArray i es type =>
    have hes := h.operands es
    exact .lift (c.also (anonArrayOutput_like hes.1 he) fun hs => by rw [hes.2 hs]) h
  | anonHash i es type =>
    have hes := h.operands es
    exact .lift (c.also (anonHashOutput_like hes.1 he) fun hs => by rw [hes.2 hs]) h
  | list i es =>
    have hes := h.operands es
    have hlist : TwinAt c (fun a b _ _ => c.Also Output.Like a b)
        (liftM (listOutput (s.operands es) u)) (liftM (listOutput (t.operands es) u)) s t :=
      .lift (c.also (listOutput_like hes.1 u) fun hs => by rw [hes.2 hs]) h
    -- a list of one expression is that expression
    match es, hlist with
    | [], hlist => exact hlist
    | [x], _ => exact .pure h (h.output x.id)
    | _ :: _ :: _, hlist => exact hlist
  | assign i op left right => exact assignOutput_twin op left right u s t h
  | incDec i op before target => exact stepOutput_twin op before target u s t h
  | binary i op left right =>
    refine (binaryValue_twin op (h.operandOf left) (h.operandOf right) left.isRepeatable u s t
      h).bind fun a b s t h hab => ?_
    exact .pure h (toOutput_also hab)
  | unary i op x =>
    have hx := h.operandOf x
    have hout := h.output x.id
    refine .lift (c.also (unaryOutput_like op hx.1 hout.1) fun hs => ?_) h
    rw [hx.2 hs, hout.2 hs, c.nullChecks hs]
  | ternary i cond yes no =>
    have hcond := h.operandOf cond
    have hyes := h.operandOf yes
    have hno := h.operandOf no
    refine .lift (c.also (ternaryOutput_like hcond.1 hyes.1 hno.1) fun hs => ?_) h
    rw [hcond.2 hs, hyes.2 hs, hno.2 hs, c.nullChecks hs]
  | call i package name args => exact callOutput_twin i.id name args u s t h

end TypedPerl.Compile
