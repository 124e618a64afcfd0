import TypedPerl.Proofs.Walk.Settled
import TypedPerl.Proofs.Walk.Texts

/-!
# Effects are not lost

Calls, assignments and steps change something when they run. Whatever stands around such a node in
an expression, its code occurs in the code of the expression. In an odd row of values of which a map
is made, the code that raises an error occurs in its place. Nothing is said of the arguments that a
builtin function leaves out, and of lists in places where their values are not used.

`Told st e n text` says that a text has one of these things for the node `n` of `e`. From what each
generator keeps of its operands it follows for every expression that the walk has settled, by
induction on its parts (`sound_of_made`).
-/

namespace TypedPerl

namespace Expr

/-- The parts that are evaluated nowhere: the arguments that a builtin function leaves out. -/
def leftOut : Expr → List Expr
  | call _ package name args =>
    if isBuiltin package name then Compile.unusedArgs name args else []
  | _ => []

/-- The lists that have no code of their own where the value of the expression is not used: an
operator that is evaluated for its right side hands its usage on. -/
def silent : Expr → List Expr
  | list _ [x] => x.silent
  | list _ es => es
  | binary _ op _ right => if isLogical op then right.silent else []
  | _ => []

/-- The places that an assignment or a step changes. -/
def targets : Expr → List Expr
  | assign _ _ left _ => Compile.targetsOf left
  | incDec _ _ _ target => [target]
  | _ => []

end Expr

/-- One value, a row of values or a truth value is wanted, and nothing is assigned. -/
def Usage.isPlain (u : Usage) : Bool :=
  !u.assigned && !u.updated && !u.isVoid

namespace Compile

open Text (Within Shown)
open TypedPerl.Expr (Everywhere)
open Collection (Kept)

/-- The values in odd rows of which the expression makes a map. -/
def State.oddRowOf (st : State) : Expr → List Expr
  | .anonArray _ es t => if (writtenContainer t).any Ty.isMap then st.oddRow es else []
  | .anonHash _ es _ => st.oddRow es
  | .assign i op _ right =>
    if op = "=" && (st.output i.id).type.any Ty.isMap then st.oddRow (rowOf right) else []
  | _ => []

/-- What a text has for the node `n` of the expression `e`: the code of the node, the error of an
odd row that it stands in, or nothing if it stands in an argument that is left out. -/
def Told (st : State) (e n : Expr) (text : String) : Prop :=
  Shown (st.output n.id).code text ∨
  ((∃ m ∈ e.preorder, ∃ d ∈ st.oddRowOf m, n ∈ d.preorder) ∧ Shown Conversion.arityThrow text) ∨
  ∃ m ∈ e.preorder, ∃ d ∈ m.leftOut, n ∈ d.preorder

/-- The text has something for each node inside `x` that changes something. -/
def Tells (st : State) (e : Expr) (text : String) (x : Expr) : Prop :=
  ∀ n ∈ x.preorder, n.changes = true → Told st e n text

variable {env : Env} {S : State} {e x : Expr} {u v : Usage} {text text' : String}

theorem Told.mono {n : Expr} (h : Told S x n text) (hsub : ∀ m ∈ x.preorder, m ∈ e.preorder)
    (hle : Within text text') : Told S e n text' := by
  rcases h with h | ⟨⟨m, hm, hodd⟩, h⟩ | ⟨m, hm, hout⟩
  · exact .inl (h.within hle)
  · exact .inr (.inl ⟨⟨m, hsub m hm, hodd⟩, h.within hle⟩)
  · exact .inr (.inr ⟨m, hsub m hm, hout⟩)

/-- An expression in which something changes is no literal and not undefined. -/
theorem live_of_changes {n : Expr} (hplaces : x.hasPlaces = true) (hn : n ∈ x.preorder)
    (hchanges : n.changes = true) : (S.operandOf x).Live := by
  -- a literal has no parts
  have hself (h : x.preorder = [x]) : x.changes = true := by
    rw [h] at hn
    exact List.mem_singleton.mp hn ▸ hchanges
  constructor
  · show x.isConstant = false
    cases x with
    | number i text => exact absurd (hself rfl) Bool.false_ne_true
    | string i pieces es =>
      rw [Expr.isConstant, Bool.not_eq_false']
      by_contra hplain
      obtain rfl : es = [] := by
        simpa [Expr.hasPlaces, Expr.places_eq_zero hplain] using hplaces
      exact absurd (hself rfl) Bool.false_ne_true
    | _ => rfl
  · show x.isUndef = false
    cases x with
    | undef i => exact absurd (hself rfl) Bool.false_ne_true
    | _ => rfl

/-! ## Parts that are kept -/

/-- What is known of an expression that the walk has settled. -/
structure Sound (env : Env) (S : State) (e : Expr) (u : Usage) : Prop where
  made : Made env S e u
  places : e.hasPlaces = true
  /-- The code tells of all that changes something in the expression, except for lists in a place
  where only the effect is wanted. -/
  tells : (u.assigned || u.updated) = false → ∀ n ∈ e.preorder, n.changes = true →
    (u.isVoid = true ∧ ∃ c ∈ e.silent, n ∈ c.preorder) ∨ Told S e n (S.output e.id).code

/-- A text that holds the code of a part tells of what changes in the part. -/
theorem Sound.tells_of_kept (hx : Sound env S x v) (hv : v.isPlain = true)
    (hmem : ∀ m ∈ x.preorder, m ∈ e.preorder)
    (hkept : (S.operandOf x).Live → Within (S.operandOf x).code text) : Tells S e text x := by
  intro n hn hchanges
  simp only [Usage.isPlain, Bool.and_eq_true, Bool.not_eq_true'] at hv
  obtain ⟨⟨hassigned, hupdated⟩, hvoid⟩ := hv
  have hlive := live_of_changes (S := S) hx.places hn hchanges
  rcases hx.tells (by simp [hassigned, hupdated]) n hn hchanges with ⟨h, -⟩ | h
  · rw [hvoid] at h
    cases h
  · exact h.mono hmem (hkept hlive)

/-- So does a text that holds the code of the part, or the error of its odd row, or nothing where
the part is left out. -/
theorem Sound.tells_of_fate (hx : Sound env S x v) (hv : v.isPlain = true)
    (hmem : ∀ m ∈ x.preorder, m ∈ e.preorder)
    (h : (S.operandOf x).Live →
      x ∈ e.leftOut ∨ Kept (x ∈ S.oddRowOf e) (S.operandOf x).code text) : Tells S e text x := by
  intro n hn hchanges
  have hlive := live_of_changes (S := S) hx.places hn hchanges
  rcases h hlive with hout | hkept | ⟨hodd, hraise⟩
  · exact .inr (.inr ⟨e, e.self_mem_preorder, x, hout, hn⟩)
  · exact hx.tells_of_kept hv hmem (fun _ => hkept) n hn hchanges
  · exact .inr (.inl ⟨⟨e, e.self_mem_preorder, x, hodd, hn⟩, .of_within hraise⟩)

/-- The code of an expression tells of the expression itself, and so of all if it tells of the
parts. -/
theorem tells_of_parts (u : Usage) (h : ∀ p ∈ e.parts u, Tells S e (S.output e.id).code p.1) :
    Tells S e (S.output e.id).code e := by
  intro n hn hchanges
  rcases (Expr.mem_preorder_iff u).mp hn with rfl | ⟨p, hp, hn⟩
  · exact .inl (.of_within (.refl _))
  · exact h p hp n hn hchanges

/-- An expression that changes nothing itself tells of its parts. -/
theorem tells_of_parts_only (u : Usage) (hself : x.changes = false)
    (h : ∀ p ∈ x.parts u, Tells S e text p.1) : Tells S e text x := by
  intro n hn hchanges
  rcases (Expr.mem_preorder_iff u).mp hn with rfl | ⟨p, hp, hn⟩
  · rw [hself] at hchanges
    cases hchanges
  · exact h p hp n hn hchanges

theorem part_subset {p : Expr × Usage} (hp : p ∈ e.parts u) : ∀ m ∈ p.1.preorder, m ∈ e.preorder :=
  fun _ hm => (Expr.mem_preorder_iff u).mpr (.inr ⟨p, hp, hm⟩)

/-- What the generator gives whenever the parts have their outputs, it has given. -/
theorem Made.gives (h : Made env S e u) (post : Output → Prop)
    (hpost : ∀ st, (∀ n ∈ partNodes (e.parts u), S.SameAt n st) → Resolved st e →
      GivesAt (exprOutput e u) env st post) : post (S.output e.id) := by
  obtain ⟨st, st', hsame, hresolved, hrun⟩ := h.generated
  exact hpost st hsame hresolved _ st' hrun

theorem operandOf_part {st : State} (h : ∀ n ∈ partNodes (e.parts u), S.SameAt n st)
    {x : Expr} {v : Usage} (hx : (x, v) ∈ e.parts u) : st.operandOf x = S.operandOf x :=
  (h _ (id_mem_partNodes hx x.self_mem_preorder)).operandOf

theorem operands_parts {st : State} (h : ∀ n ∈ partNodes (e.parts u), S.SameAt n st)
    {es : List Expr} (hes : ∀ x ∈ es, ∃ v, (x, v) ∈ e.parts u) :
    st.operands es = S.operands es := by
  refine operands_congr fun x hx => ?_
  obtain ⟨v, hv⟩ := hes x hx
  exact h _ (id_mem_partNodes hv x.self_mem_preorder)

/-! ## Values -/

section Values

variable {i : Info} {es : List Expr}

theorem tells_string {pieces : List (Option String)} (hmade : Made env S (.string i pieces es) u)
    (hplaces : (Expr.string i pieces es).hasPlaces = true)
    (hparts : ∀ p ∈ (Expr.string i pieces es).parts u, Everywhere (Sound env S) p.1 p.2) :
    Tells S (.string i pieces es) (S.output i.id).code (.string i pieces es) := by
  -- there is a piece for each embedded part, so none of them is left out
  have hlength : (S.operands es).length = Expr.places pieces := by
    simpa [State.operands, Expr.hasPlaces] using hplaces
  have hkept := hmade.gives (fun out => ∀ o ∈ S.operands es, o.Live → Within o.code out.code)
    fun st hsame _ => by
      refine .get_bind (.read_bind ?_)
      dsimp only
      rw [operands_parts hsame fun x hx => ⟨_, List.mem_map_of_mem hx⟩]
      exact .lift (stringOutput_kept hlength)
  refine tells_of_parts u fun p hp => ?_
  obtain ⟨x, hx, rfl⟩ := List.mem_map.mp hp
  exact (hparts _ hp).self.tells_of_kept rfl (part_subset hp) (hkept _ (List.mem_map_of_mem hx))

theorem tells_makeRef {target : Expr} (hmade : Made env S (.makeRef i target) u)
    (hparts : ∀ p ∈ (Expr.makeRef i target).parts u, Everywhere (Sound env S) p.1 p.2) :
    Tells S (.makeRef i target) (S.output i.id).code (.makeRef i target) := by
  have hkept := hmade.gives (fun out => Within (S.operandOf target).code out.code)
    fun st hsame _ => by
      refine .get_bind (.read_bind ?_)
      dsimp only
      rw [operandOf_part hsame List.mem_cons_self]
      exact .pure (makeRef_kept _)
  refine tells_of_parts u fun p hp => ?_
  obtain rfl := List.mem_singleton.mp hp
  exact (hparts _ hp).self.tells_of_kept rfl (part_subset hp) fun _ => hkept

/-- A new container tells of its elements. -/
theorem tells_row {isMap : Bool} (hes : ∀ p ∈ e.parts u, p.1 ∈ es ∧ p.2.isPlain = true)
    (hparts : ∀ p ∈ e.parts u, Everywhere (Sound env S) p.1 p.2)
    (hodd : isMap = true → S.oddRow es = S.oddRowOf e)
    (hkept : RowKept S es isMap (S.output e.id).code) : Tells S e (S.output e.id).code e := by
  refine tells_of_parts u fun p hp => ?_
  refine (hparts p hp).self.tells_of_fate (hes p hp).2 (part_subset hp) fun hlive => .inr ?_
  exact (hkept p.1 (hes p hp).1 hlive).imp_odd fun h => hodd h.1 ▸ h.2

theorem tells_anonArray {t : Option Ty} (hmade : Made env S (.anonArray i es t) u)
    (hparts : ∀ p ∈ (Expr.anonArray i es t).parts u, Everywhere (Sound env S) p.1 p.2) :
    Tells S (.anonArray i es t) (S.output i.id).code (.anonArray i es t) := by
  have hkept := hmade.gives
    (fun out => RowKept S es ((writtenContainer t).any Ty.isMap) out.code) fun st hsame _ => by
      refine .get_bind (.read_bind ?_)
      dsimp only
      rw [operands_parts hsame fun x hx => ⟨_, List.mem_map_of_mem hx⟩]
      exact .lift (anonArrayOutput_kept S es t)
  refine tells_row (fun p hp => ?_) hparts (fun hmap => ?_) hkept
  · obtain ⟨x, hx, rfl⟩ := List.mem_map.mp hp
    exact ⟨hx, rfl⟩
  · rw [State.oddRowOf, hmap, if_pos rfl]

theorem tells_anonHash {t : Option Ty} (hmade : Made env S (.anonHash i es t) u)
    (hparts : ∀ p ∈ (Expr.anonHash i es t).parts u, Everywhere (Sound env S) p.1 p.2) :
    Tells S (.anonHash i es t) (S.output i.id).code (.anonHash i es t) := by
  have hkept := hmade.gives (fun out => RowKept S es true out.code) fun st hsame _ => by
    refine .get_bind (.read_bind ?_)
    dsimp only
    rw [operands_parts hsame fun x hx => ⟨_, List.mem_map_of_mem hx⟩]
    exact .lift (anonHashOutput_kept S es t)
  refine tells_row (fun p hp => ?_) hparts (fun _ => rfl) hkept
  obtain ⟨x, hx, rfl⟩ := List.mem_map.mp hp
  exact ⟨hx, rfl⟩

theorem tells_unary {op : String} (hmade : Made env S (.unary i op x) u)
    (hparts : ∀ p ∈ (Expr.unary i op x).parts u, Everywhere (Sound env S) p.1 p.2) :
    Tells S (.unary i op x) (S.output i.id).code (.unary i op x) := by
  have hkept := hmade.gives
    (fun out => (S.operandOf x).Live → Within (S.operandOf x).code out.code) fun st hsame _ => by
      refine .get_bind (.read_bind ?_)
      dsimp only
      rw [← operandOf_part hsame List.mem_cons_self]
      exact .lift (unaryOutput_kept _ _ _ _ rfl)
  -- neither use of an operand allows it to go untold
  have husage : (operandUsage op).isPlain = true := by
    unfold operandUsage
    split <;> rfl
  refine tells_of_parts u fun p hp => ?_
  obtain rfl := List.mem_singleton.mp hp
  exact (hparts _ hp).self.tells_of_kept husage (part_subset hp) hkept

theorem tells_ternary {cond yes no : Expr} (hmade : Made env S (.ternary i cond yes no) u)
    (hparts : ∀ p ∈ (Expr.ternary i cond yes no).parts u, Everywhere (Sound env S) p.1 p.2) :
    Tells S (.ternary i cond yes no) (S.output i.id).code (.ternary i cond yes no) := by
  have hkept := hmade.gives (fun out =>
      ∀ p ∈ (Expr.ternary i cond yes no).parts u,
        (S.operandOf p.1).Live → Within (S.operandOf p.1).code out.code) fun st hsame _ => by
    refine .get_bind (.read_bind (.lift ?_))
    refine (ternaryOutput_kept _ _ _ _).mono fun out hout p hp => ?_
    rw [← operandOf_part hsame hp]
    simp only [Expr.parts, List.mem_cons, List.not_mem_nil, or_false] at hp
    rcases hp with rfl | rfl | rfl
    · exact hout.1
    · exact hout.2.1
    · exact hout.2.2
  -- the branches are used as the whole is, but never as a statement
  have hbranch : (branchUsage u).isPlain = true := by
    unfold branchUsage
    split <;> rfl
  refine tells_of_parts u fun p hp => ?_
  refine (hparts p hp).self.tells_of_kept ?_ (part_subset hp) (hkept p hp)
  simp only [Expr.parts, List.mem_cons, List.not_mem_nil, or_false] at hp
  rcases hp with rfl | rfl | rfl
  · rfl
  · exact hbranch
  · exact hbranch

/-- A list of one element has the code of the element. -/
theorem tells_single (hmade : Made env S (.list i [x]) u) (hu : (u.assigned || u.updated) = false)
    (hparts : ∀ p ∈ (Expr.list i [x]).parts u, Everywhere (Sound env S) p.1 p.2) :
    ∀ n ∈ (Expr.list i [x]).preorder, n.changes = true →
      (u.isVoid = true ∧ ∃ c ∈ x.silent, n ∈ c.preorder) ∨
        Told S (.list i [x]) n (S.output i.id).code := by
  have hpart : (x, elementUsage 1 u) ∈ (Expr.list i [x]).parts u := List.mem_cons_self
  have hsame := hmade.gives (fun out => out = S.output x.id) fun st hsame _ => by
    refine .get_bind (.read_bind (.pure ?_))
    unfold State.output
    rw [(hsame _ (id_mem_partNodes hpart x.self_mem_preorder)).output]
  change S.output i.id = S.output x.id at hsame
  -- the element is used as the list is
  have husage : (elementUsage 1 u).isVoid = u.isVoid ∧
      ((elementUsage 1 u).assigned || (elementUsage 1 u).updated) = false := by
    obtain ⟨hassigned, hupdated⟩ := Bool.or_eq_false_iff.mp hu
    cases hvoid : u.isVoid with
    | true =>
      have hvoid : elementUsage 1 u = .void := by simp [elementUsage, hvoid, hassigned]
      rw [hvoid]
      exact ⟨rfl, rfl⟩
    | false => simp [elementUsage, hvoid, hassigned, hupdated]
  intro n hn hchanges
  rcases (Expr.mem_preorder_iff u).mp hn with rfl | ⟨p, hp, hn⟩
  · cases hchanges
  obtain rfl := List.mem_singleton.mp hp
  rw [hsame]
  rcases (hparts _ hp).self.tells husage.2 n hn hchanges with ⟨hvoid, hsilent⟩ | htold
  · exact .inl ⟨husage.1 ▸ hvoid, hsilent⟩
  · exact .inr (htold.mono (part_subset hp) (.refl _))

/-- A list of several elements holds the code of each, where its value is used. -/
theorem tells_several (hlength : es.length ≠ 1) (hmade : Made env S (.list i es) u)
    (hu : u.isPlain = true)
    (hparts : ∀ p ∈ (Expr.list i es).parts u, Everywhere (Sound env S) p.1 p.2) :
    Tells S (.list i es) (S.output i.id).code (.list i es) := by
  simp only [Usage.isPlain, Bool.and_eq_true, Bool.not_eq_true'] at hu
  obtain ⟨⟨hassigned, hupdated⟩, hvoid⟩ := hu
  have hkept := hmade.gives (fun out => ∀ o ∈ S.operands es, o.Live → Within o.code out.code)
    fun st hsame _ => by
      refine .get_bind (.read_bind ?_)
      have hgenerate : GivesAt (liftM (listOutput (st.operands es) u)) env st fun out =>
          ∀ o ∈ S.operands es, o.Live → Within o.code out.code := by
        rw [operands_parts hsame fun x hx => ⟨_, List.mem_map_of_mem hx⟩]
        exact .lift (listOutput_kept _ (by rw [hassigned, hvoid]; rfl))
      -- a list of one is the element itself and is not generated as a list
      rcases es with _ | ⟨x, _ | ⟨y, rest⟩⟩
      · exact hgenerate
      · exact absurd rfl hlength
      · exact hgenerate
  have husage : elementUsage es.length u = .list := by
    simp [elementUsage, hassigned, hvoid, hlength]
  refine tells_of_parts u fun p hp => ?_
  have hsound := (hparts p hp).self
  obtain ⟨x, hx, rfl⟩ := List.mem_map.mp hp
  refine hsound.tells_of_kept ?_ (part_subset hp) (hkept _ (List.mem_map_of_mem hx))
  rw [husage]
  rfl

/-- Where its value is not used, a list of several elements has no code of its own. -/
theorem tells_list (hmade : Made env S (.list i es) u) (hu : (u.assigned || u.updated) = false)
    (hparts : ∀ p ∈ (Expr.list i es).parts u, Everywhere (Sound env S) p.1 p.2) :
    ∀ n ∈ (Expr.list i es).preorder, n.changes = true →
      (u.isVoid = true ∧ ∃ c ∈ (Expr.list i es).silent, n ∈ c.preorder) ∨
        Told S (.list i es) n (S.output i.id).code := by
  -- a list of one is what its element is
  by_cases hlength : es.length = 1
  · obtain ⟨x, rfl⟩ := List.length_eq_one_iff.mp hlength
    exact tells_single hmade hu hparts
  intro n hn hchanges
  -- as a statement the list leaves its elements to be told as statements of their own
  cases hvoid : u.isVoid with
  | true =>
    have hsilent : (Expr.list i es).silent = es := by
      rcases es with _ | ⟨x, _ | ⟨y, rest⟩⟩
      · rfl
      · exact absurd rfl hlength
      · rfl
    rcases (Expr.mem_preorder_iff u).mp hn with rfl | ⟨p, hp, hn⟩
    · cases hchanges
    obtain ⟨x, hx, rfl⟩ := List.mem_map.mp hp
    exact .inl ⟨rfl, x, hsilent.symm ▸ hx, hn⟩
  | false =>
    have hplain : u.isPlain = true := by
      obtain ⟨hassigned, hupdated⟩ := Bool.or_eq_false_iff.mp hu
      simp [Usage.isPlain, hassigned, hupdated, hvoid]
    exact .inr (tells_several hlength hmade hplain hparts n hn hchanges)

/-- Both sides of an operator are kept. -/
theorem Made.both {op : String} {left right : Expr}
    (hmade : Made env S (.binary i op left right) u) :
    Both (S.operandOf left) (S.operandOf right) (S.output i.id).code :=
  hmade.gives (fun out => Both (S.operandOf left) (S.operandOf right) out.code)
    fun st hsame _ => by
      refine .get_bind (.read_bind (.bind fun o st' hrun => ?_))
      rw [← operandOf_part hsame List.mem_cons_self,
        ← operandOf_part hsame (List.mem_cons_of_mem _ List.mem_cons_self)]
      exact .pure (binaryValue_kept _ _ _ _ _ _ _ _ _ hrun).both

theorem leftUsage_isPlain (op : String) (u : Usage) : (leftUsage op u).isPlain = true := by
  unfold leftUsage
  split <;> rfl

/-- A logical operator whose value is not used hands this on to its right side. -/
theorem tells_binary {op : String} {left right : Expr}
    (hmade : Made env S (.binary i op left right) u)
    (hparts : ∀ p ∈ (Expr.binary i op left right).parts u, Everywhere (Sound env S) p.1 p.2) :
    ∀ n ∈ (Expr.binary i op left right).preorder, n.changes = true →
      (u.isVoid = true ∧ ∃ c ∈ (Expr.binary i op left right).silent, n ∈ c.preorder) ∨
        Told S (.binary i op left right) n (S.output i.id).code := by
  have hkept := hmade.both
  have hplain := leftUsage_isPlain op u
  intro n hn hchanges
  rcases (Expr.mem_preorder_iff u).mp hn with rfl | ⟨p, hp, hn⟩
  · cases hchanges
  have hsound := (hparts p hp).self
  have hsub := part_subset hp
  simp only [Expr.parts, List.mem_cons, List.not_mem_nil, or_false] at hp
  rcases hp with rfl | rfl
  · exact .inr (hsound.tells_of_kept hplain hsub hkept.1 n hn hchanges)
  -- the guarded side of a logical operator is itself a statement
  · by_cases hvoid : (isLogical op && u.isVoid) = true
    · have husage : rightUsage op u = .void := if_pos hvoid
      rw [husage] at hsound
      rw [Bool.and_eq_true] at hvoid
      rcases hsound.tells rfl n hn hchanges with ⟨-, hsilent⟩ | htold
      · refine .inl ⟨hvoid.2, ?_⟩
        rw [Expr.silent, if_pos hvoid.1]
        exact hsilent
      · have hlive := live_of_changes (S := S) hsound.places hn hchanges
        exact .inr (htold.mono hsub (hkept.2 hlive))
    · have husage : rightUsage op u = leftUsage op u := if_neg hvoid
      rw [husage] at hsound
      exact .inr (hsound.tells_of_kept hplain hsub hkept.2 n hn hchanges)

end Values

/-! ## Places and rows -/

/-- A text that holds the code of each expression of a row tells of the row. -/
theorem tells_of_row (hx : Everywhere (Sound env S) x v) (hv : v.isPlain = true)
    (hmem : ∀ m ∈ x.preorder, m ∈ e.preorder)
    (h : ∀ y ∈ rowOf x, (S.operandOf y).Live →
      Kept (y ∈ S.oddRowOf e) (S.operandOf y).code text) : Tells S e text x := by
  unfold rowOf at h
  cases hseveral : severalElements? (some x) with
  | none =>
    rw [hseveral] at h
    exact hx.self.tells_of_fate hv hmem fun hlive => .inr (h x (List.mem_singleton_self x) hlive)
  | some es =>
    rw [hseveral] at h
    obtain ⟨⟨i, rfl⟩, hlength⟩ := severalElements_eq hseveral
    -- the elements of a list that is used for its values are
    have husage : elementUsage es.length v = .list := by
      simp only [Usage.isPlain, Bool.and_eq_true, Bool.not_eq_true'] at hv
      simp [elementUsage, hv.1.1, hv.2, hlength]
    refine tells_of_parts_only v rfl fun p hp => ?_
    have hsound := (hx.part hp).self
    obtain ⟨y, hy, rfl⟩ := List.mem_map.mp hp
    refine hsound.tells_of_fate ?_ (fun m hm => hmem m (part_subset hp m hm)) fun hlive =>
      .inr (h y hy hlive)
    rw [husage]
    rfl

theorem keys_accessPath (st : State) (throughRef : Bool) (target key : Expr) (brace : Bool)
    (context : Sigil) :
    (accessPath st throughRef target key brace context).keys = st.operands (rowOf key) := by
  unfold accessPath rowOf
  cases severalElements? (some key) with
  | none => rfl
  | some es => rfl

theorem keyUsage_isPlain (key : Expr) (context : Sigil) :
    (keyUsage key context).isPlain = true := by
  unfold keyUsage
  split
  · split <;> rfl
  · split <;> rfl

/-- A text that holds the base and the keys of an access tells of the access. -/
theorem tells_of_access {p : Path} (hparts : ∀ q ∈ x.parts v, Everywhere (Sound env S) q.1 q.2)
    (hp : accessOf? S x = some p) (hmem : ∀ m ∈ x.preorder, m ∈ e.preorder)
    (hkept : p.KeptIn text) : Tells S e text x := by
  cases x with
  | index i throughRef target key brace context =>
    cases hp
    refine tells_of_parts_only v rfl fun q hq => ?_
    have hsub : ∀ m ∈ q.1.preorder, m ∈ e.preorder := fun m hm => hmem m (part_subset hq m hm)
    have hsound := hparts q hq
    simp only [Expr.parts, List.mem_cons, List.not_mem_nil, or_false] at hq
    rcases hq with rfl | rfl
    · refine hsound.self.tells_of_kept ?_ hsub fun _ => hkept.base
      cases throughRef <;> rfl
    -- a key may be a row, whose elements are in the path one by one
    · refine tells_of_row hsound (keyUsage_isPlain key context) hsub fun y hy hlive => .inl ?_
      refine hkept.keys rfl _ ?_ hlive
      rw [keys_accessPath]
      exact List.mem_map_of_mem hy
  | deref i target sigil =>
    cases hp
    refine tells_of_parts_only v rfl fun q hq => ?_
    have hsub : ∀ m ∈ q.1.preorder, m ∈ e.preorder := fun m hm => hmem m (part_subset hq m hm)
    have hsound := hparts q hq
    obtain rfl := List.mem_singleton.mp hq
    exact hsound.self.tells_of_kept rfl hsub fun _ => hkept.base
  | _ => cases hp

theorem tells_variable (v : Variable) : Tells S e text (.var v) :=
  tells_of_parts_only .scalar rfl fun _ hp => absurd hp List.not_mem_nil

/-- A text that keeps a target tells of it. -/
theorem tells_of_place (hx : Everywhere (Sound env S) x v)
    (hmem : ∀ m ∈ x.preorder, m ∈ e.preorder) (hkept : PlaceKept S x text) : Tells S e text x := by
  -- an undefined target holds no change; any other one is a place
  rcases hkept with hundef | ⟨hplace, hkept⟩
  · unfold Expr.isUndef at hundef
    split at hundef
    · exact tells_of_parts_only .scalar rfl fun _ hp => absurd hp List.not_mem_nil
    · cases hundef
  · rw [hx.self.made.path] at hkept
    cases x with
    | var v => exact tells_variable v
    | index i throughRef target key brace context =>
      exact tells_of_access (fun q hq => hx.part hq) rfl hmem (hkept _ rfl)
    | deref i target sigil =>
      exact tells_of_access (fun q hq => hx.part hq) rfl hmem (hkept _ rfl)
    | _ => cases hplace

/-- An access that is read or deleted tells of its base and its keys. -/
theorem tells_access {p : Path} (hmade : Made env S e u) (hu : (u.assigned || u.updated) = false)
    (hp : accessOf? S e = some p) (hparts : ∀ q ∈ e.parts u, Everywhere (Sound env S) q.1 q.2) :
    Tells S e (S.output e.id).code e := by
  have hkept := hmade.gives (fun out => p.KeptIn out.code) fun st hsame _ => by
    rw [← accessOf_congr hsame] at hp
    cases e with
    | index i throughRef target key brace context =>
      cases hp
      exact .get_bind (.read_bind (pathOutput_kept _ _ hu _ _))
    | deref i target sigil =>
      cases hp
      exact .get_bind (.read_bind (pathOutput_kept _ _ hu _ _))
    | _ => cases hp
  exact tells_of_access hparts hp (fun m hm => hm) hkept

/-! ## Assignments, steps and calls -/

theorem mem_preorder_of_rowOf (h : x ∈ rowOf e) : x ∈ e.preorder := by
  unfold rowOf at h
  cases hseveral : severalElements? (some e) with
  | none =>
    rw [hseveral] at h
    exact List.mem_singleton.mp h ▸ e.self_mem_preorder
  | some es =>
    rw [hseveral] at h
    exact mem_severalElements hseveral h

theorem oddRow_congr {st : State} {es : List Expr} (h : ∀ x ∈ es, S.SameAt x.id st) :
    st.oddRow es = S.oddRow es :=
  Collection.unkept_congr (fun x hx => by rw [(h x hx).operandOf])
    fun x hx => by rw [(h x hx).operandOf]

theorem SourceKept.congr {st : State} {right : Expr} {t : Option Ty}
    (hkept : SourceKept st right t text) (h : ∀ y ∈ right.preorder, S.SameAt y.id st) :
    SourceKept S right t text := by
  have hrow (y : Expr) (hy : y ∈ rowOf right) : S.SameAt y.id st := h y (mem_preorder_of_rowOf hy)
  rcases hkept with hkept | hkept
  · rw [(h right right.self_mem_preorder).operandOf] at hkept
    exact .inl hkept
  · refine .inr fun y hy hlive => ?_
    have hy' := hkept y hy
    rw [(hrow y hy).operandOf, oddRow_congr hrow] at hy'
    exact hy' hlive

theorem PlaceKept.congr {st : State} (hkept : PlaceKept st x text) (h : S.SameAt x.id st) :
    PlaceKept S x text := by
  refine hkept.imp_right fun hplace => ⟨hplace.1, fun p hp => hplace.2 p ?_⟩
  rw [path_congr h.path]
  exact hp

/-- A text that keeps each target of an assignment tells of all. -/
theorem tells_of_targets (hx : Everywhere (Sound env S) x v)
    (hmem : ∀ m ∈ x.preorder, m ∈ e.preorder)
    (hkept : ∀ target ∈ targetsOf x, PlaceKept S target text) : Tells S e text x := by
  unfold targetsOf at hkept
  split at hkept
  · next i targets =>
    refine tells_of_parts_only v rfl fun p hp => ?_
    have htarget := hx.part hp
    have hsub : ∀ m ∈ p.1.preorder, m ∈ e.preorder := fun m hm => hmem m (part_subset hp m hm)
    obtain ⟨target, ht, rfl⟩ := List.mem_map.mp hp
    exact tells_of_place htarget hsub (hkept target ht)
  · exact tells_of_place hx hmem (hkept x (List.mem_singleton_self x))

/-- A place is its only target. -/
theorem PlaceKept.targetsOf_eq (h : PlaceKept S x text) : targetsOf x = [x] := by
  cases x with
  | list i es =>
    rcases h with h | h
    · cases h
    · cases h.1
  | _ => rfl

theorem targets_subset (h : x ∈ targetsOf e) : x ∈ e.preorder := by
  unfold targetsOf at h
  split at h
  · exact mem_preorder_of_part (u := .list) (List.mem_map_of_mem h) x.self_mem_preorder
  · exact List.mem_singleton.mp h ▸ Expr.self_mem_preorder _

/-- What an assignment that the walk has made keeps of its two sides. -/
theorem Made.assigned {i : Info} {op : String} {left right : Expr}
    (hmade : Made env S (.assign i op left right) u) :
    (op = "=" ∧ Assigned S (targetsOf left) right (S.output i.id)) ∨
      (PlaceKept S left (S.output i.id).code ∧
        ((S.operandOf right).Live → Within (S.operandOf right).code (S.output i.id).code)) := by
  have hright : (right, sourceUsage left) ∈ (Expr.assign i op left right).parts u :=
    List.mem_cons_self
  have hleft : (left, targetUsage op u) ∈ (Expr.assign i op left right).parts u :=
    List.mem_cons_of_mem _ List.mem_cons_self
  refine hmade.gives (fun out => (op = "=" ∧ Assigned S (targetsOf left) right out) ∨
    (PlaceKept S left out.code ∧
      ((S.operandOf right).Live → Within (S.operandOf right).code out.code)))
    fun st hsame _ => .get_bind (.read_bind fun out st' hrun => ?_)
  -- what was kept at the time of the assignment is read in the final state
  rcases assignOutput_kept op left right u env st out st' hrun with ⟨hop, h⟩ | h
  · refine .inl ⟨hop, h.source.congr fun y hy => ?_, fun target ht => ?_⟩
    · exact hsame _ (id_mem_partNodes hright hy)
    · exact (h.places target ht).congr (hsame _ (id_mem_partNodes hleft (targets_subset ht)))
  · rw [← operandOf_part hsame hright]
    exact .inr ⟨h.1.congr (hsame _ (id_mem_partNodes hleft left.self_mem_preorder)), h.2⟩

/-- What a step that the walk has made keeps of its target. -/
theorem Made.stepped {i : Info} {op : String} {before : Bool} {target : Expr}
    (hmade : Made env S (.incDec i op before target) u) :
    PlaceKept S target (S.output i.id).code := by
  refine hmade.gives (fun out => PlaceKept S target out.code) fun st hsame _ =>
    .get_bind (.read_bind fun out st' hrun => ?_)
  apply (stepOutput_kept op before target u env st out st' hrun).congr
  exact hsame _ (id_mem_partNodes List.mem_cons_self target.self_mem_preorder)

theorem tells_assign {i : Info} {op : String} {left right : Expr}
    (hmade : Made env S (.assign i op left right) u)
    (hparts : ∀ p ∈ (Expr.assign i op left right).parts u, Everywhere (Sound env S) p.1 p.2) :
    Tells S (.assign i op left right) (S.output i.id).code (.assign i op left right) := by
  have hsource : (sourceUsage left).isPlain = true := by
    unfold sourceUsage
    split <;> rfl
  refine tells_of_parts u fun p hp => ?_
  have hpart := hparts p hp
  have hsub := part_subset hp
  simp only [Expr.parts, List.mem_cons, List.not_mem_nil, or_false] at hp
  rcases hmade.assigned with ⟨hop, hkept⟩ | ⟨hplace, hkept⟩
  · rcases hp with rfl | rfl
    · rcases hkept.source with hcode | hrow
      · exact hpart.self.tells_of_kept hsource hsub hcode
      · refine tells_of_row hpart hsource hsub fun y hy hlive => ?_
        refine (hrow y hy hlive).imp_odd fun hodd => ?_
        -- the type of the assignment is the one that its value is made for
        have hmap : (op = "=" && (S.output i.id).type.any Ty.isMap) = true := by
          rw [Bool.and_eq_true, decide_eq_true_eq]
          exact ⟨hop, hodd.1⟩
        rw [State.oddRowOf, if_pos hmap]
        exact hodd.2
    · exact tells_of_targets hpart hsub hkept.places
  · rcases hp with rfl | rfl
    · exact hpart.self.tells_of_kept hsource hsub hkept
    · exact tells_of_place hpart hsub hplace

theorem tells_step {i : Info} {op : String} {before : Bool} {target : Expr}
    (hmade : Made env S (.incDec i op before target) u)
    (hparts : ∀ p ∈ (Expr.incDec i op before target).parts u, Everywhere (Sound env S) p.1 p.2) :
    Tells S (.incDec i op before target) (S.output i.id).code (.incDec i op before target) := by
  refine tells_of_parts u fun p hp => ?_
  have hpart := hparts p hp
  have hsub := part_subset hp
  obtain rfl := List.mem_singleton.mp hp
  exact tells_of_place hpart hsub hmade.stepped

theorem argUsage_isPlain (package name : String) (k : Nat) :
    (argUsage package name k).isPlain = true := by
  unfold argUsage
  split
  · rfl
  · split
    · rfl
    · split
      · rfl
      · split <;> rfl

/-- A text that keeps an argument tells of it. -/
theorem tells_of_arg (hx : Everywhere (Sound env S) x v) (hv : v.isPlain = true)
    (hmem : ∀ m ∈ x.preorder, m ∈ e.preorder) (hkept : ArgKept S x text) : Tells S e text x := by
  rcases hkept with ⟨v, rfl⟩ | ⟨p, hp, hkept⟩ | hkept
  · exact tells_variable v
  · rw [hx.self.made.path] at hp
    exact tells_of_access (fun q hq => hx.part hq) hp hmem hkept
  · exact hx.self.tells_of_kept hv hmem hkept

theorem ArgKept.congr {st : State} (hkept : ArgKept st x text) (h : S.SameAt x.id st) :
    ArgKept S x text := by
  rcases hkept with hvar | ⟨p, hp, hkept⟩ | hkept
  · exact .inl hvar
  · rw [path_congr h.path] at hp
    exact .inr (.inl ⟨p, hp, hkept⟩)
  · rw [h.operandOf] at hkept
    exact .inr (.inr hkept)

theorem tells_call {i : Info} {package name : String} {args : List Expr}
    (hmade : Made env S (.call i package name args) u)
    (hparts : ∀ p ∈ (Expr.call i package name args).parts u, Everywhere (Sound env S) p.1 p.2) :
    Tells S (.call i package name args) (S.output i.id).code (.call i package name args) := by
  have hkept := hmade.gives (fun out => ∀ p ∈ (Expr.call i package name args).parts u,
      p.1 ∈ (Expr.call i package name args).leftOut ∨ ArgKept S p.1 out.code)
    fun st hsame hresolved => by
      refine .get_bind (.read_bind fun out st' hrun p hp => ?_)
      have hmem : p.1 ∈ args := by
        obtain ⟨k, hk, rfl⟩ := List.mem_mapIdx.mp hp
        exact List.getElem_mem hk
      rcases callOutput_kept i.id name args u env st out st' hrun p.1 hmem with ⟨hsub, hout⟩ | h
      · -- a call without a subroutine is one of a builtin function
        refine .inl ?_
        rcases hresolved with hbuiltin | hknown
        · rw [Expr.leftOut, if_pos hbuiltin]
          exact hout
        · rw [hsub] at hknown
          cases hknown
      · exact .inr (h.congr (hsame _ (id_mem_partNodes hp p.1.self_mem_preorder)))
  refine tells_of_parts u fun p hp => ?_
  have husage : p.2.isPlain = true := by
    obtain ⟨k, hk, rfl⟩ := List.mem_mapIdx.mp hp
    exact argUsage_isPlain package name k
  rcases hkept p hp with hout | hkept
  · exact (hparts p hp).self.tells_of_fate husage (part_subset hp) fun _ => .inl hout
  · exact tells_of_arg (hparts p hp) husage (part_subset hp) hkept

/-! ## All expressions -/

/-- What follows for an expression from what is known of its parts. -/
theorem sound_of_parts (hmade : Made env S e u) (hplaces : e.hasPlaces = true)
    (hparts : ∀ p ∈ e.parts u, Everywhere (Sound env S) p.1 p.2) : Sound env S e u := by
  -- a leaf can only be told by itself, which its own code does
  have hleaf (h : e.preorder = [e]) : Tells S e (S.output e.id).code e := by
    intro n hn _
    rw [h] at hn
    obtain rfl := List.mem_singleton.mp hn
    exact .inl (.of_within (.refl _))
  refine ⟨hmade, hplaces, fun hu => ?_⟩
  have htold (h : Tells S e (S.output e.id).code e) : ∀ n ∈ e.preorder, n.changes = true →
      (u.isVoid = true ∧ ∃ c ∈ e.silent, n ∈ c.preorder) ∨ Told S e n (S.output e.id).code :=
    fun n hn hchanges => .inr (h n hn hchanges)
  -- all others tell what their parts tell, each by the lemma on its text
  cases e with
  | number i t => exact htold (hleaf rfl)
  | undef i => exact htold (hleaf rfl)
  | var v => exact htold (hleaf rfl)
  | string i pieces es => exact htold (tells_string hmade hplaces hparts)
  | index i throughRef target key brace context =>
    exact htold (tells_access hmade hu rfl hparts)
  | deref i target sigil => exact htold (tells_access hmade hu rfl hparts)
  | makeRef i target => exact htold (tells_makeRef hmade hparts)
  | anonArray i es t => exact htold (tells_anonArray hmade hparts)
  | anonHash i es t => exact htold (tells_anonHash hmade hparts)
  | list i es => exact tells_list hmade hu hparts
  | assign i op left right => exact htold (tells_assign hmade hparts)
  | incDec i op before target => exact htold (tells_step hmade hparts)
  | binary i op left right => exact tells_binary hmade hparts
  | unary i op x => exact htold (tells_unary hmade hparts)
  | ternary i cond yes no => exact htold (tells_ternary hmade hparts)
  | call i package name args => exact htold (tells_call hmade hparts)

/-- In a settled expression whose strings have places for their expressions, the code of every part
tells of all that changes something in it. -/
theorem sound_of_made (h : Everywhere (Made env S) e u) (hfilled : e.Filled) :
    Everywhere (Sound env S) e u :=
  (h.and_nodes hfilled).extend fun _ _ hmade hparts => sound_of_parts hmade.1 hmade.2 hparts

/-! ## Targets -/

/-- The code of an assignment or a step holds the bases and the keys of the accesses among its
targets. -/
theorem targets_kept {n t : Expr} {p : Path} (h : Everywhere (Made env S) e u)
    (hn : n ∈ e.preorder) (ht : t ∈ n.targets) (hp : accessOf? S t = some p) :
    p.KeptIn (S.output n.id).code := by
  obtain ⟨v, hmade⟩ := h.of_mem hn
  have hplace (hkept : PlaceKept S t (S.output n.id).code) (hmem : t ∈ n.preorder) :
      p.KeptIn (S.output n.id).code := by
    obtain ⟨w, hmade⟩ := hmade.of_mem hmem
    rcases hkept with hundef | ⟨-, hkept⟩
    · -- an access is not undefined
      cases t with
      | undef i => cases hp
      | _ => cases hundef
    · exact hkept p (hmade.self.path.trans hp)
  cases n with
  | assign i op left right =>
    have hmem : t ∈ (Expr.assign i op left right).preorder :=
      List.mem_cons_of_mem _ (List.mem_append_left _ (targets_subset ht))
    rcases hmade.self.assigned with ⟨-, hkept⟩ | ⟨hleft, -⟩
    · exact hplace (hkept.places t ht) hmem
    · -- a list is assigned to as a whole only by a plain assignment
      rw [Expr.targets, hleft.targetsOf_eq, List.mem_singleton] at ht
      exact hplace (ht ▸ hleft) hmem
  | incDec i op before target =>
    obtain rfl := List.mem_singleton.mp ht
    exact hplace hmade.self.stepped (List.mem_cons_of_mem _ t.self_mem_preorder)
  | _ => exact absurd ht List.not_mem_nil

end Compile

end TypedPerl
