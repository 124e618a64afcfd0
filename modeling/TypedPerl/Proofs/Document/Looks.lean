import Mathlib.Data.List.Forall2
import TypedPerl.Document.SourceUnit

/-!
# What the readers of a tree document look at

A node of a document is read in a `Role`: as an expression, a statement, a further branch, a piece
of a string or a target of a pragma. In each role some fields of the node are looked at, each in one
of a few ways (`Role.looks`). `AgreeAs R r n n'` says that a reader in the role `r` sees no
difference between two nodes, as long as no reader sees one between the nodes inside them that `R`
relates.
-/

namespace TypedPerl.Document

open Yaml (Node Mark Tag Anchors)

/-! ## Roles -/

/-- What a node of a document is read as. -/
inductive Role where
  /-- An expression. -/
  | expr
  /-- A statement. -/
  | stmt
  /-- A further branch of a condition. -/
  | branch
  /-- A piece of a string. -/
  | piece
  /-- A variable that a pragma names. -/
  | target
deriving DecidableEq, Repr

namespace Role

/-- What reading a node in the role gives. -/
abbrev Result : Role → Type
  | expr => Expr
  | stmt => Stmt
  | branch => ElseIf
  | piece => String ⊕ Expr
  | target => PragmaTarget

/-- Reads a node in the role, within a number of levels. -/
def read : (r : Role) → Nat → Node → Decode r.Result
  | expr, d => Document.expr d
  | stmt, d => Document.stmt d
  | branch, d => elseIf (Document.expr d) (Document.stmt d)
  | piece, d => stringPiece (Document.expr d)
  | target, _ => pragmaTarget

/-- The levels that a node needs in the role when the nodes in it need `d`: an expression and a
statement take one themselves. -/
def above (r : Role) (d : Nat) : Nat :=
  match r with
  | expr | stmt => d + 1
  | branch | piece | target => d

/-- Whether reading in the role takes no level. -/
def isFree : Role → Bool
  | expr | stmt => false
  | branch | piece | target => true

/-- A node in the role may be read once more as an expression, or holds nodes that may. -/
def extra : Role → Nat
  | stmt | branch => 1
  | expr | piece | target => 0

/-- A node in the role `r` may hold a node in the role `s`: one of them takes a level, and
expressions hold no statements. -/
def MayHold (r s : Role) : Prop :=
  ¬(r.isFree ∧ s.isFree) ∧ s.extra ≤ r.extra

instance (r s : Role) : Decidable (r.MayHold s) :=
  inferInstanceAs (Decidable (_ ∧ _))

end Role

/-! ## Looks -/

/-- How a reader looks at what a field holds. -/
inductive Look where
  /-- At the text of a scalar. -/
  | text
  /-- At the truth value that a node denotes. -/
  | truth
  /-- At the whole number that a node denotes. -/
  | number
  /-- At a node that is read in a role. -/
  | part (r : Role)
  /-- At a sequence whose entries are read in a role. -/
  | row (r : Role)
  /-- At a sequence of statements, or a statement that is a block. -/
  | block
deriving DecidableEq, Repr

/-- The role of the nodes that are read under a look. -/
def Look.role? : Look → Option Role
  | part r | row r => some r
  | block => some .stmt
  | text | truth | number => none

/-- The text of a scalar that is given; empty for other nodes. -/
def textOf : Option Node → String
  | some (.scalar _ t _) => t
  | _ => ""

/-- The kind of the node that the fields describe. -/
def Fields.kind (f : Fields) : String :=
  textOf (f.get? "kind")

/-- What is looked at for the position of a node. -/
def placeLooks : List (String × Look) :=
  [("line", .number), ("col", .number)]

/-- What is looked at in the fields of an expression, beside its kind and its position. -/
def exprLooks (f : Fields) : List (String × Look) :=
  match f.kind with
  | "number" => [("value", .text)]
  | "string" =>
    ("parts", .row .piece) :: if (f.get? "parts").isNone then [("value", .text)] else []
  | "var" =>
    [("name", .text), ("sigil", .text), ("package", .text), ("decl", .text), ("type", .text)]
  | "index" | "refindex" =>
    [("target", .part .expr), ("key", .part .expr), ("brace", .truth), ("context", .text)]
  | "deref" => [("target", .part .expr), ("sigil", .text)]
  | "ref" => [("target", .part .expr)]
  | "anon_array" | "anon_hash" => [("elements", .row .expr), ("type", .text)]
  | "list" => [("elements", .row .expr)]
  | "assign" | "binary" => [("op", .text), ("left", .part .expr), ("right", .part .expr)]
  | "incdec" => [("op", .text), ("prefix", .truth), ("target", .part .expr)]
  | "unary" => [("op", .text), ("operand", .part .expr)]
  | "ternary" => [("cond", .part .expr), ("then", .part .expr), ("else", .part .expr)]
  | "call" => [("name", .text), ("package", .text), ("args", .row .expr)]
  | _ => []

/-- What is looked at in the fields of a statement, beside its kind and its position. -/
def stmtLooks (f : Fields) : List (String × Look) :=
  match f.kind with
  | "expr" => [("expr", .part .expr)]
  | "block" => [("statements", .row .stmt)]
  | "if" | "unless" =>
    [("cond", .part .expr), ("then", .block), ("else", .block), ("elsif", .row .branch)]
  | "while" | "until" => [("cond", .part .expr), ("do", .truth), ("body", .block)]
  | "for" =>
    [("init", .row .expr), ("cond", .row .expr), ("post", .row .expr), ("body", .block)]
  | "foreach" => [("list", .part .expr), ("var", .part .expr), ("body", .block)]
  | "return" => [("value", .part .expr)]
  | "sub" => [("name", .text), ("returns", .text), ("body", .block)]
  | "package" | "use" => [("name", .text)]
  | "pragma" => [("type", .text), ("targets", .row .target)]
  | "comment" => [("text", .text)]
  | _ => []

/-- What is looked at in the fields of a node in the role. -/
def Role.looks (r : Role) (f : Fields) : List (String × Look) :=
  match r with
  | expr => ("kind", .text) :: (placeLooks ++ exprLooks f)
  | stmt => ("kind", .text) :: (placeLooks ++ stmtLooks f)
  | branch => placeLooks ++ [("cond", .part expr), ("body", .block)]
  | piece => ("expr", .part expr) :: if (f.get? "expr").isNone then [("text", .text)] else []
  | target => []

/-- What is looked at in the root of a document. -/
def unitLooks : List (String × Look) :=
  [("file", .text), ("class", .text), ("statements", .row .stmt)]

/-- The nodes that are read in a node have roles that a node in its role may hold. -/
theorem Role.mayHold_of_mem {r s : Role} {f : Fields} {p : String × Look} (hp : p ∈ r.looks f)
    (hs : p.2.role? = some s) : r.MayHold s := by
  have hall : ∀ q ∈ r.looks f, ∀ s, q.2.role? = some s → r.MayHold s := by
    unfold looks placeLooks exprLooks stmtLooks
    repeat' split
    all_goals simp only [List.cons_append, List.nil_append, List.forall_mem_cons,
      List.not_mem_nil, false_implies, implies_true, and_true, true_and, Look.role?, reduceCtorEq,
      Option.some.injEq, forall_eq']
    all_goals decide
  exact hall p hp s hs

/-! ## Agreement -/

/-- The truth value of a field that holds the node, or of one that is not given. -/
def truthOf (anchors : Anchors) : Option Node → Option Bool
  | none => some false
  | some n => n.toBool? anchors

/-- The number of a field that holds the node, or of one that is not given. -/
def numberOf (anchors : Anchors) : Option Node → Option Int
  | none => some 0
  | some n => n.toInt? anchors

/-- The nodes are scalars with one text, or nodes of one other kind. -/
inductive SameText : Node → Node → Prop
  | scalar {m m' : Mark} {t : String} {tag tag' : Tag} :
    SameText (.scalar m t tag) (.scalar m' t tag')
  | sequence {m m' : Mark} {es es' : List Node} : SameText (.sequence m es) (.sequence m' es')
  | mapping {m m' : Mark} {es es' : List Node} : SameText (.mapping m es) (.mapping m' es')
  | refer {m m' : Mark} {t t' : String} {k k' : Nat} : SameText (.refer m t k) (.refer m' t' k')

/-- The nodes are sequences whose entries are related, or nodes of one other kind. -/
inductive SameRow (R : Node → Node → Prop) : Node → Node → Prop
  | scalar {m m' : Mark} {t t' : String} {tag tag' : Tag} :
    SameRow R (.scalar m t tag) (.scalar m' t' tag')
  | sequence {m m' : Mark} {items items' : List Node} (h : List.Forall₂ R items items') :
    SameRow R (.sequence m items) (.sequence m' items')
  | mapping {m m' : Mark} {es es' : List Node} : SameRow R (.mapping m es) (.mapping m' es')
  | refer {m m' : Mark} {t t' : String} {k k' : Nat} : SameRow R (.refer m t k) (.refer m' t' k')

/-- The nodes are sequences whose entries are related, or related nodes that are no sequences. -/
inductive SameBlock (R : Node → Node → Prop) : Node → Node → Prop
  | sequence {m m' : Mark} {items items' : List Node} (h : List.Forall₂ R items items') :
    SameBlock R (.sequence m items) (.sequence m' items')
  | other {c c' : Node} (h : R c c') (hne : kindText c ≠ "a list") (hne' : kindText c' ≠ "a list") :
    SameBlock R c c'

section Agreement

variable (R : Role → Node → Node → Prop) (anchors anchors' : Anchors)

/-- A reader sees no difference between what two fields hold. -/
def Look.Agree : Look → Option Node → Option Node → Prop
  | text, o, o' => Option.Rel SameText o o'
  | truth, o, o' => truthOf anchors o = truthOf anchors' o'
  | number, o, o' => numberOf anchors o = numberOf anchors' o'
  | part r, o, o' => Option.Rel (R r) o o'
  | row r, o, o' => Option.Rel (SameRow (R r)) o o'
  | block, o, o' => Option.Rel (SameBlock (R .stmt)) o o'

/-- A reader sees no difference between the fields that it looks at. -/
def Fields.Agree (looks : List (String × Look)) (f f' : Fields) : Prop :=
  ∀ p ∈ looks, p.2.Agree R anchors anchors' (f.get? p.1) (f'.get? p.1)

/-- The nodes are mappings, or aliases of some, whose fields agree, or they are of one other
kind. -/
inductive AgreeOn (looks : Fields → List (String × Look)) (n n' : Node) : Prop
  | mapping {m m' : Mark} {es es' : List Node} (hn : n.resolve anchors = .mapping m es)
    (hn' : n'.resolve anchors' = .mapping m' es')
    (h : Fields.Agree R anchors anchors' (looks ⟨.mapping m es, es⟩) ⟨.mapping m es, es⟩
      ⟨.mapping m' es', es'⟩)
  | other (hkind : kindText (n.resolve anchors) = kindText (n'.resolve anchors'))
    (hne : kindText (n.resolve anchors) ≠ "a mapping")

/-- A piece of a string is a text itself, or agrees as a node with fields. -/
inductive AgreePiece : Node → Node → Prop
  | scalar {m m' : Mark} {t : String} {tag tag' : Tag} :
    AgreePiece (.scalar m t tag) (.scalar m' t tag')
  | other {n n' : Node} (h : AgreeOn R anchors anchors' Role.piece.looks n n')
    (hne : kindText n ≠ "a scalar") (hne' : kindText n' ≠ "a scalar") : AgreePiece n n'

/-- A reader in the role sees no difference between the nodes. A statement may be read once more as
an expression. -/
def AgreeAs (r : Role) (n n' : Node) : Prop :=
  match r with
  | .expr => AgreeOn R anchors anchors' Role.expr.looks n n'
  | .stmt =>
    AgreeOn R anchors anchors' Role.stmt.looks n n' ∧
      ∀ m es, n.resolve anchors = .mapping m es →
        (Fields.mk (.mapping m es) es).kind ∈ exprKinds → R .expr n n'
  | .branch => AgreeOn R anchors anchors' Role.branch.looks n n'
  | .piece => AgreePiece R anchors anchors' n n'
  | .target => SameText n n'

end Agreement

section Mono

variable {R S : Role → Node → Node → Prop} {anchors anchors' : Anchors}

theorem SameRow.mono {P Q : Node → Node → Prop} (hPQ : ∀ c c', P c c' → Q c c') {n n' : Node}
    (h : SameRow P n n') : SameRow Q n n' := by
  cases h with
  | scalar => exact .scalar
  | sequence h => exact .sequence (h.imp hPQ)
  | mapping => exact .mapping
  | refer => exact .refer

theorem SameBlock.mono {P Q : Node → Node → Prop} (hPQ : ∀ c c', P c c' → Q c c') {n n' : Node}
    (h : SameBlock P n n') : SameBlock Q n n' := by
  cases h with
  | sequence h => exact .sequence (h.imp hPQ)
  | other h hne hne' => exact .other (hPQ _ _ h) hne hne'

theorem rel_mono {P Q : Node → Node → Prop} (hPQ : ∀ c c', P c c' → Q c c') {o o' : Option Node}
    (h : Option.Rel P o o') : Option.Rel Q o o' := by
  cases h with
  | none => exact .none
  | some h => exact .some (hPQ _ _ h)

theorem Look.Agree.mono {l : Look} (hRS : ∀ s, l.role? = some s → ∀ c c', R s c c' → S s c c')
    {o o' : Option Node} (h : l.Agree R anchors anchors' o o') :
    l.Agree S anchors anchors' o o' := by
  cases l with
  | text | truth | number => exact h
  | part r => exact rel_mono (hRS r rfl) h
  | row r => exact rel_mono (fun _ _ => SameRow.mono (hRS r rfl)) h
  | block => exact rel_mono (fun _ _ => SameBlock.mono (hRS .stmt rfl)) h

theorem AgreeOn.mono {looks : Fields → List (String × Look)}
    (hRS : ∀ f, ∀ p ∈ looks f, ∀ s, p.2.role? = some s → ∀ c c', R s c c' → S s c c')
    {n n' : Node} (h : AgreeOn R anchors anchors' looks n n') :
    AgreeOn S anchors anchors' looks n n' := by
  cases h with
  | mapping hn hn' h => exact .mapping hn hn' fun p hp => (h p hp).mono (hRS _ p hp)
  | other hkind hne => exact .other hkind hne

/-- A reader sees no difference as long as the readers of the nodes inside see none. -/
theorem AgreeAs.mono {r : Role} (hRS : ∀ s, r.MayHold s → ∀ c c', R s c c' → S s c c')
    {n n' : Node} (h : AgreeAs R anchors anchors' r n n') : AgreeAs S anchors anchors' r n n' := by
  have hon {n n' : Node} (h : AgreeOn R anchors anchors' r.looks n n') :
      AgreeOn S anchors anchors' r.looks n n' :=
    h.mono fun f p hp s hs => hRS s (Role.mayHold_of_mem hp hs)
  cases r with
  | expr | branch => exact hon h
  | stmt =>
    exact ⟨hon h.1, fun m es hn hkind => hRS .expr (by decide) _ _ (h.2 m es hn hkind)⟩
  | piece =>
    cases h with
    | scalar => exact .scalar
    | other h hne hne' => exact .other (hon h) hne hne'
  | target => exact h

end Mono

end TypedPerl.Document
