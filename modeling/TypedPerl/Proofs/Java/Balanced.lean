import TypedPerl.Proofs.Text.Within

/-!
# Code with matching delimiters

Code is `Balanced` when a scan over it that skips literals finds every parenthesis, bracket and
brace closed by its own kind, and no literal left open. The scan goes one character at a time and
keeps the delimiters that are still to come, so that it can be cut anywhere: `Moves` says what a
piece of code opens and closes, and pieces that fit are put behind each other.

Redundant parentheses are taken off code by a look at its parentheses alone. For balanced code this
is right: what is taken off are parentheses that match each other (`unparen_paren`,
`Balanced.of_unparen`).
-/

namespace TypedPerl.Java

/-! ## The scan -/

/-- What a literal begins and ends with. -/
inductive Mark where
  | double
  | single
deriving DecidableEq, Repr

/-- The mark as a character. -/
def Mark.char : Mark → Char
  | .double => '"'
  | .single => Text.tick

/-- Where a scan over code stands. -/
inductive Mode where
  /-- Outside of literals. -/
  | code
  /-- In a literal. -/
  | literal (mark : Mark)
  /-- Behind a backslash in a literal. -/
  | escaped (mark : Mark)
deriving DecidableEq, Repr

/-- What a scan over code has found. -/
structure Scan where
  /-- Where it stands. -/
  mode : Mode
  /-- What closes the delimiters that are open, the innermost first. -/
  closers : List Char
deriving DecidableEq, Repr

/-- What closes a delimiter that opens. -/
def closer? (c : Char) : Option Char :=
  if c = '(' then some ')'
  else if c = '[' then some ']'
  else if c = '\x7b' then some '\x7d'
  else none

/-- A delimiter that closes. -/
def isCloser (c : Char) : Bool :=
  c = ')' || c = ']' || c = '\x7d'

/-- The scan goes on by a character, unless it closes what is not open. -/
def Scan.step : Scan → Char → Option Scan
  | ⟨.escaped m, closers⟩, _ => some ⟨.literal m, closers⟩
  | ⟨.literal m, closers⟩, c =>
    some ⟨if c = '\\' then .escaped m else if c = m.char then .code else .literal m, closers⟩
  | ⟨.code, closers⟩, c =>
    if c = Mark.double.char then some ⟨.literal .double, closers⟩
    else if c = Mark.single.char then some ⟨.literal .single, closers⟩
    else match closer? c with
      | some d => some ⟨.code, d :: closers⟩
      | none =>
        if isCloser c then
          if closers.head? = some c then some ⟨.code, closers.tail⟩ else none
        else some ⟨.code, closers⟩

/-- The scan goes over code. -/
def Scan.run (s : Scan) (cs : List Char) : Option Scan :=
  cs.foldlM Scan.step s

/-- The piece of code closes the delimiters `a` and opens those that `b` closes. -/
def Moves (a b : List Char) (code : String) : Prop :=
  Scan.run ⟨.code, a⟩ code.toList = some ⟨.code, b⟩

/-- All delimiters match, apart from those in literals, and no literal is left open. -/
def Balanced (code : String) : Prop :=
  Moves [] [] code

instance (code : String) : Decidable (Balanced code) :=
  inferInstanceAs (Decidable (Scan.run ⟨.code, []⟩ code.toList = some ⟨.code, []⟩))

/-- The marks of literals, the parentheses, the brackets and the braces. -/
def delimiters : List Char :=
  [Mark.double.char, Mark.single.char, '(', ')', '[', ']', '\x7b', '\x7d']

/-- The text holds no delimiter. -/
def Bare (text : String) : Prop :=
  ∀ c ∈ text.toList, c ∉ delimiters

/-- Characters that are written out are looked through. -/
theorem bare_lit {cs : List Char} (h : cs.any delimiters.contains = false) :
    ∀ c ∈ cs, c ∉ delimiters := fun c hc hmem =>
  List.any_eq_false.mp h c hc (List.contains_iff_mem.mpr hmem)

namespace Scan

theorem run_cons (s : Scan) (c : Char) (cs : List Char) :
    s.run (c :: cs) = (s.step c).bind fun s' => s'.run cs :=
  List.foldlM_cons

theorem run_append (s : Scan) (xs ys : List Char) :
    s.run (xs ++ ys) = (s.run xs).bind fun s' => s'.run ys :=
  List.foldlM_append

/-! ### What a character outside of literals does -/

section Steps

variable (closers : List Char) {c : Char}

theorem step_mark (m : Mark) : step ⟨.code, closers⟩ m.char = some ⟨.literal m, closers⟩ := by
  cases m <;> rfl

theorem step_open {d : Char} (h : closer? c = some d) :
    step ⟨.code, closers⟩ c = some ⟨.code, d :: closers⟩ := by
  have hmark (m : Mark) : c ≠ m.char := by
    rintro rfl
    cases m <;> cases h
  simp [step, hmark, h]

theorem step_close (h : isCloser c = true) :
    step ⟨.code, c :: closers⟩ c = some ⟨.code, closers⟩ := by
  have hmark (m : Mark) : c ≠ m.char := by
    rintro rfl
    cases m <;> cases h
  have hopen : closer? c = none := by
    simp only [isCloser, Bool.or_eq_true, decide_eq_true_eq] at h
    rcases h with (rfl | rfl) | rfl <;> rfl
  simp [step, hmark, hopen, h]

theorem step_bare (h : c ∉ delimiters) : step ⟨.code, closers⟩ c = some ⟨.code, closers⟩ := by
  simp only [delimiters, List.mem_cons, not_or] at h
  simp [step, closer?, isCloser, h]

/-- A character begins a literal, opens, closes what is open, or does nothing. -/
theorem step_code {closers : List Char} {s : Scan} (h : step ⟨.code, closers⟩ c = some s) :
    (∃ m : Mark, c = m.char ∧ s = ⟨.literal m, closers⟩) ∨
      (∃ d, closer? c = some d ∧ s = ⟨.code, d :: closers⟩) ∨
      (isCloser c = true ∧ ∃ rest, closers = c :: rest ∧ s = ⟨.code, rest⟩) ∨
      (c ∉ delimiters ∧ s = ⟨.code, closers⟩) := by
  simp only [step] at h
  split at h
  · next hc =>
    cases h
    exact .inl ⟨.double, hc, rfl⟩
  split at h
  · next hc =>
    cases h
    exact .inl ⟨.single, hc, rfl⟩
  split at h
  · next d hd =>
    cases h
    exact .inr (.inl ⟨d, hd, rfl⟩)
  split at h
  · next hcloser =>
    split at h
    · next hhead =>
      cases h
      obtain ⟨rest, rfl⟩ := List.head?_eq_some_iff.mp hhead
      exact .inr (.inr (.inl ⟨hcloser, rest, rfl, rfl⟩))
    · cases h
  -- what is left is no delimiter of any kind
  · next hdouble hsingle _ hopen hcloser =>
    cases h
    refine .inr (.inr (.inr ⟨?_, rfl⟩))
    have hopeners : c ≠ '(' ∧ c ≠ '[' ∧ c ≠ '\x7b' := by
      refine ⟨?_, ?_, ?_⟩ <;> rintro rfl <;> cases hopen
    simp only [isCloser, Bool.or_eq_true, decide_eq_true_eq, not_or] at hcloser
    simp [delimiters, hdouble, hsingle, hopeners, hcloser]

end Steps

/-! ### Runs -/

/-- A step does not look at the delimiters that are open around the code. -/
theorem step_frame {p q : Mode} {a b : List Char} {c : Char}
    (h : step ⟨p, a⟩ c = some ⟨q, b⟩) (around : List Char) :
    step ⟨p, a ++ around⟩ c = some ⟨q, b ++ around⟩ := by
  cases p with
  | escaped m =>
    cases h
    rfl
  | literal m =>
    cases h
    rfl
  | code =>
    -- a step looks at the innermost open bracket at most, so those around it do not matter
    rcases step_code h with ⟨m, rfl, heq⟩ | ⟨d, hd, heq⟩ | ⟨hc, rest, rfl, heq⟩ | ⟨hc, heq⟩
    · cases heq
      exact step_mark _ m
    · cases heq
      exact step_open _ hd
    · cases heq
      exact step_close _ hc
    · cases heq
      exact step_bare _ hc

theorem run_frame {cs : List Char} : ∀ {p q : Mode} {a b : List Char},
    run ⟨p, a⟩ cs = some ⟨q, b⟩ → ∀ around, run ⟨p, a ++ around⟩ cs = some ⟨q, b ++ around⟩ := by
  induction cs with
  | nil =>
    intro p q a b h around
    cases h
    rfl
  | cons c cs ih =>
    intro p q a b h around
    rw [run_cons, Option.bind_eq_some_iff] at h
    obtain ⟨⟨p', a'⟩, hstep, hrest⟩ := h
    rw [run_cons, step_frame hstep around]
    exact ih hrest around

theorem run_bare {cs : List Char} (h : ∀ c ∈ cs, c ∉ delimiters) (closers : List Char) :
    run ⟨.code, closers⟩ cs = some ⟨.code, closers⟩ := by
  induction cs with
  | nil => rfl
  | cons c cs ih =>
    obtain ⟨hc, hcs⟩ := List.forall_mem_cons.mp h
    rw [run_cons, step_bare closers hc]
    exact ih hcs

/-- A literal goes on until its mark, or a backslash, comes. -/
theorem run_literal {m : Mark} {cs : List Char} (h : ∀ c ∈ cs, c ≠ '\\' ∧ c ≠ m.char)
    (closers : List Char) : run ⟨.literal m, closers⟩ cs = some ⟨.literal m, closers⟩ := by
  induction cs with
  | nil => rfl
  | cons c cs ih =>
    obtain ⟨⟨hescape, hmark⟩, hcs⟩ := List.forall_mem_cons.mp h
    rw [run_cons, step, if_neg hescape, if_neg hmark]
    exact ih hcs

end Scan

open Scan (run run_cons run_append)

/-! ## Pieces of code -/

section Pieces

variable {a b c : List Char} {x y : String}

/-- A piece that is written out: the scan goes over it. -/
theorem Moves.lit {cs : List Char} (h : run ⟨.code, a⟩ cs = some ⟨.code, b⟩) :
    Moves a b (String.ofList cs) := by
  rwa [Moves, String.toList_ofList]

theorem Moves.append (hx : Moves a b x) (hy : Moves b c y) : Moves a c (x ++ y) := by
  rw [Moves, String.toList_append, run_append, hx]
  exact hy

/-- Balanced code leaves open what is open around it. -/
theorem Balanced.moves (h : Balanced x) (a : List Char) : Moves a a x :=
  Scan.run_frame h a

theorem Bare.balanced (h : Bare x) : Balanced x :=
  Scan.run_bare h []

end Pieces

namespace Balanced

variable {x y : String}

theorem append (hx : Balanced x) (hy : Balanced y) : Balanced (x ++ y) :=
  Moves.append hx hy

theorem lit {cs : List Char} (h : run ⟨.code, []⟩ cs = some ⟨.code, []⟩) :
    Balanced (String.ofList cs) :=
  Moves.lit h

theorem empty : Balanced "" :=
  lit (show run ⟨.code, []⟩ [] = some ⟨.code, []⟩ from rfl)

/-- The second text closes what the first opens. -/
def closes (pre post : List Char) : Bool :=
  match run ⟨.code, []⟩ pre with
  | some ⟨.code, closers⟩ => decide (run ⟨.code, closers⟩ post = some ⟨.code, []⟩)
  | _ => false

/-- Code behind other code and between two texts that belong together. -/
theorem around {pre post : List Char} (hx : Balanced x) (h : closes pre post = true)
    (hy : Balanced y) : Balanced (x ++ String.ofList pre ++ y ++ String.ofList post) := by
  unfold closes at h
  split at h
  · next closers hpre =>
    exact ((Moves.append hx (.lit hpre)).append (hy.moves closers)).append
      (.lit (of_decide_eq_true h))
  · cases h

theorem within {pre post : List Char} (h : closes pre post = true) (hx : Balanced x) :
    Balanced (String.ofList pre ++ x ++ String.ofList post) := by
  simpa using around empty h hx

/-- A text between quotes that needs no escapes. -/
theorem quoted (h : ∀ c ∈ x.toList, c ≠ '\\' ∧ c ≠ '"') : Balanced ("\"" ++ x ++ "\"") := by
  have hopen : run ⟨.code, []⟩ ['"'] = some ⟨.literal .double, []⟩ := rfl
  have hclose : run ⟨.literal .double, []⟩ ['"'] = some ⟨.code, []⟩ := rfl
  have hall : ("\"" ++ x ++ "\"").toList = ['"'] ++ x.toList ++ ['"'] := by
    simp [String.toList_append]
  rw [Balanced, Moves, hall, run_append, run_append, hopen, Option.bind_some,
    Scan.run_literal (m := .double) h, Option.bind_some, hclose]

theorem join {sep : String} (hsep : Balanced sep) {ys : List String}
    (h : ∀ y ∈ ys, Balanced y) : Balanced (Text.join sep ys) := by
  rw [Text.join]
  induction ys with
  | nil => exact empty
  | cons a rest ih =>
    obtain ⟨ha, hrest⟩ := List.forall_mem_cons.mp h
    cases rest with
    | nil =>
      rw [String.intercalate_singleton]
      exact ha
    | cons b more =>
      rw [String.intercalate_cons_cons]
      exact (ha.append hsep).append (ih hrest)

theorem concat {ys : List String} (h : ∀ y ∈ ys, Balanced y) : Balanced (String.join ys) := by
  induction ys with
  | nil => exact empty
  | cons a rest ih =>
    obtain ⟨ha, hrest⟩ := List.forall_mem_cons.mp h
    rw [String.join_cons]
    exact ha.append (ih hrest)

theorem call {cls method : String} (hcls : Balanced cls) (hmethod : Balanced method)
    {args : List String} (h : ∀ y ∈ args, Balanced y) : Balanced (call cls method args) :=
  around (append (append hcls (lit rfl)) hmethod) rfl (join (lit rfl) h)

end Balanced

/-! ## Parentheses around code -/

/-- `closesEarly` from any place of a scan. -/
def closesFrom (level : Int) : Mode → List Char → Bool
  | .code, cs => closesEarly none level cs
  | .literal m, cs => closesEarly (some m.char) level cs
  | .escaped _, [] => false
  | .escaped m, _ :: cs => closesEarly (some m.char) level cs

theorem closesFrom_nil (level : Int) : closesFrom level .code [] = false := rfl

theorem closesFrom_code (level : Int) (c : Char) (cs : List Char) :
    closesFrom level .code (c :: cs) =
      if c = '"' then closesFrom level (.literal .double) cs
      else if c = Text.tick then closesFrom level (.literal .single) cs
      else if c = '(' then closesFrom (level + 1) .code cs
      else if c = ')' then
        (level - 1 = 0 && !cs.isEmpty) || closesFrom (level - 1) .code cs
      else closesFrom level .code cs := by
  simp only [closesFrom]
  rw [closesEarly]
  grind [Mark.char]

theorem closesFrom_literal (level : Int) (m : Mark) (c : Char) (cs : List Char) :
    closesFrom level (.literal m) (c :: cs) = closesFrom level
      (if c = '\\' then .escaped m else if c = m.char then .code else .literal m) cs := by
  have hmark : m.char ≠ '\\' := by
    cases m <;> decide
  by_cases hc : c = '\\'
  · subst hc
    cases cs <;> simp [closesFrom, closesEarly]
  · rw [if_neg hc]
    simp only [closesFrom]
    rw [closesEarly.eq_def]
    grind [closesFrom]

theorem closesFrom_mark (level : Int) (m : Mark) (cs : List Char) :
    closesFrom level .code (m.char :: cs) = closesFrom level (.literal m) cs := by
  cases m <;> simp [closesFrom_code, Mark.char, Text.tick]

/-- The level of parentheses follows the delimiters that are to come. -/
theorem closesFrom_open (a : List Char) {c d : Char} (hd : closer? c = some d) (cs : List Char) :
    closesFrom (a.count ')' + 1) .code (c :: cs) =
      closesFrom ((d :: a).count ')' + 1) .code cs := by
  -- only a parenthesis is counted
  simp only [closer?] at hd
  split at hd
  · next hc =>
    cases hd
    subst hc
    simp [closesFrom_code, Text.tick]
  split at hd
  · next hc =>
    cases hd
    subst hc
    simp [closesFrom_code, Text.tick]
  split at hd
  · next hc =>
    cases hd
    subst hc
    simp [closesFrom_code, Text.tick]
  · cases hd

theorem closesFrom_close (a : List Char) {c : Char} (hc : isCloser c = true) (cs : List Char) :
    closesFrom ((c :: a).count ')' + 1) .code (c :: cs) =
      closesFrom (a.count ')' + 1) .code cs := by
  simp only [isCloser, Bool.or_eq_true, decide_eq_true_eq] at hc
  rcases hc with (rfl | rfl) | rfl
  · have hlevel : (a.count ')' : Int) + 1 ≠ 0 := by omega
    simp [closesFrom_code, Text.tick, hlevel]
  · simp [closesFrom_code, Text.tick]
  · simp [closesFrom_code, Text.tick]

theorem closesFrom_bare (level : Int) {c : Char} (hc : c ∉ delimiters) (cs : List Char) :
    closesFrom level .code (c :: cs) = closesFrom level .code cs := by
  simp only [delimiters, Mark.char, List.mem_cons, not_or] at hc
  simp [closesFrom_code, hc]

/-- A scan over code that stands between parentheses does not come to the closing one within the
code exactly when the code is balanced without them. -/
theorem closesFrom_eq_false_iff {cs : List Char} : ∀ {p : Mode} {a : List Char},
    run ⟨p, a ++ [')']⟩ cs = some ⟨.code, [')']⟩ →
      (closesFrom (a.count ')' + 1) p (cs ++ [')']) = false ↔
        run ⟨p, a⟩ cs = some ⟨.code, []⟩) := by
  induction cs with
  | nil =>
    intro p a h
    have hends : p = .code ∧ a = [] := by
      simpa [run] using h
    obtain ⟨rfl, rfl⟩ := hends
    simp [closesFrom_code, closesFrom_nil, run, Text.tick]
  | cons c cs ih =>
    intro p a h
    rw [run_cons, Option.bind_eq_some_iff] at h
    obtain ⟨s, hstep, hrest⟩ := h
    rw [List.cons_append]
    cases p with
    | escaped m =>
      cases hstep
      exact ih hrest
    | literal m =>
      cases hstep
      rw [closesFrom_literal]
      exact ih hrest
    | code =>
      rcases Scan.step_code hstep with
        ⟨m, rfl, rfl⟩ | ⟨d, hd, rfl⟩ | ⟨hc, rest, heq, rfl⟩ | ⟨hc, rfl⟩
      · rw [closesFrom_mark, run_cons, Scan.step_mark]
        exact ih hrest
      · rw [closesFrom_open a hd, run_cons, Scan.step_open a hd]
        exact ih hrest
      · cases a with
        | nil =>
          -- the parenthesis around the code is closed within it
          cases heq
          simp [closesFrom_code, Text.tick, run_cons, Scan.step, closer?, isCloser, Mark.char]
        | cons k a =>
          cases heq
          rw [closesFrom_close a hc, run_cons, Scan.step_close a hc]
          exact ih hrest
      · rw [closesFrom_bare _ hc, run_cons, Scan.step_bare a hc]
        exact ih hrest

/-! ### Taking parentheses off -/

/-- What is looked at before parentheses are taken off. -/
theorem unparen_of_between {code : String} {inner : List Char}
    (h : code.toList = '(' :: (inner ++ [')'])) : unparen code =
      if closesFrom 1 .code (inner ++ [')']) = false then String.ofList inner else code := by
  have hlast : ('(' :: (inner ++ [')'])).getLast? = some ')' := by
    rw [← List.cons_append, List.getLast?_concat]
  have hearly : closesEarly none 0 ('(' :: (inner ++ [')'])) =
      closesFrom 1 .code (inner ++ [')']) := by
    have hcode : closesEarly none 0 ('(' :: (inner ++ [')'])) =
        closesFrom 0 .code ('(' :: (inner ++ [')'])) := rfl
    rw [hcode]
    simp [closesFrom_code, Text.tick]
  simp only [unparen, h, hlast, hearly]
  cases closesFrom 1 .code (inner ++ [')']) <;> simp

theorem unparen_of_not_between {code : String}
    (h : ∀ inner, code.toList ≠ '(' :: (inner ++ [')'])) : unparen code = code := by
  unfold unparen
  refine if_neg fun hcond => ?_
  simp only [Bool.and_eq_true, decide_eq_true_eq] at hcond
  obtain ⟨⟨⟨hlength, hfirst⟩, hlast⟩, -⟩ := hcond
  obtain ⟨inner, hinner⟩ := exists_between hlength hfirst hlast
  exact h inner hinner

/-- Parentheses around balanced code are taken off. -/
theorem unparen_paren {x : String} (h : Balanced x) : unparen (paren x) = x := by
  have hbetween : (paren x).toList = '(' :: (x.toList ++ [')']) := by
    simp [paren, String.toList_append]
  have hsame : closesFrom 1 .code (x.toList ++ [')']) = false :=
    (closesFrom_eq_false_iff (a := []) (h.moves [')'])).mpr h
  rw [unparen_of_between hbetween, if_pos hsame, String.ofList_toList]

/-- What stands before the parenthesis that closes the code. -/
theorem Scan.eq_of_close {s : Scan} (h : s.step ')' = some ⟨.code, []⟩) : s = ⟨.code, [')']⟩ := by
  obtain ⟨p, closers⟩ := s
  cases p with
  | escaped m => cases h
  | literal m => cases m <;> cases h
  | code =>
    rcases step_code h with ⟨m, -, heq⟩ | ⟨d, hd, -⟩ | ⟨-, rest, rfl, heq⟩ | ⟨hc, -⟩
    · cases heq
    · cases hd
    · cases heq
      rfl
    · exact absurd (by decide) hc

/-- Of balanced code nothing is taken off, or parentheses around balanced code. -/
theorem Balanced.of_unparen {x : String} (h : Balanced x) :
    Balanced (unparen x) ∧ (x = unparen x ∨ x = Java.paren (unparen x)) := by
  by_cases hbetween : ∃ inner, x.toList = '(' :: (inner ++ [')'])
  · obtain ⟨inner, hinner⟩ := hbetween
    rw [unparen_of_between hinner]
    split
    · next hearly =>
      -- the scan over the code within ends before the parenthesis that is taken off
      have hscan : run ⟨.code, [')']⟩ (inner ++ [')']) = some ⟨.code, []⟩ := by
        rw [Balanced, Moves, hinner, run_cons, Scan.step_open [] rfl] at h
        exact h
      rw [run_append, Option.bind_eq_some_iff] at hscan
      obtain ⟨s, hrun, hclose⟩ := hscan
      rw [run_cons, Option.bind_eq_some_iff] at hclose
      obtain ⟨s', hstep, hend⟩ := hclose
      cases hend
      rw [Scan.eq_of_close hstep] at hrun
      have hinnerBalanced : Balanced (String.ofList inner) :=
        .lit ((closesFrom_eq_false_iff (a := []) hrun).mp hearly)
      refine ⟨hinnerBalanced, .inr ?_⟩
      apply String.toList_injective
      simp [hinner, Java.paren, String.toList_append]
    · exact ⟨h, .inl rfl⟩
  · rw [unparen_of_not_between (not_exists.mp hbetween)]
    exact ⟨h, .inl rfl⟩

end TypedPerl.Java
