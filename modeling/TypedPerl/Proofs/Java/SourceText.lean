import TypedPerl.Text.Quoted

/-!
# Source text of the target

What happens to a source text of the target before it has any tokens. Unicode escapes are
translated first, wherever they stand (`translate?`); a text with a malformed one is refused. What
comes out are code units of UTF-16, which line feeds and carriage returns divide into `lines`.

Both this translation and the reading of literals go through a text symbol by symbol. A `Scanner` is
such a reader as data, so that what it makes of texts put behind each other is proved once.
-/

namespace TypedPerl.Java

/-! ## Scanners -/

/-- A reader that goes through a text from state to state and may refuse a symbol. -/
structure Scanner (σ α β : Type) where
  /-- What a symbol gives, and the state behind it. -/
  step : σ → α → Option (List β × σ)
  /-- What the end of the text gives, if the text may end here. -/
  finish : σ → Option (List β)

namespace Scanner

variable {σ τ α β γ δ : Type} (r : Scanner σ α β)

/-- What some symbols give, and the state behind them. -/
def feed : σ → List α → Option (List β × σ)
  | s, [] => some ([], s)
  | s, c :: cs => do
    let (out, s') ← r.step s c
    let (more, s'') ← feed s' cs
    return (out ++ more, s'')

/-- What a whole text gives. -/
def scan (s : σ) (cs : List α) : Option (List β) := do
  let (out, s') ← r.feed s cs
  let last ← r.finish s'
  return out ++ last

variable {r} {s s' : σ} {out : List β}

theorem feed_cons {c : α} (h : r.step s c = some (out, s')) (cs : List α) :
    r.feed s (c :: cs) = (r.feed s' cs).map fun p => (out ++ p.1, p.2) := by
  rw [feed, h]
  show (r.feed s' cs).bind (fun p => some (out ++ p.1, p.2)) = _
  cases r.feed s' cs <;> rfl

theorem scan_cons {c : α} (h : r.step s c = some (out, s')) (cs : List α) :
    r.scan s (c :: cs) = (r.scan s' cs).map (out ++ ·) := by
  rw [scan, scan, feed_cons h]
  rcases r.feed s' cs with _ | ⟨more, s''⟩
  · rfl
  · show (r.finish s'').bind (fun last => some (out ++ more ++ last)) =
      ((r.finish s'').bind fun last => some (more ++ last)).map (out ++ ·)
    rcases r.finish s'' with _ | last
    · rfl
    · exact congrArg some (List.append_assoc _ _ _)

/-- What is read of a text goes on behind what was read of its first part. -/
theorem feed_append {xs : List α} (h : r.feed s xs = some (out, s')) (ys : List α) :
    r.feed s (xs ++ ys) = (r.feed s' ys).map fun p => (out ++ p.1, p.2) := by
  -- the state that the first units end in is where the others begin
  induction xs generalizing s out with
  | nil =>
    cases h
    simp
  | cons c cs ih =>
    rcases hstep : r.step s c with _ | ⟨first, s₁⟩
    · rw [feed, hstep] at h
      cases h
    · rw [feed_cons hstep] at h
      obtain ⟨⟨more, s₂⟩, hmore, heq⟩ := Option.map_eq_some_iff.mp h
      cases heq
      rw [List.cons_append, feed_cons hstep, ih hmore, Option.map_map]
      simp [Function.comp_def]

/-- A row of pieces is read by one scanner and what it gives by another, when both read each piece
from a state back to it. -/
theorem feed_flatMap {r' : Scanner τ β δ} {t : τ} {f : γ → List α} {g : γ → List δ}
    (h : ∀ c, ∃ ws, r.feed s (f c) = some (ws, s) ∧ r'.feed t ws = some (g c, t)) (cs : List γ) :
    ∃ ws, r.feed s (cs.flatMap f) = some (ws, s) ∧ r'.feed t ws = some (cs.flatMap g, t) := by
  induction cs with
  | nil => exact ⟨[], rfl, rfl⟩
  | cons c cs ih =>
    obtain ⟨ws, hws, hg⟩ := h c
    obtain ⟨more, hmore, hgs⟩ := ih
    refine ⟨ws ++ more, ?_, ?_⟩
    · simp [List.flatMap_cons, feed_append hws, hmore]
    · simp [List.flatMap_cons, feed_append hg, hgs]

end Scanner

/-! ## Code units -/

/-- The code units of a character: one, or two surrogates for a character beyond the first
`2^16`. -/
def charUnits (c : Char) : List UInt16 :=
  if c.toNat < 0x10000 then [UInt16.ofNat c.toNat]
  else [UInt16.ofNat (0xd800 + (c.toNat - 0x10000) / 0x400),
    UInt16.ofNat (0xdc00 + (c.toNat - 0x10000) % 0x400)]

/-- The code unit of a character of the first `2^16`. -/
def unit (c : Char) : UInt16 :=
  UInt16.ofNat c.toNat

/-- A code unit of a character is its code point or a surrogate. -/
theorem toNat_of_mem_charUnits {c : Char} {w : UInt16} (h : w ∈ charUnits c) :
    w.toNat = c.toNat ∨ 0xd800 ≤ w.toNat := by
  have hlt : c.toNat < 0x110000 := by
    rcases c.valid with h | h <;> (rw [Char.toNat]; omega)
  unfold charUnits at h
  split at h
  · next hsmall =>
    rw [List.mem_singleton.mp h, UInt16.toNat_ofNat']
    omega
  · next hlarge =>
    simp only [List.mem_cons, List.not_mem_nil, or_false] at h
    rcases h with rfl | rfl <;> (rw [UInt16.toNat_ofNat']; omega)

/-- The code unit of a character below the surrogates is part of no other character. -/
theorem eq_of_unit_mem {c d : Char} (hd : d.toNat < 0xd800) (h : unit d ∈ charUnits c) : c = d := by
  have hunit : (unit d).toNat = d.toNat := by
    rw [unit, UInt16.toNat_ofNat']
    omega
  have := toNat_of_mem_charUnits h
  exact Char.toNat_inj.mp (by omega)

/-- The code units of a text. -/
def units (s : String) : List UInt16 :=
  s.toList.flatMap charUnits

/-- The code unit of a line feed. -/
def lineFeed : UInt16 :=
  unit '\n'

/-- The code unit of a carriage return. -/
def carriageReturn : UInt16 :=
  unit '\r'

/-! ## Unicode escapes -/

/-- Where the translation of unicode escapes stands. -/
inductive Place where
  /-- Behind an even number of backslashes. -/
  | text
  /-- Behind an odd number of backslashes, of which the last may begin an escape. -/
  | backslash
  /-- Behind the letters `u` of an escape. -/
  | marks
  /-- Among the digits of an escape: how many are missing behind the next one, and the value of those
  before it. -/
  | digits (missing value : Nat)
deriving DecidableEq, Repr

/-- The translation of unicode escapes: a backslash behind an even number of backslashes, any number
of letters `u` and four hexadecimal digits stand for one code unit. What an escape stands for is
part of no other escape. -/
def escapes : Scanner Place Char UInt16 where
  step
    | .text, c => some (if c = '\\' then ([], .backslash) else (charUnits c, .text))
    | .backslash, c =>
      some (if c = 'u' then ([], .marks) else (charUnits '\\' ++ charUnits c, .text))
    | .marks, c =>
      if c = 'u' then some ([], .marks)
      else (Text.hexValue? c).map fun d => ([], .digits 2 d)
    | .digits 0 value, c =>
      (Text.hexValue? c).map fun d => ([UInt16.ofNat (value * 16 + d)], .text)
    | .digits (missing + 1) value, c =>
      (Text.hexValue? c).map fun d => ([], .digits missing (value * 16 + d))
  finish
    | .text => some []
    | .backslash => some (charUnits '\\')
    | .marks | .digits _ _ => none

/-- The code units of a source text, if its unicode escapes are well formed. -/
def translate? (code : String) : Option (List UInt16) :=
  escapes.scan .text code.toList

/-- A character that is part of no unicode escape. -/
structure IsPlain (c : Char) : Prop where
  noBackslash : c ≠ '\\'
  noMark : c ≠ 'u'
  noDigit : Text.hexValue? c = none

variable {c : Char}

/-- Before such a character the text could as well end. -/
theorem IsPlain.step (h : IsPlain c) (p : Place) :
    escapes.step p c = (escapes.finish p).map fun last => (last ++ charUnits c, .text) := by
  obtain ⟨hbackslash, hmark, hdigit⟩ := h
  cases p with
  | text => simp [escapes, hbackslash]
  | backslash => simp [escapes, hmark]
  | marks => simp [escapes, hmark, hdigit]
  | digits missing value => cases missing <;> simp [escapes, hdigit]

/-- What stands before and behind such a character is translated by itself. -/
theorem IsPlain.scan_append (h : IsPlain c) (p : Place) (xs ys : List Char) :
    escapes.scan p (xs ++ c :: ys) = (escapes.scan p xs).bind fun x =>
      (escapes.scan .text ys).map fun y => x ++ charUnits c ++ y := by
  -- a plain character ends whatever escape was open before it
  induction xs generalizing p with
  | nil =>
    have hend : escapes.scan p [] = escapes.finish p := by
      simp [Scanner.scan, Scanner.feed]
    rw [List.nil_append, hend]
    rcases hlast : escapes.finish p with _ | last
    · simp [Scanner.scan, Scanner.feed, h.step, hlast]
    · rw [Scanner.scan_cons (by rw [h.step, hlast]; rfl)]
      rfl
  | cons d ds ih =>
    rw [List.cons_append]
    rcases hstep : escapes.step p d with _ | ⟨out, p'⟩
    · simp [Scanner.scan, Scanner.feed, hstep]
    · rw [Scanner.scan_cons hstep, Scanner.scan_cons hstep, ih]
      rcases escapes.scan p' ds with _ | x
      · rfl
      · rcases escapes.scan .text ys with _ | y
        · rfl
        · simp

/-! ## Lines -/

/-- The lines of a text. A line feed, a carriage return, or a carriage return with a line feed behind
it ends a line; `behind` says that a carriage return has just ended one. -/
def lines : Bool → List UInt16 → List (List UInt16)
  | _, [] => [[]]
  | behind, c :: cs =>
    if c = lineFeed then if behind then lines false cs else [] :: lines false cs
    else if c = carriageReturn then [] :: lines true cs
    else (lines false cs).modifyHead (c :: ·)

/-- A text has a first line. -/
theorem exists_lines_eq_cons (us : List UInt16) : ∃ first rest, lines false us = first :: rest := by
  induction us with
  | nil => exact ⟨_, _, rfl⟩
  | cons c cs ih =>
    obtain ⟨first, rest, hcs⟩ := ih
    rw [lines, hcs]
    split
    · exact ⟨_, _, rfl⟩
    · split
      · exact ⟨_, _, rfl⟩
      · exact ⟨_, _, rfl⟩

/-- The lines of a text with a line feed in it are those before it and those behind it, but for an
empty line between a carriage return and the line feed. -/
theorem exists_lines_append (behind : Bool) (xs ys : List UInt16) : ∃ ended rest,
    lines behind xs = ended ++ rest ∧ lines behind (xs ++ lineFeed :: ys) = ended ++ lines false ys ∧
      (rest = [] ∨ rest = [[]]) ∧ (behind = false → ended ≠ []) := by
  induction xs generalizing behind with
  | nil =>
    cases behind with
    | false => exact ⟨[[]], [], rfl, rfl, .inl rfl, fun _ => List.cons_ne_nil _ _⟩
    | true => exact ⟨[], [[]], rfl, rfl, .inr rfl, nofun⟩
  | cons c cs ih =>
    rw [List.cons_append]
    by_cases hfeed : c = lineFeed
    · obtain ⟨ended, rest, hxs, hboth, hrest, hne⟩ := ih false
      cases behind with
      | false =>
        refine ⟨[] :: ended, rest, ?_, ?_, hrest, fun _ => List.cons_ne_nil _ _⟩
        · simp [lines, hfeed, hxs]
        · simp [lines, hfeed, hboth]
      | true =>
        refine ⟨ended, rest, ?_, ?_, hrest, nofun⟩
        · simp [lines, hfeed, hxs]
        · simp [lines, hfeed, hboth]
    · by_cases hreturn : c = carriageReturn
      · -- a line feed right behind it ends no line of its own: `ended` may be empty
        obtain ⟨ended, rest, hxs, hboth, hrest, -⟩ := ih true
        have hdiffer : carriageReturn ≠ lineFeed := by decide
        refine ⟨[] :: ended, rest, ?_, ?_, hrest, fun _ => List.cons_ne_nil _ _⟩
        · simp [lines, hreturn, hdiffer, hxs]
        · simp [lines, hreturn, hdiffer, hboth]
      · -- the character stands in the first line, which ends before the line feed at the latest
        obtain ⟨ended, rest, hxs, hboth, hrest, hne⟩ := ih false
        obtain ⟨first, more, rfl⟩ := List.exists_cons_of_ne_nil (hne rfl)
        refine ⟨(c :: first) :: more, rest, ?_, ?_, hrest, fun _ => List.cons_ne_nil _ _⟩
        · simp [lines, hfeed, hreturn, hxs]
        · simp [lines, hfeed, hreturn, hboth]

/-- A condition that empty lines satisfy is checked on both sides of a line feed. -/
theorem forall_lines_append {P : List UInt16 → Prop} (hempty : P []) (xs ys : List UInt16) :
    (∀ l ∈ lines false (xs ++ lineFeed :: ys), P l) ↔
      (∀ l ∈ lines false xs, P l) ∧ ∀ l ∈ lines false ys, P l := by
  obtain ⟨ended, rest, hxs, hboth, hrest, -⟩ := exists_lines_append false xs ys
  -- an unfinished line at the end is continued by nothing
  have hrests : ∀ l ∈ rest, P l := by
    intro l hl
    rcases hrest with rfl | rfl
    · exact absurd hl List.not_mem_nil
    · rw [List.mem_singleton.mp hl]
      exact hempty
  rw [hboth, hxs, List.forall_mem_append, List.forall_mem_append]
  constructor
  · rintro ⟨hended, hys⟩
    exact ⟨⟨hended, hrests⟩, hys⟩
  · rintro ⟨⟨hended, -⟩, hys⟩
    exact ⟨hended, hys⟩

end TypedPerl.Java
