import TypedPerl.Proofs.Java.SourceText
import TypedPerl.Proofs.Numeral.Literals
import TypedPerl.Proofs.Text.ByteOrder

/-!
# String literals denote their text

A text is written as a string literal (`Java.stringLiteral`) and read back in two ways: by the target,
which translates unicode escapes before it looks for string literals (`Java.denoted?`), and by the
reader of quoted texts, when a constant is folded. Both give the text that was written
(`stringLiteral_denotes`), whatever backslashes and letters `u` stand in it.
-/

namespace TypedPerl.Java

/-! ## String literals of the target -/

/-- Where the reading of a string literal stands. -/
inductive Reading where
  /-- Before the opening quote. -/
  | start
  /-- Between the quotes. -/
  | body
  /-- Behind a backslash. -/
  | escape
  /-- Behind digits of an octal escape: how many more may follow, and the value of these. -/
  | octal (more value : Nat)
  /-- Behind the closing quote. -/
  | done
deriving DecidableEq, Repr

/-- The escapes of one letter, and the characters they stand for. -/
def letterEscapes : List (Char × Char) :=
  [('b', Char.ofNat 8), ('s', ' '), ('t', '\t'), ('n', '\n'), ('f', Char.ofNat 12), ('r', '\r'),
    ('"', '"'), (Text.tick, Text.tick), ('\\', '\\')]

/-- A code unit between the quotes, where no escape has begun. -/
def readBody (c : UInt16) : Option (List UInt16 × Reading) :=
  if c = unit '"' then some ([], .done)
  else if c = unit '\\' then some ([], .escape)
  else if c = lineFeed ∨ c = carriageReturn then none
  else some ([c], .body)

/-- The code unit behind a backslash. -/
def readEscape (c : UInt16) : Option (List UInt16 × Reading) :=
  match letterEscapes.find? fun p => unit p.1 = c with
  | some (_, denoted) => some ([unit denoted], .body)
  | none =>
    if unit '0' ≤ c ∧ c ≤ unit '3' then some ([], .octal 2 (c.toNat - 48))
    else if unit '4' ≤ c ∧ c ≤ unit '7' then some ([], .octal 1 (c.toNat - 48))
    else none

/-- The reading of a string literal and nothing else, after unicode escapes are translated. -/
def stringReader : Scanner Reading UInt16 UInt16 where
  step
    | .start, c => if c = unit '"' then some ([], .body) else none
    | .body, c => readBody c
    | .escape, c => readEscape c
    | .octal (more + 1) value, c =>
      if unit '0' ≤ c ∧ c ≤ unit '7' then some ([], .octal more (value * 8 + (c.toNat - 48)))
      else (readBody c).map fun p => (UInt16.ofNat value :: p.1, p.2)
    | .octal 0 value, c => (readBody c).map fun p => (UInt16.ofNat value :: p.1, p.2)
    | .done, _ => none
  finish
    | .done => some []
    | _ => none

/-- The code units that a source text denotes, if it is one string literal. -/
def denoted? (code : String) : Option (List UInt16) := do
  let us ← translate? code
  stringReader.scan .start us

/-! ## Characters in literals -/

/-- The control characters, but for those that end lines. -/
def IsControl (n : Nat) : Prop :=
  (n < 0x20 ∨ n = 0x7f) ∧ n ≠ 10 ∧ n ≠ 13

instance (n : Nat) : Decidable (IsControl n) :=
  inferInstanceAs (Decidable (_ ∧ _))

/-- The characters that are written by a letter, and their letters. -/
def letters : List (Char × Char) :=
  [('"', '"'), ('\\', '\\'), ('\n', 'n'), ('\r', 'r'), ('\t', 't'), (Char.ofNat 8, 'b'),
    (Char.ofNat 12, 'f')]

/-- How a character is written in a string literal. -/
inductive Written (c : Char) : List Char → Prop where
  /-- By a letter that stands for it. -/
  | letter {l : Char} (h : (c, l) ∈ letters) : Written c ['\\', l]
  /-- By its code point, if that is a control character. -/
  | code (h : IsControl c.toNat) : Written c ('\\' :: 'u' :: Text.hexFixed 4 c.toNat)
  /-- As itself. -/
  | plain (hcontrol : 0x20 ≤ c.toNat) (hquote : c ≠ '"') (hbackslash : c ≠ '\\') : Written c [c]

theorem written_stringChar (c : Char) : Written c (stringChar c) := by
  -- the cases are told apart by the code of the character
  have hletter {d l : Char} (h : c.toNat = d.toNat) (hl : (d, l) ∈ letters) :
      Written c ['\\', l] :=
    .letter (Char.toNat_inj.mp h ▸ hl)
  unfold stringChar
  split
  case h_1 h => exact hletter (d := '"') h (by decide)
  case h_2 h => exact hletter (d := '\\') h (by decide)
  case h_3 h => exact hletter (d := '\n') h (by decide)
  case h_4 h => exact hletter (d := '\r') h (by decide)
  case h_5 h => exact hletter (d := '\t') h (by decide)
  case h_6 h => exact hletter (d := Char.ofNat 8) h (by decide)
  case h_7 h => exact hletter (d := Char.ofNat 12) h (by decide)
  case h_8 hquote hbackslash hfeed hreturn _ _ _ =>
    split
    · next hcode => exact .code ⟨by simpa using hcode, hfeed, hreturn⟩
    · next hcode =>
      have hcontrol : 0x20 ≤ c.toNat := by simp_all
      exact .plain hcontrol (fun h => hquote (h ▸ rfl)) fun h => hbackslash (h ▸ rfl)

/-! ## Reading by the target -/

/-- A code unit that ends no line, closes no literal and begins no escape stands for itself. -/
theorem readBody_eq {w : UInt16} (h : w.toNat ∉ [10, 13, 34, 92]) :
    readBody w = some ([w], .body) := by
  have hne {v : UInt16} (hv : v.toNat ∈ [10, 13, 34, 92]) : w ≠ v := fun heq => h (heq ▸ hv)
  have hquote : w ≠ unit '"' := hne (by decide)
  have hbackslash : w ≠ unit '\\' := hne (by decide)
  have hfeed : w ≠ lineFeed := hne (by decide)
  have hreturn : w ≠ carriageReturn := hne (by decide)
  rw [readBody, if_neg hquote, if_neg hbackslash, if_neg (by simp [hfeed, hreturn])]

theorem feed_body_eq {ws : List UInt16} (h : ∀ w ∈ ws, readBody w = some ([w], .body)) :
    stringReader.feed .body ws = some (ws, .body) := by
  induction ws with
  | nil => rfl
  | cons w ws ih =>
    obtain ⟨hw, hws⟩ := List.forall_mem_cons.mp h
    simp [Scanner.feed_cons (r := stringReader) (s := .body) hw, ih hws]

/-- What is written for a character is translated to code units that are read as the character. -/
theorem Written.denoted {c : Char} {cs : List Char} (h : Written c cs) :
    ∃ ws, escapes.feed .text cs = some (ws, .text) ∧
      stringReader.feed .body ws = some (charUnits c, .body) := by
  cases h with
  | @letter l h =>
    -- a backslash and its letter pass the first stage as they are
    have hall : ∀ p ∈ letters, escapes.feed .text ['\\', p.2] =
          some (['\\', p.2].flatMap charUnits, .text) ∧
        stringReader.feed .body (['\\', p.2].flatMap charUnits) =
          some (charUnits p.1, .body) := by decide
    exact ⟨_, hall _ h⟩
  | code h =>
    have hall : ∀ n < 128, IsControl n →
        escapes.feed .text ('\\' :: 'u' :: Text.hexFixed 4 n) = some ([UInt16.ofNat n], .text) := by
      decide
    obtain ⟨hcontrol, hfeed, hreturn⟩ := id h
    -- the first stage leaves the control character itself, which is no end of a line
    have hunits : charUnits c = [UInt16.ofNat c.toNat] := if_pos (by omega)
    refine ⟨charUnits c, hunits ▸ hall _ (by omega) h, feed_body_eq fun w hw => readBody_eq ?_⟩
    have hw : w.toNat = c.toNat := by
      rw [hunits, List.mem_singleton] at hw
      rw [hw, UInt16.toNat_ofNat']
      omega
    simp only [hw, List.mem_cons, List.not_mem_nil, or_false]
    omega
  | plain hcontrol hquote hbackslash =>
    have hfeed : escapes.feed .text [c] = some (charUnits c, .text) := by
      simp [Scanner.feed, escapes, hbackslash]
    -- surrogates are beyond the code units with a meaning
    refine ⟨charUnits c, hfeed, feed_body_eq fun w hw => readBody_eq ?_⟩
    have h34 : c.toNat ≠ 34 := fun h => hquote (Char.toNat_inj.mp h)
    have h92 : c.toNat ≠ 92 := fun h => hbackslash (Char.toNat_inj.mp h)
    have := toNat_of_mem_charUnits hw
    simp only [List.mem_cons, List.not_mem_nil, or_false]
    omega

theorem denoted?_stringLiteral (s : String) : denoted? (stringLiteral s) = some (units s) := by
  obtain ⟨ws, hws, hread⟩ := Scanner.feed_flatMap (fun c => (written_stringChar c).denoted) s.toList
  have hopen : escapes.step .text '"' = some ([unit '"'], .text) := rfl
  have hclose : escapes.feed .text ['"'] = some ([unit '"'], .text) := rfl
  have htranslate : translate? (stringLiteral s) = some (unit '"' :: (ws ++ [unit '"'])) := by
    rw [translate?, stringLiteral, String.toList_ofList, List.cons_append, Scanner.scan_cons hopen,
      Scanner.scan, Scanner.feed_append hws, hclose]
    simp [escapes]
  have hstart : stringReader.step .start (unit '"') = some ([], .body) := rfl
  have hend : stringReader.feed .body [unit '"'] = some ([], .done) := rfl
  rw [denoted?, htranslate]
  show stringReader.scan .start (unit '"' :: (ws ++ [unit '"'])) = _
  rw [Scanner.scan_cons hstart, Scanner.scan, Scanner.feed_append hread, hend]
  simp [stringReader, units]

/-- No character is written with the end of a line. -/
theorem Written.onLine {c : Char} {cs : List Char} (h : Written c cs) : '\n' ∉ cs ∧ '\r' ∉ cs := by
  cases h with
  | @letter l h =>
    have hall : ∀ p ∈ letters, '\n' ∉ ['\\', p.2] ∧ '\r' ∉ ['\\', p.2] := by decide
    exact hall _ h
  | code h =>
    have hall : ∀ n < 128, '\n' ∉ '\\' :: 'u' :: Text.hexFixed 4 n ∧
        '\r' ∉ '\\' :: 'u' :: Text.hexFixed 4 n := by decide
    obtain ⟨hcontrol, -, -⟩ := h
    exact hall _ (by omega)
  | plain hcontrol _ _ =>
    rw [List.mem_singleton, List.mem_singleton]
    constructor <;> rintro rfl <;> exact absurd hcontrol (by decide)

/-! ## Reading when constants are folded -/

theorem takeHex?_append {n acc v : Nat} {cs : List Char} (h : Text.takeHex? n acc cs = some (v, []))
    (rest : List Char) : Text.takeHex? n acc (cs ++ rest) = some (v, rest) := by
  induction n generalizing acc cs with
  | zero =>
    cases h
    rfl
  | succ n ih =>
    rcases cs with _ | ⟨c, cs⟩
    · cases h
    · rw [Text.takeHex?] at h
      rw [List.cons_append, Text.takeHex?]
      cases hc : Text.hexValue? c with
      | none => simp [hc] at h
      | some d => exact ih (by simpa [hc] using h)

/-- What is written for a character is read as one unit. -/
theorem Written.readUnit? {c : Char} {cs : List Char} (h : Written c cs) (rest : List Char) :
    Text.readUnit? '"' (cs ++ rest) = some (.char c, rest) := by
  cases h with
  | @letter l h =>
    have hall : ∀ p ∈ letters, Text.readUnit? '"' ('\\' :: p.2 :: rest) = some (.char p.1, rest) := by
      simp [letters, Text.readUnit?, Text.readEscape?]
    exact hall _ h
  -- there are few codes, so reading back what is written for them is computed
  | code h =>
    have hall : ∀ n < 128, Text.takeHex? 4 0 (Text.hexFixed 4 n) = some (n, []) := by decide
    obtain ⟨hcontrol, -, -⟩ := h
    have htake := takeHex?_append (hall c.toNat (by omega)) rest
    have hvalid : Text.validScalar c.toNat = true := by
      simp only [Text.validScalar, Bool.or_eq_true, decide_eq_true_eq]
      omega
    simp [Text.readUnit?, Text.readEscape?, Text.codePoint?, htake, hvalid]
  | plain hcontrol hquote hbackslash =>
    have hfeed : c ≠ '\n' := by
      rintro rfl
      exact absurd hcontrol (by decide)
    simp [Text.readUnit?, hquote, hbackslash, hfeed]

theorem Written.ne_nil {c : Char} {cs : List Char} (h : Written c cs) : cs ≠ [] := by
  cases h <;> exact List.cons_ne_nil _ _

theorem readUnits?_flatMap (cs : List Char) {fuel : Nat} (hfuel : cs.length ≤ fuel) :
    Text.readUnits? '"' fuel (cs.flatMap stringChar) = some (cs.map .char) := by
  induction cs generalizing fuel with
  | nil => rw [List.flatMap_nil, Text.readUnits?, List.map_nil]
  | cons c cs ih =>
    have hc := written_stringChar c
    obtain ⟨fuel, rfl⟩ := Nat.exists_eq_add_one_of_ne_zero (Nat.ne_of_gt (Nat.lt_of_lt_of_le
      (Nat.succ_pos _) hfuel))
    obtain ⟨d, ds, hd⟩ := List.exists_cons_of_ne_nil hc.ne_nil
    have hread := hc.readUnit? (cs.flatMap stringChar)
    rw [hd, List.cons_append] at hread
    rw [List.flatMap_cons, hd, List.cons_append, Text.readUnits?, hread]
    simp [ih (Nat.le_of_succ_le_succ hfuel)]

theorem length_le_length_flatMap (cs : List Char) :
    cs.length ≤ (cs.flatMap stringChar).length := by
  induction cs with
  | nil => rfl
  | cons c cs ih =>
    have hpos := List.length_pos_iff.mpr (written_stringChar c).ne_nil
    rw [List.flatMap_cons, List.length_append, List.length_cons]
    omega

theorem unquote?_stringLiteral (s : String) :
    Text.unquote? (stringLiteral s) = some s.toUTF8.data.toList := by
  -- the body lies between the quotes, which is the last character in particular
  have hbody : Text.quotedBody? (stringLiteral s) = some ('"', s.toList.flatMap stringChar) := by
    obtain ⟨c, cs, hcs⟩ := List.exists_cons_of_ne_nil
      (List.append_ne_nil_of_right_ne_nil (s.toList.flatMap stringChar) (List.cons_ne_nil '"' []))
    have hlast : (c :: cs).getLast? = some '"' := by rw [← hcs, List.getLast?_concat]
    have hfront : (c :: cs).dropLast = s.toList.flatMap stringChar := by
      rw [← hcs, List.dropLast_concat]
    rw [Text.quotedBody?, stringLiteral, String.toList_ofList, List.cons_append, hcs]
    simp only [hlast, hfront, if_true]
  have hunits := readUnits?_flatMap s.toList (length_le_length_flatMap s.toList)
  have hback : '"' ≠ Text.backTick := by decide
  have hone : '"' ≠ Text.tick := by decide
  rw [Text.unquote?, hbody, Text.utf8_eq]
  simp only [Option.bind_eq_bind, Option.bind_some, if_neg hback, decide_true, Bool.true_or, if_true,
    hunits, decide_eq_false hone, Bool.false_and, Bool.false_eq_true, if_false, List.flatMap_map]
  rfl

/-- The bytes of a text decide its truth. -/
theorem stringTruth?_stringLiteral (s : String) :
    stringTruth? (stringLiteral s) = some (decide (s ≠ "" ∧ s ≠ "0")) := by
  have hbytes (t : String) : s.toUTF8.data.toList = t.toUTF8.data.toList ↔ s = t := by
    rw [Array.toList_inj, ByteArray.ext_iff.symm]
    exact String.toByteArray_inj
  have hempty := hbytes ""
  have hzero := hbytes "0"
  have hnil : "".toUTF8.data.toList = [] := by decide
  have hdigit : "0".toUTF8.data.toList = [48] := by decide
  rw [hnil] at hempty
  rw [hdigit] at hzero
  rw [stringTruth?, unquote?_stringLiteral, Option.map_some, Option.some_inj, ← Bool.decide_and]
  exact decide_eq_decide.mpr (and_congr (not_congr hempty) (not_congr hzero))

end TypedPerl.Java

namespace TypedPerl.Conversion

/-- A string literal denotes its text, for the target and where constants are folded, and stands on
one line. What it is folded to as a boolean is therefore decided by the text. -/
theorem stringLiteral_denotes (s : String) :
    Java.denoted? (Java.stringLiteral s) = some (Java.units s) ∧
    (∀ c ∈ (Java.stringLiteral s).toList, c ≠ '\n' ∧ c ≠ '\r') ∧
    Text.unquote? (Java.stringLiteral s) = some s.toUTF8.data.toList ∧
    ∀ o, IsLiteral o (Java.stringLiteral s) .string →
      Renders o .boolean (if s = "" ∨ s = "0" then "false" else "true") := by
  -- an escaped character leaves no line break in the body, and the quotes are none
  have hline : ∀ c ∈ (Java.stringLiteral s).toList, c ≠ '\n' ∧ c ≠ '\r' := by
    have hquote : '"' ≠ '\n' ∧ '"' ≠ '\r' := by decide
    have hbody : ∀ c ∈ s.toList.flatMap Java.stringChar, c ≠ '\n' ∧ c ≠ '\r' := by
      intro c hc
      obtain ⟨d, -, hc⟩ := List.mem_flatMap.mp hc
      obtain ⟨hfeed, hreturn⟩ := (Java.written_stringChar d).onLine
      exact ⟨fun heq => hfeed (heq ▸ hc), fun heq => hreturn (heq ▸ hc)⟩
    rw [Java.stringLiteral, String.toList_ofList, List.forall_mem_append, List.forall_mem_cons]
    exact ⟨⟨hquote, hbody⟩, List.forall_mem_singleton.mpr hquote⟩
  refine ⟨Java.denoted?_stringLiteral s, hline, Java.unquote?_stringLiteral s, fun o ho => ?_⟩
  refine ho.renders (congrArg Except.ok ?_)
  have htruth := Java.stringTruth?_stringLiteral s
  simp only [toBoolean, ho.type, ho.constant, ho.code, if_true, htruth, decide_eq_true_eq, ne_eq,
    ← not_or, ite_not]

/-- A path, of which a backslash and letters behind it would be taken for a unicode escape, and a
control character. -/
theorem pathLiteral_denotes :
    Java.stringLiteral "C:\\users\x01" = "\"C:\\\\users\\u0001\"" ∧
    Java.denoted? "\"C:\\\\users\\u0001\"" = some (Java.units "C:\\users\x01") ∧
    (∀ c ∈ "\"C:\\\\users\\u0001\"".toList, c ≠ '\n' ∧ c ≠ '\r') ∧
    IsLiteral ⟨"\"C:\\\\users\\u0001\"", some .string, true, true, false, false, false, false⟩
      "\"C:\\\\users\\u0001\"" .string ∧
    Renders ⟨"\"C:\\\\users\\u0001\"", some .string, true, true, false, false, false, false⟩
      .boolean "true" := by
  have hcode : Java.stringLiteral "C:\\users\x01" = "\"C:\\\\users\\u0001\"" := by decide
  -- only the literal itself is computed; what it denotes follows
  have h := stringLiteral_denotes "C:\\users\x01"
  rw [hcode] at h
  obtain ⟨hdenoted, hline, -, hfold⟩ := h
  have hliteral : IsLiteral
      ⟨"\"C:\\\\users\\u0001\"", some .string, true, true, false, false, false, false⟩
      "\"C:\\\\users\\u0001\"" .string := ⟨rfl, rfl, rfl, rfl, rfl⟩
  exact ⟨hcode, hdenoted, hline, hliteral, hfold _ hliteral⟩

end TypedPerl.Conversion
