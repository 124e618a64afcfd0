import Mathlib.Data.List.Basic
import TypedPerl.Proofs.Text.ByteOrder
import TypedPerl.Text.Bytes

/-!
# Texts and their bytes

The symbols of the bytes of a text are its characters (`Text.symbols_encode`), and a row of bytes is
made of the bytes of its symbols (`Text.bytes_symbols`), so the bytes that hold characters only are
those of texts (`Text.symbols_eq_map_iff`). A byte of ASCII is a character wherever it stands:
bytes are split at it where the text is.
-/

namespace TypedPerl.Text

/-! ## Bytes of characters -/

theorem encode_cons (c : Char) (cs : List Char) :
    encode (c :: cs) = String.utf8EncodeChar c ++ encode cs :=
  List.flatMap_cons

/-- A character of ASCII is one byte, and all bytes of another character are greater. -/
theorem utf8EncodeChar_cases (c : Char) :
    String.utf8EncodeChar c = [UInt8.ofNat c.toNat] ∧ c.toNat < 128 ∨
      ∀ b ∈ String.utf8EncodeChar c, 128 ≤ b.toNat := by
  have hval : c.val.toNat = c.toNat := rfl
  unfold String.utf8EncodeChar
  dsimp only
  split
  · exact .inl ⟨rfl, by omega⟩
  · right
    repeat' split
    all_goals
      simp only [List.forall_mem_cons, List.not_mem_nil, false_implies, implies_true, and_true]
      refine ⟨?_, ?_⟩ <;> simp (disch := omega) only [toNat_ofNat_of_lt] <;> omega

variable {sep : Char}

theorem utf8EncodeChar_ascii (hsep : sep.toNat < 128) :
    String.utf8EncodeChar sep = [UInt8.ofNat sep.toNat] := by
  rcases utf8EncodeChar_cases sep with ⟨h, -⟩ | h
  · exact h
  · unfold String.utf8EncodeChar
    rw [if_pos (by show sep.val.toNat ≤ 127; exact Nat.le_of_lt_succ hsep)]
    rfl

/-- No other character has a byte that is a character of ASCII. -/
theorem not_mem_utf8EncodeChar (hsep : sep.toNat < 128) {c : Char} (hc : c ≠ sep) :
    UInt8.ofNat sep.toNat ∉ String.utf8EncodeChar c := by
  have hbyte : (UInt8.ofNat sep.toNat).toNat = sep.toNat := toNat_ofNat_of_lt (by omega)
  intro hmem
  rcases utf8EncodeChar_cases c with ⟨hone, hlt⟩ | hhigh
  · rw [hone, List.mem_singleton] at hmem
    have hnat := congrArg UInt8.toNat hmem
    rw [hbyte, toNat_ofNat_of_lt (by omega)] at hnat
    exact hc (Char.toNat_inj.mp hnat.symm)
  · have hle := hhigh _ hmem
    omega

theorem encode_eq_nil {cs : List Char} : encode cs = [] ↔ cs = [] := by
  cases cs with
  | nil => exact iff_of_true rfl rfl
  | cons c cs => simp [encode_cons]

/-! ## Symbols -/

/-- The character at the front of its bytes is found whatever follows them. -/
theorem leadingChar?_append (c : Char) (rest : List UInt8) :
    leadingChar? (String.utf8EncodeChar c ++ rest) = some c := by
  have hsize : (String.utf8EncodeChar c).length ≤ 4 := by
    rw [String.length_utf8EncodeChar]
    exact c.utf8Size_le_four
  rw [leadingChar?, List.take_append, List.take_of_length_le hsize, List.toByteArray_append]
  exact ByteArray.utf8DecodeChar?_utf8EncodeChar_append

/-- The bytes of the character at the front stand there. -/
theorem utf8EncodeChar_of_leadingChar? {bs : List UInt8} {c : Char} (h : leadingChar? bs = some c) :
    String.utf8EncodeChar c = bs.take c.utf8Size := by
  have hbytes := String.toByteArray_utf8EncodeChar_of_utf8DecodeChar?_eq_some h
  have hlist := congrArg (fun b => b.data.toList) hbytes
  simpa [List.take_take, Nat.min_eq_left c.utf8Size_le_four] using hlist

theorem symbolsUpTo_encode (cs : List Char) {fuel : Nat} (h : (encode cs).length ≤ fuel) :
    symbolsUpTo fuel (encode cs) = cs.map .char := by
  induction cs generalizing fuel with
  | nil => cases fuel <;> rfl
  | cons c cs ih =>
    have hlength := String.length_utf8EncodeChar c
    have hpos := c.utf8Size_pos
    rw [encode_cons, List.length_append] at h
    -- a character has a byte, so there is fuel for it
    obtain ⟨fuel, rfl⟩ : ∃ k, fuel = k + 1 := ⟨fuel - 1, by omega⟩
    obtain ⟨b, bs, hbytes⟩ : ∃ b bs, encode (c :: cs) = b :: bs :=
      List.exists_cons_of_ne_nil (by simp [encode_eq_nil])
    have hlead : leadingChar? (b :: bs) = some c := by
      rw [← hbytes, encode_cons, leadingChar?_append]
    have hrest : (b :: bs).drop c.utf8Size = encode cs := by
      rw [← hbytes, encode_cons, ← hlength, List.drop_left]
    rw [hbytes, symbolsUpTo, hlead]
    dsimp only
    rw [hrest, ih (by omega), List.map_cons]

/-- The symbols of the bytes of a text are its characters. -/
theorem symbols_encode (cs : List Char) : symbols (encode cs) = cs.map .char :=
  symbolsUpTo_encode cs (Nat.le_refl _)

theorem bytes_symbolsUpTo {fuel : Nat} {bs : List UInt8} (h : bs.length ≤ fuel) :
    (symbolsUpTo fuel bs).flatMap Symbol.bytes = bs := by
  induction fuel generalizing bs with
  | zero =>
    rw [List.eq_nil_of_length_eq_zero (Nat.le_zero.mp h)]
    rfl
  | succ fuel ih =>
    cases bs with
    | nil => rfl
    | cons b bs =>
      rw [List.length_cons] at h
      rw [symbolsUpTo]
      split
      · next c hlead =>
        have hpos := c.utf8Size_pos
        have hshorter : ((b :: bs).drop c.utf8Size).length ≤ fuel := by
          rw [List.length_drop, List.length_cons]
          omega
        rw [List.flatMap_cons, ih hshorter, Symbol.bytes, utf8EncodeChar_of_leadingChar? hlead,
          List.take_append_drop]
      · rw [List.flatMap_cons, ih (by omega)]
        rfl

/-- Bytes are made of the bytes of their symbols. -/
theorem bytes_symbols (bs : List UInt8) : (symbols bs).flatMap Symbol.bytes = bs :=
  bytes_symbolsUpTo (Nat.le_refl _)

theorem bytes_map_char (cs : List Char) :
    (cs.map Symbol.char).flatMap Symbol.bytes = encode cs := by
  rw [List.flatMap_map]
  rfl

/-- The bytes that hold characters only are those of texts. -/
theorem symbols_eq_map_iff {bs : List UInt8} {cs : List Char} :
    symbols bs = cs.map .char ↔ bs = encode cs := by
  constructor
  · intro h
    rw [← bytes_symbols bs, h, bytes_map_char]
  · rintro rfl
    exact symbols_encode cs

/-- A text is read back from its bytes. -/
theorem ofBytes_encode (cs : List Char) : ofBytes (encode cs) = String.ofList cs := by
  rw [ofBytes, symbols_encode, List.map_map]
  exact congrArg String.ofList (List.map_id cs)

/-! ## Splitting -/

/-- Bytes are split where the text is. -/
theorem splitOnP_encode (hsep : sep.toNat < 128) (cs : List Char) :
    (encode cs).splitOnP (· == UInt8.ofNat sep.toNat) =
      (cs.splitOnP (· == sep)).map encode := by
  -- no byte of another character is the separator
  have hstay {bs rest : List UInt8} (h : UInt8.ofNat sep.toNat ∉ bs) :
      (bs ++ rest).splitOnP (· == UInt8.ofNat sep.toNat) =
        (rest.splitOnP (· == UInt8.ofNat sep.toNat)).modifyHead (bs ++ ·) := by
    induction bs with
    | nil =>
      rw [List.nil_append]
      cases rest.splitOnP (· == UInt8.ofNat sep.toNat) <;> rfl
    | cons b bs ih =>
      obtain ⟨hb, hbs⟩ := not_or.mp (mt List.mem_cons.mpr h)
      rw [List.cons_append, List.splitOnP_cons_eq_if_modifyHead,
        if_neg (by simpa using Ne.symm hb), ih hbs, List.modifyHead_modifyHead]
      rfl
  induction cs with
  | nil => rfl
  | cons c cs ih =>
    rw [encode_cons, List.splitOnP_cons_eq_if_modifyHead]
    by_cases hc : c = sep
    · subst hc
      rw [utf8EncodeChar_ascii hsep, List.singleton_append, List.splitOnP_cons_eq_if_modifyHead,
        if_pos (beq_self_eq_true _), if_pos (beq_self_eq_true _), ih]
      rfl
    · rw [hstay (not_mem_utf8EncodeChar hsep hc), ih, if_neg (by simpa using hc)]
      cases cs.splitOnP (· == sep) with
      | nil => rfl
      | cons part parts => rfl

theorem takeWhile_encode (hsep : sep.toNat < 128) (cs : List Char) :
    (encode cs).takeWhile (· ≠ UInt8.ofNat sep.toNat) = encode (cs.takeWhile (· ≠ sep)) := by
  induction cs with
  | nil => rfl
  | cons c cs ih =>
    rw [encode_cons]
    by_cases hc : c = sep
    · subst hc
      rw [utf8EncodeChar_ascii hsep, List.singleton_append, List.takeWhile_cons_of_neg (by simp),
        List.takeWhile_cons_of_neg (by simp)]
      rfl
    -- no byte of another character is the separator
    · have hother : ∀ b ∈ String.utf8EncodeChar c,
          decide (b ≠ UInt8.ofNat sep.toNat) = true := by
        intro b hb
        rw [decide_eq_true_eq]
        rintro rfl
        exact not_mem_utf8EncodeChar hsep hc hb
      rw [List.takeWhile_append_of_pos hother, ih, List.takeWhile_cons_of_pos (by simpa using hc),
        encode_cons]

end TypedPerl.Text
