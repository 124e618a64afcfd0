import TypedPerl.Proofs.Scope.ClassNames
import TypedPerl.Proofs.Text.ByteOrder

/-!
# Classes with reserved names

The words of the target language and the classes of the runtime cannot name the class of a package.
A package whose last segment is reserved is named by the normal form of its whole name, and that
helps only where the name is changed by it: a name of letters and digits is its own normal form
(`Name.normalize_eq_self`), so that a package named like a runtime class becomes that class.
`Package.new_class_reserved_iff` says for which names this happens.
-/

namespace TypedPerl

/-! ## Bytes -/

theorem Text.toList_loop (bytes : ByteArray) (i : Nat) (front : List UInt8) :
    ByteArray.toList.loop bytes i front = front.reverse ++ bytes.data.toList.drop i := by
  fun_induction ByteArray.toList.loop bytes i front with
  | case1 i front hlt ih =>
    have hget : bytes.get! i = bytes.data.toList.get ⟨i, hlt⟩ := getElem!_pos bytes.data i hlt
    rw [ih, List.drop_eq_getElem_cons hlt, hget]
    simp
  | case2 i front hend =>
    rw [List.drop_eq_nil_of_le (Nat.le_of_not_lt hend), List.append_nil]

theorem Text.toUTF8_toList (s : String) :
    s.toUTF8.toList = s.toList.flatMap String.utf8EncodeChar := by
  rw [ByteArray.toList, toList_loop, ← utf8_eq]
  rfl

/-! ## Normal forms -/

namespace Name

theorem normalByte_ne_nil (first : Bool) (b : UInt8) : normalByte first b ≠ [] := by
  unfold normalByte
  split
  · simp
  · split
    · simp
    · split <;> simp

/-- A byte whose normal form has no underscore is an ASCII letter or digit, and stays. -/
theorem normalByte_of_not_mem {first : Bool} {b : UInt8} (h : '_' ∉ normalByte first b) :
    isAlnumByte b = true ∧ normalByte first b = [Char.ofNat b.toNat] := by
  unfold normalByte at h ⊢
  split at h
  · simp at h
  · split at h
    · simp at h
    · split at h
      · rename_i hunderscore hdigit halnum
        rw [if_neg hunderscore, if_neg hdigit, if_pos halnum]
        exact ⟨halnum, rfl⟩
      · simp at h

theorem isAlnumByte_iff (b : UInt8) : isAlnumByte b = true ↔
    97 ≤ b.toNat ∧ b.toNat ≤ 122 ∨ 65 ≤ b.toNat ∧ b.toNat ≤ 90 ∨ 48 ≤ b.toNat ∧ b.toNat ≤ 57 := by
  simp only [isAlnumByte, Bool.or_eq_true, Bool.and_eq_true, decide_eq_true_eq,
    UInt8.le_iff_toNat_le, or_assoc]
  rfl

theorem lt_of_isAlnumByte {b : UInt8} (h : isAlnumByte b = true) : b.toNat < 128 := by
  rw [isAlnumByte_iff] at h
  omega

/-- A character is one byte, its number, or its first byte is no letter or digit. -/
theorem utf8_cases (c : Char) :
    String.utf8EncodeChar c = [UInt8.ofNat c.toNat] ∧ c.toNat < 128 ∨
      ∃ b bs, String.utf8EncodeChar c = b :: bs ∧ isAlnumByte b = false := by
  -- the first byte of a longer encoding is beyond the letters
  have hhigh {n : Nat} (h : 128 ≤ n) (h' : n < 256) : isAlnumByte (UInt8.ofNat n) = false := by
    rw [Bool.eq_false_iff]
    intro halnum
    have hlt := lt_of_isAlnumByte halnum
    rw [Text.toNat_ofNat_of_lt h'] at hlt
    omega
  have hval : c.val.toNat = c.toNat := rfl
  unfold String.utf8EncodeChar
  dsimp only
  split
  · exact .inl ⟨rfl, by omega⟩
  · right
    repeat' split
    all_goals exact ⟨_, _, rfl, hhigh (by omega) (by omega)⟩

/-- The bytes of a character whose normal form has no underscore stay. -/
theorem normal_char {first : Bool} {c : Char} {bs : List UInt8} {b : UInt8}
    (hc : String.utf8EncodeChar c = b :: bs) (h : '_' ∉ normalByte first b) :
    bs = [] ∧ normalByte first b = [c] := by
  obtain ⟨halnum, hstays⟩ := normalByte_of_not_mem h
  rcases utf8_cases c with ⟨hone, hlt⟩ | ⟨b', bs', hmany, hother⟩
  · rw [hone, List.cons.injEq] at hc
    obtain ⟨rfl, rfl⟩ := hc
    rw [hstays, Text.toNat_ofNat_of_lt (by omega), Char.ofNat_toNat]
    exact ⟨rfl, rfl⟩
  · rw [hmany, List.cons.injEq] at hc
    rw [hc.1, halnum] at hother
    cases hother

theorem normal_rest {cs : List Char}
    (h : '_' ∉ (cs.flatMap String.utf8EncodeChar).flatMap (normalByte false)) :
    (cs.flatMap String.utf8EncodeChar).flatMap (normalByte false) = cs := by
  induction cs with
  | nil => rfl
  | cons c cs ih =>
    obtain ⟨b, bs, hc⟩ := List.exists_cons_of_ne_nil (Text.utf8EncodeChar_ne_nil c)
    simp only [List.flatMap_cons, List.flatMap_append, hc, List.cons_append, List.mem_append,
      not_or] at h ⊢
    obtain ⟨rfl, hstays⟩ := normal_char hc h.1
    rw [hstays]
    simpa using ih (by simpa using h.2)

/-- A name whose normal form has no underscore is its own normal form. -/
theorem normalize_eq_self {name : String} (h : '_' ∉ (normalize name).toList) :
    normalize name = name := by
  rw [normalize, String.toList_ofList, Text.toUTF8_toList] at h
  rw [← String.toList_inj, normalize, String.toList_ofList, Text.toUTF8_toList]
  cases hname : name.toList with
  | nil => rfl
  | cons c cs =>
    obtain ⟨b, bs, hc⟩ := List.exists_cons_of_ne_nil (Text.utf8EncodeChar_ne_nil c)
    rw [hname] at h
    simp only [List.flatMap_cons, hc, List.cons_append, normalBytes, List.mem_append, not_or]
      at h ⊢
    obtain ⟨rfl, hstays⟩ := normal_char hc h.1
    rw [hstays, List.nil_append, normal_rest h.2]
    rfl

/-- A letter of ASCII is one byte, which stays. -/
theorem normalByte_of_isAlpha (first : Bool) {c : Char} (h : c.isAlpha = true) :
    String.utf8EncodeChar c = [UInt8.ofNat c.toNat] ∧
      normalByte first (UInt8.ofNat c.toNat) = [c] := by
  rw [Text.isAlpha_iff] at h
  have hval : c.val.toNat = c.toNat := rfl
  have hbyte : (UInt8.ofNat c.toNat).toNat = c.toNat := Text.toNat_ofNat_of_lt (by omega)
  constructor
  · unfold String.utf8EncodeChar
    rw [if_pos (by omega)]
    rfl
  -- neither the separator nor a leading digit
  · have hunderscore : UInt8.ofNat c.toNat ≠ 95 := by
      intro heq
      rw [heq] at hbyte
      have h95 : (95 : UInt8).toNat = 95 := rfl
      omega
    have hdigit : ¬UInt8.ofNat c.toNat ≤ 57 := by
      rw [UInt8.le_iff_toNat_le, hbyte]
      show ¬c.toNat ≤ 57
      omega
    have halnum : isAlnumByte (UInt8.ofNat c.toNat) = true := by
      rw [isAlnumByte_iff, hbyte]
      omega
    rw [normalByte, if_neg hunderscore, if_neg (by simp [hdigit]), if_pos halnum, hbyte,
      Char.ofNat_toNat]

/-- A name of ASCII letters is its own normal form. -/
theorem normalize_of_letters {name : String} (h : ∀ c ∈ name.toList, c.isAlpha = true) :
    normalize name = name := by
  -- behind the first character even a digit would stay
  have hrest {cs : List Char} (h : ∀ c ∈ cs, c.isAlpha = true) :
      (cs.flatMap String.utf8EncodeChar).flatMap (normalByte false) = cs := by
    induction cs with
    | nil => rfl
    | cons c cs ih =>
      obtain ⟨hbytes, hstays⟩ := normalByte_of_isAlpha false (h c List.mem_cons_self)
      rw [List.flatMap_cons, hbytes, List.singleton_append, List.flatMap_cons, hstays,
        ih fun d hd => h d (List.mem_cons_of_mem c hd)]
      rfl
  rw [← String.toList_inj, normalize, String.toList_ofList, Text.toUTF8_toList]
  cases hname : name.toList with
  | nil => rfl
  | cons c cs =>
    rw [hname] at h
    obtain ⟨hbytes, hstays⟩ := normalByte_of_isAlpha true (h c List.mem_cons_self)
    rw [List.flatMap_cons, hbytes, List.singleton_append, normalBytes, hstays,
      hrest fun d hd => h d (List.mem_cons_of_mem c hd)]
    rfl

theorem length_le_flatMap {α β : Type} {f : α → List β} (hf : ∀ a, f a ≠ []) (l : List α) :
    l.length ≤ (l.flatMap f).length := by
  induction l with
  | nil => exact Nat.le_refl _
  | cons a l ih =>
    have hpos : 0 < (f a).length := List.length_pos_iff.mpr (hf a)
    rw [List.flatMap_cons, List.length_append, List.length_cons]
    omega

/-- A normal form is at least as long as the name. -/
theorem length_le_normalize (name : String) :
    name.toList.length ≤ (normalize name).toList.length := by
  have hnormal (bs : List UInt8) : bs.length ≤ (normalBytes bs).length := by
    cases bs with
    | nil => exact Nat.le_refl _
    | cons b bs =>
      have hpos : 0 < (normalByte true b).length := List.length_pos_iff.mpr (normalByte_ne_nil _ b)
      have hrest := length_le_flatMap (normalByte_ne_nil false) bs
      rw [normalBytes, List.length_append, List.length_cons]
      omega
  rw [normalize, String.toList_ofList, Text.toUTF8_toList]
  exact Nat.le_trans (length_le_flatMap Text.utf8EncodeChar_ne_nil _) (hnormal _)

/-- The keywords and the names of the runtime are words of letters, but for one. -/
theorem letters_of_mem {word : String} (h : word ∈ keywords ++ runtimeNames) (hne : word ≠ "__") :
    ∀ c ∈ word.toList, c.isAlpha = true := by
  have hall : ∀ w ∈ keywords ++ runtimeNames, w ≠ "__" → w.toList.all Char.isAlpha = true := by
    decide +kernel
  exact List.all_eq_true.mp (hall word h hne)

theorem not_mem_of_letters {cs : List Char} (h : ∀ c ∈ cs, c.isAlpha = true) {d : Char}
    (hd : d.isAlpha = false) : d ∉ cs := fun hmem => by
  rw [h d hmem] at hd
  cases hd

/-- A keyword or a name of the runtime may not be written as it is. -/
theorem isReserved_of_mem {name : String} (h : name ∈ keywords ++ runtimeNames) :
    isReserved name = true := by
  simp only [isReserved, Bool.or_eq_true, List.contains_iff_mem]
  rcases List.mem_append.mp h with h | h
  · exact .inl (.inr h)
  · exact .inl (.inl (.inr h))

end Name

/-! ## Classes -/

namespace Package

open Name (keywords runtimeNames normalize isReserved)

variable {τ : Type}

theorem afterColons?_of_not_mem {cs : List Char} (h : ':' ∉ cs) : afterColons? cs = none := by
  fun_induction afterColons? cs with
  | case1 | case2 => rfl
  | case3 c d rest hcolons =>
    obtain ⟨rfl, -⟩ : c = ':' ∧ d = ':' := by simpa using hcolons
    exact absurd List.mem_cons_self h
  | case4 c d rest hcolons ih => exact ih fun hmem => h (List.mem_cons_of_mem c hmem)

theorem lastSegment_of_none {name : String} (h : afterColons? name.toList = none) :
    lastSegment name = name := by
  rw [lastSegment, h, Option.getD_none, String.ofList_toList]

/-- The last segment of a short name is the name, but for a name of two colons. -/
theorem lastSegment_of_short {name : String} (h : name.toList.length ≤ 2) :
    name = "::" ∨ lastSegment name = name := by
  match hname : name.toList with
  | [] | [_] => exact .inr (lastSegment_of_none (by rw [hname]; rfl))
  | [c, d] =>
    by_cases hcolons : c = ':' ∧ d = ':'
    · obtain ⟨rfl, rfl⟩ := hcolons
      exact .inl (String.toList_inj.mp hname)
    · refine .inr (lastSegment_of_none ?_)
      rw [hname, afterColons?, if_neg (by simpa using hcolons)]
      rfl
  | _ :: _ :: _ :: _ =>
    rw [hname] at h
    simp at h

/-- Two underscores name the class of no package but these two. -/
theorem name_of_underscores {name : String} (hreserved : isReserved (lastSegment name) = true)
    (h : normalize name = "__") : name = "_" ∨ name = "::" := by
  have hshort : name.toList.length ≤ 2 := by
    have hle := Name.length_le_normalize name
    rw [h] at hle
    exact hle
  rcases lastSegment_of_short hshort with hcolons | hself
  · exact .inr hcolons
  · rw [hself] at hreserved
    -- a word of letters would be its own normal form
    have hword : name ∉ keywords ++ runtimeNames := by
      intro hword
      by_cases hunderscores : name = "__"
      · subst hunderscores
        exact absurd h (by decide +kernel)
      · rw [Name.normalize_of_letters (Name.letters_of_mem hword hunderscores)] at h
        exact hunderscores h
    rw [List.mem_append, not_or] at hword
    simp only [isReserved, Bool.or_eq_true, beq_iff_eq, List.contains_iff_mem] at hreserved
    rcases hreserved with (((rfl | rfl) | hruntime) | hkeyword) | hstart
    · exact absurd h (by decide +kernel)
    · exact .inl rfl
    · exact absurd hruntime hword.2
    · exact absurd hkeyword hword.1
    · have hlong : 3 ≤ name.toList.length := (String.startsWith_string_iff.mp hstart).length_le
      omega

/-- A word of letters names its own class. -/
theorem classFor_of_letters {name : String} (h : ∀ c ∈ name.toList, c.isAlpha = true) :
    classFor name = name := by
  unfold classFor
  rw [lastSegment_of_none (afterColons?_of_not_mem (Name.not_mem_of_letters h rfl)),
    Name.normalize_of_letters h, ite_self]

/-- The class of a package is a word of the target language or a class of the runtime exactly if
the package has such a name itself, other than two underscores, or is named by one underscore or by
two colons. -/
theorem new_class_reserved_iff (name : String) :
    (new name : Package τ).className ∈ keywords ++ runtimeNames ↔
      name ∈ keywords ++ runtimeNames ∧ name ≠ "__" ∨ name = "_" ∨ name = "::" := by
  have hclass : (new name : Package τ).className = classFor name := rfl
  rw [hclass]
  constructor
  · intro h
    unfold classFor at h
    dsimp only at h
    split at h
    · next hreserved =>
      -- the reserved words are made of letters, except for the one of two underscores
      by_cases hunderscores : normalize name = "__"
      · exact .inr (name_of_underscores hreserved hunderscores)
      · have hletters := Name.letters_of_mem h hunderscores
        have hself := Name.normalize_eq_self (Name.not_mem_of_letters hletters rfl)
        rw [hself] at h hunderscores
        exact .inl ⟨h, hunderscores⟩
    · next hfree => exact absurd (Name.isReserved_of_mem h) hfree
  · rintro (⟨hword, hne⟩ | rfl | rfl)
    · rw [classFor_of_letters (Name.letters_of_mem hword hne)]
      exact hword
    · decide +kernel
    · decide +kernel

/-- A package that is named like a class of the runtime becomes that class. -/
theorem textPackage_hides_runtime :
    (new "Text" : Package).className = "Text" ∧ "Text" ∈ runtimeNames := by
  decide +kernel

end Package

end TypedPerl
