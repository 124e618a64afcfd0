import TypedPerl.Ty.Cbor
import TypedPerl.Proofs.Text.ByteOrder

/-!
# Types survive being stored

`Ty.ofCbor_toCbor`: reading the stored form of a well-formed type gives the type back. The proof
goes up the layers of the form. A head gives its argument back, whatever the number of bytes it
takes; a string gives its content back, in one piece or in many; a map of one or two fields gives
its fields back; and a row of tag codes gives the type back that it was taken from. In the other
direction, `Ty.ofCbor_wellFormed`: whatever bytes are read, what they hold is a well-formed type.

Each reader is applied to what was written followed by any `rest`, which it hands on untouched.
-/

namespace TypedPerl

namespace Cbor

/-! ## Heads -/

theorem takeNat?_natBytes (k j acc n : Nat) (rest : List UInt8) :
    takeNat? (k + j) acc (natBytes k n ++ rest)
      = takeNat? j (acc * Nat.pow 256 k + n % Nat.pow 256 k) rest := by
  -- The most significant byte is written last in the recursion but read first, so the induction
  -- has to leave room for the `j` bytes that are still to come.
  induction k generalizing j n rest with
  | zero => simp [natBytes, Nat.mod_one]
  | succ k ih =>
    have hpow : Nat.pow 256 (k + 1) = 256 * Nat.pow 256 k := Nat.pow_succ'
    have hmod : n % Nat.pow 256 (k + 1) = n % 256 + 256 * (n / 256 % Nat.pow 256 k) := by
      rw [hpow, Nat.mod_mul]
    have hbyte : n.toUInt8.toNat = n % 256 := by simp
    rw [natBytes, List.append_assoc, Nat.add_right_comm, Nat.add_assoc, ih, List.singleton_append,
      takeNat?, hbyte, hmod, hpow, Nat.add_mul, Nat.mul_assoc, Nat.mul_comm (Nat.pow 256 k) 256,
      Nat.add_assoc, Nat.add_comm (n % 256), Nat.mul_comm (n / 256 % Nat.pow 256 k) 256]

/-- The last `k` bytes of a number that needs no more of them are the whole number. -/
theorem takeNat?_natBytes_of_lt {k n : Nat} (rest : List UInt8) (h : n < Nat.pow 256 k) :
    takeNat? k 0 (natBytes k n ++ rest) = some (n, rest) := by
  have hread := takeNat?_natBytes k 0 0 n rest
  rwa [Nat.mod_eq_of_lt h, Nat.zero_mul, Nat.zero_add, Nat.add_zero, takeNat?] at hread

theorem toNat_headByte {major info : Nat} (hm : major < 8) (hi : info < 32) :
    (32 * major + info).toUInt8.toNat / 32 = major
      ∧ (32 * major + info).toUInt8.toNat % 32 = info := by
  have : (32 * major + info).toUInt8.toNat = 32 * major + info := by
    simp only [Nat.toUInt8_eq, UInt8.toNat_ofNat']
    omega
  omega

/-- A head whose argument follows in 1, 2, 4 or 8 bytes. -/
theorem head?_natBytes {major info w n : Nat} (rest : List UInt8) (hm : major < 8)
    (hw : info = 24 ∧ w = 1 ∨ info = 25 ∧ w = 2 ∨ info = 26 ∧ w = 4 ∨ info = 27 ∧ w = 8)
    (hn : n < Nat.pow 256 w) :
    head? ((32 * major + info).toUInt8 :: (natBytes w n ++ rest))
      = some (major, .value n w, rest) := by
  obtain ⟨hmajor, hinfo⟩ := toNat_headByte hm (show info < 32 by omega)
  simp only [head?, hmajor, hinfo]
  rcases hw with ⟨rfl, rfl⟩ | ⟨rfl, rfl⟩ | ⟨rfl, rfl⟩ | ⟨rfl, rfl⟩ <;>
    simp [takeNat?_natBytes_of_lt rest hn]

/-- A head gives its argument back. -/
theorem head?_writeHead (major : Nat) {n : Nat} (rest : List UInt8) (hm : major < 8)
    (hn : n < headLimit) :
    ∃ w, head? (writeHead major n ++ rest) = some (major, .value n w, rest) := by
  -- the number stands in the head itself or in as many bytes as it needs
  simp only [writeHead]
  split
  · rename_i h
    obtain ⟨hmajor, hinfo⟩ := toNat_headByte hm (show n < 32 by omega)
    exact ⟨0, by simp only [List.singleton_append, head?, hmajor, hinfo, if_pos h]⟩
  split
  · rename_i h
    exact ⟨1, head?_natBytes rest hm (by simp) h⟩
  split
  · rename_i h
    exact ⟨2, head?_natBytes rest hm (by simp) h⟩
  split
  · rename_i h
    exact ⟨4, head?_natBytes rest hm (by simp) h⟩
  · exact ⟨8, head?_natBytes rest hm (by simp) hn⟩

/-- No head of a major type below 7 starts like a break. -/
theorem writeHead_ne_break {major : Nat} (n : Nat) (hm : major < 7) :
    ∃ b bs, writeHead major n = b :: bs ∧ b ≠ breakByte := by
  -- the break byte is the greatest head of major type 7
  have ne {info : Nat} (hi : info < 32) : (32 * major + info).toUInt8 ≠ breakByte := by
    intro h
    have := toNat_headByte (show major < 8 by omega) hi
    rw [h] at this
    have : breakByte.toNat = 255 := rfl
    omega
  simp only [writeHead]
  split
  · exact ⟨_, _, rfl, ne (by omega)⟩
  split
  · exact ⟨_, _, rfl, ne (by omega)⟩
  split
  · exact ⟨_, _, rfl, ne (by omega)⟩
  split
  · exact ⟨_, _, rfl, ne (by omega)⟩
  · exact ⟨_, _, rfl, ne (by omega)⟩

/-! ## Strings -/

theorem takeBytes?_append (b rest : List UInt8) :
    takeBytes? b.length (b ++ rest) = some (b, rest) := by
  simp [takeBytes?]

/-- The pieces of a string of indefinite length are read back one by one, up to the break. -/
theorem chunks?_writePieces {major : Nat} (hm : major < 7) (pieces : List (List UInt8))
    (hp : ∀ p ∈ pieces, p.length < headLimit) {fuel : Nat} (hf : pieces.length < fuel)
    (rest : List UInt8) :
    chunks? major fuel (pieces.flatMap (writePiece major) ++ breakByte :: rest)
      = some (pieces, rest) := by
  induction pieces generalizing fuel with
  | nil =>
    obtain ⟨fuel, rfl⟩ : ∃ k, fuel = k + 1 := ⟨fuel - 1, by simp at hf; omega⟩
    simp [chunks?]
  | cons p pieces ih =>
    obtain ⟨fuel, rfl⟩ : ∃ k, fuel = k + 1 := ⟨fuel - 1, by simp at hf; omega⟩
    have hrest := ih (fun q hq => hp q (List.mem_cons_of_mem _ hq))
      (show pieces.length < fuel by simp at hf; omega)
    -- the head of a piece is not taken for the end of the pieces
    obtain ⟨b, bs, hhead, hb⟩ := writeHead_ne_break p.length hm
    obtain ⟨w, hread⟩ := head?_writeHead major
      (p ++ (pieces.flatMap (writePiece major) ++ breakByte :: rest)) (by omega)
      (hp p List.mem_cons_self)
    rw [hhead, List.cons_append] at hread
    simp only [List.flatMap_cons, writePiece, List.append_assoc, hhead, List.cons_append, chunks?,
      if_neg hb, hread, ne_eq, not_true_eq_false, if_false, takeBytes?_append, hrest]

/-- A string that is one piece, or the pieces of a string, read back. The pieces are those that were
written, or all of them in one. -/
theorem head?_writeString (major : Nat) (hm : major < 7) (pieces : List (List UInt8))
    (hp : ∀ p ∈ pieces, p.length < headLimit) {fuel : Nat} (hf : pieces.length < fuel)
    (rest : List UInt8) :
    (∃ w after, head? (writeString major pieces ++ rest)
        = some (major, .value pieces.flatten.length w, after)
      ∧ takeBytes? pieces.flatten.length after = some (pieces.flatten, rest))
    ∨ (∃ after, head? (writeString major pieces ++ rest) = some (major, .indefinite, after)
      ∧ chunks? major fuel after = some (pieces, rest)) := by
  unfold writeString
  -- a short string is written in one piece, and a long one as the pieces it came in
  split
  · rename_i h
    obtain ⟨w, hread⟩ := head?_writeHead major (pieces.flatten ++ rest) (by omega) h
    refine Or.inl ⟨w, pieces.flatten ++ rest, ?_, takeBytes?_append _ _⟩
    rw [writePiece, List.append_assoc, hread]
  · obtain ⟨hmajor, hinfo⟩ := toNat_headByte (show major < 8 by omega) (show 31 < 32 by omega)
    refine Or.inr ⟨_, ?_, chunks?_writePieces hm pieces hp hf rest⟩
    simp only [List.cons_append, List.append_assoc, head?, hmajor, hinfo]
    rfl

theorem length_writeHead_pos (major n : Nat) : 1 ≤ (writeHead major n).length := by
  simp only [writeHead]
  split
  · simp
  split
  · simp
  split
  · simp
  split
  · simp
  · simp

/-- A string takes at least a byte for each piece that is not empty. -/
theorem length_le_length_writeString (major : Nat) (pieces : List (List UInt8))
    (hp : ∀ p ∈ pieces, 1 ≤ p.length) : pieces.length ≤ (writeString major pieces).length := by
  -- each piece has a byte of its own in the string
  have hflat : pieces.length ≤ pieces.flatten.length := by
    induction pieces with
    | nil => simp
    | cons p pieces ih =>
      have h1 := hp p List.mem_cons_self
      have h2 := ih fun q hq => hp q (List.mem_cons_of_mem _ hq)
      simp only [List.length_cons, List.flatten_cons, List.length_append]
      omega
  -- and a head of its own when it is written by itself
  have hpieces : pieces.length ≤ (pieces.flatMap (writePiece major)).length := by
    clear hflat hp
    induction pieces with
    | nil => simp
    | cons p pieces ih =>
      have := length_writeHead_pos major p.length
      simp only [List.length_cons, List.flatMap_cons, List.length_append, writePiece] at ih ⊢
      omega
  unfold writeString
  split
  · simp only [writePiece, List.length_append]
    omega
  · simp only [List.length_cons, List.length_append]
    omega

/-- A byte string reads back. -/
theorem item?_writeBytes (level : Nat) (tagged : Bool) (b : List UInt8) {fuel : Nat}
    (hf : b.length < fuel) (rest : List UInt8) :
    item? level tagged (fuel + 1) (writeBytes b ++ rest) = some (.bytes b, rest) := by
  -- bytes may be cut anywhere, so each one is a piece
  have hflat : (b.map fun x => [x]).flatten = b := by
    rw [← List.flatMap_def, List.flatMap_singleton']
  have hpieces : ∀ p ∈ b.map fun x => [x], p.length < headLimit := by
    intro p hp
    obtain ⟨x, -, rfl⟩ := List.mem_map.1 hp
    simp [headLimit]
  obtain ⟨w, after, hhead, htake⟩ | ⟨after, hhead, hchunks⟩ :=
    head?_writeString 2 (by omega) _ hpieces (by rwa [List.length_map]) rest
  · rw [hflat] at htake
    rw [writeBytes, item?, hhead]
    simp [hflat, htake]
  · rw [writeBytes, item?, hhead]
    simp [hchunks, hflat]

/-! ## Texts -/

theorem fromUTF8?_toUTF8 (s : String) :
    String.fromUTF8? ⟨s.toUTF8.data.toList.toArray⟩ = some s := by
  have h : (⟨s.toUTF8.data.toList.toArray⟩ : ByteArray) = s.toByteArray := by simp
  rw [h, String.fromUTF8?, dif_pos s.isValidUTF8, String.fromUTF8]

theorem charBytes (c : Char) :
    (String.singleton c).toUTF8.data.toList = String.utf8EncodeChar c := by
  rw [Text.utf8_eq]
  simp

/-- A text as the bytes of its characters. -/
theorem flatten_charBytes (s : String) :
    (s.toList.map fun c => (String.singleton c).toUTF8.data.toList).flatten
      = s.toUTF8.data.toList := by
  rw [Text.utf8_eq, List.flatMap_def]
  simp only [charBytes]

/-- The pieces of a text are neither empty nor long. -/
theorem length_charBytes (s : String) :
    ∀ p ∈ s.toList.map fun c => (String.singleton c).toUTF8.data.toList,
      1 ≤ p.length ∧ p.length < headLimit := by
  intro p hp
  obtain ⟨c, -, rfl⟩ := List.mem_map.1 hp
  have hpos : 0 < c.utf8Size := c.utf8Size_pos
  have hle : c.utf8Size ≤ 4 := c.utf8Size_le_four
  rw [charBytes, String.length_utf8EncodeChar, headLimit]
  omega

theorem joinTexts?_one (s : String) : joinTexts? [s.toUTF8.data.toList] = some s := by
  rw [joinTexts?, List.mapM_cons, fromUTF8?_toUTF8]
  simp [String.join]

/-- The pieces of a text are texts of one character. -/
theorem joinTexts?_chars (s : String) :
    joinTexts? (s.toList.map fun c => (String.singleton c).toUTF8.data.toList) = some s := by
  have hmap : ∀ cs : List Char, (cs.map fun c => (String.singleton c).toUTF8.data.toList).mapM
      (fun b => String.fromUTF8? ⟨b.toArray⟩) = some (cs.map String.singleton) := by
    intro cs
    induction cs with
    | nil => rfl
    | cons c cs ih => simp only [List.map_cons, List.mapM_cons, fromUTF8?_toUTF8, ih]; rfl
  have hjoin : String.join (s.toList.map String.singleton) = s := by
    apply String.toList_injective
    simp [String.toList_join, List.flatMap_map]
  rw [joinTexts?, hmap, Option.map_some, hjoin]

/-- A text reads back, in one piece or in pieces that make it up. -/
theorem item?_writeText (level : Nat) (tagged : Bool) (s : String) {fuel : Nat}
    (hf : s.toList.length < fuel) (rest : List UInt8) :
    ∃ pieces, item? level tagged (fuel + 1) (writeText s ++ rest) = some (.text pieces, rest)
      ∧ joinTexts? pieces = some s := by
  obtain ⟨w, after, hhead, htake⟩ | ⟨after, hhead, hchunks⟩ :=
    head?_writeString 3 (by omega) _ (fun p hp => (length_charBytes s p hp).2)
      (by rwa [List.length_map]) rest
  · rw [flatten_charBytes] at htake
    refine ⟨[s.toUTF8.data.toList], ?_, joinTexts?_one s⟩
    rw [writeText, item?, hhead]
    simp only [flatten_charBytes, htake, Option.map_some]
  · refine ⟨_, ?_, joinTexts?_chars s⟩
    rw [writeText, item?, hhead]
    simp only [hchunks, Option.map_some]

/-! ## Fields -/

/-- The field of the codes, in front of other fields. -/
theorem items?_codes (level n fuel : Nat) (b : List UInt8) (hf : b.length < fuel)
    (rest : List UInt8) :
    items? level (fuel + 3) (n + 2) (1 :: (writeBytes b ++ rest))
      = (items? level (fuel + 1) n rest).map fun p => (.nat 1 :: .bytes b :: p.1, p.2) := by
  have hkey : item? level false (fuel + 2) (1 :: (writeBytes b ++ rest))
      = some (.nat 1, writeBytes b ++ rest) := by
    rw [item?]
    rfl
  rw [items?, hkey]
  simp only [items?, item?_writeBytes level false b hf rest]
  cases items? level (fuel + 1) n rest <;> rfl

/-- The field of the name, in front of other fields. -/
theorem items?_name (level n fuel : Nat) (s : String) (hf : s.toList.length < fuel)
    (rest : List UInt8) :
    ∃ pieces, joinTexts? pieces = some s
      ∧ items? level (fuel + 3) (n + 2) (2 :: (writeText s ++ rest))
        = (items? level (fuel + 1) n rest).map fun p => (.nat 2 :: .text pieces :: p.1, p.2) := by
  obtain ⟨pieces, htext, hjoin⟩ := item?_writeText level false s hf rest
  have hkey : item? level false (fuel + 2) (2 :: (writeText s ++ rest))
      = some (.nat 2, writeText s ++ rest) := by
    rw [item?]
    rfl
  refine ⟨pieces, hjoin, ?_⟩
  rw [items?, hkey]
  simp only [items?, htext]
  cases items? level (fuel + 1) n rest <;> rfl

/-- A map of `n` entries whose keys and values are `entries`. -/
theorem read?_map {n : Nat} (hn : n < 24) {body : List UInt8} {entries : List Cbor}
    (h : items? 1 (2 * body.length + 3) (2 * n) body = some (entries, [])) :
    read? (writeHead 5 n ++ body) = some (.map entries) := by
  obtain ⟨w, hhead⟩ := head?_writeHead 5 body (by omega)
    (show n < headLimit by unfold headLimit; omega)
  have hlen : (writeHead 5 n ++ body).length = body.length + 1 := by
    simp [writeHead, hn]
  rw [read?, hlen, show 2 * (body.length + 1) + 2 = 2 * body.length + 3 + 1 by omega, item?, hhead]
  simp [h, maxNesting]

end Cbor

namespace Ty

/-! ## Tag codes -/

theorem tagCodes_ne_nil (t : Ty) : ∃ c cs, t.tagCodes = c :: cs := by
  cases t <;> exact ⟨_, _, rfl⟩

theorem ofTagCodes_cons (name : String) (outermost : Bool) (c : UInt8) (t : Ty) :
    ofTagCodes name outermost (c :: t.tagCodes)
      = match ofTagCodes name false t.tagCodes with
        | .ok t => pushCode outermost c t
        | .error e => .error e := by
  obtain ⟨d, cs, h⟩ := tagCodes_ne_nil t
  rw [h]
  rfl

theorem ofTagCodes_of_refFree {t : Ty} (outermost : Bool) (h : t.RefFree) :
    ofTagCodes t.objectName outermost t.tagCodes = .ok t := by
  induction t generalizing outermost with
  | scalar k => cases k <;> rfl
  | object n =>
    have hn : n ≠ "" := h
    have hcode : Kind.ofTagCode? objectCode = none := rfl
    rw [objectName, tagCodes, ofTagCodes, ofTerminalCode, hcode]
    simp [hn]
  | agg s e ih =>
    rw [tagCodes, objectName, ofTagCodes_cons, ih false h]
    cases s <;> rfl
  | ref e => exact absurd h id

/-- The row of a well-formed type gives the type back. -/
theorem ofTags_tagCodes {t : Ty} (h : t.WellFormed) : ofTags t.tagCodes t.objectName = .ok t := by
  cases t with
  | ref e =>
    rw [ofTags, tagCodes, objectName, ofTagCodes_cons, ofTagCodes_of_refFree false h]
    rfl
  | scalar | object | agg => exact ofTagCodes_of_refFree true h

/-! ## Stored types -/

theorem length_le_length_writeBytes (b : List UInt8) :
    b.length ≤ (Cbor.writeBytes b).length := by
  have := Cbor.length_le_length_writeString 2 (b.map fun x => [x]) (by simp)
  rwa [List.length_map] at this

theorem length_le_length_writeText (s : String) :
    s.toList.length ≤ (Cbor.writeText s).length := by
  have := Cbor.length_le_length_writeString 3
    (s.toList.map fun c => (String.singleton c).toUTF8.data.toList)
    (fun p hp => (Cbor.length_charBytes s p hp).1)
  rwa [List.length_map] at this

/-- The stored form of a type without an object class. -/
theorem read?_codes (codes : List UInt8) :
    Cbor.read? (Cbor.writeHead 5 1 ++ 1 :: Cbor.writeBytes codes)
      = some (.map [.nat 1, .bytes codes]) := by
  have hlen := length_le_length_writeBytes codes
  apply Cbor.read?_map (by omega)
  have hitems := Cbor.items?_codes 1 0 (2 * (1 :: Cbor.writeBytes codes).length) codes
    (by simp only [List.length_cons]; omega) []
  rw [List.append_nil] at hitems
  simpa [Cbor.items?] using hitems

/-- The stored form of a type with an object class. -/
theorem read?_codes_name (codes : List UInt8) (name : String) :
    ∃ pieces, Cbor.joinTexts? pieces = some name
      ∧ Cbor.read? (Cbor.writeHead 5 2 ++ (1 :: Cbor.writeBytes codes)
            ++ (2 :: Cbor.writeText name))
        = some (.map [.nat 1, .bytes codes, .nat 2, .text pieces]) := by
  have hcodes := length_le_length_writeBytes codes
  have hname := length_le_length_writeText name
  -- the two rows of the map are its body, read one key and one value at a time
  generalize hbody : 1 :: (Cbor.writeBytes codes ++ (2 :: (Cbor.writeText name ++ []))) = body
  have hlen : body.length = (Cbor.writeBytes codes).length + (Cbor.writeText name).length + 2 := by
    rw [← hbody]
    simp only [List.length_cons, List.length_append, List.length_nil]
    omega
  obtain ⟨pieces, hjoin, hitems⟩ := Cbor.items?_name 1 0 (2 * body.length - 2) name
    (by omega) []
  refine ⟨pieces, hjoin, ?_⟩
  have happend : Cbor.writeHead 5 2 ++ (1 :: Cbor.writeBytes codes) ++ (2 :: Cbor.writeText name)
      = Cbor.writeHead 5 2 ++ body := by
    simp [← hbody]
  rw [happend]
  apply Cbor.read?_map (by omega)
  rw [← hbody, Cbor.items?_codes 1 2 _ codes (by rw [hbody]; omega), hbody,
    show 2 * body.length + 1 = 2 * body.length - 2 + 3 by omega, hitems]
  simp [Cbor.items?]

/-- Both fields of a stored type read back. -/
theorem wire?_toCbor (t : Ty) :
    (Cbor.read? t.toCbor).bind Cbor.wire? = some (t.tagCodes, t.objectName) := by
  by_cases hname : t.objectName = ""
  · simp only [toCbor, if_pos hname, read?_codes]
    rw [hname]
    rfl
  · obtain ⟨pieces, hjoin, hread⟩ := read?_codes_name t.tagCodes t.objectName
    simp only [toCbor, if_neg hname, hread, Option.bind_some]
    simp [Cbor.wire?, Cbor.content?, Cbor.fields?, Cbor.field?, Cbor.toCodes?, Cbor.toText?, hjoin]

/-- A well-formed type survives being stored. -/
theorem ofCbor_toCbor {t : Ty} (h : t.WellFormed) : ofCbor t.toCbor = .ok t := by
  rw [ofCbor, wire?_toCbor]
  change (ofTags t.tagCodes t.objectName).mapError DecodeFault.tags = .ok t
  rw [ofTags_tagCodes h]
  rfl

/-! ## Whatever is read is well formed -/

theorem RefFree.wellFormed {t : Ty} (h : t.RefFree) : t.WellFormed := by
  cases t with
  | ref e => exact absurd h id
  | scalar | object | agg => exact h

theorem ofTerminalCode_refFree {name : String} {c : UInt8} {t : Ty}
    (h : ofTerminalCode name c = .ok t) : t.RefFree := by
  unfold ofTerminalCode at h
  split at h
  · cases h
    exact trivial
  split at h
  · split at h
    · cases h
    · rename_i hname
      cases h
      exact hname
  · cases h

theorem pushCode_wellFormed {outermost : Bool} {c : UInt8} {t u : Ty} (ht : t.RefFree)
    (h : pushCode outermost c t = .ok u) :
    u.WellFormed ∧ (outermost = false → u.RefFree) := by
  unfold pushCode at h
  split at h
  · cases h
    exact ⟨ht, fun _ => ht⟩
  split at h
  · split at h
    · rename_i hout
      cases h
      exact ⟨ht, fun hf => absurd (hf ▸ hout) (by decide)⟩
    · cases h
  · cases h

theorem ofTagCodes_wellFormed {name : String} {outermost : Bool} {codes : List UInt8} {t : Ty}
    (h : ofTagCodes name outermost codes = .ok t) :
    t.WellFormed ∧ (outermost = false → t.RefFree) := by
  induction codes generalizing outermost t with
  | nil => cases h
  | cons c codes ih =>
    -- what is below the outermost code was not read as outermost, so it is free of references
    cases codes with
    | nil =>
      have := ofTerminalCode_refFree h
      exact ⟨this.wellFormed, fun _ => this⟩
    | cons d rest =>
      rw [ofTagCodes] at h
      split at h
      · rename_i u hu
        exact pushCode_wellFormed ((ih hu).2 rfl) h
      · cases h

/-- Stored bytes hold a well-formed type or none. -/
theorem ofCbor_wellFormed {bs : List UInt8} {t : Ty} (h : ofCbor bs = .ok t) : t.WellFormed := by
  unfold ofCbor at h
  split at h
  · cases h
  · rename_i codes name _
    cases htags : ofTags codes name with
    | error e =>
      rw [htags] at h
      cases h
    | ok u =>
      rw [htags] at h
      cases h
      exact (ofTagCodes_wellFormed htags).1

end Ty

end TypedPerl
