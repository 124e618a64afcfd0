import TypedPerl.Proofs.Scope.Aliases
import TypedPerl.Proofs.Scope.ReservedClasses
import TypedPerl.Proofs.Text.Bytes

/-!
# Classes of files

A unit that has no package and asks for no class is named by its file. The name of a file is any
row of bytes, so the class is given here for bytes (`classForBytes`); for a name that is a text it
is the class of the program (`classForFile_eq`), since a character other than a slash or a dot has
no byte that is one. Whatever the name, its class is an identifier (`Name.IsIdentifier`), and the
class file is named by it.
-/

namespace TypedPerl

/-! ## Identifiers -/

namespace Name

/-- A letter or digit of ASCII, or an underscore. -/
def isWordChar (c : Char) : Bool :=
  c.isAlphanum || c == '_'

/-- A name that the target language takes for a class, and that means nothing in it yet. -/
structure IsIdentifier (name : String) : Prop where
  /-- It is no word of the target language and no class of the runtime. -/
  usable : Usable name
  /-- It has letters, digits and underscores only. -/
  word : ∀ c ∈ name.toList, isWordChar c = true
  /-- It does not begin with a digit. -/
  start : leadingDigit name = false

/-- What holds of all characters of ASCII holds of a letter, digit or underscore. -/
theorem of_isWordChar {P : Char → Prop} {c : Char} (h : isWordChar c = true)
    (hP : ∀ n < 128, isWordChar (Char.ofNat n) = true → P (Char.ofNat n)) : P c := by
  have hlt : c.toNat < 128 := by
    rw [isWordChar, Bool.or_eq_true, beq_iff_eq] at h
    rcases h with h | rfl
    · have hrange := Text.toNat_of_isAlphanum h
      omega
    · decide
  have hself : Char.ofNat c.toNat = c := Char.ofNat_toNat c
  exact hself ▸ hP c.toNat hlt (by rwa [hself])

theorem isWordChar_toUpper {c : Char} (h : isWordChar c = true) : isWordChar c.toUpper = true := by
  apply of_isWordChar h
  decide +kernel

theorem isDigit_toUpper {c : Char} (h : isWordChar c = true) (hc : c.isDigit = false) :
    c.toUpper.isDigit = false := by
  revert hc
  apply of_isWordChar h
  decide +kernel

theorem normalByte_word (first : Bool) (b : UInt8) :
    ∀ c ∈ normalByte first b, isWordChar c = true := by
  have hall : ∀ n < 256, ∀ first : Bool,
      (normalByte first (UInt8.ofNat n)).all isWordChar = true := by
    decide +kernel
  have hself : UInt8.ofNat b.toNat = b := UInt8.ofNat_toNat
  exact List.all_eq_true.mp (hself ▸ hall b.toNat b.toNat_lt first)

/-- A digit at the start of a name does not stay. -/
theorem normalByte_start (b : UInt8) : ∀ c ∈ (normalByte true b).head?, c.isDigit = false := by
  have hall : ∀ n < 256, (normalByte true (UInt8.ofNat n)).head?.any Char.isDigit = false := by
    decide +kernel
  have hself : UInt8.ofNat b.toNat = b := UInt8.ofNat_toNat
  intro c hc
  simpa [Option.mem_def.mp hc] using (hself ▸ hall b.toNat b.toNat_lt :
    (normalByte true b).head?.any Char.isDigit = false)

theorem normalBytes_word (bs : List UInt8) : ∀ c ∈ normalBytes bs, isWordChar c = true := by
  intro c hc
  cases bs with
  | nil => exact absurd hc List.not_mem_nil
  | cons b bs =>
    rw [normalBytes, List.mem_append, List.mem_flatMap] at hc
    rcases hc with hc | ⟨b', -, hc⟩
    · exact normalByte_word true b c hc
    · exact normalByte_word false b' c hc

theorem normalBytes_start (bs : List UInt8) :
    ∀ c ∈ (normalBytes bs).head?, c.isDigit = false := by
  intro c hc
  cases bs with
  | nil => cases hc
  | cons b bs =>
    rw [normalBytes, List.head?_append_of_ne_nil _ (normalByte_ne_nil true b)] at hc
    exact normalByte_start b c hc

end Name

/-! ## Names of files -/

open Text (encode)

/-- The last part of a path of bytes. -/
def PathName.baseBytes (path : List UInt8) : List UInt8 :=
  if path = [] then encode ['.']
  else ((path.splitOnP (· == UInt8.ofNat '/'.toNat)).filter (· ≠ [])).getLast?.getD (encode ['/'])

namespace Java

/-- The name of a file up to its first dot, if that is not its first byte. -/
def stemBytes (base : List UInt8) : List UInt8 :=
  let bs := base.takeWhile (· ≠ UInt8.ofNat '.'.toNat)
  if bs = [] then base else bs

/-- A text as a class: with a capital letter, and apart from names that mean something else. -/
def capitalized (name : String) : String :=
  if name = "" then "Main"
  else if Name.isReserved (capitalize name) then "pd_" ++ capitalize name
  else capitalize name

/-- The class of a file whose path is any row of bytes. -/
def classForBytes (path : List UInt8) : String :=
  capitalized (String.ofList (Name.normalBytes (stemBytes (PathName.baseBytes path))))

theorem baseBytes_encode (path : String) :
    PathName.baseBytes (encode path.toList) = encode (PathName.base path).toList := by
  unfold PathName.baseBytes PathName.base
  by_cases hempty : path = ""
  · subst hempty
    rfl
  · have hne : encode path.toList ≠ [] := by
      rw [Ne, Text.encode_eq_nil]
      exact fun hnil => hempty (String.toList_eq_nil_iff.mp hnil)
    rw [if_neg hne, if_neg hempty, Text.splitOnP_encode (by decide), PathName.split,
      PathName.splitOn_slash, List.filter_map, List.filter_map, List.getLast?_map,
      List.getLast?_map]
    -- a part is empty in bytes exactly if it is empty in characters
    have hparts : (fun bs => decide (bs ≠ [])) ∘ encode =
        (fun s : String => decide (s ≠ "")) ∘ String.ofList := by
      funext cs
      simp [Text.encode_eq_nil]
    rw [hparts]
    cases (List.filter _ _).getLast? with
    | none => rfl
    | some part => simp

theorem stemBytes_encode (base : String) :
    stemBytes (encode base.toList) = encode (stem base).toList := by
  unfold stemBytes stem
  dsimp only
  rw [Text.takeWhile_encode (by decide)]
  by_cases hempty : base.toList.takeWhile (· ≠ '.') = []
  · rw [hempty]
    rfl
  · rw [if_neg (by rwa [Text.encode_eq_nil]), if_neg (by rwa [List.isEmpty_iff]),
      String.toList_ofList]

/-- The class of a path that is a text is the one of its bytes. -/
theorem classForFile_eq (file : String) : classForFile file = classForBytes file.toUTF8.toList := by
  have hbytes (s : String) : encode s.toList = s.toUTF8.toList := (Text.toUTF8_toList s).symm
  rw [classForBytes, ← hbytes, baseBytes_encode, stemBytes_encode, hbytes]
  rfl

/-! ## Classes -/

theorem toList_capitalize {name : String} {c : Char} {rest : List Char}
    (h : name.toList = c :: rest) : (capitalize name).toList = c.toUpper :: rest := by
  simp [capitalize, h]

/-- A word becomes an identifier. -/
theorem capitalized_identifier {name : String} (hword : ∀ c ∈ name.toList, Name.isWordChar c = true)
    (hstart : Name.leadingDigit name = false) : Name.IsIdentifier (capitalized name) := by
  unfold capitalized
  split
  · exact ⟨Name.usable_of_isReserved (by decide +kernel), List.all_eq_true.mp rfl, rfl⟩
  · next hne =>
    obtain ⟨c, rest, hname⟩ : ∃ c rest, name.toList = c :: rest :=
      List.exists_cons_of_ne_nil fun hnil => hne (String.toList_eq_nil_iff.mp hnil)
    have hcap := toList_capitalize hname
    rw [hname] at hword
    obtain ⟨hc, hrest⟩ := List.forall_mem_cons.mp hword
    -- the first letter is the only one that changes
    have hcapWord : ∀ d ∈ (capitalize name).toList, Name.isWordChar d = true := by
      rw [hcap]
      exact List.forall_mem_cons.mpr ⟨Name.isWordChar_toUpper hc, hrest⟩
    split
    · refine ⟨Name.usable_of_start (by simp), fun d hd => ?_, by simp [Name.leadingDigit]⟩
      rw [String.toList_append, List.mem_append] at hd
      rcases hd with hd | hd
      · exact List.all_eq_true.mp rfl d hd
      · exact hcapWord d hd
    · next hfree =>
      refine ⟨Name.usable_of_isReserved (by simpa using hfree), hcapWord, ?_⟩
      have hdigit : c.isDigit = false := by simpa [Name.leadingDigit, hname] using hstart
      simpa [Name.leadingDigit, hcap] using Name.isDigit_toUpper hc hdigit

theorem classForBytes_identifier (path : List UInt8) : Name.IsIdentifier (classForBytes path) := by
  apply capitalized_identifier
  · rw [String.toList_ofList]
    exact Name.normalBytes_word _
  · rw [Name.leadingDigit, String.toList_ofList]
    cases hhead : (Name.normalBytes _).head? with
    | none => rfl
    | some c => exact Name.normalBytes_start _ c hhead

/-- The class of a file is an identifier whatever bytes its path has, and the file that the class is
written to is named by it in whatever directory; a unit without a package that asks for no class has
the class of its file. -/
theorem file_class_legal (out javaPackage : String) :
    (∀ path : List UInt8, Name.IsIdentifier (classForBytes path) ∧
      PathName.base (outputPath out javaPackage (classForBytes path)) =
        classForBytes path ++ ".java") ∧
      ∀ file : String, classFor file "" none = classForBytes file.toUTF8.toList := by
  refine ⟨fun path => ?_, classForFile_eq⟩
  have hidentifier := classForBytes_identifier path
  refine ⟨hidentifier, PathName.base_join_file _ (isFile_class fun hslash => ?_)⟩
  exact absurd (hidentifier.word '/' hslash) (by decide)

end Java

end TypedPerl
