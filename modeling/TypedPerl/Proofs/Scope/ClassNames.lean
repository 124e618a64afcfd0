import TypedPerl.Java.Class
import TypedPerl.Proofs.Text.Split

/-!
# Classes of packages and their files

A package becomes a class that is named by the last segment of its name, or by the whole name in
normal form if that segment is reserved. Both forget parts of the name: `SharesClass` says which
names give the same class. Everything behind the class name keeps it apart from others: the path of
its file is a start that follows from the directory, and the class name (`outputPath_inj`).
-/

namespace TypedPerl

/-! ## Paths -/

namespace PathName

theorem splitOn_slash (path : String) :
    path.splitOn "/" = (path.toList.splitOnP (· == '/')).map String.ofList :=
  Text.splitOn_singleton '/' path

/-- The text names a file in whatever directory. -/
structure IsFile (name : String) : Prop where
  plain : '/' ∉ name.toList
  ne_empty : name ≠ ""
  ne_dot : name ≠ "."
  ne_dots : name ≠ ".."

namespace IsFile

variable {name : String}

theorem splitOn_eq (h : IsFile name) :
    (name.toList.splitOnP (· == '/')).map String.ofList = [name] := by
  have hplain : ∀ c ∈ name.toList, (c == '/') = false := by
    intro c hc
    simp only [beq_eq_false_iff_ne]
    rintro rfl
    exact h.plain hc
  rw [List.splitOnP_eq_singleton hplain]
  simp

theorem split_eq (h : IsFile name) : split name = [name] := by
  rw [split, splitOn_slash, h.splitOn_eq]
  simp [h.ne_empty]

theorem split_behind (h : IsFile name) (dir : String) :
    split (dir ++ "/" ++ name) = split dir ++ [name] := by
  have hlist : (dir ++ "/" ++ name).toList = dir.toList ++ '/' :: name.toList := by
    simp
  rw [split, split, splitOn_slash, splitOn_slash, hlist, List.splitOnP_append_cons _ _ (by simp),
    List.map_append, List.filter_append, h.splitOn_eq]
  simp [h.ne_empty]

theorem step_eq (h : IsFile name) (rooted : Bool) (done : List String) :
    step rooted done name = name :: done := by
  unfold step
  rw [if_neg h.ne_dot, if_neg h.ne_dots]

theorem not_absolute (h : IsFile name) : isAbsolute name = false := by
  rw [isAbsolute, String.startsWith_string_eq_false_iff]
  intro hstart
  exact h.plain (hstart.subset (by simp))

end IsFile

/-- The path of a file is a text that follows from the directory, and the name of the file. The text
ends with a slash, if there is one. -/
theorem join_file (dir : String) :
    ∃ start : String, (start = "" ∨ ∃ above, start = above ++ "/") ∧
      ∀ name, IsFile name → join [dir, name] = start ++ name := by
  by_cases hdir : dir = ""
  · refine ⟨"", .inl rfl, fun name h => ?_⟩
    have hfilter : [dir, name].filter (· ≠ "") = [name] := by simp [hdir, h.ne_empty]
    have hjoin : Text.join "/" [name] = name := String.intercalate_singleton
    rw [join, hfilter]
    dsimp only
    rw [hjoin, clean, h.not_absolute, h.split_eq]
    simp [h.step_eq, hjoin, h.ne_empty]
  · -- the directory settles where the path starts and what is left of its parts
    let rooted := isAbsolute dir
    let parts := ((split dir).foldl (step rooted) []).reverse
    refine ⟨(if rooted then "/" else "") ++ (if parts = [] then "" else Text.join "/" parts ++ "/"),
      ?_, fun name h => ?_⟩
    · by_cases hparts : parts = []
      · rw [if_pos hparts, String.append_empty]
        cases rooted with
        | false => exact .inl rfl
        | true => exact .inr ⟨"", rfl⟩
      · rw [if_neg hparts]
        exact .inr ⟨_, (String.append_assoc ..).symm⟩
    have hfilter : [dir, name].filter (· ≠ "") = [dir, name] := by simp [hdir, h.ne_empty]
    have hjoin : Text.join "/" [dir, name] = dir ++ "/" ++ name := by
      simp [Text.join, String.intercalate_cons_cons]
    have hrooted : isAbsolute (dir ++ "/" ++ name) = rooted := by
      obtain ⟨c, cs, hcs⟩ : ∃ c cs, dir.toList = c :: cs :=
        List.exists_cons_of_ne_nil fun hnil => hdir (String.toList_eq_nil_iff.mp hnil)
      rw [Bool.eq_iff_iff, isAbsolute, String.startsWith_string_iff]
      show _ ↔ isAbsolute dir = true
      rw [isAbsolute, String.startsWith_string_iff]
      simp [hcs]
    have hbody : Text.join "/" (parts ++ [name]) =
        (if parts = [] then "" else Text.join "/" parts ++ "/") ++ name := by
      by_cases hparts : parts = []
      · simp [hparts, Text.join]
      · rw [if_neg hparts, Text.join, String.intercalate_append_of_ne_nil hparts (by simp)]
        simp [Text.join]
    rw [join, hfilter]
    dsimp only
    rw [hjoin, clean, hrooted, h.split_behind, List.foldl_append, List.foldl_cons, List.foldl_nil,
      h.step_eq, List.reverse_cons]
    show (if rooted = true then "/" ++ Text.join "/" (parts ++ [name])
      else if Text.join "/" (parts ++ [name]) = "" then "." else _) = _
    have hne : Text.join "/" (parts ++ [name]) ≠ "" := by
      rw [hbody]
      simp [h.ne_empty]
    rw [if_neg hne, hbody]
    split
    · simp [String.append_assoc]
    · simp

/-- The last part of the path of a file is its name. -/
theorem base_join_file (dir : String) {name : String} (h : IsFile name) :
    base (join [dir, name]) = name := by
  obtain ⟨start, hstart, hjoin⟩ := join_file dir
  rw [hjoin name h]
  obtain rfl | ⟨above, rfl⟩ := hstart
  · rw [String.empty_append, base, if_neg h.ne_empty, h.split_eq]
    rfl
  · have hne : above ++ "/" ++ name ≠ "" := by simp [h.ne_empty]
    rw [base, if_neg hne, h.split_behind, List.getLast?_append]
    rfl

end PathName

/-- The file of a class has a name in whatever directory. -/
theorem Java.isFile_class {name : String} (h : '/' ∉ name.toList) :
    PathName.IsFile (name ++ ".java") := by
  have hlong (short : String) (hshort : short.length < 5) : name ++ ".java" ≠ short := by
    rintro rfl
    rw [String.length_append] at hshort
    exact absurd hshort (Nat.not_lt_of_le (Nat.le_add_left _ _))
  exact ⟨by simpa using h, hlong "" (by decide), hlong "." (by decide), hlong ".." (by decide)⟩

/-- The files of two classes in one directory are the same only if the classes are. -/
theorem Java.outputPath_inj {out javaPackage a b : String} (ha : '/' ∉ a.toList)
    (hb : '/' ∉ b.toList) (h : outputPath out javaPackage a = outputPath out javaPackage b) :
    a = b := by
  unfold outputPath at h
  obtain ⟨start, -, hstart⟩ := PathName.join_file
    (if javaPackage = "" then out else PathName.join (out :: javaPackage.splitOn "."))
  rw [hstart _ (isFile_class ha), hstart _ (isFile_class hb)] at h
  simpa using h

/-! ## Normal forms -/

namespace Name

/-- A normal form consists of letters, digits and underscores. -/
theorem normalByte_plain {first : Bool} {b : UInt8} {c : Char} (h : c ∈ normalByte first b) :
    c ≠ '/' ∧ c ≠ '.' := by
  -- every byte is replaced by an underscore unless it is a letter or a digit
  have hother : c = '_' → c ≠ '/' ∧ c ≠ '.' := by
    rintro rfl
    decide
  unfold normalByte at h
  split at h
  · exact hother (by simpa using h)
  · split at h
    · exact hother (by simpa using h)
    · split at h
      · next halnum =>
        have hc : c.toNat = b.toNat := by
          have hvalid : b.toNat.isValidChar := .inl (Nat.lt_trans b.toNat_lt (by decide))
          rw [List.mem_singleton.mp h, Char.ofNat, dif_pos hvalid]
          rfl
        have hlow : 48 ≤ b.toNat := by
          simp only [isAlnumByte, Bool.or_eq_true, Bool.and_eq_true, decide_eq_true_eq,
            UInt8.le_iff_toNat_le] at halnum
          have h97 : (97 : UInt8).toNat = 97 := rfl
          have h65 : (65 : UInt8).toNat = 65 := rfl
          have h48 : (48 : UInt8).toNat = 48 := rfl
          omega
        constructor
        · rintro rfl
          have h47 : '/'.toNat = 47 := rfl
          omega
        · rintro rfl
          have h46 : '.'.toNat = 46 := rfl
          omega
      · exact hother (by simpa using h)

theorem normalize_plain {name : String} {c : Char} (h : c ∈ (normalize name).toList) :
    c ≠ '/' ∧ c ≠ '.' := by
  rw [normalize, String.toList_ofList] at h
  generalize name.toUTF8.toList = bytes at h
  cases bytes with
  | nil => exact absurd h List.not_mem_nil
  | cons b bs =>
    rw [normalBytes, List.mem_append, List.mem_flatMap] at h
    rcases h with h | ⟨b', -, h⟩
    · exact normalByte_plain h
    · exact normalByte_plain h

end Name

/-! ## Classes -/

namespace Package

theorem afterColons?_suffix {cs rest : List Char} (h : afterColons? cs = some rest) :
    rest <:+ cs := by
  fun_induction afterColons? cs generalizing rest with
  | case1 => cases h
  | case2 => cases h
  | case3 c d rest' _ ih =>
    cases h
    cases hlater : afterColons? (d :: rest') with
    | none => exact ⟨[c, d], rfl⟩
    | some later => exact (ih hlater).trans (List.suffix_cons _ _)
  | case4 c d rest' _ ih => exact (ih h).trans (List.suffix_cons _ _)

/-- The class of a package has no character but those of its name, letters, digits and
underscores. -/
theorem classFor_plain {name : String} {c : Char} (hc : c = '/' ∨ c = '.')
    (h : c ∉ name.toList) : c ∉ (classFor name).toList := by
  unfold classFor
  dsimp only
  -- a name whose last segment is reserved is normalized as a whole
  split
  · intro hmem
    obtain ⟨hslash, hdot⟩ := Name.normalize_plain hmem
    exact hc.elim hslash hdot
  · intro hmem
    rw [lastSegment, String.toList_ofList] at hmem
    cases hsegment : afterColons? name.toList with
    | none =>
      rw [hsegment] at hmem
      exact h hmem
    | some rest =>
      rw [hsegment] at hmem
      exact h ((afterColons?_suffix hsegment).subset hmem)

/-- Two packages become one class: their last segments are the same, or the normal forms of their
names where these segments are reserved, or the last segment of one is the normal form of the
other. -/
inductive SharesClass (a b : String) : Prop
  | segments (ha : Name.isReserved (lastSegment a) = false)
      (hb : Name.isReserved (lastSegment b) = false) (h : lastSegment a = lastSegment b)
  | names (ha : Name.isReserved (lastSegment a) = true)
      (hb : Name.isReserved (lastSegment b) = true) (h : Name.normalize a = Name.normalize b)
  | segmentName (ha : Name.isReserved (lastSegment a) = false)
      (hb : Name.isReserved (lastSegment b) = true) (h : lastSegment a = Name.normalize b)
  | nameSegment (ha : Name.isReserved (lastSegment a) = true)
      (hb : Name.isReserved (lastSegment b) = false) (h : Name.normalize a = lastSegment b)

theorem classFor_eq_iff (a b : String) : classFor a = classFor b ↔ SharesClass a b := by
  unfold classFor
  dsimp only
  constructor
  · intro h
    cases ha : Name.isReserved (lastSegment a) <;> cases hb : Name.isReserved (lastSegment b)
    · exact .segments ha hb (by simpa [ha, hb] using h)
    · exact .segmentName ha hb (by simpa [ha, hb] using h)
    · exact .nameSegment ha hb (by simpa [ha, hb] using h)
    · exact .names ha hb (by simpa [ha, hb] using h)
  · rintro (⟨ha, hb, h⟩ | ⟨ha, hb, h⟩ | ⟨ha, hb, h⟩ | ⟨ha, hb, h⟩) <;> rw [ha, hb] <;> simpa using h

/-- Two names in classes are the same text only if the classes and the names are the same. -/
theorem reference_inj {c d x y : String} (hc : '.' ∉ c.toList) (hd : '.' ∉ d.toList)
    (h : c ++ "." ++ x = d ++ "." ++ y) : c = d ∧ x = y := by
  -- the class ends at the first point
  have hstart (c x : String) (hc : '.' ∉ c.toList) :
      (c ++ "." ++ x).toList.takeWhile (· != '.') = c.toList := by
    have hall : ∀ a ∈ c.toList, (a != '.') = true := by
      intro a ha
      rw [bne_iff_ne]
      rintro rfl
      exact hc ha
    rw [String.toList_append, String.toList_append, List.append_assoc,
      List.takeWhile_append_of_pos hall]
    simp
  have hclass : c = d := by
    rw [← String.toList_inj, ← hstart c x hc, h, hstart d y hd]
  subst hclass
  exact ⟨rfl, by simpa [String.append_assoc] using h⟩

end Package

end TypedPerl
