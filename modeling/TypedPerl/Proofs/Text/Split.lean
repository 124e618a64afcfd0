import Mathlib.Data.String.Basic

/-!
# Parts of a text between separators

Splitting a text at a character gives the parts between its occurrences
(`splitOn_singleton`), each of which is made of characters of the text that are not the separator
(`of_mem_splitOn`).
-/

namespace TypedPerl.Text

open String in
/-- What splitting a text at a character does from the middle of it: `l` is behind, and `m` is what
was read of the present part. -/
theorem splitOnAux_singleton (sep : Char) (l m r : List Char) (acc : List String) :
    splitOnAux (ofList (l ++ m ++ r)) (singleton sep) ⟨utf8Len l⟩ ⟨utf8Len l + utf8Len m⟩ 0 acc =
      acc.reverse ++ (List.splitOnPPrepend (· == sep) r m.reverse).map ofList := by
  -- a separator of one character is matched whole or not at all, so its position is always 0
  have hget : Pos.Raw.get (singleton sep) 0 = sep := by
    simpa using get_of_valid [] [sep]
  have hnext : Pos.Raw.next (singleton sep) 0 = ⟨sep.utf8Size⟩ := by
    simpa using next_of_valid [] sep []
  have hend : (singleton sep).rawEndPos ≤ ⟨sep.utf8Size⟩ := by
    rw [singleton_eq_ofList, rawEndPos_ofList]
    simp
  unfold splitOnAux
  simp only [List.append_assoc, atEnd_iff, rawEndPos_ofList, utf8Len_append, Pos.Raw.mk_le_mk,
    Nat.add_le_add_iff_left, (by omega : utf8Len m + utf8Len r ≤ utf8Len m ↔ utf8Len r = 0),
    utf8Len_eq_zero, List.reverse_cons]
  split
  · subst r
    simpa using extract_of_valid l m []
  · obtain ⟨c, r, rfl⟩ := r.exists_cons_of_ne_nil ‹_›
    have hread : _ ∧ _ := ⟨get_of_valid (l ++ m) (c :: r), next_of_valid (l ++ m) c r⟩
    simp only [by simpa [-ofList_append] using hread]
    rw [hget, hnext]
    simp only [hend, if_true]
    split
    · -- the part ends here
      next h =>
      obtain rfl : c = sep := by simpa using h
      have hback : (Pos.Raw.mk (utf8Len l + utf8Len m + c.utf8Size)).unoffsetBy ⟨c.utf8Size⟩ =
          ⟨utf8Len l + utf8Len m⟩ := by
        simp [Pos.Raw.unoffsetBy]
      have hcut : Pos.Raw.extract (ofList (l ++ (m ++ c :: r))) ⟨utf8Len l⟩
          ⟨utf8Len l + utf8Len m⟩ = ofList m := by
        simpa [-ofList_append] using extract_of_valid l m (c :: r)
      rw [hback, hcut]
      simpa [Nat.add_assoc, List.splitOnPPrepend_cons_eq_if] using
        splitOnAux_singleton c (l ++ m ++ [c]) [] r (ofList m :: acc)
    · -- the part goes on
      next h =>
      have hstay : (Pos.Raw.mk (utf8Len l + utf8Len m)).unoffsetBy 0 =
          ⟨utf8Len l + utf8Len m⟩ := by
        simp [Pos.Raw.unoffsetBy]
      have hstep : Pos.Raw.next (ofList (l ++ (m ++ c :: r))) ⟨utf8Len l + utf8Len m⟩ =
          ⟨utf8Len l + utf8Len m + c.utf8Size⟩ := by
        simpa [-ofList_append] using next_of_valid (l ++ m) c r
      rw [hstay, hstep]
      simpa [List.splitOnPPrepend_cons_eq_if, h, Nat.add_assoc] using
        splitOnAux_singleton sep l (m ++ [c]) r acc
termination_by r.length

theorem splitOn_singleton (sep : Char) (s : String) :
    s.splitOn (String.singleton sep) = (s.toList.splitOnP (· == sep)).map String.ofList := by
  have hne : (String.singleton sep == "") = false := by
    simp
  simpa [String.splitOn, hne] using splitOnAux_singleton sep [] [] s.toList []

theorem of_mem_splitOnPPrepend {sep : Char} (r : List Char) : ∀ {m part : List Char}, sep ∉ m →
    part ∈ List.splitOnPPrepend (· == sep) r m → part <:+: m.reverse ++ r ∧ sep ∉ part := by
  induction r with
  | nil =>
    intro m part hm hpart
    rw [List.splitOnPPrepend_nil, List.mem_singleton] at hpart
    subst hpart
    exact ⟨by simp, by simpa using hm⟩
  | cons c r ih =>
    intro m part hm hpart
    rw [List.splitOnPPrepend_cons_eq_if] at hpart
    split at hpart
    · -- a part ends here and the next begins behind the separator
      rcases List.mem_cons.mp hpart with rfl | hpart
      · exact ⟨(List.prefix_append _ _).isInfix, by simpa using hm⟩
      · obtain ⟨hwithin, hnot⟩ := ih (m := []) List.not_mem_nil hpart
        refine ⟨hwithin.trans ?_, hnot⟩
        exact ((List.suffix_cons c r).trans (List.suffix_append _ _)).isInfix
    · next hc =>
      have hm' : sep ∉ c :: m := by
        rintro (_ | ⟨_, hmem⟩)
        · exact hc (beq_self_eq_true sep)
        · exact hm hmem
      simpa using ih hm' hpart

/-- A part holds characters of the text in the order of the text, and no separator. -/
theorem of_mem_splitOn (sep : Char) {s part : String}
    (h : part ∈ s.splitOn (String.singleton sep)) : part.toList <:+: s.toList ∧ sep ∉ part.toList := by
  rw [splitOn_singleton] at h
  obtain ⟨cs, hcs, rfl⟩ := List.mem_map.mp h
  rw [String.toList_ofList]
  exact of_mem_splitOnPPrepend s.toList List.not_mem_nil hcs

end TypedPerl.Text
