import TypedPerl.Access

/-!
# Runs of a read and a store

What is known of a path that is read and written in one expression: a whole dereference goes through
its cell, and an element through its container and its key. Each of these pieces is rendered once
for both, and the state changes with nothing else.
-/

namespace TypedPerl.Path

variable {nullChecks : Bool} {p : Path} {st st' : AccessState} {rw : ReadWrite}

/-- A whole dereference that is read and written. -/
theorem readWrite_cell (hderef : p.deref = true) (h : p.readWrite nullChecks st = .ok (rw, st')) :
    ∃ cell t r w, p.cell? = some (cell, t) ∧
      pieceOnce p.baseRepeatable (some t) cell st = ((r, w), st') ∧
      rw = ⟨.plain (r ++ ".get()") (some t.elem), fun v => w ++ ".set(" ++ v ++ ")"⟩ := by
  unfold readWrite at h
  rw [if_pos hderef] at h
  split at h
  · cases h
  · next cell t hcell =>
    cases h
    exact ⟨cell, t, _, _, hcell, rfl, rfl⟩

/-- An element that is read and written. The container is held before the key. -/
theorem readWrite_element (hderef : p.deref = false)
    (h : p.readWrite nullChecks st = .ok (rw, st')) :
    p.isMulti = false ∧ ∃ cont k kt rb wb rk wk st₁, p.container = .ok cont ∧
      p.key nullChecks cont.type = .ok (k, kt) ∧
      pieceOnce p.baseRepeatable cont.type cont.code st = ((rb, wb), st₁) ∧
      pieceOnce p.keysRepeatable (some kt) k st₁ = ((rk, wk), st') ∧
      rw = ⟨.ofElement (elementCode rb cont.type rk) cont.elemType,
        fun v => storeCode wb cont.type wk v⟩ := by
  unfold readWrite at h
  rw [if_neg (by simp [hderef])] at h
  -- more than one element is never read and written at once
  split at h
  · cases h
  · next hmulti =>
    refine ⟨Bool.eq_false_iff.mpr hmulti, ?_⟩
    rcases hcont : p.container with f | cont
    · rw [hcont] at h
      cases h
    · rw [hcont] at h
      rcases hkey : p.key nullChecks cont.type with f | ⟨k, kt⟩
      · simp only [bind, Except.bind, hkey] at h
        cases h
      · simp only [bind, Except.bind, hkey] at h
        cases h
        exact ⟨cont, k, kt, _, _, _, _, _, rfl, hkey, rfl, rfl, rfl⟩

/-! ## Operations on one element -/

section Element

variable {cont : Operand} {k : String} {kt : Ty} (hderef : p.deref = false)
  (hmulti : p.isMulti = false) (hcont : p.container = .ok cont)
  (hkey : p.key nullChecks cont.type = .ok (k, kt))

include hderef hmulti hcont hkey

theorem read_element : p.read nullChecks =
    .ok (.ofElement (elementCode cont.code cont.type k) cont.elemType) := by
  simp [read, hderef, hmulti, hcont, hkey, bind, Except.bind, pure, Except.pure]

theorem write_element (value : String) :
    p.write nullChecks value = .ok (storeCode cont.code cont.type k value) := by
  simp [write, hderef, hmulti, hcont, hkey, bind, Except.bind, pure, Except.pure]

theorem delete_element : p.delete nullChecks =
    .ok (.ofElement (Java.call "Pd" "delete" [cont.code, k]) cont.elemType) := by
  simp [delete, hderef, hmulti, hcont, hkey, bind, Except.bind, pure, Except.pure]

theorem isPresent_element : ∃ code, p.isPresent nullChecks = .ok (.nonNull code (some .boolean)) := by
  rw [isPresent, if_neg (by simp [hderef, hmulti]), hcont]
  simp only [bind, Except.bind, hkey]
  split
  · exact ⟨_, rfl⟩
  · exact ⟨_, rfl⟩

theorem readWrite_ofElement (st : AccessState) : ∃ rw st' code,
    p.readWrite nullChecks st = .ok (rw, st') ∧ rw.read = .ofElement code cont.elemType := by
  rw [readWrite, if_neg (by simp [hderef]), if_neg (by simp [hmulti]), hcont]
  simp only [bind, Except.bind, hkey]
  exact ⟨_, _, _, rfl, rfl⟩

end Element

end TypedPerl.Path
