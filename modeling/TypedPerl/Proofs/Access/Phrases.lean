import TypedPerl.Proofs.Access.ReadWrite
import TypedPerl.Proofs.Java.Phrases

/-!
# Texts of accesses

What is read, stored, removed or asked for through a path is a phrase if the base and the keys of
the path are, and if auxiliary names are atoms where the pieces of the path are captured.
-/

namespace TypedPerl

open Java (Phrase jointChars)
open Name (AliasPool)
open Conversion (phrase_convert phrase_convertNonNull phrase_helper)

namespace Path

/-- The base and the keys are phrases. -/
structure Phrased (A : String → Prop) (p : Path) : Prop where
  base : Phrase A p.base.code
  keys : ∀ k ∈ p.keys, Phrase A k.code

section

variable {A : String → Prop} {p : Path} (hp : p.Phrased A)

include hp

theorem phrase_boxCell : Phrase A p.boxCell :=
  .castTo _ (phrase_helper rfl hp.base)

theorem phrase_cell {cell : String} {t : Ty} (h : p.cell? = some (cell, t)) : Phrase A cell := by
  unfold cell? at h
  split at h
  · split at h
    · cases h
    · cases h
      exact hp.base
  · cases h
    exact phrase_boxCell hp
  · cases h

theorem phrase_container : Gives p.container fun cont => Phrase A cont.code := by
  have hreached : Gives p.reached fun cont => Phrase A cont.code := by
    unfold reached
    refine .ite (fun _ => .ok ?_) fun _ => ?_
    · split
      · exact Operand.phrase_referent hp.base
      · exact hp.base
    · split
      · exact .ok (Operand.phrase_referent hp.base)
      · exact .ok (.behind (phrase_boxCell hp) rfl)
      · exact .error _
  refine .bind hreached fun cont hcont => ?_
  refine .ite (fun _ => .ite (fun _ => .pure hcont) fun _ => .throw _) fun _ => ?_
  exact .ite (fun _ => .pure hcont) fun _ => .throw _

theorem phrase_key (nullChecks : Bool) (t : Option Ty) :
    Gives (p.key nullChecks t) fun r => Phrase A r.1 := by
  -- a path without keys is read at the default, which has no text
  have hkey : Phrase A (p.keys.headD default).code := by
    cases hkeys : p.keys with
    | nil => exact .empty
    | cons k rest => exact hp.keys k (hkeys ▸ List.mem_cons_self)
  refine .ite (fun _ => ?_) fun _ => ?_
  · exact .bind (phrase_convert hkey _) fun code hcode => .pure hcode
  · exact .bind (phrase_convertNonNull _ hkey _) fun code hcode => .pure hcode

theorem phrase_keyArray (t : Option Ty) : Gives (p.keyArray t) (Phrase A) :=
  Collection.phrase_build hp.keys _

end

section

variable {A : String → Prop} {cont key value : String}

theorem phrase_elementCode (hcont : Phrase A cont) (t : Option Ty) (hkey : Phrase A key) :
    Phrase A (elementCode cont t key) := by
  unfold elementCode
  split
  · exact .behind (.between hcont rfl hkey) rfl
  · exact .behind (.between hcont rfl hkey) rfl

theorem phrase_storeCode (hcont : Phrase A cont) (t : Option Ty) (hkey : Phrase A key)
    (hvalue : Phrase A value) : Phrase A (storeCode cont t key value) := by
  have hcall {start : List Char} (hstart : jointChars start = true) :
      Phrase A (cont ++ String.ofList start ++ key ++ ", " ++ value ++ ")") :=
    .behind (.between (.between hcont hstart hkey) rfl hvalue) rfl
  unfold storeCode
  split
  · exact .between (.between hcont rfl hkey) rfl hvalue
  · split
    · exact hcall rfl
    · exact hcall rfl

theorem phrase_access {fn : List Char} (hfn : jointChars fn = true) {args : List String}
    (hcont : Phrase A cont) (hkey : Phrase A key) (hargs : ∀ y ∈ args, Phrase A y) :
    Phrase A (Java.call "Pd" (String.ofList fn) (cont :: key :: args)) :=
  .call rfl hfn (List.forall_mem_cons.mpr ⟨hcont, List.forall_mem_cons.mpr ⟨hkey, hargs⟩⟩)

end

section

variable {A : String → Prop} {p : Path} (hp : p.Phrased A)

include hp

theorem phrase_read (nullChecks : Bool) : Gives (p.read nullChecks) fun o => Phrase A o.code := by
  have hnone : ∀ y ∈ ([] : List String), Phrase A y := fun y hy => absurd hy List.not_mem_nil
  refine .bind (phrase_container hp) fun cont hcont => .ite (fun _ => .pure hcont) fun _ => ?_
  refine .ite (fun _ => ?_) fun _ => .bind (phrase_keyArray hp _) fun ks hks => ?_
  · refine .bind (phrase_key hp nullChecks _) fun k hk => .pure ?_
    rw [code_ofElement]
    exact phrase_elementCode hcont _ hk
  · split
    · refine .pure ?_
      rw [code_ofElement]
      exact phrase_access rfl hcont hks hnone
    · exact .pure (phrase_access rfl hcont hks hnone)
    · exact .pure (phrase_access rfl hcont hks
        (List.forall_mem_singleton.mpr (.boxer _)))

theorem phrase_write (nullChecks : Bool) {value : String} (hvalue : Phrase A value) :
    Gives (p.write nullChecks value) (Phrase A) := by
  have hone : ∀ y ∈ [value], Phrase A y := List.forall_mem_singleton.mpr hvalue
  refine .ite (fun _ => ?_) fun _ => ?_
  · split
    · next cell t hcell => exact .ok (.behind (.between (phrase_cell hp hcell) rfl hvalue) rfl)
    · exact .error _
  · refine .bind (phrase_container hp) fun cont hcont => .ite (fun _ => ?_) fun _ => ?_
    · refine .bind (phrase_key hp nullChecks _) fun k hk => .pure ?_
      exact phrase_storeCode hcont _ hk hvalue
    · refine .bind (phrase_keyArray hp _) fun ks hks => ?_
      split
      · exact .pure (phrase_access rfl hcont hks hone)
      · exact .pure (phrase_access rfl hcont hks hone)
      · exact .throw _

theorem phrase_delete (nullChecks : Bool) :
    Gives (p.delete nullChecks) fun o => Phrase A o.code := by
  have hdelete {cont key : String} {args : List String} (hcont : Phrase A cont)
      (hkey : Phrase A key) (hargs : ∀ y ∈ args, Phrase A y) :
      Phrase A (Java.call "Pd" "delete" (cont :: key :: args)) :=
    phrase_access rfl hcont hkey hargs
  have hnone : ∀ y ∈ ([] : List String), Phrase A y := fun y hy => absurd hy List.not_mem_nil
  refine .ite (fun _ => .error _) fun _ => .bind (phrase_container hp) fun cont hcont => ?_
  refine .ite (fun _ => ?_) fun _ => .bind (phrase_keyArray hp _) fun ks hks => ?_
  · refine .bind (phrase_key hp nullChecks _) fun k hk => .pure ?_
    rw [code_ofElement]
    exact hdelete hcont hk hnone
  · refine .ite (fun _ => .pure (hdelete hcont hks hnone)) fun _ =>
      .ite (fun _ => .pure ?_) fun _ => ?_
    · rw [code_ofElement]
      exact hdelete hcont hks (List.forall_mem_singleton.mpr (.piece rfl))
    · -- of several indices the last counts
      refine .bind (phrase_convertNonNull _ hks _) fun last hlast => .pure ?_
      rw [code_ofElement]
      exact hdelete hcont hlast hnone

theorem phrase_isPresent (nullChecks : Bool) :
    Gives (p.isPresent nullChecks) fun o => Phrase A o.code := by
  have hnone : ∀ y ∈ ([] : List String), Phrase A y := fun y hy => absurd hy List.not_mem_nil
  refine .ite (fun _ => .error _) fun _ => .bind (phrase_container hp) fun cont hcont => ?_
  refine .bind (phrase_key hp nullChecks _) fun k hk => .ite (fun _ => .pure ?_) fun _ => .pure ?_
  · exact .behind (.between hcont rfl hk) rfl
  · exact phrase_access rfl hcont hk hnone

end

/-! ## Captured pieces -/

section

variable {A : String → Prop} (haux : ∀ n, A (AliasPool.numbered n ""))

include haux

theorem phrase_capture (t : Option Ty) {code : String} (hcode : Phrase A code) (st : AccessState) :
    Phrase A (capture t code st).1.1 ∧ Phrase A (capture t code st).1.2 := by
  have hname : Phrase A (st.table.auxiliary "").1 := .atom (haux (st.table.pool.count "" + 1))
  exact ⟨hname, .paren (.between hname rfl hcode)⟩

theorem phrase_pieceOnce (repeatable : Bool) (t : Option Ty) {code : String}
    (hcode : Phrase A code) (st : AccessState) :
    Phrase A (pieceOnce repeatable t code st).1.1 ∧
      Phrase A (pieceOnce repeatable t code st).1.2 := by
  unfold pieceOnce
  split
  · exact ⟨hcode, hcode⟩
  · exact phrase_capture haux t hcode st

/-- What is read is a phrase, and so is what is stored when the value is one. -/
structure ReadWrite.Phrased (A : String → Prop) (rw : ReadWrite) : Prop where
  read : Phrase A rw.read.code
  write : ∀ value, Phrase A value → Phrase A (rw.write value)

theorem phrase_readWrite {p : Path} (hp : p.Phrased A) (nullChecks : Bool) (st : AccessState) :
    Gives (p.readWrite nullChecks st) fun r => r.1.Phrased A := by
  refine .ite (fun _ => ?_) fun _ => .ite (fun _ => .error _) fun _ => ?_
  · split
    · exact .error _
    · next cell t hcell =>
      obtain ⟨hr, hw⟩ :=
        phrase_pieceOnce haux p.baseRepeatable (some t) (phrase_cell hp hcell) st
      exact .ok ⟨.behind hr rfl, fun value hvalue => .behind (.between hw rfl hvalue) rfl⟩
  · refine .bind (phrase_container hp) fun cont hcont => ?_
    refine .bind (phrase_key hp nullChecks _) fun k hk => .pure ⟨?_, fun value hvalue => ?_⟩
    -- the base is captured before the key
    · rw [code_ofElement]
      exact phrase_elementCode (phrase_pieceOnce haux _ _ hcont _).1 _
        (phrase_pieceOnce haux _ _ hk _).1
    · exact phrase_storeCode (phrase_pieceOnce haux _ _ hcont _).2 _
        (phrase_pieceOnce haux _ _ hk _).2 hvalue

end

end Path

end TypedPerl
