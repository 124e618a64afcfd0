import TypedPerl.Proofs.Conversion.LoopScopes
import TypedPerl.Proofs.Text.Quiet

/-!
# Conversions bring in no raised error

A conversion puts names of classes, fixed words and the code of its operand behind each other. As
long as the code of the operand and the names of classes in the types are `Quiet`, so is the result:
no conversion of one value writes a supplier of its own. The words in the code of a conversion have
no type arguments, so that only its types are looked at more closely.
-/

namespace TypedPerl

open Text (Quiet)

/-- The names of classes in the type are quiet. -/
def Ty.QuietNames : Ty → Prop
  | .scalar _ => True
  | .object n => Quiet n
  | .ref e | .agg _ e => e.QuietNames

namespace Ty.QuietNames

variable {t : Ty}

theorem named (h : t.QuietNames) : t.Named Quiet := by
  induction t with
  | scalar => trivial
  | object => exact h
  | ref e ih | agg s e ih => exact ih h

/-- A type that is known is one that may be known. -/
theorem known (h : t.QuietNames) : ∀ t' ∈ some t, t'.QuietNames := by
  rintro _ ⟨⟩
  exact h

end Ty.QuietNames

/-- The code of the operand is quiet, and so are the names in its type. -/
structure Operand.Quiet (o : Operand) : Prop where
  /-- The code is quiet. -/
  code : Text.Quiet o.code
  /-- The names of classes in the type are quiet. -/
  type : ∀ t ∈ o.type, t.QuietNames

namespace Operand.Quiet

variable {code : String} {t : Ty}

theorem nonNull (hcode : Text.Quiet code) (ht : t.QuietNames) :
    (Operand.nonNull code (some t)).Quiet :=
  ⟨hcode, ht.known⟩

end Operand.Quiet

namespace Java

/-! ## Code of the target language -/

theorem quiet_kindClass (k : Kind) : Quiet (kindClass k) := by
  cases k <;> exact .lit rfl

/-- A class with its type arguments. -/
theorem quiet_typeArgs {cls args : String} (hcls : Quiet (cls ++ "<")) (h : Quiet args) :
    Quiet (cls ++ "<" ++ args ++ ">") :=
  .behind (hcls.append h) rfl

theorem quiet_refClass : Quiet (refClass ++ "<") :=
  .angle ['R', 'e', 'f', '<'] rfl

theorem quiet_listClass : Quiet (listClass ++ "<") :=
  .angle ['P', 'e', 'r', 'l', 'L', 'i', 's', 't', '<'] rfl

theorem quiet_mapClass : Quiet (mapClass ++ "<") :=
  .angle ['P', 'e', 'r', 'l', 'M', 'a', 'p', '<'] rfl

theorem quiet_declType {t : Ty} (h : t.Named Quiet) : Quiet (declType t) := by
  induction t with
  | scalar k => exact quiet_kindClass k
  | object n => exact h
  | ref e ih => exact quiet_typeArgs quiet_refClass (ih h)
  | agg s e ih =>
    cases s with
    | array => exact .behind (ih h) rfl
    | list => exact quiet_typeArgs quiet_listClass (ih h)
    | map => exact quiet_typeArgs quiet_mapClass (ih h)

theorem quiet_declType? {t : Option Ty} (h : ∀ t' ∈ t, t'.Named Quiet) : Quiet (declType? t) := by
  cases t with
  | none => exact .lit rfl
  | some t => exact quiet_declType (h t rfl)

theorem not_mem_dropTypeArgs (level : Int) (cs : List Char) : '<' ∉ dropTypeArgs level cs := by
  induction cs generalizing level with
  | nil => exact List.not_mem_nil
  | cons c cs ih =>
    unfold dropTypeArgs
    split
    · exact ih _
    · split
      · exact ih _
      · split
        · rename_i hne _ _
          exact fun hmem => (List.mem_cons.mp hmem).elim (fun heq => hne heq.symm) (ih _)
        · exact ih _

/-- Nothing stands between angle brackets in an erasure. -/
theorem quiet_erasure (t : Ty) : Quiet (erasure t) :=
  .chars (not_mem_dropTypeArgs 0 _)

theorem quiet_newArray (elem : Ty) {length : String} (h : Quiet length) :
    Quiet (newArray elem length) := by
  have hbrackets : Quiet (String.join (List.replicate (arrayLevels elem) "[]")) :=
    .concat fun y hy => by
      rw [List.eq_of_mem_replicate hy]
      exact .lit rfl
  exact .between (.between (.before rfl (quiet_erasure _)) rfl h) rfl hbrackets

theorem quiet_newAggregate (t : Ty) {size : String} (h : Quiet size) :
    Quiet (newAggregate t size) := by
  unfold newAggregate
  split
  · exact quiet_newArray _ h
  · exact .behind (.append (.angle "new PerlList<>(".toList rfl) h) rfl
  · exact .behind (.append (.angle "new PerlMap<>(".toList rfl) h) rfl
  · exact .lit rfl

theorem quiet_arrayInitializer (elem : Ty) {items : List String} (h : ∀ y ∈ items, Quiet y) :
    Quiet (arrayInitializer elem items) :=
  .behind (.between (quiet_newArray elem .empty) rfl (.join (.lit rfl) h)) rfl

end Java

namespace Conversion

/-! ## Code of conversions -/

theorem quiet_loopName (n : LoopName) : Quiet n.text := by
  have hnumber : '<' ∉ Nat.toDigits 10 n.depth := by
    simpa using Numeral.not_mem_numeral (Numeral.isNumeralChar_nat n.depth) (d := '<') (by decide)
  refine .of_not_mem fun hmem => ?_
  rw [LoopName.toList_text, List.append_assoc, List.mem_append, List.mem_append] at hmem
  rcases hmem with hmem | hmem | hmem
  · exact absurd hmem (by decide)
  · revert hmem
    cases n.role <;> decide
  · exact hnumber hmem

theorem quiet_typeCode {u : TypeCode} (h : u.Named Quiet) : Quiet u.text := by
  cases u with
  | word text => exact .of_not_mem fun hmem => absurd (h '<' hmem) (by decide)
  | inferred s =>
    cases s with
    | map => exact .angle "PerlMap<>".toList rfl
    | array | list => exact .angle "PerlList<>".toList rfl
  | declared t => exact Java.quiet_declType? h
  | erased t => exact Java.quiet_erasure t
  | entry t => exact .behind (.append (.angle _ rfl) (Java.quiet_declType h)) rfl

theorem quiet_arityThrow : Quiet arityThrow :=
  .of_not_mem (by decide +kernel)

/-- Code is quiet when its types and the operand are. -/
theorem Scoped.quiet {depth : Nat} {env env' : List LoopName} {c : LoopCode} {source : String}
    (h : Scoped Quiet depth env c env') (hsource : Quiet source) : Quiet (c.render source) := by
  -- the texts between the parts end before an opening angle bracket, or begin with none
  induction h with
  | text hs => exact .of_not_mem hs.untyped
  | operand => exact hsource
  | name => exact quiet_loopName _
  | seq ha hb iha ihb => exact iha.append ihb
  | round hc ih | square hc ih => exact .behind (.before rfl ih) rfl
  | cast hu => exact .behind (.before rfl (quiet_typeCode hu)) rfl
  | create hu => exact .before rfl (quiet_typeCode hu)
  | lambda hdepth hnew hbody ih =>
    exact .behind (.between (.before rfl (quiet_loopName _)) rfl ih) rfl
  | var hu hdepth hnew hvalue ih =>
    exact .behind (.between (.between (quiet_typeCode hu) rfl (quiet_loopName _)) rfl ih) rfl
  | check hlength ih => exact .behind (.between (.before rfl ih) rfl quiet_arityThrow) rfl
  | @counted _ _ _ n _ _ _ hdepth hnew hlength hstep hbody ihlength ihbody =>
    have hn := quiet_loopName n
    have hbound : Quiet ("for (int " ++ n.text ++ " = 0; " ++ n.text ++ " < ") :=
      .append (.between (.before rfl hn) rfl hn) (.angle _ rfl)
    exact .behind (.between (.append (.between (hbound.append ihlength) rfl hn)
      (.of_not_mem hstep.untyped)) rfl ihbody) rfl
  | each hu hdepth hnew hrows hbody ihrows ihbody =>
    exact .behind (.between (.between (.between (.before rfl (quiet_typeCode hu)) rfl
      (quiet_loopName _)) rfl ihrows) rfl ihbody) rfl
  | give => exact .behind (.before rfl (quiet_loopName _)) rfl

/-- No conversion writes a supplier. -/
theorem quiet_convert {o : Operand} (ho : o.Quiet) {dest : Option Ty}
    (hdest : ∀ t ∈ dest, t.QuietNames) : Gives (convert o dest) Quiet := by
  have hscoped := scoped_convert (P := Quiet) (fun t ht => (ho.type t ht).named)
    fun t ht => (hdest t ht).named
  refine hscoped.mono fun text htext => ?_
  obtain ⟨c, rfl, hc⟩ := htext
  exact hc.quiet ho.code

end Conversion

end TypedPerl
