import TypedPerl.Proofs.Access.ReadWrite
import TypedPerl.Proofs.Twin.Agree

/-!
# Which paths to an element are accepted

An element is read, written, read and written, deleted and tested by operations of their own. All of
them resolve the container in the same way, and none of them asks more of the key than that it is
one value, since every value is a text and an index. So they accept the same paths
(`element_operations_agree`): those that lead to a container (`Path.LeadsTo`) whose keys are written
as the path writes them. What they give has the type of the element, or is a reference to it if it
is a container itself.
-/

namespace TypedPerl

/-- The operand gives an element of a type: a container among the elements as a reference to it,
whose code is that of the container and not of a cell. -/
structure Operand.GivesElement (o : Operand) (e : Ty) : Prop where
  type : o.type = some (if e.isAggregate then e.refTo else e)
  raw : o.raw = e.isAggregate

theorem Operand.ofElement_givesElement (code : String) (e : Ty) :
    (ofElement code (some e)).GivesElement e := by
  cases e <;> exact ⟨rfl, rfl⟩

namespace Path

open Conversion (convert_scalar convertNonNull_scalar)

/-! ## Paths to one element -/

/-- The path names one element: it is no whole dereference and no slice, and its key is one value
that is no container. -/
structure NamesElement (p : Path) : Prop where
  deref : p.deref = false
  context : p.context = .scalar
  key : ∃ k, p.keys = [k] ∧ k.isAggregate = false

theorem NamesElement.isMulti {p : Path} (h : p.NamesElement) : p.isMulti = false := by
  obtain ⟨k, hkeys, hk⟩ := h.key
  simp [Path.isMulti, hkeys, hk, h.context]

/-- The path leads to a container of a shape with elements of a type. -/
inductive LeadsTo (p : Path) : Shape → Ty → Prop where
  /-- The base is the container. -/
  | container {s : Shape} {e : Ty} : p.throughRef = false → p.base.type = some (.agg s e) →
      LeadsTo p s e
  /-- The base is an element of a container, and is a container itself. -/
  | element {s : Shape} {e : Ty} : p.throughRef = false → p.base.raw = true →
      p.base.type = some (.ref (.agg s e)) → LeadsTo p s e
  /-- The base is a reference to the container. -/
  | reference {s : Shape} {e : Ty} : p.throughRef = true → p.base.type = some (.ref (.agg s e)) →
      LeadsTo p s e
  /-- The base is a dynamic value, taken for a reference to a container of dynamic values. -/
  | dynamic {s : Shape} : p.throughRef = true → p.base.type = some .box →
      s = (if p.brace then .map else .list) → LeadsTo p s .box

variable {p : Path} {nullChecks : Bool}

theorem type_referent (o : Operand) : o.referent.type = o.elemType := by
  unfold Operand.referent
  split <;> rfl

theorem type_of_referent {o : Operand} {t : Ty} (href : o.isRef = true)
    (h : o.referent.type = some t) : o.type = some (.ref t) := by
  rw [type_referent, Operand.elemType] at h
  unfold Operand.isRef at href
  rcases htype : o.type with _ | (k | n | ⟨s, e⟩ | e) <;> rw [htype] at href h
  · cases href
  · cases href
  · cases href
  · cases href
  · cases h
    rfl

theorem assumedReferent_eq (hderef : p.deref = false) :
    p.assumedReferent = .agg (if p.brace then .map else .list) .box := by
  rw [assumedReferent, if_neg (by simp [hderef])]
  split <;> rfl

/-- What the path reaches is a container exactly if it leads to one. -/
theorem reached_iff (hderef : p.deref = false) (s : Shape) (e : Ty) :
    (∃ cont, p.reached = .ok cont ∧ cont.type = some (.agg s e)) ↔ p.LeadsTo s e := by
  constructor
  -- each branch of the search for the container is one way to lead to it
  · rintro ⟨cont, hcont, htype⟩
    unfold reached at hcont
    split at hcont
    · next hdirect =>
      have hthrough : p.throughRef = false := by simpa [hderef] using hdirect
      obtain rfl := Except.ok.inj hcont
      split at htype
      · next hnested =>
        rw [Bool.and_eq_true] at hnested
        exact .element hthrough hnested.1 (type_of_referent hnested.2 htype)
      · exact .container hthrough htype
    · next hdirect =>
      have hthrough : p.throughRef = true := by simpa [hderef] using hdirect
      split at hcont
      · next hbase =>
        obtain rfl := Except.ok.inj hcont
        refine .reference hthrough (type_of_referent ?_ htype)
        simp [Operand.isRef, hbase, Ty.isRef]
      · next hbase =>
        obtain rfl := Except.ok.inj hcont
        rw [assumedReferent_eq hderef] at htype
        cases htype
        exact .dynamic hthrough hbase rfl
      · cases hcont
  -- and each way is searched for by the branch that finds it
  · rintro (⟨hthrough, htype⟩ | ⟨hthrough, hraw, htype⟩ | ⟨hthrough, htype⟩ | ⟨hthrough, htype, rfl⟩)
    · refine ⟨p.base, ?_, htype⟩
      simp [reached, hthrough, hderef, Operand.isRef, htype, Ty.isRef]
    · refine ⟨p.base.referent, ?_, ?_⟩
      · simp [reached, hthrough, hderef, hraw, Operand.isRef, htype, Ty.isRef]
      · simp [type_referent, Operand.elemType, htype, Ty.elem]
    · refine ⟨p.base.referent, ?_, ?_⟩
      · simp [reached, hthrough, htype]
      · simp [type_referent, Operand.elemType, htype, Ty.elem]
    · refine ⟨.plain (p.boxCell ++ ".get()") (some p.assumedReferent), ?_, ?_⟩
      · simp [reached, hthrough, htype]
      · rw [assumedReferent_eq hderef]
        rfl

/-! ## The container and the key -/

/-- The path leads to a container with elements of the type, whose keys are written as the path
writes its key. -/
def Suits (p : Path) (e : Ty) : Prop :=
  ∃ s, p.LeadsTo s e ∧ (p.brace = true ↔ s = .map)

theorem container_eq (hderef : p.deref = false) : p.container = (do
    let cont ← p.reached
    if cont.isAggregate && p.brace == cont.type.any Ty.isMap then return cont
    else throw (.incompatible cont.type (some p.assumedReferent))) := by
  simp [container, hderef]

theorem fits_iff (p : Path) (cont : Operand) :
    (cont.isAggregate && p.brace == cont.type.any Ty.isMap) = true ↔
      ∃ s e, cont.type = some (.agg s e) ∧ (p.brace = true ↔ s = .map) := by
  unfold Operand.isAggregate
  rcases cont.type with _ | (k | n | ⟨s, e⟩ | e)
  · simp
  · simp [Ty.isAggregate]
  · simp [Ty.isAggregate]
  · have hmap : (Ty.agg s e).isMap = decide (s = .map) := by cases s <;> rfl
    cases p.brace <;> simp [Ty.isAggregate, hmap]
  · simp [Ty.isAggregate]

/-- A path that suits its container gives it. -/
theorem container_of_suits (hderef : p.deref = false) {e : Ty} (h : p.Suits e) :
    ∃ cont, p.container = .ok cont ∧ cont.elemType = some e := by
  obtain ⟨s, hleads, hbrace⟩ := h
  obtain ⟨cont, hreached, htype⟩ := (reached_iff hderef s e).mpr hleads
  refine ⟨cont, ?_, by rw [Operand.elemType, htype]; rfl⟩
  rw [container_eq hderef, hreached]
  exact if_pos ((fits_iff p cont).mpr ⟨s, e, htype, hbrace⟩)

/-- Any other path is refused for its types. -/
theorem container_refused (hderef : p.deref = false) (h : ¬∃ e, p.Suits e) :
    ∃ src dest, p.container = .error (.incompatible src dest) := by
  rw [container_eq hderef]
  cases hreached : p.reached with
  | error f =>
    unfold reached at hreached
    split at hreached
    · cases hreached
    · split at hreached <;> cases hreached
      exact ⟨_, _, rfl⟩
  | ok cont =>
    refine ⟨cont.type, some p.assumedReferent, if_neg fun hfits => h ?_⟩
    obtain ⟨s, e, htype, hbrace⟩ := (fits_iff p cont).mp hfits
    exact ⟨e, s, (reached_iff hderef s e).mp ⟨cont, hreached, htype⟩, hbrace⟩

/-- Every key is a text and an index. -/
theorem key_total (nullChecks : Bool) (p : Path) (t : Option Ty) :
    ∃ k kt, p.key nullChecks t = .ok (k, kt) := by
  unfold key
  dsimp only
  split
  · obtain ⟨k, hk⟩ := convert_scalar (p.keys.headD default) (k := .string) (by decide) (by decide)
    exact ⟨k, .string, by rw [hk]; rfl⟩
  · obtain ⟨k, hk⟩ := convertNonNull_scalar nullChecks (p.keys.headD default) (k := .integer)
      (by decide) (by decide)
    exact ⟨k, .integer, by rw [hk]; rfl⟩

/-! ## The operations -/

/-- All operations take the path, and give an element of the type, or tell whether there is one. -/
structure Accepted (nullChecks : Bool) (p : Path) (e : Ty) : Prop where
  target : p.target = .ok (some e)
  read : ∃ o, p.read nullChecks = .ok o ∧ o.GivesElement e
  write : ∀ value, ∃ code, p.write nullChecks value = .ok code
  readWrite : ∀ st, ∃ rw st', p.readWrite nullChecks st = .ok (rw, st') ∧ rw.read.GivesElement e
  delete : ∃ o, p.delete nullChecks = .ok o ∧ o.GivesElement e
  isPresent : ∃ o, p.isPresent nullChecks = .ok o ∧ o.type = some .boolean ∧ o.notNull = true

/-- All operations refuse the path with the same fault. -/
structure Refused (nullChecks : Bool) (p : Path) (f : Fault) : Prop where
  target : p.target = .error f
  read : p.read nullChecks = .error f
  write : ∀ value, p.write nullChecks value = .error f
  readWrite : ∀ st, p.readWrite nullChecks st = .error f
  delete : p.delete nullChecks = .error f
  isPresent : p.isPresent nullChecks = .error f

theorem accepted_of_container (h : p.NamesElement) (nullChecks : Bool) {cont : Operand} {e : Ty}
    (hcont : p.container = .ok cont) (helem : cont.elemType = some e) :
    p.Accepted nullChecks e := by
  have hderef := h.deref
  have hmulti := h.isMulti
  obtain ⟨k, kt, hkey⟩ := key_total nullChecks p cont.type
  have hgives (code : String) : (Operand.ofElement code cont.elemType).GivesElement e := by
    rw [helem]
    exact Operand.ofElement_givesElement code e
  -- every operation goes to the element of the one container by the one key
  have hread := read_element hderef hmulti hcont hkey
  have hdelete := delete_element hderef hmulti hcont hkey
  obtain ⟨test, htest⟩ := isPresent_element hderef hmulti hcont hkey
  refine ⟨?target, ⟨_, hread, hgives _⟩, fun value => ⟨_, write_element hderef hmulti hcont hkey value⟩,
    fun st => ?readWrite, ⟨_, hdelete, hgives _⟩, ⟨_, htest, rfl, rfl⟩⟩
  case target => simp [target, hcont, hderef, hmulti, helem, bind, Except.bind, pure, Except.pure]
  case readWrite =>
    obtain ⟨rw, st', code, hrw, hcode⟩ := readWrite_ofElement hderef hmulti hcont hkey st
    exact ⟨rw, st', hrw, hcode ▸ hgives code⟩

theorem refused_of_container (h : p.NamesElement) (nullChecks : Bool) {f : Fault}
    (hcont : p.container = .error f) : p.Refused nullChecks f := by
  have hderef := h.deref
  have hmulti := h.isMulti
  constructor <;> intros <;>
    simp [target, read, write, readWrite, delete, isPresent, hcont, hderef, hmulti, bind, Except.bind]

/-- The operations on one element accept the same paths, those that suit their container, and refuse
any other with the same fault. -/
theorem element_operations_agree (h : p.NamesElement) (nullChecks : Bool) :
    (∃ e, p.Suits e ∧ p.Accepted nullChecks e) ∨
      (¬∃ e, p.Suits e) ∧ ∃ src dest, p.Refused nullChecks (.incompatible src dest) := by
  by_cases hsuits : ∃ e, p.Suits e
  · obtain ⟨e, hsuits⟩ := hsuits
    obtain ⟨cont, hcont, helem⟩ := container_of_suits h.deref hsuits
    exact .inl ⟨e, hsuits, accepted_of_container h nullChecks hcont helem⟩
  · obtain ⟨src, dest, hcont⟩ := container_refused h.deref hsuits
    exact .inr ⟨hsuits, src, dest, refused_of_container h nullChecks hcont⟩

/-- The list at an index of an array of arrays of lists, `$a[0][$i]`. -/
def nestedList : Path where
  base := { code := "a[0]", type := some (.ref (.agg .array (.agg .list .integer))), raw := true }
  keys := [.plain "i" (some .string)]

/-- The list is given as a reference. With a key of a map, `$a[0]{$i}`, nothing is accepted. -/
theorem nestedList_agree :
    nestedList.NamesElement ∧ nestedList.Accepted true (.agg .list .integer) ∧
      ∃ src dest, { nestedList with brace := true }.Refused true (.incompatible src dest) := by
  have hnames : nestedList.NamesElement := ⟨rfl, rfl, _, rfl, rfl⟩
  have hbraced : { nestedList with brace := true }.NamesElement := ⟨rfl, rfl, _, rfl, rfl⟩
  refine ⟨hnames, ?_, ?_⟩
  -- the base is a list of lists, so the path leads to an element of it and no other way
  · obtain ⟨e, ⟨s, hleads, -⟩, haccepted⟩ | ⟨-, src, dest, hrefused⟩ :=
      element_operations_agree hnames true
    · cases hleads with
      | element _ _ htype =>
        cases htype
        exact haccepted
      | container _ htype => cases htype
      | reference hthrough => cases hthrough
      | dynamic hthrough => cases hthrough
    · exact nomatch hrefused.target
  · obtain ⟨e, -, haccepted⟩ | ⟨-, src, dest, hrefused⟩ := element_operations_agree hbraced true
    · exact nomatch haccepted.target
    · exact ⟨src, dest, hrefused⟩

end Path

end TypedPerl
