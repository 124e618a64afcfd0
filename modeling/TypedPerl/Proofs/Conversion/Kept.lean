import TypedPerl.Access
import TypedPerl.Proofs.Conversion.Linear
import TypedPerl.Proofs.Text.Within

/-!
# Conversions, containers and accesses keep the code of their operands

Whatever is made of an operand that is no literal and not undefined, the code of the operand occurs
in the code of the result. For conversions this follows from their having one hole. For containers
it holds of every element but the values of an odd row where a map is wanted: such a row has no
partner for its last value, and its code raises an error instead. For accesses it holds of the base
and of all keys.

`Gives x post` states such facts about computations that may be refused: if `x` gives a result, the
result satisfies `post`. It has one rule for each way to build a computation.
-/

namespace TypedPerl

open Text (Within)

variable {α β : Type}

/-! ## Results of computations -/

/-- The result of the computation, if there is one, satisfies `post`. -/
def Gives (x : Except Fault α) (post : α → Prop) : Prop :=
  ∀ a, x = .ok a → post a

namespace Gives

variable {post mid : α → Prop}

theorem ok {a : α} (h : post a) : Gives (.ok a) post := by
  rintro _ ⟨⟩
  exact h

theorem pure {a : α} (h : post a) : Gives (Pure.pure a) post :=
  ok h

theorem error (f : Fault) : Gives (.error f) post := by
  rintro _ ⟨⟩

theorem throw (f : Fault) : Gives (MonadExcept.throw f) post :=
  error f

theorem mono {x : Except Fault α} (hx : Gives x mid) (h : ∀ a, mid a → post a) : Gives x post :=
  fun a ha => h a (hx a ha)

theorem bind {x : Except Fault α} {k : α → Except Fault β} {post : β → Prop} (hx : Gives x mid)
    (hk : ∀ a, mid a → Gives (k a) post) : Gives (x >>= k) post := by
  intro b hb
  cases hrun : x with
  | error f =>
    rw [hrun] at hb
    cases hb
  | ok a =>
    rw [hrun] at hb
    exact hk a (hx a hrun) b hb

/-- Nothing needs to be known of the first result. -/
theorem skip {x : Except Fault α} {k : α → Except Fault β} {post : β → Prop}
    (hk : ∀ a, Gives (k a) post) : Gives (x >>= k) post :=
  bind (fun _ _ => trivial) fun a (_ : True) => hk a

theorem ite {c : Prop} [Decidable c] {x y : Except Fault α} (hx : c → Gives x post)
    (hy : ¬c → Gives y post) : Gives (if c then x else y) post := by
  split
  · next h => exact hx h
  · next h => exact hy h

/-- Two ways to compute what is used in one way. -/
theorem branch {c : Prop} [Decidable c] {post : β → Prop}
    {x y : Except Fault α} {k : α → Except Fault β} (hx : Gives x mid) (hy : Gives y mid)
    (hk : ∀ a, mid a → Gives (k a) post) : Gives (if c then x >>= k else y >>= k) post :=
  .ite (fun _ => hx.bind hk) fun _ => hy.bind hk

/-- What holds of the result of each computation holds of all results. -/
theorem mapM_all {post : β → Prop} {k : α → Except Fault β} {xs : List α}
    (hk : ∀ a ∈ xs, Gives (k a) post) : Gives (xs.mapM k) fun bs => ∀ b ∈ bs, post b := by
  induction xs with
  | nil => exact .pure fun b hb => absurd hb List.not_mem_nil
  | cons a rest ih =>
    obtain ⟨ha, hrest⟩ := List.forall_mem_cons.mp hk
    rw [List.mapM_cons]
    exact ha.bind fun b hb => (ih hrest).bind fun bs hbs =>
      .pure (List.forall_mem_cons.mpr ⟨hb, hbs⟩)

/-- What the computation on each element gives is among the results. -/
theorem mapM {k : α → Except Fault β} {post : α → β → Prop} {xs : List α}
    (hk : ∀ a ∈ xs, Gives (k a) (post a)) :
    Gives (xs.mapM k) fun bs => ∀ a ∈ xs, ∃ b ∈ bs, post a b := by
  induction xs with
  | nil => exact pure fun a ha => absurd ha List.not_mem_nil
  | cons a rest ih =>
    rw [List.mapM_cons]
    refine bind (hk a List.mem_cons_self) fun b hb => ?_
    refine bind (ih fun c hc => hk c (List.mem_cons_of_mem a hc)) fun bs hbs => pure ?_
    intro c hc
    obtain rfl | hc := List.mem_cons.mp hc
    · exact ⟨b, List.mem_cons_self, hb⟩
    · obtain ⟨d, hd, hpost⟩ := hbs c hc
      exact ⟨d, List.mem_cons_of_mem b hd, hpost⟩

end Gives

/-! ## Conversions -/

/-- What is not of a container type is no container. -/
theorem Operand.isAggregate_eq_false {o : Operand}
    (h : ∀ s e, o.type = some (.agg s e) → False) : o.isAggregate = false := by
  unfold Operand.isAggregate
  rcases ht : o.type with _ | t
  · rfl
  · cases t with
    | agg s e => exact (h s e ht).elim
    | scalar | object | ref => rfl

/-- Arrays and lists are containers. -/
theorem Operand.isAggregate_of_isSequence {o : Operand} (h : o.isSequence = true) :
    o.isAggregate = true := by
  revert h
  unfold Operand.isSequence Operand.isAggregate
  rcases o.type with _ | t
  · exact nofun
  · cases t with
    | agg s e => exact fun _ => rfl
    | scalar | object | ref => exact nofun

/-- The operand is evaluated where it is used: it is neither a literal nor undefined. -/
structure Operand.Live (o : Operand) : Prop where
  constant : o.constant = false
  undef : o.undef = false

theorem Operand.live_plain (code : String) (t : Option Ty) : (Operand.plain code t).Live :=
  ⟨rfl, rfl⟩

theorem Operand.live_nonNull (code : String) (t : Option Ty) : (Operand.nonNull code t).Live :=
  ⟨rfl, rfl⟩

/-- An operand of a computation with one hole occurs in its result. -/
theorem Linear.kept {f : String → Except Fault String} (h : Linear f) (code : String) :
    Gives (f code) (Within code) := by
  intro text htext
  rcases h with ⟨pre, post, hf⟩ | ⟨refusal, hf⟩
  · rw [hf code] at htext
    cases htext
    exact ((Within.refl code).before pre).behind post
  · rw [hf code] at htext
    cases htext

namespace Conversion

theorem convert_kept {o : Operand} (ho : o.Live) (dest : Option Ty) :
    Gives (convert o dest) (Within o.code) :=
  (convert_linear ho.constant ho.undef dest).kept o.code

theorem convertNonNull_kept (nullChecks : Bool) {o : Operand} (ho : o.Live) (dest : Option Ty) :
    Gives (convertNonNull nullChecks o dest) (Within o.code) :=
  (convertNonNull_linear nullChecks ho.constant ho.undef dest).kept o.code

end Conversion

open Conversion (convert_kept convertNonNull_kept)

/-! ## Containers -/

namespace Collection

/-- The text holds the code or, where `odd` holds, what raises the error of an odd row instead. -/
def Kept (odd : Prop) (code text : String) : Prop :=
  Within code text ∨ odd ∧ Within Conversion.arityThrow text

theorem Kept.mono {odd : Prop} {code text text' : String} (h : Kept odd code text)
    (hle : Within text text') : Kept odd code text' :=
  h.imp (·.trans hle) fun hraise => ⟨hraise.1, hraise.2.trans hle⟩

theorem Kept.imp_odd {odd odd' : Prop} {code text : String} (h : Kept odd code text)
    (himp : odd → odd') : Kept odd' code text :=
  h.imp_right fun hraise => ⟨himp hraise.1, hraise.2⟩

theorem Kept.within {odd : Prop} {code text : String} (h : Kept odd code text) (hodd : ¬odd) :
    Within code text :=
  h.resolve_right fun hraise => hodd hraise.1

/-- The values of odd rows. A row is what stands between containers; `run` is the row so far. -/
def unpaired (container : α → Bool) (run : List α) : List α → List α
  | [] => if run.length % 2 = 0 then [] else run
  | x :: rest =>
    if container x then
      (if run.length % 2 = 0 then [] else run) ++ unpaired container [] rest
    else unpaired container (run ++ [x]) rest

theorem unpaired_congr {container container' : α → Bool} {xs : List α}
    (h : ∀ x ∈ xs, container x = container' x) (run : List α) :
    unpaired container run xs = unpaired container' run xs := by
  induction xs generalizing run with
  | nil => rfl
  | cons x rest ih =>
    rw [unpaired, unpaired, h x List.mem_cons_self,
      ih (fun y hy => h y (List.mem_cons_of_mem x hy)) [],
      ih (fun y hy => h y (List.mem_cons_of_mem x hy)) (run ++ [x])]

/-- What is taken in pairs is from the row. -/
theorem mem_of_mem_pairs {run : List Operand} {p : Operand × Operand} (hp : p ∈ pairs run) :
    p.1 ∈ run ∧ p.2 ∈ run := by
  fun_induction pairs run with
  | case1 k v rest ih =>
    rcases List.mem_cons.mp hp with rfl | hp
    · simp
    · exact (ih hp).imp (by simp_all) (by simp_all)
  | case2 => cases hp

/-- What holds of the converted keys and values of a row holds of the entries of its pairs. -/
theorem entries_all {post : String → Prop} {run : List Operand} {elem : Ty}
    (hkey : ∀ o ∈ run, Gives (Conversion.convert o (some .string)) post)
    (hvalue : ∀ o ∈ run, Gives (Conversion.convert o (some elem)) post) :
    Gives ((pairs run).mapM fun p => do
      let k ← Conversion.convert p.1 (some .string)
      let v ← Conversion.convert p.2 (some elem)
      pure (k, v)) fun entries =>
        (∀ y ∈ entries.map (·.1), post y) ∧ ∀ y ∈ entries.map (·.2), post y := by
  -- the key and the value of an entry are both operands of the run
  have hentry : ∀ p ∈ pairs run, Gives (do
      let k ← Conversion.convert p.1 (some .string)
      let v ← Conversion.convert p.2 (some elem)
      pure (k, v)) fun e => post e.1 ∧ post e.2 := by
    intro p hp
    obtain ⟨hk, hv⟩ := mem_of_mem_pairs hp
    exact .bind (hkey _ hk) fun k hk => .bind (hvalue _ hv) fun v hv => .pure ⟨hk, hv⟩
  refine (Gives.mapM_all hentry).mono fun entries hentries => ⟨?_, ?_⟩
  · exact List.forall_mem_map.mpr fun e he => (hentries e he).1
  · exact List.forall_mem_map.mpr fun e he => (hentries e he).2

/-- Each value of an even row is in a pair. -/
theorem mem_pairs : ∀ {run : List Operand} {o : Operand}, run.length % 2 = 0 → o ∈ run →
    ∃ p ∈ pairs run, o = p.1 ∨ o = p.2
  | [], o, _, ho => absurd ho List.not_mem_nil
  | [a], o, heven, _ => by simp at heven
  | k :: v :: rest, o, heven, ho => by
    rw [pairs]
    -- an operand is the key or the value of the first pair, or stands in another
    obtain rfl | ho := List.mem_cons.mp ho
    · exact ⟨(o, v), List.mem_cons_self, .inl rfl⟩
    obtain rfl | ho := List.mem_cons.mp ho
    · exact ⟨(k, o), List.mem_cons_self, .inr rfl⟩
    have hrest : rest.length % 2 = 0 := by
      simp only [List.length_cons] at heven
      omega
    obtain ⟨p, hp, hor⟩ := mem_pairs hrest ho
    exact ⟨p, List.mem_cons_of_mem _ hp, hor⟩

theorem sequenceRun_kept (run : List Operand) (elem : Ty) :
    Gives (sequenceRun run elem) fun c => ∀ o ∈ run, o.Live → Within o.code c.code := by
  have hitem : ∀ o ∈ run, Gives (Conversion.convert o (some elem)) fun text =>
      o.Live → Within o.code text := fun o _ text htext ho => convert_kept ho _ text htext
  refine .bind (.mapM hitem) fun items hitems => .pure fun o ho hlive => ?_
  obtain ⟨text, htext, hkept⟩ := hitems o ho
  exact .arrayInitializer elem ⟨text, htext, hkept hlive⟩

theorem arityRaise_raises (t : Ty) : Within Conversion.arityThrow (arityRaise t) :=
  ((Within.refl _).before _).behind _

theorem mapRun_kept (run : List Operand) (elem : Ty) :
    Gives (mapRun run elem) fun c =>
      ∀ o ∈ run, o.Live → Kept (run.length % 2 ≠ 0) o.code c.code := by
  unfold mapRun
  dsimp only
  split
  · next hodd => exact .pure fun _ _ _ => .inr ⟨hodd, arityRaise_raises _⟩
  · next heven =>
    have hentry : ∀ p ∈ pairs run, Gives (do
        let k ← Conversion.convert p.1 (some .string)
        let v ← Conversion.convert p.2 (some elem)
        pure (k, v)) fun e =>
          (p.1.Live → Within p.1.code e.1) ∧ (p.2.Live → Within p.2.code e.2) := by
      intro p _
      refine .bind (fun k hk hlive => convert_kept hlive _ k hk) fun k hk => ?_
      exact .bind (fun v hv hlive => convert_kept hlive _ v hv) fun v hv => .pure ⟨hk, hv⟩
    refine .bind (.mapM hentry) fun entries hentries => .pure fun o ho hlive => .inl ?_
    obtain ⟨p, hp, hor⟩ := mem_pairs (not_not.mp heven) ho
    obtain ⟨e, he, hkey, hvalue⟩ := hentries p hp
    -- keys and values stand in two literals of their own
    have hkeys : Within o.code (Java.arrayInitializer .string (entries.map (·.1))) ∨
        Within o.code (Java.arrayInitializer elem (entries.map (·.2))) := by
      rcases hor with rfl | rfl
      · exact .inl (.arrayInitializer _ ⟨e.1, List.mem_map_of_mem he, hkey hlive⟩)
      · exact .inr (.arrayInitializer _ ⟨e.2, List.mem_map_of_mem he, hvalue hlive⟩)
    rcases hkeys with h | h
    · exact (((h.before _).behind _).behind _).behind _
    · exact (h.before _).behind _

theorem runChunk_kept (f : α → Operand) (s : Shape) (elem : Ty) (run : List α) :
    Gives (runChunk s elem (run.map f)) fun cs => ∀ x ∈ run, (f x).Live →
      ∃ c ∈ cs, Kept (s = .map ∧ run.length % 2 ≠ 0) (f x).code c.code := by
  unfold runChunk
  -- only a run for a map may lose its operands, when one is without a value
  split
  · next hempty =>
    have hnil : run = [] := by simpa using hempty
    exact .ok fun x hx => absurd (hnil ▸ hx) List.not_mem_nil
  · split
    · next hmap =>
      refine .bind (mapRun_kept _ elem) fun c hc => .pure fun x hx hlive => ?_
      refine ⟨c, List.mem_singleton_self c, ?_⟩
      exact (hc (f x) (List.mem_map_of_mem hx) hlive).imp_odd fun hodd =>
        ⟨hmap, by simpa using hodd⟩
    · refine .bind (sequenceRun_kept _ elem) fun c hc => .pure fun x hx hlive => ?_
      exact ⟨c, List.mem_singleton_self c, .inl (hc (f x) (List.mem_map_of_mem hx) hlive)⟩

theorem splice_kept (o : Operand) (t : Ty) (s : Shape) (elem : Ty) :
    Gives (splice o t s elem) fun c => o.Live → Within o.code c.code := by
  refine .ite (fun _ => .ok fun _ => .refl _) fun _ => ?_
  exact .bind (fun text htext ho => convert_kept ho _ text htext) fun code hcode => .pure hcode

/-- Each element is in some piece, except for the values of odd rows of a map. -/
theorem chunks_kept (f : α → Operand) (s : Shape) (elem : Ty) (xs : List α) : ∀ run : List α,
    Gives (chunks s elem (run.map f) (xs.map f)) fun cs => ∀ x ∈ run ++ xs, (f x).Live →
      ∃ c ∈ cs, Kept (s = .map ∧ x ∈ unpaired (fun x => (f x).isAggregate) run xs)
        (f x).code c.code := by
  induction xs with
  | nil =>
    intro run
    refine (runChunk_kept f s elem run).mono fun cs hcs x hx hlive => ?_
    rw [List.append_nil] at hx
    obtain ⟨c, hc, hkept⟩ := hcs x hx hlive
    refine ⟨c, hc, hkept.imp_odd fun hodd => ⟨hodd.1, ?_⟩⟩
    rw [unpaired, if_neg hodd.2]
    exact hx
  | cons y rest ih =>
    intro run
    rw [List.map_cons, chunks, unpaired]
    split
    · -- a container ends the row before it and is put in as it is
      next s' e' htype =>
      have hcontainer : (f y).isAggregate = true := by
        simp [Operand.isAggregate, htype, Ty.isAggregate]
      rw [if_pos hcontainer]
      refine .bind (runChunk_kept f s elem run) fun before hbefore => ?_
      refine .bind (splice_kept _ _ s elem) fun c hc => ?_
      refine .bind (ih []) fun after hafter => .pure fun x hx hlive => ?_
      rcases List.mem_append.mp hx with hx | hx
      · obtain ⟨c', hc', hkept⟩ := hbefore x hx hlive
        refine ⟨c', List.mem_append_left _ hc', hkept.imp_odd fun hodd => ⟨hodd.1, ?_⟩⟩
        rw [if_neg hodd.2]
        exact List.mem_append_left _ hx
      obtain rfl | hx := List.mem_cons.mp hx
      · exact ⟨c, List.mem_append_right _ List.mem_cons_self, .inl (hc hlive)⟩
      · obtain ⟨c', hc', hkept⟩ := hafter x hx hlive
        refine ⟨c', List.mem_append_right _ (List.mem_cons_of_mem c hc'), ?_⟩
        exact hkept.imp_odd fun hodd => ⟨hodd.1, List.mem_append_right _ hodd.2⟩
    · -- any other value goes to the end of the row
      next htype =>
      have hvalue : (f y).isAggregate = false := Operand.isAggregate_eq_false htype
      have hrow := ih (run ++ [y])
      rw [hvalue, if_neg Bool.false_ne_true]
      rw [List.map_append, List.map_cons, List.map_nil, List.append_assoc] at hrow
      exact hrow

/-- Each piece is in the container. -/
theorem joinChunks_kept (s : Shape) (elem : Ty) (cs : List Chunk) :
    Gives (joinChunks s elem cs) fun text => ∀ c ∈ cs, Within c.code text := by
  unfold joinChunks
  split
  · -- a single piece is the container, up to a conversion
    next c =>
    refine (convert_kept (Operand.live_nonNull c.code _) _).mono fun text htext c' hc' => ?_
    exact List.mem_singleton.mp hc' ▸ htext
  · refine .ok fun c hc => ?_
    have happend : Within c.code (".append(" ++ c.code ++ ")") :=
      ((Within.refl _).before _).behind _
    have hjoined : Within c.code (String.join (cs.map fun c => ".append(" ++ c.code ++ ")")) :=
      .concat ⟨_, List.mem_map_of_mem hc, happend⟩
    exact (hjoined.before _).behind _

theorem buildFrom_kept (f : α → Operand) (xs : List α) (s : Shape) (elem : Ty) :
    Gives (buildFrom (xs.map f) s elem) fun text => ∀ x ∈ xs, (f x).Live →
      Kept (s = .map ∧ x ∈ unpaired (fun x => (f x).isAggregate) [] xs) (f x).code text := by
  refine .bind (chunks_kept f s elem xs []) fun cs hcs => ?_
  refine (joinChunks_kept s elem cs).mono fun text htext x hx hlive => ?_
  obtain ⟨c, hc, hkept⟩ := hcs x hx hlive
  exact hkept.mono (htext c hc)

/-- The elements whose code a map does not keep: the values of odd rows, unless the elements are
taken as one flat list. -/
def unkept (sequence container : α → Bool) (xs : List α) : List α :=
  if 1 < xs.length && xs.any sequence then [] else unpaired container [] xs

theorem unkept_congr {sequence sequence' container container' : α → Bool} {xs : List α}
    (hsequence : ∀ x ∈ xs, sequence x = sequence' x)
    (hcontainer : ∀ x ∈ xs, container x = container' x) :
    unkept sequence container xs = unkept sequence' container' xs := by
  have hany : xs.any sequence = xs.any sequence' := by
    rw [Bool.eq_iff_iff, List.any_eq_true, List.any_eq_true]
    constructor
    · rintro ⟨x, hx, htrue⟩
      exact ⟨x, hx, hsequence x hx ▸ htrue⟩
    · rintro ⟨x, hx, htrue⟩
      exact ⟨x, hx, (hsequence x hx).symm ▸ htrue⟩
  rw [unkept, unkept, hany, unpaired_congr hcontainer []]

/-- The code of a container holds that of its elements. -/
theorem build_kept (f : α → Operand) (xs : List α) (dest : Option Ty) :
    Gives (build (xs.map f) dest) fun text => ∀ x ∈ xs, (f x).Live →
      Kept (dest.any Ty.isMap = true ∧
        x ∈ unkept (fun x => (f x).isSequence) (fun x => (f x).isAggregate) xs)
        (f x).code text := by
  unfold build
  split
  · next s elem =>
    refine .ite (fun hempty => .ok fun x hx => ?_) fun _ => .ite (fun hflat => ?_) fun hflat => ?_
    · have hnil : xs = [] := by simpa using hempty
      exact absurd (hnil ▸ hx) List.not_mem_nil
    · -- the flat list is one of dynamic values, which has no rows
      refine .bind (buildFrom_kept f xs .list .box) fun list hlist => ?_
      refine (convert_kept (Operand.live_nonNull list _) _).mono fun text htext x hx hlive => ?_
      have hkept := (hlist x hx hlive).within fun hodd => nomatch hodd.1
      exact .inl (hkept.trans htext)
    · refine (buildFrom_kept f xs s elem).mono fun text htext x hx hlive => ?_
      refine (htext x hx hlive).imp_odd fun hodd => ?_
      obtain ⟨rfl, hodd⟩ := hodd
      have hrows : ¬(decide (1 < xs.length) && xs.any fun x => (f x).isSequence) = true := by
        simpa [List.any_map] using hflat
      rw [unkept, if_neg hrows]
      exact ⟨rfl, hodd⟩
  · exact .error _

/-- The code of a sequence holds that of all its elements. -/
theorem build_sequence_kept (ops : List Operand) (dest : Option Ty)
    (hdest : dest.any Ty.isMap = false) :
    Gives (build ops dest) fun text => ∀ o ∈ ops, o.Live → Within o.code text := by
  have hbuild := build_kept id ops dest
  rw [List.map_id] at hbuild
  refine hbuild.mono fun text htext o ho hlive => ?_
  refine (htext o ho hlive).within fun hodd => ?_
  rw [hdest] at hodd
  cases hodd.1

end Collection

open Collection (build_sequence_kept)

/-! ## Accesses -/

namespace Path

/-- The text holds the code of the base and of all keys. -/
structure KeptIn (p : Path) (text : String) : Prop where
  base : Within p.base.code text
  keys : p.deref = false → ∀ k ∈ p.keys, k.Live → Within k.code text

variable {p : Path}

theorem KeptIn.mono {text text' : String} (h : p.KeptIn text) (hle : Within text text') :
    p.KeptIn text' where
  base := h.base.trans hle
  keys := fun hd k hk hlive => (h.keys hd k hk hlive).trans hle

theorem referent_kept (o : Operand) : Within o.code o.referent.code := by
  unfold Operand.referent
  split
  · exact .refl _
  · exact (Within.refl _).behind _

theorem boxCell_kept (p : Path) : Within p.base.code p.boxCell := by
  have hcall : Within p.base.code (Conversion.helper "toRef" p.base.code) :=
    .call _ _ ⟨_, List.mem_singleton_self _, .refl _⟩
  exact (hcall.before _).behind _

theorem container_kept (p : Path) : Gives p.container fun cont => Within p.base.code cont.code := by
  have hreached : Gives p.reached fun cont => Within p.base.code cont.code := by
    unfold reached
    refine .ite (fun _ => .ok ?_) fun _ => ?_
    · split
      · exact referent_kept _
      · exact .refl _
    · split
      · exact .ok (referent_kept _)
      · exact .ok (p.boxCell_kept.behind _)
      · exact .error _
  refine .bind hreached fun cont hcont => ?_
  refine .ite (fun _ => .ite (fun _ => .pure hcont) fun _ => .throw _) fun _ => ?_
  exact .ite (fun _ => .pure hcont) fun _ => .throw _

/-- A single key is the only one. -/
theorem key_kept (nullChecks : Bool) (hp : p.isMulti = false) (t : Option Ty) :
    Gives (p.key nullChecks t) fun r => ∀ k ∈ p.keys, k.Live → Within k.code r.1 := by
  -- a path to one element has one key
  have hone : ∀ k ∈ p.keys, p.keys.headD default = k := by
    unfold isMulti at hp
    split at hp
    · next k hk => simp [hk]
    · cases hp
  have hkey {conv : Operand → Except Fault String} {t : Ty}
      (hconv : ∀ k : Operand, k.Live → Gives (conv k) (Within k.code)) :
      Gives (do
        let code ← conv (p.keys.headD default)
        return (code, t)) fun r => ∀ k ∈ p.keys, k.Live → Within k.code r.1 := by
    have hcode : Gives (conv (p.keys.headD default)) fun code =>
        ∀ k ∈ p.keys, k.Live → Within k.code code := by
      intro code hcode k hk hlive
      rw [hone k hk] at hcode
      exact hconv k hlive code hcode
    exact .bind hcode fun code hcode => .pure hcode
  exact .ite (fun _ => hkey fun k hk => convert_kept hk _) fun _ =>
    hkey fun k hk => convertNonNull_kept _ hk _

theorem keyArray_kept (p : Path) (t : Option Ty) :
    Gives (p.keyArray t) fun ks => ∀ k ∈ p.keys, k.Live → Within k.code ks :=
  build_sequence_kept _ _ rfl

/-- Code that holds the container and the keys holds the base and the keys. -/
theorem KeptIn.of_container {cont keys text : String} (hbase : Within p.base.code cont)
    (hkeys : ∀ k ∈ p.keys, k.Live → Within k.code keys) (hcont : Within cont text)
    (htext : Within keys text) : p.KeptIn text where
  base := hbase.trans hcont
  keys := fun _ k hk hlive => (hkeys k hk hlive).trans htext

/-- A whole dereference has no keys to keep. -/
theorem KeptIn.of_deref {text : String} (hp : p.deref = true) (hbase : Within p.base.code text) :
    p.KeptIn text where
  base := hbase
  keys := fun hd => by
    rw [hp] at hd
    cases hd

theorem code_ofElement (code : String) (t : Option Ty) :
    (Operand.ofElement code t).code = code := by
  unfold Operand.ofElement
  split <;> rfl

theorem elementCode_within {x cont key : String} (t : Option Ty)
    (h : Within x cont ∨ Within x key) : Within x (elementCode cont t key) := by
  unfold elementCode
  split <;> grind

theorem storeCode_within {x cont key value : String} (t : Option Ty)
    (h : Within x cont ∨ Within x key ∨ Within x value) :
    Within x (storeCode cont t key value) := by
  unfold storeCode
  split
  · grind
  · split <;> grind

/-- The first two arguments of a call. -/
theorem KeptIn.of_call {cont keys : String} (hbase : Within p.base.code cont)
    (hkeys : ∀ k ∈ p.keys, k.Live → Within k.code keys) (fn : String) (rest : List String) :
    p.KeptIn (Java.call "Pd" fn (cont :: keys :: rest)) :=
  .of_container hbase hkeys (.call _ _ ⟨cont, by simp, .refl _⟩)
    (.call _ _ ⟨keys, by simp, .refl _⟩)

theorem read_kept (nullChecks : Bool) (p : Path) :
    Gives (p.read nullChecks) fun o => p.KeptIn o.code := by
  refine .bind p.container_kept fun cont hcont => ?_
  refine .ite (fun hderef => .pure (.of_deref hderef hcont)) fun _ => ?_
  -- an element by one key, or a slice by an array of keys
  refine .ite (fun hone => ?_) fun _ => ?_
  · refine .bind (key_kept nullChecks (by simpa using hone) cont.type) fun k hk => .pure ?_
    rw [code_ofElement]
    exact .of_container hcont hk (elementCode_within _ (.inl (.refl _)))
      (elementCode_within _ (.inr (.refl _)))
  · refine .bind (p.keyArray_kept cont.type) fun ks hks => ?_
    split
    · refine .pure ?_
      rw [code_ofElement]
      exact .of_call hcont hks _ _
    · exact .pure (.of_call hcont hks _ _)
    · exact .pure (.of_call hcont hks _ _)

theorem cell_kept {cell : String} {t : Ty} (h : p.cell? = some (cell, t)) :
    Within p.base.code cell := by
  unfold cell? at h
  split at h
  · split at h
    · cases h
    · cases h
      exact .refl _
  · cases h
    exact p.boxCell_kept
  · cases h

theorem write_kept (nullChecks : Bool) (p : Path) (value : String) :
    Gives (p.write nullChecks value) fun text => p.KeptIn text ∧ Within value text := by
  refine .ite (fun hderef => ?_) fun _ => ?_
  · split
    · -- a whole dereference is stored to through its cell
      next cell t hcell =>
      have hbase := cell_kept hcell
      exact .ok ⟨.of_deref hderef (by grind), by grind [Within.refl]⟩
    · exact .error _
  · refine .bind p.container_kept fun cont hcont => .ite (fun hone => ?_) fun _ => ?_
    · refine .bind (key_kept nullChecks (by simpa using hone) cont.type) fun k hk => .pure ⟨?_, ?_⟩
      · exact .of_container hcont hk (storeCode_within _ (.inl (.refl _)))
          (storeCode_within _ (.inr (.inl (.refl _))))
      · exact storeCode_within _ (.inr (.inr (.refl _)))
    · refine .bind (p.keyArray_kept cont.type) fun ks hks => ?_
      split
      · exact .pure ⟨.of_call hcont hks _ _, .call _ _ ⟨value, by simp, .refl _⟩⟩
      · exact .pure ⟨.of_call hcont hks _ _, .call _ _ ⟨value, by simp, .refl _⟩⟩
      · exact .throw _

theorem pieceOnce_kept (repeatable : Bool) (t : Option Ty) (code : String) (st : AccessState) :
    Within code (pieceOnce repeatable t code st).1.2 := by
  unfold pieceOnce
  split
  · exact .refl _
  · exact ((Within.refl code).before _).paren

/-- A store holds the pieces of the path, captured or not, and the value. -/
theorem readWrite_kept (nullChecks : Bool) (p : Path) (st : AccessState) :
    Gives (p.readWrite nullChecks st) fun r =>
      ∀ value, p.KeptIn (r.1.write value) ∧ Within value (r.1.write value) := by
  -- a whole referent has its cell in the code, an element its container and its key
  refine .ite (fun hderef => ?_) fun _ => .ite (fun _ => .error _) fun hone => ?_
  · split
    · exact .error _
    · next cell t hcell =>
      have hbase := (cell_kept hcell).trans (pieceOnce_kept p.baseRepeatable (some t) cell st)
      refine .ok fun value => ⟨.of_deref hderef ?_, ?_⟩
      · exact (hbase.behind _).behind _ |>.behind _
      · exact ((Within.refl value).before _).behind _
  · refine .bind p.container_kept fun cont hcont => ?_
    refine .bind (key_kept nullChecks (by simpa using hone) cont.type) fun k hk => ?_
    refine .pure fun value => ⟨?_, storeCode_within _ (.inr (.inr (.refl _)))⟩
    exact .of_container hcont hk
      (storeCode_within _ (.inl (pieceOnce_kept _ _ _ _)))
      (storeCode_within _ (.inr (.inl (pieceOnce_kept _ _ _ _))))

theorem delete_kept (nullChecks : Bool) (p : Path) :
    Gives (p.delete nullChecks) fun o => p.KeptIn o.code := by
  refine .ite (fun _ => .error _) fun _ => .bind p.container_kept fun cont hcont => ?_
  refine .ite (fun hone => ?_) fun _ => .bind (p.keyArray_kept cont.type) fun ks hks => ?_
  · refine .bind (key_kept nullChecks (by simpa using hone) cont.type) fun k hk => .pure ?_
    rw [code_ofElement]
    exact .of_call hcont hk _ _
  · refine .ite (fun _ => .pure (.of_call hcont hks _ _)) fun _ => ?_
    refine .ite (fun _ => .pure ?_) fun _ => ?_
    · rw [code_ofElement]
      exact .of_call hcont hks _ _
    · -- of several indices the last counts
      refine .bind (convertNonNull_kept _ ⟨rfl, rfl⟩ _) fun last hlast => .pure ?_
      rw [code_ofElement]
      exact .of_call hcont (fun k hk hlive => (hks k hk hlive).trans hlast) _ _

theorem isPresent_kept (nullChecks : Bool) (p : Path) :
    Gives (p.isPresent nullChecks) fun o => p.KeptIn o.code := by
  refine .ite (fun _ => .error _) fun hone => .bind p.container_kept fun cont hcont => ?_
  have hsingle : p.isMulti = false := by
    simp only [Bool.or_eq_true, not_or] at hone
    exact (Bool.not_eq_true _).mp hone.2
  refine .bind (key_kept nullChecks hsingle cont.type) fun k hk => ?_
  refine .ite (fun _ => .pure ?_) fun _ => ?_
  · exact .of_container hcont hk (((Within.refl _).behind _).behind _ |>.behind _)
      (((Within.refl _).before _).behind _)
  · exact .pure (.of_call hcont hk _ _)

end Path

end TypedPerl
