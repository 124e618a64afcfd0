import TypedPerl.Proofs.Conversion.Expressions
import TypedPerl.Proofs.Scope.Aliases

/-!
# Loops hide no names of each other

The conversion of a container declares its names in a lambda, and the conversion of its elements
stands in the scope of these names, one loop deeper. Every name carries the depth of its loop, so
that a conversion at any depth, in the scope of names of lesser depth, keeps the rule for names
(`scoped_convertTo`): by induction on the type that is wanted, whatever the operand. The code of the
operand itself stands outside of all lambdas, where no name is in scope yet.
-/

namespace TypedPerl

namespace Conversion

variable {P : String → Prop} {source : String} {depth : Nat} {env : List LoopName}

/-! ## Loops -/

section Loops

variable {conv : Operand → Except Fault String}
variable (hconv : ∀ env, Below (depth + 1) env → ∀ o, Fits P source (depth + 1) env o →
  Gives (conv o) (Expression P source (depth + 1) env))
variable {elem : Ty} (helem : elem.Named P)

theorem scoped_flatLength (s : Shape) {col : String} (h : Expression P source depth env col) :
    Expression P source depth env (flatLength s col) := by
  cases s <;> exact .behind h rfl

theorem scoped_elementAt (s : Shape) {col i : String} (hcol : Expression P source depth env col)
    (hi : Expression P source depth env i) :
    Expression P source depth env (elementAt s col i) := by
  unfold elementAt
  split
  · exact .square hcol hi
  · exact .method ".get" rfl (.lit rfl) hcol hi

/-! ### Statements that fill a container -/

section Fill

variable {res k v : String} (hres : Expression P source depth env res)
variable (hk : Expression P source depth env k) (hv : Expression P source depth env v)

include hres hv

theorem scoped_add : Expression P source depth env (res ++ ".add(" ++ v ++ "); ") := by
  have hcall : Expression P source depth env (res ++ ".add(" ++ v ++ ")" ++ "; ") :=
    .behind (.method ".add" rfl (.lit rfl) hres hv) rfl
  have hend : ("); " : String) = ")" ++ "; " := rfl
  rw [hend]
  simpa only [String.append_assoc] using hcall

include hk

theorem scoped_put :
    Expression P source depth env (res ++ ".put(" ++ k ++ ", " ++ v ++ "); ") := by
  have hcall : Expression P source depth env (res ++ ".put(" ++ (k ++ ", " ++ v) ++ ")" ++ "; ") :=
    .behind (.method ".put" rfl (.lit rfl) hres (.between hk rfl hv)) rfl
  have hend : ("); " : String) = ")" ++ "; " := rfl
  rw [hend]
  simpa only [String.append_assoc] using hcall

theorem scoped_store :
    Expression P source depth env (res ++ "[" ++ k ++ "] = " ++ v ++ "; ") := by
  have hslot : Expression P source depth env (res ++ "[" ++ k ++ "]" ++ " = " ++ v ++ "; ") :=
    .behind (.between (.square hres hk) rfl hv) rfl
  have hend : ("] = " : String) = "]" ++ " = " := rfl
  rw [hend]
  simpa only [String.append_assoc] using hslot

end Fill

/-! ### Loops -/

/-- The names at the start of a loop: those of its containers are in scope, its own are not. -/
structure Opened (depth : Nat) (env : List LoopName) : Prop where
  /-- All names belong to this loop or to one around it. -/
  below : Below (depth + 1) env
  /-- The source container is in scope. -/
  col : ⟨.col, depth⟩ ∈ env
  /-- The result is in scope. -/
  res : ⟨.res, depth⟩ ∈ env
  /-- The index is not. -/
  idx : ⟨.idx, depth⟩ ∉ env
  /-- The entry is not. -/
  ent : ⟨.ent, depth⟩ ∉ env

include hconv helem

omit hconv in
/-- What is done with an entry is put into the same loop for every container. -/
theorem scoped_entries {body : String} (hcol : ⟨.col, depth⟩ ∈ env) (hnew : ⟨.ent, depth⟩ ∉ env)
    (hbody : Expression P source (depth + 1) (⟨.ent, depth⟩ :: env) body) :
    Expression P source depth env ("for (java.util.Map.Entry<String, " ++ Java.declType elem ++
      "> " ++ (loopNames depth).ent ++ " : " ++ (loopNames depth).col ++ ".entrySet()) \x7b " ++
      body ++ "\x7d ") := by
  have hrows : Expression P source depth env ((loopNames depth).col ++ ".entrySet()") :=
    .behind (.name (n := ⟨.col, depth⟩) hcol) rfl
  -- the same text, cut where the loop form has its parts
  have hall : Expression P source depth env ("for (" ++
      ("java.util.Map.Entry<String, " ++ Java.declType elem ++ ">") ++ " " ++
      (loopNames depth).ent ++ " : " ++ ((loopNames depth).col ++ ".entrySet()") ++ ") \x7b " ++
      body ++ "\x7d ") :=
    Statements.each (u := .entry elem) (n := ⟨.ent, depth⟩) helem rfl hnew hrows hbody
  have hstart : ("for (java.util.Map.Entry<String, " : String) =
      "for (" ++ "java.util.Map.Entry<String, " := rfl
  have htype : ("> " : String) = ">" ++ " " := rfl
  have hend : (".entrySet()) \x7b " : String) = ".entrySet()" ++ ") \x7b " := rfl
  rw [hstart, htype, hend]
  simpa only [String.append_assoc] using hall

theorem scoped_mapLoop (henv : Opened depth env) (dest : Shape) :
    Gives (mapLoop conv (loopNames depth) elem dest) fun text =>
      ∃ env', Statements P source depth env text env' := by
  have hkey {env' : List LoopName} : Fits P source (depth + 1) (⟨.ent, depth⟩ :: env')
      (.nonNull ((loopNames depth).ent ++ ".getKey()") (some .string)) :=
    ⟨.behind (.name (n := ⟨.ent, depth⟩) List.mem_cons_self) rfl,
      Ty.Named.known (t := .string) trivial⟩
  have hvalue {env' : List LoopName} : Fits P source (depth + 1) (⟨.ent, depth⟩ :: env')
      (.plain ((loopNames depth).ent ++ ".getValue()") (some elem)) :=
    ⟨.behind (.name (n := ⟨.ent, depth⟩) List.mem_cons_self) rfl, helem.known⟩
  have hres {env' : List LoopName} (h : ⟨.res, depth⟩ ∈ env') :
      Expression P source (depth + 1) (⟨.ent, depth⟩ :: env') (loopNames depth).res :=
    .name (n := ⟨.res, depth⟩) (List.mem_cons_of_mem _ h)
  unfold mapLoop
  cases dest with
  | map =>
    refine .bind (hconv _ (henv.below.enter .ent) _ hvalue) fun v hv => ?_
    refine .bind (.pure (scoped_put (hres henv.res) hkey.code hv)) fun body hbody =>
      .pure ⟨env, ?_⟩
    simpa using scoped_entries helem henv.col henv.ent hbody
  | array =>
    -- the index is declared before the loop and counts the values that are stored
    have hcounter : Statements P source depth env ("int " ++ (loopNames depth).idx ++ " = 0; ")
        (⟨.idx, depth⟩ :: env) := by
      have hvar : Statements P source depth env ("int" ++ " " ++ (loopNames depth).idx ++ " = " ++
          "0" ++ "; ") (⟨.idx, depth⟩ :: env) :=
        Statements.var (u := .word "int") (n := ⟨.idx, depth⟩) (by simp [TypeCode.Named]) rfl
          henv.idx (.lit rfl)
      have hstart : ("int " : String) = "int" ++ " " := rfl
      have hend : (" = 0; " : String) = " = " ++ "0" ++ "; " := rfl
      rw [hstart, hend]
      simpa only [String.append_assoc] using hvar
    have hbelow : Below (depth + 1) (⟨.ent, depth⟩ :: ⟨.idx, depth⟩ :: env) :=
      (henv.below.enter .idx).enter .ent
    have hnew : ⟨.ent, depth⟩ ∉ (⟨.idx, depth⟩ :: env : List LoopName) := by
      simpa using henv.ent
    have hslot {x : String}
        (hx : Expression P source (depth + 1) (⟨.ent, depth⟩ :: ⟨.idx, depth⟩ :: env) x) :
        Expression P source (depth + 1) (⟨.ent, depth⟩ :: ⟨.idx, depth⟩ :: env)
          ((loopNames depth).res ++ "[" ++ (loopNames depth).idx ++ "++] = " ++ x ++ "; ") := by
      have hidx : Expression P source (depth + 1) (⟨.ent, depth⟩ :: ⟨.idx, depth⟩ :: env)
          ((loopNames depth).idx ++ "++") :=
        .behind (.name (n := ⟨.idx, depth⟩) (by simp)) rfl
      have hend : ("++] = " : String) = "++" ++ "] = " := rfl
      rw [hend]
      simpa only [String.append_assoc] using
        scoped_store (hres (List.mem_cons_of_mem _ henv.res)) hidx hx
    refine .bind (hconv _ hbelow _ hvalue) fun v hv => ?_
    refine .bind (hconv _ hbelow _ hkey) fun k hk => ?_
    have hstores : Expression P source (depth + 1) (⟨.ent, depth⟩ :: ⟨.idx, depth⟩ :: env)
        ((loopNames depth).res ++ "[" ++ (loopNames depth).idx ++ "++] = " ++ k ++ "; " ++
          (loopNames depth).res ++ "[" ++ (loopNames depth).idx ++ "++] = " ++ v ++ "; ") := by
      simpa only [String.append_assoc] using (hslot hk).append (hslot hv)
    refine .bind (.pure hstores) fun body hbody => .pure ⟨⟨.idx, depth⟩ :: env, ?_⟩
    have hall := hcounter.append
      (scoped_entries helem (List.mem_cons_of_mem _ henv.col) hnew hbody)
    rw [if_pos rfl]
    simpa only [String.append_assoc] using hall
  | list =>
    refine .bind (hconv _ (henv.below.enter .ent) _ hvalue) fun v hv => ?_
    refine .bind (hconv _ (henv.below.enter .ent) _ hkey) fun k hk => ?_
    have hadds : Expression P source (depth + 1) (⟨.ent, depth⟩ :: env)
        ((loopNames depth).res ++ ".add(" ++ k ++ "); " ++ (loopNames depth).res ++ ".add(" ++ v ++
          "); ") := by
      simpa only [String.append_assoc] using
        (scoped_add (hres henv.res) hk).append (scoped_add (hres henv.res) hv)
    refine .bind (.pure hadds) fun body hbody => .pure ⟨env, ?_⟩
    simpa using scoped_entries helem henv.col henv.ent hbody

theorem scoped_sequenceLoop (henv : Opened depth env) (src dest : Shape) :
    Gives (sequenceLoop conv (loopNames depth) src elem dest) (Expression P source depth env) := by
  -- the names in the body of the loop
  have hbelow : Below (depth + 1) (⟨.idx, depth⟩ :: env) := henv.below.enter .idx
  have hidx : Expression P source (depth + 1) (⟨.idx, depth⟩ :: env) (loopNames depth).idx :=
    .name List.mem_cons_self
  have hcol {depth' : Nat} :
      Expression P source depth' (⟨.idx, depth⟩ :: env) (loopNames depth).col :=
    .name (List.mem_cons_of_mem _ henv.col)
  have hres : Expression P source (depth + 1) (⟨.idx, depth⟩ :: env) (loopNames depth).res :=
    .name (List.mem_cons_of_mem _ henv.res)
  have hread {i : String} (hi : Expression P source (depth + 1) (⟨.idx, depth⟩ :: env) i) :
      Fits P source (depth + 1) (⟨.idx, depth⟩ :: env)
        (.plain (elementAt src (loopNames depth).col i) (some elem)) :=
    ⟨scoped_elementAt src hcol hi, helem.known⟩
  have hloop {step body : String} (hstep : Plain step)
      (hbody : Expression P source (depth + 1) (⟨.idx, depth⟩ :: env) body) :
      Expression P source depth env ("for (int " ++ (loopNames depth).idx ++ " = 0; " ++
        (loopNames depth).idx ++ " < " ++ flatLength src (loopNames depth).col ++ "; " ++
        (loopNames depth).idx ++ step ++ ") \x7b " ++ body ++ "\x7d ") :=
    Statements.counted (n := ⟨.idx, depth⟩) rfl henv.idx (scoped_flatLength src hcol) hstep hbody
  have hpairs : Plain " += 2" := .lit rfl
  have hones : Plain "++" := .lit rfl
  have hstore : ("; \x7d " : String) = "; " ++ "\x7d " := rfl
  have hcall : ("); \x7d " : String) = "); " ++ "\x7d " := rfl
  unfold sequenceLoop
  cases dest with
  | map =>
    refine .bind (hconv _ hbelow _ (hread (.behind hidx rfl))) fun v hv => .pure ?_
    have hkey := scoped_toText (hread hidx)
    -- the length is looked at before the loop
    have hcheck : Expression P source depth env _ :=
      Statements.check (scoped_flatLength src (.name (n := ⟨.col, depth⟩) henv.col))
    have hall := hcheck.append (hloop hpairs (scoped_put hres hkey hv))
    rw [hcall]
    simpa only [String.append_assoc, LoopName.text_col] using hall
  | array =>
    refine .bind (hconv _ hbelow _ (hread hidx)) fun v hv => .pure ?_
    have hall := hloop hones (scoped_store hres hidx hv)
    rw [hstore]
    simpa only [String.append_assoc] using hall
  | list =>
    refine .bind (hconv _ hbelow _ (hread hidx)) fun v hv => .pure ?_
    have hall := hloop hones (scoped_add hres hv)
    rw [hcall]
    simpa only [String.append_assoc] using hall

end Loops

section Aggregates

variable {conv : Operand → Except Fault String}
variable (hconv : ∀ env, Below (depth + 1) env → ∀ o, Fits P source (depth + 1) env o →
  Gives (conv o) (Expression P source (depth + 1) env))
variable {code : String} (hcode : Expression P source depth env code) (henv : Below depth env)
variable {selem delem : Ty} (hselem : selem.Named P) (hdelem : delem.Named P)

/-- The names of the containers are new at the depth of the loop. -/
theorem opened_of_below (henv : Below depth env) :
    Opened depth (⟨.res, depth⟩ :: ⟨.col, depth⟩ :: ⟨.arg, depth⟩ :: env) where
  below := ((henv.succ.enter .arg).enter .col).enter .res
  col := by simp
  res := by simp
  idx := by simp [henv.not_mem]
  ent := by simp [henv.not_mem]

include hselem hdelem henv

/-- The declarations of the two containers. -/
theorem scoped_containers (s d : Shape) :
    Statements P source depth (⟨.arg, depth⟩ :: env)
      (Java.declType (.agg s selem) ++ " " ++ (loopNames depth).col ++ " = (" ++
        Java.declType (.agg s selem) ++ ") " ++ (loopNames depth).arg ++ "; " ++
        Java.declType (.agg d delem) ++ " " ++ (loopNames depth).res ++ " = " ++
        Java.newAggregate (.agg d delem) (if d = .map then
          Java.paren (flatLength s (loopNames depth).col) ++ " / 2"
        else flatLength s (loopNames depth).col) ++ "; ")
      (⟨.res, depth⟩ :: ⟨.col, depth⟩ :: ⟨.arg, depth⟩ :: env) := by
  have hsrc : (Ty.agg s selem).Named P := hselem
  have hdest : (Ty.agg d delem).Named P := hdelem
  -- the source is bound first, since the length of the result is taken from it
  have hcol : Statements P source depth (⟨.arg, depth⟩ :: env)
      (Java.declType (.agg s selem) ++ " " ++ (loopNames depth).col ++ " = " ++
        ("(" ++ Java.declType (.agg s selem) ++ ") " ++ (loopNames depth).arg) ++ "; ")
      (⟨.col, depth⟩ :: ⟨.arg, depth⟩ :: env) := by
    have hnew : ⟨.col, depth⟩ ∉ (⟨.arg, depth⟩ :: env : List LoopName) := by
      simp [henv.not_mem]
    have harg : Expression P source depth (⟨.arg, depth⟩ :: env) (loopNames depth).arg :=
      .name (n := ⟨.arg, depth⟩) List.mem_cons_self
    exact Statements.var (u := .declared (some (.agg s selem))) (n := ⟨.col, depth⟩) hsrc.known rfl
      hnew (.cast (u := .declared (some (.agg s selem))) hsrc.known harg)
  have hlength : Expression P source depth (⟨.col, depth⟩ :: ⟨.arg, depth⟩ :: env)
      (flatLength s (loopNames depth).col) :=
    scoped_flatLength s (.name (n := ⟨.col, depth⟩) List.mem_cons_self)
  -- a map has an entry for two items of its source
  have hcapacity : Expression P source depth (⟨.col, depth⟩ :: ⟨.arg, depth⟩ :: env)
      (if d = .map then Java.paren (flatLength s (loopNames depth).col) ++ " / 2"
        else flatLength s (loopNames depth).col) := by
    split
    · exact .behind (.paren hlength) rfl
    · exact hlength
  have hres := Statements.var (u := .declared (some (.agg d delem))) (n := ⟨.res, depth⟩)
    hdest.known rfl (by simp [henv.not_mem]) (scoped_newAggregate hdest hcapacity)
  have hstart : (" = (" : String) = " = " ++ "(" := rfl
  rw [hstart]
  simpa only [String.append_assoc, TypeCode.text_declared, LoopName.text_res] using
    hcol.append hres

include hconv hcode

/-- The names of a loop are declared in its lambda, and the operand stands outside of it. -/
theorem scoped_elementwise (s d : Shape) :
    Gives (elementwise conv code depth s selem d delem) (Expression P source depth env) := by
  have hdest : (Ty.agg d delem).Named P := hdelem
  have hopened := opened_of_below henv
  have hmap : Gives (mapLoop conv (loopNames depth) selem d) fun text => ∃ env',
      Statements P source depth
        (⟨.res, depth⟩ :: ⟨.col, depth⟩ :: ⟨.arg, depth⟩ :: env) text env' :=
    scoped_mapLoop hconv hselem hopened d
  have hsequence : Gives (sequenceLoop conv (loopNames depth) s selem d) fun text => ∃ env',
      Statements P source depth
        (⟨.res, depth⟩ :: ⟨.col, depth⟩ :: ⟨.arg, depth⟩ :: env) text env' :=
    (scoped_sequenceLoop hconv hselem hopened s d).mono fun text htext => ⟨_, htext⟩
  unfold elementwise
  refine .branch hmap hsequence fun loop hloop => .pure ?_
  obtain ⟨env', hloop⟩ := hloop
  -- whatever the loop declared, the result is still visible behind it
  have hgive : Expression P source depth env' ("return " ++ (loopNames depth).res ++ "; ") :=
    Statements.give (n := ⟨.res, depth⟩) (hloop.subset hopened.res)
  have hlambda := Expression.lambda (n := ⟨.arg, depth⟩) rfl (henv.not_mem .arg)
    (((scoped_containers henv hselem hdelem s d).append hloop).append hgive)
  have hend : ("; \x7d" : String) = "; " ++ "\x7d" := rfl
  refine scoped_castTo hdest.known (.call (.lit rfl) (.lit rfl)
    (List.forall_mem_cons.mpr ⟨hcode, List.forall_mem_singleton.mpr ?_⟩))
  rw [hend]
  simpa only [String.append_assoc, LoopName.text_arg] using hlambda

/-- A container as it is, taken over, seen as one of other numbers, or element by element. -/
theorem scoped_aggregateTo (s d : Shape) :
    Gives (aggregateTo conv code depth s selem d delem) (Expression P source depth env) := by
  have hdest : (Ty.agg d delem).Named P := hdelem
  unfold aggregateTo
  dsimp only
  split
  · exact .ok hcode
  · split
    · split
      · exact .ok (.method ".toArray" rfl (.lit rfl) hcode (scoped_newArray hdelem (.lit rfl)))
      · exact .ok (scoped_new hdest.known hcode)
    · split
      · refine .ok ?_
        have hclass {cls : String} (hcls : (TypeCode.word cls).Named P) :
            Expression P source depth env ("(" ++ cls ++ ") " ++ code) :=
          .cast (u := .word cls) hcls hcode
        -- a container of numbers of one kind is only seen as one of numbers, by a cast
        cases d with
        | array => exact scoped_castTo hdest.known hcode
        | list =>
          exact scoped_castTo hdest.known (hclass (by simp [TypeCode.Named, Java.listClass]))
        | map =>
          exact scoped_castTo hdest.known (hclass (by simp [TypeCode.Named, Java.mapClass]))
      · exact scoped_elementwise hconv hcode henv hselem hdelem s d

end Aggregates

/-! ## All types -/

/-- The container that an operand holds or refers to. -/
theorem Fits.held {o : Operand} (ho : Fits P source depth env o) :
    Fits P source depth env (match o.type with
      | some t => Conversion.followRefs t o
      | none => o) := by
  split
  · exact ho.followRefs _
  · exact ho

/-- A value as a container: from a dynamic value or a container. -/
theorem scoped_containerTo {conv : Operand → Except Fault String}
    (hconv : ∀ env, Below (depth + 1) env → ∀ o, Fits P source (depth + 1) env o →
      Gives (conv o) (Expression P source (depth + 1) env))
    {src : Operand} (hsrc : Fits P source depth env src) (henv : Below depth env) (s : Shape)
    {d : Ty} (hd : d.Named P) : Gives (match src.type with
      | some (.scalar .box) =>
        .ok (Java.castTo (some (.ref (.agg s d))) (helper "toRef" src.code) ++ ".get()")
      | some (.agg s' e) => aggregateTo conv src.code depth s' e s d
      | t => .error (.incompatible t (some (.agg s d)))) (Expression P source depth env) := by
  have href : (Ty.ref (.agg s d)).Named P := hd
  -- a box holds a reference to the container, and a container is converted itself
  split
  · exact .ok (.behind (scoped_castTo href.known (scoped_helper (.lit rfl) hsrc.code)) rfl)
  · next s' e htype =>
    have helem : e.Named P := hsrc.type (.agg s' e) htype
    exact scoped_aggregateTo hconv hsrc.code henv helem hd s' s
  · exact .error _

/-- Every conversion keeps the rule for names, by induction on the type that is wanted. Only the
elements of containers are converted below more loops. -/
theorem scoped_convertTo {dest : Ty} (hdest : dest.Named P) : ∀ (o : Operand) (depth : Nat) env,
    Below depth env → Fits P source depth env o →
      Gives (convertTo dest o depth) (Expression P source depth env) := by
  induction dest with
  | scalar k =>
    intro o depth env henv ho
    exact scoped_toScalar ho k
  | object n =>
    intro o depth env henv ho
    exact .ite (fun _ => .ok ho.code) fun _ => .error _
  | ref d ih =>
    intro o depth env henv ho
    -- what is referred to is converted at the same depth, an element one level below
    have hinner := ih hdest o.referent depth env henv ho.referent
    unfold convertTo
    split
    · split
      · exact .ok (scoped_cellCode ho)
      · split
        · exact .ok (scoped_newRef hdest (hinner _ ‹_›))
        · exact .error _
    · refine .ok (scoped_castTo hdest.known ?_)
      split
      · exact .behind ho.code rfl
      · exact scoped_helper (.lit rfl) ho.code
    · exact .error _
  | agg s d ih =>
    intro o depth env henv ho
    have hd : d.Named P := hdest
    have hresult := scoped_containerTo
      (fun env' henv' x hx => ih hd x (depth + 1) env' henv' hx) ho.held henv s hd
    unfold convertTo
    dsimp only
    split
    · exact .ok (hresult _ ‹_›)
    · exact .error _

/-- The one value that counts of a row of values is read by a helper. -/
theorem Fits.reduce {o : Operand} (ho : Fits P source depth env o) :
    Fits P source depth env o.reduce := by
  have helem : ∀ t ∈ o.elemType, t.Named P := by
    intro t ht
    obtain ⟨t', ht', rfl⟩ := Option.map_eq_some_iff.mp ht
    exact (ho.type t' ht').elem
  -- of a row, the first or the last value is taken
  have hcode : Expression P source depth env
      (Java.call "Pd" (if o.firstOfMany then "first" else "last") [o.code]) := by
    refine .call (.lit rfl) ?_ (List.forall_mem_singleton.mpr ho.code)
    split
    · exact .lit rfl
    · exact .lit rfl
  unfold Operand.reduce Operand.ofElement
  split
  · refine ⟨hcode, fun t ht => ?_⟩
    obtain ⟨t', ht', rfl⟩ := Option.map_eq_some_iff.mp ht
    exact (helem t' ht').refTo
  · exact ⟨hcode, helem⟩

/-- A conversion of an operand is written from code that keeps the rule for names. -/
theorem scoped_convert {o : Operand} {dest : Option Ty} (ho : ∀ t ∈ o.type, t.Named P)
    (hdest : ∀ t ∈ dest, t.Named P) : Gives (convert o dest) (Expression P o.code 0 []) := by
  have hoperand : Fits P o.code 0 [] o := ⟨⟨.operand, rfl, .operand⟩, ho⟩
  -- what is converted is the operand, or the one value that counts of it
  have hone : Fits P o.code 0 []
      (if o.multi && !dest.any Ty.isAggregate then o.reduce else o) := by
    split
    · exact hoperand.reduce
    · exact hoperand
  unfold convert
  dsimp only
  generalize (if (o.multi && !dest.any Ty.isAggregate) = true then o.reduce else o) = one at hone ⊢
  refine .ite (fun _ => .ok ?_) fun _ => ?_
  · split
    · exact .lit rfl
    · exact .lit rfl
  · cases dest with
    | none => exact .error _
    | some t => exact scoped_convertTo (hdest t rfl) one 0 [] (by simp [Below]) hone

/-! ## Names of loops and aliases -/

/-- A name of a loop goes on with a letter where a numbered name has its number, and no other name
that begins in this way is handed out. -/
theorem LoopName.ne_of_handedOut (n : LoopName) {a : String} (h : Table.HandedOut a) :
    a ≠ n.text := by
  rintro rfl
  obtain ⟨p, id, conflict, hn⟩ := h
  have htext : n.text.toList = ['p', 'd', '_'] ++ (n.role.word ++ Nat.toDigits 10 n.depth) := by
    rw [n.toList_text, List.append_assoc]
  rcases p.aliasFor_cases id conflict with ⟨halias, -, hfree⟩ | ⟨halias, -⟩
  · rw [halias] at hn
    have hreserved : Name.isReserved n.text = true :=
      Name.isReserved_of_start (htext ▸ List.prefix_append _ _)
    rw [hn, hfree] at hreserved
    cases hreserved
  · rw [halias] at hn
    rw [hn, Name.toList_numbered] at htext
    have hrest := List.append_cancel_left htext
    -- the first character behind the start is a digit here and a letter there
    cases hdigits : Nat.toDigits 10 (p.count id + 1) with
    | nil => exact absurd hdigits (by simp)
    | cons d ds =>
      have hd : d.isDigit = true := by
        apply Nat.isDigit_of_mem_toDigits (b := 10) (n := p.count id + 1)
        · decide
        · decide
        · simp [hdigits]
      have hhead := congrArg List.head? hrest
      rw [hdigits] at hhead
      have hletter : some d = n.role.word.head? := by
        cases hrole : n.role <;> simpa [hrole, LoopRole.word] using hhead
      revert hletter
      cases n.role <;> rintro ⟨⟩ <;> cases hd

/-! ## Loops apart -/

/-- The text of a conversion is code that uses names only where they are in scope and declares them
only where they are not. Within the body of a loop all declared names have a greater number than the
loop, and a name that is used there is declared there, or by the loop or around it. Different names
are written differently, and no table gives one of them to anything else. -/
theorem convert_loops_apart {P : String → Prop} {o : Operand} (ho : ∀ t ∈ o.type, t.Named P)
    {dest : Option Ty} (hdest : ∀ t ∈ dest, t.Named P) {text : String}
    (htext : convert o dest = .ok text) :
    (∃ c : LoopCode, c.render o.code = text ∧ Scoped P 0 [] c [] ∧
      (∀ l ∈ c.loops, ∀ n ∈ l.2.declared, l.1 < n.depth) ∧
      ∀ l ∈ c.loops, ∀ n ∈ l.2.used, n ∈ l.2.declared ∨ n.depth ≤ l.1 ∧ n ∈ c.declared) ∧
    Function.Injective LoopName.text ∧
    ∀ {τ : Type} (t : Table τ) (qs : List (Request τ)), ∀ i ∈ (t.run qs).1,
      ∀ n : LoopName, i.javaName ≠ n.text := by
  obtain ⟨c, hrender, hc⟩ := scoped_convert ho hdest text htext
  have hknown := (hc.knownIn_loops fun n hn => absurd hn List.not_mem_nil).2
  refine ⟨⟨c, hrender, hc, hc.lt_depth_of_loop, hknown.mono fun n hn => ?_⟩,
    LoopName.text_injective, fun t qs i hi n => n.ne_of_handedOut (t.run_handedOut qs i hi)⟩
  exact hn.resolve_left List.not_mem_nil

/-- A map of arrays. -/
def mapOfArrays : Operand :=
  .nonNull "m" (some (.agg .map (.agg .array .integer)))

/-- The map as a map of lists of decimals. -/
def mapOfListsText : String :=
  "((PerlMap<PerlList<Double>>) Casting.cast(m, (Object pd_arg0) -> \x7b " ++
    "PerlMap<Integer[]> pd_col0 = (PerlMap<Integer[]>) pd_arg0; " ++
    "PerlMap<PerlList<Double>> pd_res0 = new PerlMap<>((pd_col0.size() * 2) / 2); " ++
    "for (java.util.Map.Entry<String, Integer[]> pd_e0 : pd_col0.entrySet()) \x7b " ++
    "pd_res0.put(pd_e0.getKey(), ((PerlList<Double>) Casting.cast(pd_e0.getValue(), " ++
    "(Object pd_arg1) -> \x7b Integer[] pd_col1 = (Integer[]) pd_arg1; " ++
    "PerlList<Double> pd_res1 = new PerlList<>(pd_col1.length); " ++
    "for (int pd_i1 = 0; pd_i1 < pd_col1.length; pd_i1++) \x7b " ++
    "pd_res1.add(Casting.toDouble(pd_col1[pd_i1])); \x7d " ++
    "return pd_res1; \x7d))); \x7d return pd_res0; \x7d))"

/-- In its text the loop over the map holds one over each array, with names of its own. -/
theorem mapOfArrays_loops_apart :
    convert mapOfArrays (some (.agg .map (.agg .list .double))) = .ok mapOfListsText ∧
      ∃ c : LoopCode, c.render "m" = mapOfListsText ∧ Scoped (fun _ => True) 0 [] c [] ∧
        ∀ l ∈ c.loops, ∀ n ∈ l.2.declared, l.1 < n.depth := by
  have htext : convert mapOfArrays (some (.agg .map (.agg .list .double))) =
      .ok mapOfListsText := by
    have hchars : (convert mapOfArrays (some (.agg .map (.agg .list .double)))).toOption =
        some mapOfListsText := by
      decide +kernel
    cases hconvert : convert mapOfArrays (some (.agg .map (.agg .list .double))) with
    | error f =>
      rw [hconvert] at hchars
      cases hchars
    | ok text =>
      rw [hconvert] at hchars
      exact congrArg Except.ok (Option.some.inj hchars)
  have hsource : Ty.Named (fun _ => True) (.agg .map (.agg .array .integer)) := trivial
  have hdest : Ty.Named (fun _ => True) (.agg .map (.agg .list .double)) := trivial
  obtain ⟨⟨c, hrender, hc, hapart, -⟩, -⟩ := convert_loops_apart hsource.known hdest.known htext
  exact ⟨htext, c, hrender, hc, hapart⟩

end Conversion

end TypedPerl
