import Mathlib.Data.List.Induction
import TypedPerl.Proofs.Scope.Aliases
import TypedPerl.Tree.Basic

/-!
# Visible declarations

A log tells in order what happened to the scopes of a unit: scopes that were opened and closed,
variables that were declared and names that were used. `Visible` says without any scopes which
declaration a name means at the end of a log: the latest one of the name and mark among those whose
scope is still open. `replay` does what a log tells to the variables of the open scopes. What is
looked up in scopes that a log leads to is what is visible (`lookupIn_eq_some_iff`).
-/

namespace TypedPerl

/-- What happens to the scopes of a unit, or is asked of them. -/
inductive Event where
  /-- A scope is opened. -/
  | opened
  /-- The innermost scope is closed. -/
  | closed
  /-- A variable is declared in the innermost scope, where it is named or as the arguments of a
  subroutine. -/
  | declared (node : Option Variable) (b : Binding)
  /-- The name of a variable is used, with the answer to what it means. -/
  | used (v : Variable) (answer : Except Fault Binding)

namespace Event

/-- The event opens a scope. -/
def opens : Event → Bool
  | opened => true
  | _ => false

/-- The event closes a scope. -/
def closes : Event → Bool
  | closed => true
  | _ => false

/-- The variable that a node means from here on. -/
def bound? : Event → Option (Nat × Binding)
  | declared (some v) b => some (v.info.id, b)
  | used v (.ok b) => some (v.info.id, b)
  | _ => none

end Event

/-- The scope that was innermost before the events is open after them: at no point more scopes were
closed than opened. -/
def StillOpen (events : List Event) : Prop :=
  ∀ start, start <+: events → start.countP Event.closes ≤ start.countP Event.opens

/-- At the end of the log the name and mark mean this variable: it is declared in a scope that is
still open, and no later declaration of the name and mark is in one. -/
def Visible (log : List Event) (name : String) (sigil : Sigil) (b : Binding) : Prop :=
  ∃ before node after, log = before ++ .declared node b :: after ∧ b.name = name ∧
    b.sigil = sigil ∧ StillOpen after ∧
    ∀ between node' b' rest, after = between ++ .declared node' b' :: rest → b'.name = name →
      b'.sigil = sigil → ¬StillOpen rest

/-! ## Scopes that are closed -/

/-- How many scopes around the innermost one are closed by the events, if `n` scopes are closed
behind them. -/
def unmatched (n : Nat) : List Event → Nat
  | [] => n
  | .opened :: rest => unmatched n rest - 1
  | .closed :: rest => unmatched n rest + 1
  | .declared _ _ :: rest | .used _ _ :: rest => unmatched n rest

theorem unmatched_le_iff (events : List Event) (d : Nat) :
    unmatched 0 events ≤ d ↔
      ∀ start, start <+: events → start.countP Event.closes ≤ start.countP Event.opens + d := by
  induction events generalizing d with
  | nil => simp [unmatched]
  | cons ev rest ih =>
    -- the start of the events is empty, or the first event and a start of the rest
    have hstarts (P : List Event → Prop) (h : P []) :
        (∀ start, start <+: ev :: rest → P start) ↔ ∀ start, start <+: rest → P (ev :: start) := by
      constructor
      · intro hall start hstart
        exact hall _ (List.prefix_cons_inj ev |>.mpr hstart)
      · intro hall start hstart
        rcases List.prefix_cons_iff.mp hstart with rfl | ⟨t, rfl, ht⟩
        · exact h
        · exact hall t ht
    rw [hstarts _ (by simp)]
    cases ev with
    | opened =>
      have hrest := ih (d + 1)
      simp only [unmatched, Event.closes, Event.opens, List.countP_cons, Bool.false_eq_true,
        if_false, if_true, Nat.add_zero]
      rw [Nat.sub_le_iff_le_add, hrest]
      grind
    | closed =>
      simp only [unmatched, Event.closes, Event.opens, List.countP_cons, Bool.false_eq_true,
        if_false, if_true, Nat.add_zero]
      cases d with
      | zero =>
        refine iff_of_false (by omega) fun h => ?_
        exact absurd (h [] List.nil_prefix) (by simp)
      | succ d =>
        rw [Nat.add_le_add_iff_right, ih d]
        grind
    | declared node b => simpa [unmatched, Event.closes, Event.opens] using ih d
    | used v answer => simpa [unmatched, Event.closes, Event.opens] using ih d

theorem stillOpen_iff (events : List Event) : StillOpen events ↔ unmatched 0 events = 0 := by
  rw [← Nat.le_zero, unmatched_le_iff]
  rfl

/-- How many scopes are closed behind what comes before the event. -/
def Event.behind (n : Nat) : Event → Nat
  | .opened => n - 1
  | .closed => n + 1
  | .declared _ _ | .used _ _ => n

theorem unmatched_concat (n : Nat) (events : List Event) (ev : Event) :
    unmatched n (events ++ [ev]) = unmatched (ev.behind n) events := by
  induction events with
  | nil => cases ev <;> rfl
  | cons e rest ih => cases e <;> simp [unmatched, ih]

/-! ## The latest declaration -/

/-- The latest declaration of the name and mark in a scope that is open when `n` scopes are closed
behind the events. The events are given in reverse. -/
def latest (name : String) (sigil : Sigil) : Nat → List Event → Option Binding
  | _, [] => none
  | n, .declared _ b :: earlier =>
    if n = 0 ∧ b.name = name ∧ b.sigil = sigil then some b else latest name sigil n earlier
  | n, ev :: earlier => latest name sigil (ev.behind n) earlier

section

variable {name : String} {sigil : Sigil} {b : Binding}

theorem concat_eq_split {α : Type} {xs ys zs : List α} {x y : α}
    (h : xs ++ [x] = ys ++ y :: zs) :
    (zs = [] ∧ x = y ∧ xs = ys) ∨ ∃ zs', zs = zs' ++ [x] ∧ xs = ys ++ y :: zs' := by
  rcases zs.eq_nil_or_concat with rfl | ⟨zs', z, rfl⟩
  · obtain ⟨hxs, hx⟩ := List.append_inj' h rfl
    exact .inl ⟨rfl, List.singleton_inj.mp hx, hxs⟩
  · rw [List.concat_eq_append, ← List.cons_append, ← List.append_assoc] at h
    obtain ⟨hxs, hx⟩ := List.append_inj' h rfl
    rw [← List.singleton_inj.mp hx]
    exact .inr ⟨zs', List.concat_eq_append, hxs⟩

/-- What is found stands in the log, and nothing behind it counts. -/
theorem latest_some (log : List Event) : ∀ {n : Nat}, latest name sigil n log.reverse = some b →
    ∃ before node after, log = before ++ .declared node b :: after ∧ b.name = name ∧
      b.sigil = sigil ∧ unmatched n after = 0 ∧
      ∀ between node' b' rest, after = between ++ .declared node' b' :: rest → b'.name = name →
        b'.sigil = sigil → unmatched n rest ≠ 0 := by
  -- the log is gone through from its end
  induction log using List.reverseRecOn with
  | nil =>
    intro n h
    cases h
  | append_singleton log ev ih =>
    intro n h
    rw [List.reverse_append, List.reverse_singleton, List.singleton_append] at h
    have hearlier (hlatest : latest name sigil (ev.behind n) log.reverse = some b)
        (hev : ∀ node' b', ev = .declared node' b' → b'.name = name → b'.sigil = sigil →
          n ≠ 0) :
        ∃ before node after, log ++ [ev] = before ++ .declared node b :: after ∧ b.name = name ∧
          b.sigil = sigil ∧ unmatched n after = 0 ∧
          ∀ between node' b' rest, after = between ++ .declared node' b' :: rest →
            b'.name = name → b'.sigil = sigil → unmatched n rest ≠ 0 := by
      obtain ⟨before, node, after, rfl, hname, hsigil, hopen, hlater⟩ := ih hlatest
      refine ⟨before, node, after ++ [ev], by simp, hname, hsigil, ?_, ?_⟩
      · rw [unmatched_concat, hopen]
      · intro between node' b' rest hsplit hname' hsigil'
        rcases concat_eq_split hsplit with ⟨rfl, rfl, -⟩ | ⟨rest', rfl, hafter⟩
        · exact hev node' b' rfl hname' hsigil'
        · rw [unmatched_concat]
          exact hlater between node' b' rest' hafter hname' hsigil'
    cases ev with
    | declared node c =>
      rw [latest] at h
      split at h
      · next hfound =>
        obtain ⟨rfl, hname, hsigil⟩ := hfound
        cases h
        refine ⟨log, node, [], rfl, hname, hsigil, rfl, ?_⟩
        intro between node' b' rest hsplit
        simp at hsplit
      · next hother =>
        refine hearlier h fun node' b' heq hname hsigil hn => ?_
        cases heq
        exact hother ⟨hn, hname, hsigil⟩
    | opened => exact hearlier h fun _ _ heq => nomatch heq
    | closed => exact hearlier h fun _ _ heq => nomatch heq
    | used v answer => exact hearlier h fun _ _ heq => nomatch heq

/-- Where nothing is found, no declaration of the name and mark counts. -/
theorem latest_none (log : List Event) : ∀ {n : Nat}, latest name sigil n log.reverse = none →
    ∀ before node c after, log = before ++ .declared node c :: after → c.name = name →
      c.sigil = sigil → unmatched n after ≠ 0 := by
  -- the log is searched from its end
  induction log using List.reverseRecOn with
  | nil =>
    intro n _ before node c after hsplit
    simp at hsplit
  | append_singleton log ev ih =>
    intro n h before node c after hsplit hname hsigil
    rw [List.reverse_append, List.reverse_singleton, List.singleton_append] at h
    rcases concat_eq_split hsplit with ⟨rfl, rfl, -⟩ | ⟨after', rfl, hlog⟩
    · rw [latest] at h
      split at h
      · cases h
      · next hother => exact fun hn => hother ⟨hn, hname, hsigil⟩
    · rw [unmatched_concat]
      refine ih ?_ before node c after' hlog hname hsigil
      cases ev with
      | declared node' c' =>
        rw [latest] at h
        split at h
        · cases h
        · exact h
      | opened => exact h
      | closed => exact h
      | used v answer => exact h

end

/-! ## Scopes that a log leads to -/

/-- What an event does to the variables of the open scopes, innermost first. -/
def Event.step : Event → List (Keyed VarKey Binding) → List (Keyed VarKey Binding)
  | .opened, scopes => [] :: scopes
  | .closed, scopes => scopes.drop 1
  | .declared _ b, s :: rest => s.put (b.name, b.sigil) b :: rest
  | .declared _ _, [] => []
  | .used _ _, scopes => scopes

/-- The variables of the open scopes behind a log. -/
def replay (log : List Event) (scopes : List (Keyed VarKey Binding)) :
    List (Keyed VarKey Binding) :=
  log.foldl (fun scopes ev => ev.step scopes) scopes

@[simp] theorem replay_nil (scopes : List (Keyed VarKey Binding)) : replay [] scopes = scopes := rfl

@[simp] theorem replay_cons (ev : Event) (log : List Event)
    (scopes : List (Keyed VarKey Binding)) :
    replay (ev :: log) scopes = replay log (ev.step scopes) := rfl

theorem replay_append (log more : List Event) (scopes : List (Keyed VarKey Binding)) :
    replay (log ++ more) scopes = replay more (replay log scopes) :=
  List.foldl_append

/-- The innermost variable of a name and mark. -/
def lookupIn (scopes : List (Keyed VarKey Binding)) (name : String) (sigil : Sigil) :
    Option Binding :=
  scopes.findSome? fun s => s.get? (name, sigil)

/-- With each number of scopes closed, the scopes give the latest declarations of the log. -/
def Follows (log : List Event) (scopes : List (Keyed VarKey Binding)) : Prop :=
  ∀ k, k ≤ scopes.length → ∀ name sigil,
    lookupIn (scopes.drop k) name sigil = latest name sigil k log.reverse

namespace Follows

variable {log : List Event} {s : Keyed VarKey Binding} {scopes : List (Keyed VarKey Binding)}

theorem opened (h : Follows log scopes) : Follows (log ++ [.opened]) ([] :: scopes) := by
  intro k hk name sigil
  rw [List.reverse_append]
  cases k with
  | zero => exact h 0 (Nat.zero_le _) name sigil
  | succ k => exact h k (Nat.le_of_succ_le_succ hk) name sigil

theorem closed (h : Follows log (s :: scopes)) : Follows (log ++ [.closed]) scopes := by
  intro k hk name sigil
  rw [List.reverse_append]
  exact h (k + 1) (Nat.succ_le_succ hk) name sigil

theorem declared (h : Follows log (s :: scopes)) (node : Option Variable) (b : Binding) :
    Follows (log ++ [.declared node b]) (s.put (b.name, b.sigil) b :: scopes) := by
  intro k hk name sigil
  have hold := h k hk name sigil
  rw [List.reverse_append, List.reverse_singleton, List.singleton_append, latest, ← hold]
  cases k with
  | zero =>
    -- the new variable answers for its own name and mark
    simp only [lookupIn, List.drop_zero, List.findSome?_cons, true_and]
    by_cases hkey : (b.name, b.sigil) = (name, sigil)
    · cases hkey
      simp
    · rw [Keyed.get?_put_of_ne _ _ hkey, if_neg fun hsame => hkey (Prod.ext hsame.1 hsame.2)]
  | succ k => simp

theorem used (h : Follows log scopes) (v : Variable) (answer : Except Fault Binding) :
    Follows (log ++ [.used v answer]) scopes := by
  intro k hk name sigil
  rw [List.reverse_append]
  exact h k hk name sigil

end Follows

theorem StillOpen.of_append {log more : List Event} (h : StillOpen (log ++ more)) :
    StillOpen log :=
  fun start hstart => h start (hstart.trans (List.prefix_append _ _))

/-- As long as the outermost scope stays open, the scopes follow the log from the beginning. -/
theorem follows_replay (log : List Event) (h : StillOpen log) :
    Follows log (replay log [[]]) ∧
      (replay log [[]]).length + log.countP Event.closes = 1 + log.countP Event.opens := by
  induction log using List.reverseRecOn with
  | nil =>
    refine ⟨fun k hk name sigil => ?_, rfl⟩
    rcases k with _ | _ | k
    · rfl
    · rfl
    · exact absurd hk (by simp)
  | append_singleton log ev ih =>
    obtain ⟨hfollows, hlength⟩ := ih h.of_append
    have hclosed := h (log ++ [ev]) (List.prefix_refl _)
    have hbefore := h log (List.prefix_append _ _)
    rw [replay_append, replay_cons, replay_nil]
    -- there is a scope to close, or to declare in
    rcases hscopes : replay log [[]] with _ | ⟨s, rest⟩
    · rw [hscopes] at hlength
      simp only [List.length_nil, Nat.zero_add] at hlength
      omega
    · rw [hscopes] at hfollows hlength
      cases ev with
      | opened =>
        refine ⟨hfollows.opened, ?_⟩
        simp [Event.step, Event.closes, Event.opens] at hlength ⊢
        omega
      | closed =>
        refine ⟨hfollows.closed, ?_⟩
        simp [Event.step, Event.closes, Event.opens] at hlength ⊢
        omega
      | declared node b =>
        refine ⟨hfollows.declared node b, ?_⟩
        simpa [Event.step, Event.closes, Event.opens] using hlength
      | used v answer =>
        refine ⟨hfollows.used v answer, ?_⟩
        simpa [Event.step, Event.closes, Event.opens] using hlength

/-- At most one variable is visible. -/
theorem Visible.unique {log : List Event} {name : String} {sigil : Sigil} {b c : Binding}
    (hb : Visible log name sigil b) (hc : Visible log name sigil c) : b = c := by
  obtain ⟨before, node, after, hlog, hname, hsigil, hopen, hlater⟩ := hb
  obtain ⟨before', node', after', hlog', hname', hsigil', hopen', hlater'⟩ := hc
  -- of two declarations the later one hides the earlier one
  rcases List.append_eq_append_iff.mp (hlog.symm.trans hlog') with
    ⟨between, hbefore, hafter⟩ | ⟨between, hbefore, hafter⟩
  · rcases between with _ | ⟨ev, between⟩
    · cases hafter
      rfl
    · rw [List.cons_append] at hafter
      obtain ⟨-, hafter⟩ := List.cons.inj hafter
      exact absurd hopen' (hlater between node' c after' hafter hname' hsigil')
  · rcases between with _ | ⟨ev, between⟩
    · cases hafter
      rfl
    · rw [List.cons_append] at hafter
      obtain ⟨-, hafter⟩ := List.cons.inj hafter
      exact absurd hopen (hlater' between node b after hafter hname hsigil)

/-- What is looked up in the scopes that a log leads to is what is visible behind the log. -/
theorem lookupIn_eq_some_iff {log : List Event} (h : StillOpen log) {name : String}
    {sigil : Sigil} {b : Binding} :
    lookupIn (replay log [[]]) name sigil = some b ↔ Visible log name sigil b := by
  have hlookup := (follows_replay log h).1 0 (Nat.zero_le _) name sigil
  rw [List.drop_zero] at hlookup
  -- what is found is the latest declaration of a scope that is still open
  have hsound {c : Binding} (hfound : lookupIn (replay log [[]]) name sigil = some c) :
      Visible log name sigil c := by
    rw [hlookup] at hfound
    obtain ⟨before, node, after, hlog, hname, hsigil, hopen, hlater⟩ := latest_some log hfound
    refine ⟨before, node, after, hlog, hname, hsigil, (stillOpen_iff after).mpr hopen, ?_⟩
    intro between node' b' rest hsplit hname' hsigil' hstill
    exact hlater between node' b' rest hsplit hname' hsigil' ((stillOpen_iff rest).mp hstill)
  refine ⟨hsound, fun hvisible => ?_⟩
  rcases hfound : lookupIn (replay log [[]]) name sigil with _ | c
  · rw [hlookup] at hfound
    obtain ⟨before, node, after, hlog, hname, hsigil, hopen, -⟩ := hvisible
    exact absurd ((stillOpen_iff after).mp hopen)
      (latest_none log hfound before node b after hlog hname hsigil)
  · rw [(hsound hfound).unique hvisible]

theorem lookupIn_eq_none_iff {log : List Event} (h : StillOpen log) {name : String}
    {sigil : Sigil} :
    lookupIn (replay log [[]]) name sigil = none ↔ ∀ b, ¬Visible log name sigil b := by
  rw [Option.eq_none_iff_forall_ne_some]
  exact forall_congr' fun b => not_congr (lookupIn_eq_some_iff h)

/-! ## Well nested logs -/

/-- Every scope that is opened is closed again, and no other. -/
inductive WellNested : List Event → Prop
  | nil : WellNested []
  | declared (node : Option Variable) (b : Binding) : WellNested [.declared node b]
  | used (v : Variable) (answer : Except Fault Binding) : WellNested [.used v answer]
  | scope {log : List Event} (h : WellNested log) : WellNested (.opened :: (log ++ [.closed]))
  | append {log more : List Event} (h : WellNested log) (h' : WellNested more) :
      WellNested (log ++ more)

namespace WellNested

variable {log more : List Event}

/-- Well nested events change the innermost scope only. -/
theorem replay_cons (h : WellNested log) (s : Keyed VarKey Binding)
    (rest : List (Keyed VarKey Binding)) : ∃ s', replay log (s :: rest) = s' :: rest := by
  -- a scope is opened above and closed again, so only the innermost table can change
  induction h generalizing s rest with
  | nil => exact ⟨s, rfl⟩
  | declared node b => exact ⟨_, rfl⟩
  | used v answer => exact ⟨s, rfl⟩
  | scope _ ih =>
    obtain ⟨s', hs'⟩ := ih [] (s :: rest)
    refine ⟨s, ?_⟩
    rw [TypedPerl.replay_cons, replay_append]
    show replay [.closed] (replay _ ([] :: s :: rest)) = _
    rw [hs']
    rfl
  | append _ _ ih ih' =>
    obtain ⟨s₁, hs₁⟩ := ih s rest
    obtain ⟨s₂, hs₂⟩ := ih' s₁ rest
    exact ⟨s₂, by rw [replay_append, hs₁, hs₂]⟩

/-- A scope that is opened and closed leaves the scopes around it as they were. -/
theorem replay_scope (h : WellNested log) (scopes : List (Keyed VarKey Binding)) :
    replay (.opened :: (log ++ [.closed])) scopes = scopes := by
  obtain ⟨s', hs'⟩ := h.replay_cons [] scopes
  rw [TypedPerl.replay_cons, replay_append]
  show replay [.closed] (replay log ([] :: scopes)) = _
  rw [hs']
  rfl

theorem unmatched_append (h : WellNested log) (n : Nat) (more : List Event) :
    unmatched n (log ++ more) = unmatched n more := by
  induction h generalizing more with
  | nil => rfl
  | declared node b => rfl
  | used v answer => rfl
  | scope _ ih =>
    rw [List.cons_append, List.append_assoc, unmatched, ih]
    rfl
  | append _ _ ih ih' => rw [List.append_assoc, ih, ih']

theorem stillOpen (h : WellNested log) : StillOpen log := by
  rw [stillOpen_iff, ← List.append_nil log, h.unmatched_append]
  rfl

end WellNested

/-! ## Tables -/

/-- The variables of the open scopes, innermost first. -/
def Table.scopeVars (t : Table) : List (Keyed VarKey Binding) :=
  t.scopes.map (·.vars)

namespace Table

theorem lookup_eq (t : Table) (name : String) (sigil : Sigil) :
    t.lookup? name sigil = lookupIn t.scopeVars name sigil := by
  rw [lookup?, scopeVars, lookupIn, List.findSome?_map]
  rfl

theorem scopeVars_enter (t : Table) (kind : ScopeKind) :
    (t.enter kind).scopeVars = Event.opened.step t.scopeVars := rfl

theorem scopeVars_exit {t : Table} (h : 0 < t.depth) :
    t.exit.scopeVars = Event.closed.step t.scopeVars := by
  have hscopes : t.exit.scopes = t.scopes.drop 1 := by
    unfold exit scopes
    rw [List.drop_append_of_le_length h]
  rw [scopeVars, hscopes, List.map_drop]
  rfl

/-- A declaration changes the innermost scope only. -/
theorem scopeVars_declare (t : Table) (node : Option Variable) (name : String) (sigil : Sigil)
    (type : Ty) (isPublic : Bool) :
    (t.declare name sigil type isPublic).2.scopeVars =
      (Event.declared node (t.declare name sigil type isPublic).1).step t.scopeVars := by
  -- the entry goes to the innermost scope, wherever else it is kept
  have hput (t' : Table) (b : Binding) (hscopes : t'.scopes = t.scopes) :
      (t'.putInnermost b).scopeVars = (Event.declared node b).step t.scopeVars := by
    unfold putInnermost
    split
    · next s rest hinner =>
      rw [scopeVars, scopeVars, ← hscopes, scopes, scopes, hinner]
      rfl
    · next hinner =>
      rw [scopeVars, scopeVars, ← hscopes, scopes, scopes, hinner]
      rfl
  unfold declare
  dsimp only
  split
  · exact hput _ _ rfl
  · exact hput _ _ rfl

/-- A name means the variable that was just declared. -/
theorem lookup_declare (t : Table) (name : String) (sigil : Sigil) (type : Ty) (isPublic : Bool) :
    (t.declare name sigil type isPublic).2.lookup? name sigil =
      some (t.declare name sigil type isPublic).1 := by
  have hscopes := t.scopeVars_declare none name sigil type isPublic
  have hspec := t.declare_spec name sigil type isPublic
  have hsome : t.scopeVars ≠ [] := by simp [scopeVars, scopes]
  generalize t.declare name sigil type isPublic = r at hscopes hspec ⊢
  obtain ⟨b, t'⟩ := r
  obtain ⟨rfl, rfl, -⟩ := hspec
  rw [lookup_eq, hscopes, lookupIn]
  rcases hvars : t.scopeVars with _ | ⟨s, rest⟩
  · exact absurd hvars hsome
  · rw [Event.step, List.findSome?_cons, Keyed.get?_put_self]

/-- A declaration only adds to the numbers that are handed out. -/
theorem count_declare (t : Table) (name : String) (sigil : Sigil) (type : Ty) (isPublic : Bool)
    (id : String) :
    t.pool.count id ≤ (t.declare name sigil type isPublic).2.pool.count id := by
  have hspec := t.declare_spec name sigil type isPublic
  generalize t.declare name sigil type isPublic = r at hspec ⊢
  obtain ⟨b, t'⟩ := r
  obtain ⟨-, -, -, -, -, halias, -⟩ := hspec
  rw [show t'.pool = _ from congrArg Prod.snd halias]
  exact t.pool.count_le_aliasFor _ _ id

end Table

end TypedPerl
