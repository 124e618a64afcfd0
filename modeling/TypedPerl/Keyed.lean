/-!
# Keyed lists

A finite map as a list of keys and values. At most one entry of a key counts: `get?` finds the
first, and `put` removes older ones and comes first itself. A map may also be used as a table whose
rows keep their order: `insert?` adds a row behind the others and refuses a key that is taken, and
`select` and `eraseAll` pick out the rows whose keys pass a test and those whose keys do not.
-/

namespace TypedPerl

/-- A finite map as a list of entries. -/
abbrev Keyed (κ α : Type) := List (κ × α)

namespace Keyed

variable {κ α : Type} [DecidableEq κ]

/-- The value of a key. -/
def get? (m : Keyed κ α) (k : κ) : Option α :=
  match m with
  | [] => none
  | (k', a) :: rest => if k' = k then some a else get? rest k

/-- The map without a key. -/
def erase (m : Keyed κ α) (k : κ) : Keyed κ α :=
  m.filter fun e => e.1 ≠ k

/-- The map with a key set to a value. -/
def put (m : Keyed κ α) (k : κ) (a : α) : Keyed κ α :=
  (k, a) :: erase m k

/-- The map with a new key behind the others; none if the key is taken. -/
def insert? (m : Keyed κ α) (k : κ) (a : α) : Option (Keyed κ α) :=
  if (m.get? k).isSome then none else some (m ++ [(k, a)])

/-- The map with new keys behind the others, put in one after the other. -/
def insertAll? (m rows : Keyed κ α) : Option (Keyed κ α) :=
  rows.foldlM (fun m e => m.insert? e.1 e.2) m

/-- The map without the keys that pass a test. -/
def eraseAll (m : Keyed κ α) (test : κ → Bool) : Keyed κ α :=
  m.filter fun e => !test e.1

/-- The keys that pass a test, with their values. -/
def select (m : Keyed κ α) (test : κ → Bool) : Keyed κ α :=
  m.filter fun e => test e.1

/-- The keys of the map. -/
def keys (m : Keyed κ α) : List κ :=
  m.map (·.1)

/-- The values of the map. -/
def values (m : Keyed κ α) : List α :=
  m.map (·.2)

theorem get?_cons (k' : κ) (a : α) (m : Keyed κ α) (k : κ) :
    get? ((k', a) :: m) k = if k' = k then some a else get? m k := rfl

theorem erase_cons (k' : κ) (a : α) (m : Keyed κ α) (k : κ) :
    erase ((k', a) :: m) k = if k' = k then erase m k else (k', a) :: erase m k := by
  by_cases h : k' = k <;> simp [erase, h]

theorem get?_erase_of_ne (m : Keyed κ α) {k k' : κ} (h : k ≠ k') :
    (m.erase k).get? k' = m.get? k' := by
  induction m with
  | nil => rfl
  | cons e rest ih =>
    obtain ⟨j, a⟩ := e
    by_cases hj : j = k
    · rw [erase_cons, if_pos hj, ih, get?_cons, if_neg (hj ▸ h)]
    · rw [erase_cons, if_neg hj, get?_cons, get?_cons, ih]

/-- A key that was just set has its new value. -/
@[simp] theorem get?_put_self (m : Keyed κ α) (k : κ) (a : α) : (m.put k a).get? k = some a := by
  rw [put, get?_cons, if_pos rfl]

/-- Setting a key leaves the other keys as they were. -/
theorem get?_put_of_ne (m : Keyed κ α) {k k' : κ} (a : α) (h : k ≠ k') :
    (m.put k a).get? k' = m.get? k' := by
  rw [put, get?_cons, if_neg h, get?_erase_of_ne m h]

/-- What a key gives stands in the list. -/
theorem mem_of_get? {m : Keyed κ α} {k : κ} {a : α} (h : m.get? k = some a) : (k, a) ∈ m := by
  induction m with
  | nil => cases h
  | cons e rest ih =>
    obtain ⟨k', b⟩ := e
    rw [get?_cons] at h
    split at h
    · rename_i hk
      cases h
      exact hk ▸ List.mem_cons_self
    · exact List.mem_cons_of_mem _ (ih h)

end Keyed

end TypedPerl
