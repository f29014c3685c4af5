/-!
# Dictionaries and sources

Values by keys: finite maps, and what query values are looked up in.
-/

namespace QueryFilter

/-! ## Dictionaries

Finite maps from strings, as lists of entries with distinct keys.  Inserting a key that exists
replaces its value, so a dictionary built from pairs holds the last value of each key.
-/

/-- A finite map from strings. -/
structure Dictionary (α : Type) where
  entries : List (String × α)
  deriving DecidableEq, Repr

namespace Dictionary

variable {α : Type}

/-- The dictionary without entries. -/
def empty : Dictionary α := ⟨[]⟩

/-- The value of a key. -/
def get? (d : Dictionary α) (key : String) : Option α :=
  d.entries.lookup key

/-- Put a value in the place of the one that its key has, or after all entries. -/
def put (key : String) (value : α) : List (String × α) → List (String × α)
  | [] => [(key, value)]
  | (k, v) :: rest => if k = key then (key, value) :: rest else (k, v) :: put key value rest

/-- The dictionary with a new value for a key. -/
def insert (d : Dictionary α) (key : String) (value : α) : Dictionary α :=
  ⟨put key value d.entries⟩

/-- The dictionary of a list of pairs. -/
def ofPairs (pairs : List (String × α)) : Dictionary α :=
  pairs.foldl (fun d (key, value) => d.insert key value) empty

/-- Inserting changes the value of its own key only. -/
theorem get?_insert (d : Dictionary α) (key key' : String) (value : α) :
    (d.insert key value).get? key' = if key' = key then some value else d.get? key' := by
  obtain ⟨entries⟩ := d
  simp only [insert, get?]
  induction entries with
  | nil =>
    by_cases h : key' = key
    · simp [put, h]
    · simp [put, List.lookup_cons, h, beq_eq_false_iff_ne.2 h]
  | cons e rest ih =>
    obtain ⟨k, v⟩ := e
    by_cases hk : k = key
    · subst hk
      by_cases h : key' = k
      · simp [put, h]
      · simp [put, List.lookup_cons, h, beq_eq_false_iff_ne.2 h]
    · by_cases h : key' = k
      · subst h
        simp [put, hk]
      · simp [put, List.lookup_cons, hk, beq_eq_false_iff_ne.2 h, ih]

end Dictionary

/-! ## Query sources

Where the values of keys come from.  A source gives at most one value for a key.  Of pairs with the
same key, a list of pairs gives the first and a dictionary of them the last.
-/

/-- A source of query values. -/
structure Source where
  lookup : String → Option String

namespace Source

/-- The source that gives the first value of each key. -/
def ofList (pairs : List (String × String)) : Source where
  lookup key := pairs.lookup key

/-- The source that gives the last value of each key. -/
def ofDictionary (pairs : List (String × String)) : Source where
  lookup key := (Dictionary.ofPairs pairs).get? key

end Source

end QueryFilter
