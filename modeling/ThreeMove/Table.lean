/-
# Tables keyed by text

A finite map from names to values, held as a list of pairs in strictly
increasing order of the names.  Names are compared character by character,
which is also the byte order of their UTF-8 forms.
-/

namespace ThreeMove

/-- Name-value pairs in increasing order of the names. Source: `BTreeMap`. -/
abbrev Table (α : Type) := List (String × α)

namespace Table

variable {α β : Type}

/-- The value stored under `key`. Source: `get`. -/
def find? (table : Table α) (key : String) : Option α := List.lookup key table

/-- Whether something is stored under `key`. Source: `contains_key`. -/
def has (table : Table α) (key : String) : Bool := table.any (·.1 == key)

/-- The names in order. Source: `keys`. -/
def keys (table : Table α) : List String := table.map Prod.fst

/-- Stores `value` under `key`, in place of what was there. Source: `insert`. -/
def insert (key : String) (value : α) : Table α → Table α
  | [] => [(key, value)]
  | (k, v) :: rest =>
    if key = k then (key, value) :: rest
    else if key < k then (key, value) :: (k, v) :: rest
    else (k, v) :: insert key value rest

/-- The table without `key`. Source: `remove`. -/
def erase (table : Table α) (key : String) : Table α := table.filter (·.1 != key)

/-- The table of a list of pairs; of two pairs with one name the later counts. -/
def ofList (pairs : List (String × α)) : Table α :=
  pairs.foldl (fun table pair => insert pair.1 pair.2 table) []

/-- What is stored under a name is found under it. -/
theorem find?_insert_self (key : String) (value : α) (table : Table α) :
    find? (insert key value table) key = some value := by
  induction table with
  | nil => simp [insert, find?]
  | cons pair rest ih =>
    obtain ⟨k, v⟩ := pair
    unfold insert
    split
    · simp [find?]
    · split
      · simp [find?]
      · rename_i hne _
        have : (key == k) = false := by simp [hne]
        simpa [find?, List.lookup_cons, this] using ih

/-- Storing under one name leaves the other names alone. -/
theorem find?_insert_of_ne {key other : String} (value : α) (table : Table α) (h : other ≠ key) :
    find? (insert key value table) other = find? table other := by
  have hne : (other == key) = false := by simp [h]
  induction table with
  | nil => simp [insert, find?, List.lookup_cons, hne]
  | cons pair rest ih =>
    obtain ⟨k, v⟩ := pair
    unfold insert
    split
    · rename_i hk
      simp [find?, List.lookup_cons, ← hk, hne]
    · split
      · simp [find?, List.lookup_cons, hne]
      · unfold find? at ih ⊢
        simp only [List.lookup_cons, ih]

/-- Something is stored under a name just where it is found there. -/
theorem has_eq_isSome_find? (table : Table α) (key : String) :
    table.has key = (table.find? key).isSome := by
  induction table with
  | nil => rfl
  | cons pair rest ih =>
    obtain ⟨k, v⟩ := pair
    unfold has find? at ih ⊢
    by_cases h : key = k
    · simp [h]
    · have hne : (key == k) = false := by simp [h]
      have hne' : (k == key) = false := by simp [Ne.symm h]
      simp only [List.any_cons, List.lookup_cons, hne, hne', Bool.false_or, ih]

/-- Nothing is stored under a name that was erased. -/
theorem has_erase_self (table : Table α) (key : String) : has (erase table key) key = false := by
  simp [has, erase]

end Table
end ThreeMove
