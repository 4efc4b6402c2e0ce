/-! # Tables

A table maps names to values and keeps the names in the order in which they were first put.
`keys_put` and `keys_erase` give the order after each operation; no name occurs twice. -/

namespace ScalarStore

structure Table (α : Type) where
  entries : List (String × α)
  distinct : (entries.map (·.1)).Nodup

namespace Table

variable {α : Type}

def empty : Table α := ⟨[], List.nodup_nil⟩

def keys (t : Table α) : List String := t.entries.map (·.1)

def get? (t : Table α) (key : String) : Option α := t.entries.lookup key

def contains (t : Table α) (key : String) : Bool := key ∈ t.keys

def isEmpty (t : Table α) : Bool := t.entries.isEmpty

def size (t : Table α) : Nat := t.entries.length

/-- Replaces the value at a name in place, or puts a new name at the end. -/
def putEntry (key : String) (value : α) : List (String × α) → List (String × α)
  | [] => [(key, value)]
  | (k, v) :: rest => if k = key then (k, value) :: rest else (k, v) :: putEntry key value rest

theorem map_fst_putEntry (key : String) (value : α) (entries : List (String × α)) :
    (putEntry key value entries).map (·.1) =
      if key ∈ entries.map (·.1) then entries.map (·.1) else entries.map (·.1) ++ [key] := by
  induction entries with
  | nil => simp [putEntry]
  | cons entry rest ih =>
      obtain ⟨k, v⟩ := entry
      by_cases h : k = key
      · subst h; simp [putEntry]
      · have h' : key ≠ k := fun e => h e.symm
        simp only [putEntry, if_neg h, List.map_cons, List.mem_cons, h', false_or, ih]
        split <;> simp

def put (t : Table α) (key : String) (value : α) : Table α :=
  ⟨putEntry key value t.entries, by
    rw [map_fst_putEntry]
    split
    · exact t.distinct
    · next h =>
        rw [List.nodup_append]
        exact ⟨t.distinct, by simp, by
          intro a ha b hb e
          simp only [List.mem_singleton] at hb
          subst hb; subst e
          exact h ha⟩⟩

theorem keys_put (t : Table α) (key : String) (value : α) :
    (t.put key value).keys = if key ∈ t.keys then t.keys else t.keys ++ [key] :=
  map_fst_putEntry key value t.entries

/-- Removes a name, if it is there. -/
def erase (t : Table α) (key : String) : Table α :=
  ⟨t.entries.filter (·.1 ≠ key), by
    rw [show (t.entries.filter (·.1 ≠ key)).map (·.1) =
        (t.entries.map (·.1)).filter (· ≠ key) from by rw [List.filter_map]; rfl]
    exact t.distinct.filter _⟩

theorem keys_erase (t : Table α) (key : String) : (t.erase key).keys = t.keys.filter (· ≠ key) := by
  simp only [keys, erase, List.filter_map]
  rfl

/-- Keeps the entries that satisfy a condition. -/
def filter (p : String × α → Bool) (t : Table α) : Table α :=
  ⟨t.entries.filter p, t.distinct.sublist (List.filter_sublist.map _)⟩

/-- Puts the entries of a list one after another. -/
def putAll (t : Table α) (entries : List (String × α)) : Table α :=
  entries.foldl (fun t (key, value) => t.put key value) t

def ofList (entries : List (String × α)) : Table α := empty.putAll entries

end Table

end ScalarStore
