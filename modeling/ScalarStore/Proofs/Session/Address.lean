import ScalarStore.Proofs.Session.Invariant

/-! # Addresses of collections

A name or an alias is looked up in a database and gives the address of a collection. What is done
with the collection that a name stands for is done with the one at its address, and changing it
leaves all other addresses as they are. -/

namespace ScalarStore

/-- Where a collection is kept: the name of its database, and its own. -/
structure Address where
  database : String
  collection : String
deriving DecidableEq

namespace Store

variable {settings : Settings} {s : Store} {name : String} {database : Option String}
  {a b : Address} {c d : Collection} {db : Database} {fault : Fault}

/-- The collection at an address. -/
def at? (s : Store) (a : Address) : Option Collection :=
  (s.databases.get? a.database).bind fun db => db.collections.get? a.collection

/-- Puts a collection in the place of the one at an address. -/
def putAt (s : Store) (a : Address) (c : Collection) : Store :=
  match s.databases.get? a.database with
  | none => s
  | some db =>
      let changed : Database := { db with collections := db.collections.put a.collection c }
      { s with databases := s.databases.put a.database changed }

/-- The aliases in a database that stand for the collection at an address. -/
def aliasesAt (s : Store) (a : Address) : List String :=
  match s.databases.get? a.database with
  | none => []
  | some db => db.aliasNames (some a.collection)

/-- The address of the collection that a name or an alias stands for. -/
def address (s : Store) (name : String) (database : Option String) : Except Fault Address := do
  let db ← s.database database
  let _ ← db.resolve name
  return ⟨s.databaseName database, db.target name⟩

theorem at?_eq_some_iff : s.at? a = some c ↔
    ∃ db, s.databases.get? a.database = some db ∧ db.collections.get? a.collection = some c :=
  Option.bind_eq_some_iff

theorem at?_putAt (h : s.at? a = some c) (d : Collection) (b : Address) :
    (s.putAt a d).at? b = if b = a then some d else s.at? b := by
  obtain ⟨db, hdb, -⟩ := at?_eq_some_iff.mp h
  obtain ⟨database, collection⟩ := a
  obtain ⟨otherDatabase, otherCollection⟩ := b
  dsimp only at hdb
  simp only [putAt, at?, hdb, Table.get?_put, Address.mk.injEq]
  by_cases hd : otherDatabase = database
  · subst hd
    by_cases hc : otherCollection = collection
    · simp [hc, Table.get?_put]
    · simp [hc, hdb, Table.get?_put]
  · simp [hd]

/-- Putting a collection where it is already changes nothing. -/
theorem putAt_self (h : s.at? a = some c) : s.putAt a c = s := by
  obtain ⟨db, hdb, hc⟩ := at?_eq_some_iff.mp h
  simp only [putAt, hdb, Table.put_of_get? hc, Table.put_of_get? hdb]

theorem address_eq_ok (h : s.address name database = .ok a) :
    ∃ db c, s.database database = .ok db ∧ db.resolve name = .ok c ∧
      s.databases.get? a.database = some db ∧ a.collection = db.target name ∧
      a.database = s.databaseName database ∧ s.at? a = some c := by
  obtain ⟨db, hdb, h⟩ := bind_eq_ok_iff.mp h
  obtain ⟨c, hc, h⟩ := bind_eq_ok_iff.mp h
  cases h
  have hget := database_eq_ok_iff.mp hdb
  exact ⟨db, c, hdb, hc, hget, rfl, rfl,
    at?_eq_some_iff.mpr ⟨db, hget, Database.resolve_eq_ok_iff.mp hc⟩⟩

/-- What is done with a collection that a name stands for is done with the one at its address. -/
theorem collection_of_address (h : s.address name database = .ok a) (hc : s.at? a = some c) :
    s.collection name database = .ok c := by
  obtain ⟨db, found, hdb, hr, -, -, -, hat⟩ := address_eq_ok h
  cases hat.symm.trans hc
  rw [collection, hdb]
  exact hr

theorem collection_of_address_error (h : s.address name database = .error fault) :
    s.collection name database = .error fault := by
  rcases bind_eq_error_iff.mp h with hdb | ⟨db, hdb, h⟩
  · exact bind_eq_error_iff.mpr (.inl hdb)
  · rcases bind_eq_error_iff.mp h with hr | ⟨c, -, h⟩
    · exact bind_eq_error_iff.mpr (.inr ⟨db, hdb, hr⟩)
    · cases h

/-- A collection that is found is kept at some address. -/
theorem at?_of_collection (h : s.collection name database = .ok c) : ∃ a, s.at? a = some c := by
  obtain ⟨db, hdb, hr⟩ := collection_eq_ok h
  exact ⟨⟨s.databaseName database, db.target name⟩, at?_eq_some_iff.mpr
    ⟨db, database_eq_ok_iff.mp hdb, Database.resolve_eq_ok_iff.mp hr⟩⟩

section Update

variable {α : Type} {change : Collection → Except Fault (α × Collection)}

theorem updateCollection_of_address (h : s.address name database = .ok a)
    (hc : s.at? a = some c) : s.updateCollection name database change =
      (change c).map fun done => (done.1, s.putAt a done.2) := by
  obtain ⟨db, found, hdb, hr, hget, hcollection, hdatabase, hat⟩ := address_eq_ok h
  cases hat.symm.trans hc
  rw [updateCollection, hdb]
  simp only [bind, Except.bind, hr]
  cases change c with
  | error fault => rfl
  | ok done =>
      simp only [Except.map, putAt, hget, ← hdatabase, Database.replace, ← hcollection]
      rfl

theorem updateCollection_of_address_error (h : s.address name database = .error fault) :
    s.updateCollection name database change = .error fault := by
  rcases bind_eq_error_iff.mp (collection_of_address_error h) with hdb | ⟨db, hdb, hr⟩
  · exact bind_eq_error_iff.mpr (.inl hdb)
  · exact bind_eq_error_iff.mpr (.inr ⟨db, hdb, bind_eq_error_iff.mpr (.inl hr)⟩)

/-- A name stands for the changed collection afterwards. -/
theorem collection_of_updateCollection {t : Store} {result : α}
    (h : s.updateCollection name database change = .ok (result, t)) :
    ∃ c d, s.collection name database = .ok c ∧ change c = .ok (result, d) ∧
      t.collection name database = .ok d := by
  obtain ⟨db, hdb, h⟩ := bind_eq_ok_iff.mp h
  obtain ⟨c, hc, h⟩ := bind_eq_ok_iff.mp h
  obtain ⟨⟨found, d⟩, hd, h⟩ := bind_eq_ok_iff.mp h
  cases h
  refine ⟨c, d, ?_, hd, ?_⟩
  · rw [collection, hdb]
    exact hc
  · have hafter : Store.database { s with
        databases := s.databases.put (s.databaseName database) (db.replace name d) } database =
          .ok (db.replace name d) := by
      rw [database_eq_ok_iff]
      exact (Table.get?_put ..).trans (if_pos rfl)
    have hresolve : (db.replace name d).resolve name = .ok d := by
      rw [Database.resolve_eq_ok_iff]
      exact (Table.get?_put ..).trans (if_pos rfl)
    rw [collection, hafter]
    exact hresolve

end Update

end Store

end ScalarStore
