import ScalarStore.Query

/-! # Databases

A database holds collections by name and aliases, each of which stands for the name of a
collection. -/

namespace ScalarStore

structure Database where
  collections : Table Collection
  aliases : Table String

namespace Database

def empty : Database := ⟨.empty, .empty⟩

/-- The name that a name or an alias stands for. -/
def target (db : Database) (name : String) : String := (db.aliases.get? name).getD name

/-- The collection that a name or an alias stands for. -/
def resolve (db : Database) (name : String) : Except Fault Collection :=
  match db.collections.get? (db.target name) with
  | some c => .ok c
  | none => .error (.collectionNotFound name)

/-- Puts a changed collection in the place of the one that a name stands for. -/
def replace (db : Database) (name : String) (c : Collection) : Database :=
  { db with collections := db.collections.put (db.target name) c }

/-- A new collection needs a name that is neither a collection's nor an alias. -/
def createCollection (db : Database) (settings : Settings) (name : String) (schema : Schema)
    (properties description : Value) : Except Fault (Collection × Database) :=
  if db.collections.contains name ∨ db.aliases.contains name then .error (.collectionExists name)
  else do
    let c ← Collection.new settings name schema properties description
    return (c, { db with collections := db.collections.put name c })

/-- A collection is dropped by its own name, and all its aliases with it. -/
def dropCollection (db : Database) (name : String) : Except Fault Database :=
  if db.aliases.contains name then refuse (.dropThroughAlias name)
  else if !db.collections.contains name then .error (.collectionNotFound name)
  else .ok ⟨db.collections.erase name, db.aliases.filter (·.2 ≠ name)⟩

/-- Names in the order of their code points. -/
def sorted (names : List String) : List String := names.mergeSort fun a b => decide (a ≤ b)

/-- The aliases of a collection, or all of them. -/
def aliasNames (db : Database) (collection : Option String) : List String :=
  sorted ((db.aliases.entries.filter fun (_, name) => collection.all (name = ·)).map (·.1))

def createAlias (db : Database) (name newAlias : String) : Except Fault Database :=
  if !db.collections.contains name then .error (.collectionNotFound name)
  else if db.aliases.contains newAlias ∨ db.collections.contains newAlias then
    refuse (.aliasInUse newAlias)
  else .ok { db with aliases := db.aliases.put newAlias name }

def alterAlias (db : Database) (name oldAlias : String) : Except Fault Database :=
  if !db.collections.contains name then .error (.collectionNotFound name)
  else if !db.aliases.contains oldAlias then refuse (.aliasUnknown oldAlias)
  else .ok { db with aliases := db.aliases.put oldAlias name }

def dropAlias (db : Database) (oldAlias : String) : Except Fault Database :=
  if !db.aliases.contains oldAlias then refuse (.aliasUnknown oldAlias)
  else .ok { db with aliases := db.aliases.erase oldAlias }

/-- The description of the collection that a name or an alias stands for. -/
def describe (db : Database) (now : Binary64) (name : String) : Except Fault Description := do
  let c ← db.resolve name
  c.describe now (db.aliasNames (some c.name))

end Database

end ScalarStore
