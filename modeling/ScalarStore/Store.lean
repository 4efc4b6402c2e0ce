import ScalarStore.Alteration
import ScalarStore.Database
import ScalarStore.ParseCache

/-! # Stores

A store holds databases, one of which is the current one. An operation that fails gives a fault
and no store; only a query always leaves a store, because it goes through the parse cache. -/

namespace ScalarStore

structure Store where
  settings : Settings
  databases : Table Database
  current : String
  cache : ParseCache

namespace Store

/-- A store with the default database alone. -/
def new (settings : Settings) : Store :=
  ⟨settings, Table.empty.put settings.defaultDatabase .empty, settings.defaultDatabase,
    .new settings.cacheSize⟩

/-! ## Databases -/

def databaseNames (s : Store) : List String := s.databases.keys

def createDatabase (s : Store) (name : String) : Except Fault Store :=
  if Text.isBlankText name then refuse .databaseNameBlank
  else if s.databases.contains name then refuse (.databaseExists name)
  else .ok { s with databases := s.databases.put name .empty }

def useDatabase (s : Store) (name : String) : Except Fault Store :=
  if s.databases.contains name then .ok { s with current := name }
  else .error (.databaseNotFound name)

/-- Only an empty database is dropped, and never the default one, which becomes the current one
if the current one goes. -/
def dropDatabase (s : Store) (name : String) : Except Fault Store :=
  if name = s.settings.defaultDatabase then refuse .databaseDefault
  else
    match s.databases.get? name with
    | none => .error (.databaseNotFound name)
    | some db =>
        if db.collections.isEmpty then
          .ok { s with
            databases := s.databases.erase name
            current := if s.current = name then s.settings.defaultDatabase else s.current }
        else refuse (.databaseInUse name db.collections.size)

/-- The name of the database that an argument means; without one, the current one. -/
def databaseName (s : Store) : Option String → String
  | none => s.current
  | some name => if name = "" then s.current else name

def database (s : Store) (name : Option String) : Except Fault Database :=
  match s.databases.get? (s.databaseName name) with
  | some db => .ok db
  | none => .error (.databaseNotFound (s.databaseName name))

/-- Changes the database that an argument means. -/
def updateDatabase (s : Store) (name : Option String)
    (change : Database → Except Fault Database) : Except Fault Store := do
  let db ← change (← s.database name)
  return { s with databases := s.databases.put (s.databaseName name) db }

/-! ## Collections -/

/-- The collection that a name or an alias stands for. -/
def collection (s : Store) (name : String) (database : Option String) :
    Except Fault Collection := do
  (← s.database database).resolve name

/-- Changes the collection that a name or an alias stands for. -/
def updateCollection {α : Type} (s : Store) (name : String) (database : Option String)
    (change : Collection → Except Fault (α × Collection)) : Except Fault (α × Store) := do
  let db ← s.database database
  let (result, c) ← change (← db.resolve name)
  return (result, { s with
    databases := s.databases.put (s.databaseName database) (db.replace name c) })

def createCollection (s : Store) (name : String) (schema : Schema) (properties description : Value)
    (database : Option String) : Except Fault (Collection × Store) :=
  if Text.isBlankText name then refuse .collectionNameBlank
  else do
    let db ← s.database database
    let (c, db) ← db.createCollection s.settings name schema properties description
    return (c, { s with databases := s.databases.put (s.databaseName database) db })

/-- Only a collection that is not found is absent; a database that is not found is a fault. -/
def hasCollection (s : Store) (name : String) (database : Option String) : Except Fault Bool :=
  match s.collection name database with
  | .ok _ => .ok true
  | .error (.collectionNotFound _) => .ok false
  | .error fault => .error fault

def collectionNames (s : Store) (database : Option String) : Except Fault (List String) :=
  return (← s.database database).collections.keys

def describe (s : Store) (now : Binary64) (name : String) (database : Option String) :
    Except Fault Description := do
  (← s.database database).describe now name

/-- The number of live rows of a collection. -/
def rowCount (s : Store) (now : Binary64) (name : String) (database : Option String) :
    Except Fault Nat := do
  (← s.collection name database).size now

def dropCollection (s : Store) (name : String) (database : Option String) : Except Fault Store :=
  s.updateDatabase database (·.dropCollection name)

/-! ## Partitions, aliases and rows of the current database -/

def createPartition (s : Store) (name partition : String) : Except Fault Store := do
  return (← s.updateCollection name none fun c => do return ((), ← c.createPartition partition)).2

def dropPartition (s : Store) (name partition : String) : Except Fault Store := do
  return (← s.updateCollection name none fun c => do return ((), ← c.dropPartition partition)).2

def createAlias (s : Store) (name newAlias : String) : Except Fault Store :=
  s.updateDatabase none (·.createAlias name newAlias)

def alterAlias (s : Store) (name oldAlias : String) : Except Fault Store :=
  s.updateDatabase none (·.alterAlias name oldAlias)

def dropAlias (s : Store) (oldAlias : String) : Except Fault Store :=
  s.updateDatabase none (·.dropAlias oldAlias)

def aliasNames (s : Store) (name : Option String) : Except Fault (List String) :=
  return (← s.database none).aliasNames name

/-- Adds one row or several, and gives their keys. -/
def insert (s : Store) (now : Binary64) (name : String) (data : Value)
    (partition : Option String) : Except Fault (List Value × Store) :=
  s.updateCollection name none fun c => do c.insert now (← Rows.ensure data) partition

/-! ## Alterations -/

/-- Changes the properties of a collection of any database. -/
def alterProperties (s : Store) (name : String) (database : Option String)
    (properties : List (Value × Value)) : Except Fault Store := do
  return (← s.updateCollection name database fun c => do
    return ((), ← c.alterProperties properties)).2

/-- The database name that an alteration holds. A value that is no text names none. -/
def alteredDatabase (v : Value) : Except Fault (Option String) :=
  if !v.truthy then .ok none
  else
    match v with
    | .str name => .ok (some name)
    | v => do
        let v ← v.asKey
        throw (.databaseNotFound v.plain)

def alter (s : Store) (a : Alteration) : Except Fault Store := do
  s.alterProperties a.collection (← alteredDatabase a.database)
    (a.properties.entries.map fun (key, value) => (.str key, .str value))

/-- Changes properties given as any values, through an alteration. -/
def alterByValues (s : Store) (name : String) (properties : List (Value × Value)) :
    Except Fault Store := do
  let draft ← Alteration.Draft.new.withCollection (.str name)
  let draft ← properties.foldlM (fun draft (key, value) => do
    draft.withProperty key (.str (← Property.storedText value))) draft
  s.alter (← draft.build)

def dropProperties (s : Store) (name : String) (keys : List String) : Except Fault Store := do
  return (← s.updateCollection name none fun c => return ((), c.dropProperties keys)).2

/-! ## Queries -/

/-- What the filter of a request parses to, and the store after parsing. A text that is too
long is not parsed. -/
def parseFilter (s : Store) (limit : Int) : FilterArgument →
    Except Fault (Option Filter) × Store
  | .text text =>
      if limit < text.length then (.ok none, s)
      else
        let (parsed, cache) := s.cache.parse s.settings.maxDepth text
        (parsed, { s with cache := cache })
  | _ => (.ok none, s)

def query (s : Store) (now : Binary64) (r : Request) : Except Fault (List Record) × Store :=
  match s.collection r.collection none with
  | .error fault => (.error fault, s)
  | .ok c =>
      let (parsed, s) := s.parseFilter c.settings.maxFilterLength r.filter
      (r.run c now parsed, s)

end Store

end ScalarStore
