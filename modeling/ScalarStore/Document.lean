import ScalarStore.Store
import ScalarStore.Value.Order

/-! # Collection documents

A document holds one collection with its rows and aliases. `load` puts it into a store of its
own; `dump` writes the live rows back, so that a document is changed by loading it, altering the
collection and dumping it again. -/

namespace ScalarStore

/-- The parts of a document, of which only the name and the schema must be there. -/
structure Document where
  name : Value
  schema : Value
  description : Value
  properties : Value
  partitions : Value
  aliases : Value

namespace Document

/-- The parts found among entries, or the name of the first required one that is missing. -/
def ofEntries (entries : List (Value × Value)) : Except String Document :=
  let find (key : String) : Option Value := Value.lookup (.str key) entries
  match find "collection_name", find "schema" with
  | none, _ => .error "collection_name"
  | _, none => .error "schema"
  | some name, some schema =>
      .ok ⟨name, schema, (find "description").getD (.str ""), (find "properties").getD .null,
        (find "partitions").getD .null, (find "aliases").getD .null⟩

/-- The entries under which the parts are written. -/
def entries (d : Document) : List (Value × Value) :=
  (.str "collection_name", d.name) :: Value.entryUnlessEmpty "description" d.description ++
    [(.str "schema", d.schema), (.str "properties", d.properties),
      (.str "partitions", d.partitions)] ++
    Value.entryUnlessEmpty "aliases" d.aliases

end Document

/-- A store with the collection of a document. Aliases that are no texts are out of reach of any
name; they are kept to be told and written back. -/
structure Loaded where
  store : Store
  name : String
  otherAliases : List Value

namespace Loaded

/-! ## Loading -/

/-- The name of a collection, which is not blank. -/
def nameOf (v : Value) : Except Fault String :=
  match v with
  | .str s => if Text.isBlankText s then refuse .collectionNameBlank else .ok s
  | v => if v.truthy then .error (.noMember v.kind "strip") else refuse .collectionNameBlank

/-- The name of a partition, of which only a text can be there already. -/
def partitionName (v : Value) : Except Fault String :=
  match v with
  | .str s => .ok s
  | v => if v.truthy then .error (.noMember v.kind "strip") else refuse .partitionNameBlank

/-- Adds a partition unless it is there, and rows unless there are none. -/
def addPartition (now : Binary64) (c : Collection) (key rows : Value) :
    Except Fault Collection := do
  let name ← partitionName key
  let c ← if c.hasPartition name then .ok c else c.createPartition name
  if rows.truthy then return (← c.insert now (← rows.items) (some name)).2
  return c

/-- Adds an alias, which stands for no other name yet. -/
def addAlias (l : Loaded) (v : Value) : Except Fault Loaded :=
  match v with
  | .str name => do return { l with store := ← l.store.createAlias l.name name }
  | v => do
      let v ← v.asKey
      if l.otherAliases.any v.coincides then refuse (.aliasInUse (← v.written))
      else return { l with otherAliases := l.otherAliases ++ [v] }

/-- The collection of a document in a store of its own. All its rows count as inserted now. -/
def ofDocument (settings : Settings) (now : Binary64) (d : Document) : Except Fault Loaded := do
  let schema ← Schema.ofDocument d.schema
  let name ← nameOf d.name
  let (_, store) ←
    (Store.new settings).createCollection name schema d.properties d.description none
  let (_, store) ← store.updateCollection name none fun c => do
    let partitions ← d.partitions.entriesOrNone
    return ((), ← partitions.foldlM (fun c (key, rows) => addPartition now c key rows) c)
  (← d.aliases.itemsOrNone).foldlM addAlias ⟨store, name, []⟩

/-! ## Reading -/

def collection (l : Loaded) : Except Fault Collection := l.store.collection l.name none

/-- Values in order, if they have one. -/
def ascending (values : List Value) : Except Fault (List Value) :=
  match Value.ascending? values, values with
  | some sorted, _ => .ok sorted
  | none, v :: w :: _ => .error (.kind (.notOrdered "<" w.kind v.kind))
  | none, _ => .ok values

/-- All aliases in order. Texts have no common order with other values. -/
def aliases (l : Loaded) : Except Fault (List Value) := do
  let names := (← l.store.aliasNames (some l.name)).map Value.str
  match l.otherAliases with
  | [] => return names
  | v :: _ =>
      if names.isEmpty then ascending l.otherAliases
      else throw (.kind (.notOrdered "<" v.kind .str))

def describe (l : Loaded) (now : Binary64) : Except Fault (Description × List Value) := do
  let description ← l.store.describe now l.name none
  return (description, ← l.aliases)

/-- The live rows of each partition. -/
def liveRows (c : Collection) (now : Binary64) : Except Fault (List (String × List Record)) :=
  c.partitionNames.mapM fun name => do
    return (name, (← c.snapshot now [.str name]).map (·.record))

/-! ## Altering and writing -/

def alter (l : Loaded) (a : Alteration) : Except Fault Loaded := do
  return { l with store := ← l.store.alter a }

def recordDocument (record : Record) : Value :=
  .map (record.map fun (name, v) => (.str name, v))

/-- The document of a collection with its live rows. -/
def dump (l : Loaded) (now : Binary64) : Except Fault Document := do
  let c ← l.collection
  let partitions ← liveRows c now
  return ⟨.str c.name, c.schema.document, c.description, c.properties.document,
    .map (partitions.map fun (name, records) => (.str name, .list (records.map recordDocument))),
    .list (← l.aliases)⟩

end Loaded

end ScalarStore
