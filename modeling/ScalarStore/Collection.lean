import ScalarStore.Property
import ScalarStore.Schema.Document
import ScalarStore.Schema.Row
import ScalarStore.Settings

/-! # Collections

A collection keeps records of one schema in partitions. Records are only ever added, or leave
with their partition. Those older than the time to live are hidden from readers, not removed. -/

namespace ScalarStore

/-- A record, the partition that holds it and the clock's reading when it was inserted. -/
structure StoredRow where
  partition : String
  insertedAt : Binary64
  record : Record

structure Collection where
  name : String
  schema : Schema
  description : Value
  settings : Settings
  partitions : Table (List StoredRow)
  keys : List Value
  properties : Properties

namespace Collection

def primaryName (c : Collection) : String := c.schema.primary.name

/-- The value of a record at the primary key. -/
def keyOf (c : Collection) (record : Record) : Value :=
  (record.lookup c.primaryName).getD .null

/-- The key of a new record, which a record without the primary field lacks. -/
def keyFrom (c : Collection) (record : Record) : Except Fault Value :=
  match record.lookup c.primaryName with
  | some key => .ok key
  | none => .error (.missingKey c.primaryName)

/-! ## Properties -/

/-- Checks new properties together and then puts them all. -/
def alterProperties (c : Collection) (entries : List (Value × Value)) :
    Except Fault Collection := do
  let updates ← Property.ofEntries entries
  Property.check updates.find
  return { c with properties := c.properties.putAll updates.entries }

def dropProperties (c : Collection) (keys : List String) : Collection :=
  { c with properties := keys.foldl Table.erase c.properties }

/-- The time to live in seconds; 0 stands for none. -/
def ttl (c : Collection) : Except Fault Int := return (← c.properties.ttl?).getD 0

/-- Why no collection can have a name and a schema, if that is so. -/
def newFault? (settings : Settings) (name : String) (schema : Schema) : Option Fault :=
  if name.toList.contains '\x00' then some (.value .nullInName)
  else schema.rowFault? settings.defaultLength

/-- A collection without rows. It has the default partition. -/
def new (settings : Settings) (name : String) (schema : Schema) (properties : Value)
    (description : Value) : Except Fault Collection :=
  match newFault? settings name schema with
  | some fault => .error fault
  | none => do
      alterProperties
        ⟨name, schema, description, settings, Table.empty.put settings.defaultPartition [], [],
          .empty⟩
        (← properties.entriesOrNone)

/-! ## Partitions -/

def hasPartition (c : Collection) (name : String) : Bool := c.partitions.contains name

def partitionNames (c : Collection) : List String := c.partitions.keys

def createPartition (c : Collection) (name : String) : Except Fault Collection :=
  if Text.isBlankText name then refuse .partitionNameBlank
  else if c.hasPartition name then refuse (.partitionExists name c.name)
  else .ok { c with partitions := c.partitions.put name [] }

/-- The rows of a dropped partition go with it, and their keys are free again. -/
def dropPartition (c : Collection) (name : String) : Except Fault Collection :=
  if name = c.settings.defaultPartition then refuse .partitionDefault
  else
    match c.partitions.get? name with
    | none => .error (.partitionNotFound name c.name)
    | some rows =>
        let freed := rows.map fun row => c.keyOf row.record
        .ok { c with
          partitions := c.partitions.erase name
          keys := c.keys.filter fun key => !freed.any key.same }

/-! ## Rows -/

/-- The first key that is taken already or stands earlier in the list. -/
def firstTaken (taken : List Value) : List Value → Option Value
  | [] => none
  | key :: rest => if taken.any key.same then some key else firstTaken (key :: taken) rest

/-- The partition that an argument names; without a name, the default one. -/
def targetPartition (c : Collection) : Option String → String
  | none => c.settings.defaultPartition
  | some name => if name = "" then c.settings.defaultPartition else name

/-- Adds rows to a partition at a clock reading and gives their keys. All rows must be valid and
all keys new, or none is added. -/
def insert (c : Collection) (now : Binary64) (rows : List Value) (partition : Option String) :
    Except Fault (List Value × Collection) := do
  let records ← c.schema.records c.settings.defaultLength rows
  let keys ← records.mapM c.keyFrom
  let name := c.targetPartition partition
  match c.partitions.get? name with
  | none => throw (.partitionNotFound name c.name)
  | some held =>
      match firstTaken c.keys keys with
      | some key => throw (.duplicateKey key c.name)
      | none =>
          let added := records.map fun record => ⟨name, now, record⟩
          return (keys, { c with
            partitions := c.partitions.put name (held ++ added)
            keys := c.keys ++ keys })

/-- The partition that an argument of any kind names. -/
def partitionOf (c : Collection) (v : Value) : Except Fault String :=
  match v with
  | .str name => if c.hasPartition name then .ok name else .error (.partitionNotFound name c.name)
  | v => do
      let v ← v.asKey
      throw (.partitionNotFound v.plain c.name)

/-- The rows of the named partitions, each partition once and in the order of first mention;
without names, of all partitions. -/
def rowsOf (c : Collection) (names : List String) : List StoredRow :=
  let selected := if names = [] then c.partitionNames else names.eraseDups
  selected.flatMap fun name => (c.partitions.get? name).getD []

/-- The live rows of the named partitions. -/
def snapshot (c : Collection) (now : Binary64) (names : List Value) :
    Except Fault (List StoredRow) := do
  let names ← names.mapM c.partitionOf
  let seconds ← c.ttl
  if seconds ≤ 0 then return c.rowsOf names
  else
    match Binary64.ofInt? seconds with
    | none => throw (.overflow .integerBeyondReals)
    | some age =>
        let cutoff := Number.real (now.sub age)
        return (c.rowsOf names).filter fun row => cutoff.lt (.real row.insertedAt)

/-- The number of live rows. -/
def size (c : Collection) (now : Binary64) : Except Fault Nat :=
  return (← c.snapshot now []).length

end Collection

/-- All that is told about a collection, with the aliases that stand for it. -/
structure Description where
  collection : Collection
  size : Nat
  aliases : List String

def Collection.describe (c : Collection) (now : Binary64) (aliases : List String) :
    Except Fault Description := do
  return ⟨c, ← c.size now, aliases⟩

namespace Description

/-- A description as a document, with the aliases given in place of its own. -/
def documentWith (aliases : List Value) (d : Description) : Value :=
  let c := d.collection
  .map [(.str "collection_name", .str c.name), (.str "description", c.description),
    (.str "schema", c.schema.document), (.str "primary_field", .str c.primaryName),
    (.str "partitions", .list (c.partitionNames.map .str)),
    (.str "properties", c.properties.document), (.str "num_entities", .int d.size),
    (.str "aliases", .list aliases)]

def document (d : Description) : Value := d.documentWith (d.aliases.map .str)

end Description

def Collection.text (c : Collection) : String :=
  "Collection(name=" ++ Text.quoted c.name ++ ", fields=" ++
    (Value.list (c.schema.fieldNames.map .str)).shown ++ ")"

end ScalarStore
