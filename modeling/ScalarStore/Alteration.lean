import ScalarStore.Property

/-! # Alterations

A prepared change of a collection's properties, and the draft on which it is put together step
by step. A step that fails leaves the draft as it was. -/

namespace ScalarStore

/-- The database is any value; `null` stands for the current one. -/
structure Alteration where
  collection : String
  database : Value
  properties : Properties

namespace Alteration

def ttl? (a : Alteration) : Except Fault (Option Int) := a.properties.ttl?

def mmap? (a : Alteration) : Except Fault (Option Bool) := a.properties.mmap?

def document (a : Alteration) : Value :=
  .map [(.str "collection_name", .str a.collection), (.str "database_name", a.database),
    (.str "properties", a.properties.document)]

def text (a : Alteration) : String :=
  "AlterCollectionParam(collection_name=" ++ Text.quoted a.collection ++ ", database_name=" ++
    a.database.shown ++ ", properties=" ++ a.properties.document.shown ++ ")"

/-- An alteration that is not finished. -/
structure Draft where
  collection : Value
  database : Value
  properties : Properties

namespace Draft

def new : Draft := ⟨.null, .null, .empty⟩

def withCollection (d : Draft) (name : Value) : Except Fault Draft :=
  if name = .null then refuse .nameMissing else .ok { d with collection := name }

def withDatabase (d : Draft) (name : Value) : Draft := { d with database := name }

/-- Any value is stored as its text. The key is a text that is not blank. -/
def withProperty (d : Draft) (key value : Value) : Except Fault Draft :=
  if key = .null ∨ value = .null then refuse .propertyMissing
  else
    match key with
    | .str k =>
        if Text.isBlankText k then refuse .propertyKeyBlank
        else do return { d with properties := d.properties.put k (← value.written) }
    | _ => refuse .propertyKeyBlank

/-- Only an integer is a time to live, and it is not negative. -/
def withTtl (d : Draft) (seconds : Value) : Except Fault Draft :=
  match seconds with
  | .int n => if n < 0 then refuse .ttlNegative else d.withProperty (.str Property.ttlKey) (.int n)
  | _ => refuse .ttlKind

def withMmap (d : Draft) (enabled : Value) : Except Fault Draft :=
  match enabled with
  | .bool b =>
      d.withProperty (.str Property.mmapKey) (.str (if b then "true" else "false"))
  | v => refuse (.mmapKind v.kind)

/-- The alteration of a draft, whose collection must have a name that is not blank. -/
def build (d : Draft) : Except Fault Alteration :=
  match d.collection with
  | .null => refuse .nameBlank
  | .str name => if Text.isBlankText name then refuse .nameBlank
      else .ok ⟨name, d.database, d.properties⟩
  | v => .error (.noMember v.kind "strip")

end Draft

end Alteration

end ScalarStore
