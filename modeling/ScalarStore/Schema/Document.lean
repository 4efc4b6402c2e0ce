import ScalarStore.Schema.Basic
import ScalarStore.Text.Upper

/-! # Schemas as documents

A field document names its type in any letter case. Keys that hold nothing are left out when a
schema is written, so reading what was written gives the schema back. -/

namespace ScalarStore

/-- An entry that is written only when it holds something. -/
def Value.entryUnlessEmpty (key : String) (v : Value) : List (Value × Value) :=
  if v.truthy then [(.str key, v)] else []

namespace Field

def document (f : Field) : Value :=
  .map ([(.str "name", .str f.name), (.str "dtype", .str f.type.word)] ++
    (if f.isPrimary then [(.str "is_primary", .bool true)] else []) ++
    (match f.maxLength with
      | some n => [(.str "max_length", n.toValue)]
      | none => []) ++
    Value.entryUnlessEmpty "description" f.description)

def ofDocument (document : Value) : Except Fault Field := do
  let name ← document.required "name"
  let word ← document.required "dtype"
  let type ← DataType.ofValue (.str (Text.upper (← word.written)))
  let isPrimary ← document.optional "is_primary" (.bool false)
  let maxLength ← document.optional "max_length" .null
  let description ← document.optional "description" (.str "")
  make name (.ok type) isPrimary.truthy maxLength description

end Field

namespace Schema

def document (schema : Schema) : Value :=
  .map ((.str "fields", .list (schema.fields.map Field.document)) ::
    Value.entryUnlessEmpty "description" schema.description)

def ofDocument (document : Value) : Except Fault Schema := do
  let entries ← document.optional "fields" (.list [])
  let fields ← (← entries.items).mapM Field.ofDocument
  make fields (← document.optional "description" (.str ""))

end Schema

end ScalarStore
