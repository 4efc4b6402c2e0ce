import ScalarStore.Schema.Basic
import ScalarStore.Value.Text

/-! # Rows

Incoming rows are maps of any entries; a record holds one value for every field of a schema, in
schema order. Values are checked strictly: only a real field takes another kind, an integer,
which becomes the nearest real number. -/

namespace ScalarStore

/-- The values of a row by name. -/
abbrev Record := List (String × Value)

namespace Field

/-- The number of characters that a text of the field may have, if there is a limit. -/
def lengthLimit? (defaultLength : Option Number) (f : Field) : Option Number :=
  f.maxLength.or defaultLength

/-- The greatest number of characters that can be checked. -/
def lengthMost : Int := 18446744073709551615

/-- Why no text can be checked against the length of the field. -/
def lengthIssue? (defaultLength : Option Number) (f : Field) : Option LengthIssue := do
  guard (f.type = .varchar)
  let limit ← f.lengthLimit? defaultLength
  match limit.int? with
  | none => some .notInteger
  | some n => if lengthMost < n then some .tooBig else if n < 0 then some .negative else none

/-- The value as it is stored, or what is wrong with it. -/
def accept (defaultLength : Option Number) (f : Field) (v : Value) : Except EntryIssue Value :=
  match f.type with
  | .bool =>
      match v with
      | .bool b => .ok (.bool b)
      | _ => .error .notBoolean
  | .float | .double =>
      match v with
      | .float x => .ok (.float x)
      | .int n =>
          match Binary64.ofInt? n with
          | some x => .ok (.float x)
          | none => .error .notNumber
      | _ => .error .notNumber
  | .varchar =>
      match v with
      | .str s =>
          match (f.lengthLimit? defaultLength).bind Number.int? with
          | some limit => if s.length ≤ limit then .ok (.str s) else .error (.tooLong limit)
          | none => .ok (.str s)
      | _ => .error .notText
  | type =>
      match v, type.integerBounds? with
      | .int n, some (least, most) =>
          if most < n then .error (.aboveMost most)
          else if n < least then .error (.belowLeast least)
          else .ok (.int n)
      | _, _ => .error .notInteger

/-- The value of a row at a field. -/
def acceptFrom (defaultLength : Option Number) (row : List (Value × Value)) (f : Field) :
    Except EntryIssue Value :=
  match Value.lookup (.str f.name) row with
  | some v => f.accept defaultLength v
  | none => .error .missing

end Field

namespace Schema

/-- The name of the settings of a row check. No value of a row is looked up under it. -/
def settingsName : String := "model_config"

/-- The name of a step behind a row check. A value of a row under it would be called. -/
def finalStep : String := "model_post_init"

/-- The fields that take a value of a row. -/
def rowFields (schema : Schema) : List Field :=
  schema.fields.filter fun f => f.name ≠ settingsName

/-- Names of a row check that no field may have. -/
def reservedNames : List String :=
  ["model_validate", "model_validate_json", "model_validate_strings", "model_dump",
    "model_dump_json"]

/-- Why no row can be checked against a schema, if that is so. Names come before lengths. -/
def rowFault? (schema : Schema) (defaultLength : Option Number) : Option Fault :=
  match schema.fieldNames.find? (reservedNames.contains ·) with
  | some name => some (.value (.reservedName name))
  | none =>
      schema.rowFields.findSome? fun f =>
        (f.lengthIssue? defaultLength).map fun issue => .lengthLimit f.name issue

/-- The name under which a key is reported: a truth value as its number. -/
def keyName (key : Value) : String :=
  match key with
  | .bool b => intText b.toInt
  | key =>
      if key.hasLongInteger Text.digitLimit then "<unprintable int object>" else key.shown

/-- What is wrong with a key that may be no field's. -/
def keyIssue? (schema : Schema) (key : Value) : Option (String × EntryIssue) :=
  match key with
  | .str name =>
      if name ∈ schema.rowFields.map (·.name) then none else some (name, .extra)
  | key => some (keyName key, .keyNotText)

/-- What is wrong with a row: fields in schema order, then other keys in row order. -/
def issues (schema : Schema) (defaultLength : Option Number) (row : List (Value × Value)) :
    List (String × EntryIssue) :=
  schema.rowFields.filterMap (fun f =>
      match f.acceptFrom defaultLength row with
      | .error issue => some (f.name, issue)
      | .ok _ => none) ++
    row.filterMap fun entry => schema.keyIssue? entry.1

/-- The record of a row, or all that is wrong with it. -/
def record (schema : Schema) (defaultLength : Option Number) (row : List (Value × Value)) :
    Except (List (String × EntryIssue)) Record :=
  match schema.issues defaultLength row with
  | [] =>
      .ok (schema.rowFields.filterMap fun f =>
        match f.acceptFrom defaultLength row with
        | .ok v => some (f.name, v)
        | .error _ => none)
  | issues => .error issues

/-- The records of rows counted from `index`; the first bad row fails them all. -/
def recordsFrom (schema : Schema) (defaultLength : Option Number) (index : Nat) :
    List Value → Except Fault (List Record)
  | [] => .ok []
  | .map row :: rest =>
      match schema.record defaultLength row with
      | .error issues => .error (.row (some index) (.entries issues))
      | .ok record =>
          match record.lookup finalStep with
          | some v => .error (.kind (.notCallable v.kind))
          | none => (schema.recordsFrom defaultLength (index + 1) rest).map (record :: ·)
  | v :: _ => .error (.row (some index) (.notMapping v.kind))

def records (schema : Schema) (defaultLength : Option Number) (rows : List Value) :
    Except Fault (List Record) :=
  match schema.rowFault? defaultLength with
  | some fault => .error fault
  | none => schema.recordsFrom defaultLength 0 rows

end Schema

namespace Rows

/-- A pair of a key and a value: a list, tuple or map of two items or a text of two characters. -/
def pair (position : Nat) (v : Value) : Except Fault (Value × Value) :=
  match v.items with
  | .ok [key, value] => .ok (key, value)
  | .ok items => .error (.value (.pairLength position items.length))
  | .error _ => .error (.kind (.notPair position))

/-- The map of pairs, with those before `position` in `entries`. Of equal keys the first place
and the last value count. -/
def ofPairs (entries : List (Value × Value)) (position : Nat) :
    List Value → Except Fault (List (Value × Value))
  | [] => .ok entries
  | v :: rest => do
      let (key, value) ← pair position v
      ofPairs (Value.assign (← key.asKey) value entries) (position + 1) rest

/-- A value as a map: a map as it is, anything else by its items as pairs. -/
def ofValue : Value → Except Fault Value
  | .map entries => .ok (.map entries)
  | v => do return .map (← ofPairs [] 0 (← v.items))

/-- One row or several, each a map or pairs. -/
def ensure (data : Value) : Except Fault (List Value) :=
  match data with
  | .map entries => .ok [.map entries]
  | data =>
      match (do (← data.items).mapM ofValue) with
      | .error (.kind cause) => .error (.row none (.unreadable cause))
      | .error (.value cause) => .error (.row none (.unpaired cause))
      | result => result

end Rows

end ScalarStore
