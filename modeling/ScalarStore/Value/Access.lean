import ScalarStore.Fault

/-! # Access to values of unknown kind

Each way of taking a value apart is defined for some kinds and a fault for the others. -/

namespace ScalarStore.Value

/-- The items of a value that holds several: of a text its characters, of a map its keys. -/
def items : Value → Except Fault (List Value)
  | .str s => .ok (characters s)
  | .list items | .tuple items => .ok items
  | .map entries => .ok (entries.map (·.1))
  | v => .error (.kind (.notIterable v.kind))

/-- The entries of a map. -/
def entries : Value → Except Fault (List (Value × Value))
  | .map entries => .ok entries
  | v => .error (.noMember v.kind "items")

/-- The items of a value; a value that counts as nothing has none. -/
def itemsOrNone (v : Value) : Except Fault (List Value) := if v.truthy then v.items else .ok []

/-- The entries of a value; a value that counts as nothing has none. -/
def entriesOrNone (v : Value) : Except Fault (List (Value × Value)) :=
  if v.truthy then v.entries else .ok []

/-- The value at a name that must be present. -/
def required (v : Value) (name : String) : Except Fault Value :=
  match v with
  | .map entries =>
      match lookup (.str name) entries with
      | some value => .ok value
      | none => .error (.missingKey name)
  | .list _ => .error (.kind .listIndex)
  | .tuple _ => .error (.kind .tupleIndex)
  | .str _ => .error (.kind .textIndex)
  | v => .error (.kind (.notIndexed v.kind))

/-- The value at a name, or a default if the map lacks it. -/
def optional (v : Value) (name : String) (default : Value) : Except Fault Value :=
  match v with
  | .map entries => .ok ((lookup (.str name) entries).getD default)
  | v => .error (.noMember v.kind "get")

/-- The text of a value, which must not hold an integer too long to be written. -/
def written (v : Value) : Except Fault String :=
  if v.hasLongInteger Text.digitLimit then .error (.value .integerUnwritable) else .ok v.plain

/-- The same in the form of reports. -/
def writtenCell (v : Value) : Except Fault String :=
  if v.hasLongInteger Text.digitLimit then .error (.value .integerUnwritable) else .ok v.cellText

/-- Refuses lists and maps, which cannot be keys, and tuples that hold any. -/
def asKey (v : Value) : Except Fault Value :=
  match v.nonKey? with
  | none => .ok v
  | some w => .error (.kind (.notKey w.kind))

end ScalarStore.Value
