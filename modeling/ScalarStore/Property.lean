import ScalarStore.Table
import ScalarStore.Text.Integer
import ScalarStore.Value.Access

/-! # Collection properties

Properties are texts. Two keys have a meaning: the time to live of rows in seconds, where 0
turns expiry off, and memory mapping. Their values are checked; all others pass through. -/

namespace ScalarStore

abbrev Properties := Table String

namespace Property

def ttlKey : String := "collection.ttl.seconds"

def mmapKey : String := "mmap.enabled"

/-- The integer that a value stands for: digits in a text, or the whole part of a number. -/
def wholeNumber? (v : Value) : Except Fault (Option Int) :=
  match v with
  | .str s =>
      match Text.readInteger s with
      | .ok n => .ok (some n)
      | .error _ => .ok none
  | .bool b => .ok (some b.toInt)
  | .int n => .ok (some n)
  | .float (.infinite _) => .error (.overflow .infinityToInteger)
  | .float x => .ok x.truncate?
  | _ => .ok none

/-- A time to live, which is not negative. -/
def readTtl (v : Value) : Except Fault Int := do
  match ← wholeNumber? v with
  | none =>
      let _ ← v.written
      refuse (.ttlText v)
  | some n => if n < 0 then refuse .ttlNegative else return n

/-- `true` or `false` in letters of any case. -/
def readMmap (v : Value) : Except Fault Bool := do
  let word := Text.lower (← v.written)
  if word = "true" then return true
  if word = "false" then return false
  refuse (.mmapText v)

/-- Checks the values at the keys that have a meaning. -/
def check (find : String → Option Value) : Except Fault Unit := do
  if let some v := find ttlKey then
    let _ ← readTtl v
  if let some v := find mmapKey then
    let _ ← readMmap v

/-- A property as it is stored: truth values in lower case. -/
def storedText : Value → Except Fault String
  | .bool b => .ok (if b then "true" else "false")
  | v => v.written

/-- The properties that a map of any values stands for. -/
def ofEntries (entries : List (Value × Value)) : Except Fault Properties := do
  let texts ← entries.mapM fun (key, value) => do return (← key.written, ← storedText value)
  return Table.ofList texts

end Property

namespace Properties

def find (properties : Properties) (key : String) : Option Value :=
  (properties.get? key).map Value.str

/-- The time to live, or none if it is not set. -/
def ttl? (properties : Properties) : Except Fault (Option Int) :=
  match properties.get? Property.ttlKey with
  | none => .ok none
  | some s => (Property.readTtl (.str s)).map some

def mmap? (properties : Properties) : Except Fault (Option Bool) :=
  match properties.get? Property.mmapKey with
  | none => .ok none
  | some s => (Property.readMmap (.str s)).map some

/-- The properties as a document. -/
def document (properties : Properties) : Value :=
  .map (properties.entries.map fun (key, value) => (.str key, .str value))

end Properties

end ScalarStore
