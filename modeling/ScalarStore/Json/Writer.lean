import ScalarStore.Text.Digit
import ScalarStore.Text.Quoted
import ScalarStore.Value.Text

/-! # Writing JSON

Two spaces for each level, one item or entry a line, and all characters beyond printable ASCII
escaped, so that any reader of JSON gets the value back; `NaN` and infinities aside, which the
standard lacks, and tuples, which are written as lists. -/

namespace ScalarStore.Json

/-- A 16-bit unit as an escape. -/
def escapeUnit (unit : Nat) : List Char := '\\' :: 'u' :: Text.hexDigits 4 unit

/-- A code point beyond the first plane is written as the two halves of a surrogate pair. -/
def escapeCodePoint (n : Nat) : List Char :=
  if n < 0x10000 then escapeUnit n
  else escapeUnit (0xD800 + (n - 0x10000) / 0x400) ++ escapeUnit (0xDC00 + (n - 0x10000) % 0x400)

def escape (c : Char) : List Char :=
  if c = '\x22' ∨ c = '\\' then ['\\', c]
  else if c = '\n' then ['\\', 'n']
  else if c = '\r' then ['\\', 'r']
  else if c = '\t' then ['\\', 't']
  else if c = '\x08' then ['\\', 'b']
  else if c = '\x0c' then ['\\', 'f']
  else if 32 ≤ c.toNat ∧ c.toNat < 127 then [c]
  else escapeCodePoint c.toNat

def writeText (s : String) : String :=
  String.ofList ('\x22' :: s.toList.flatMap escape ++ ['\x22'])

def writeReal : Binary64 → String
  | .nan _ => "NaN"
  | .infinite negative => if negative then "-Infinity" else "Infinity"
  | x => x.text

/-- The text under which a key is written; keys of other kinds are written as texts. -/
def keyText : Value → String
  | .null => "null"
  | .bool b => if b then "true" else "false"
  | .float x => writeReal x
  | key => key.plain

/-- The line break before an item at a level. -/
def newLine (level : Nat) : String := "\n" ++ String.ofList (List.replicate (2 * level) ' ')

mutual

def writeAt (level : Nat) : Value → String
  | .null => "null"
  | .bool b => if b then "true" else "false"
  | .int n => intText n
  | .float x => writeReal x
  | .str s => writeText s
  | .day d => writeText d.text
  | .moment m => writeText m.text
  | .list [] | .tuple [] => "[]"
  | .list (first :: rest) | .tuple (first :: rest) =>
      "[" ++ newLine (level + 1) ++ writeAt (level + 1) first ++ writeItems (level + 1) rest ++
        newLine level ++ "]"
  | .map [] => "\x7b\x7d"
  | .map ((key, v) :: rest) =>
      "\x7b" ++ newLine (level + 1) ++ writeText (keyText key) ++ ": " ++ writeAt (level + 1) v ++
        writeEntries (level + 1) rest ++ newLine level ++ "\x7d"

/-- Further items, each behind a comma. -/
def writeItems (level : Nat) : List Value → String
  | [] => ""
  | v :: rest => "," ++ newLine level ++ writeAt level v ++ writeItems level rest

/-- Further entries, each behind a comma. -/
def writeEntries (level : Nat) : List (Value × Value) → String
  | [] => ""
  | (key, v) :: rest =>
      "," ++ newLine level ++ writeText (keyText key) ++ ": " ++ writeAt level v ++
        writeEntries level rest

end

def write (v : Value) : String := writeAt 0 v

/-! ## Obstacles -/

/-- The obstacle that a key is: one of no kind that stands for a text, or a long integer. -/
def keyObstacle? (key : Value) : Option Value.Obstacle :=
  match key with
  | .day _ => some (.key .day)
  | .moment _ => some (.key .moment)
  | .list _ => some (.key .list)
  | .tuple _ => some (.key .tuple)
  | .map _ => some (.key .map)
  | key => if key.hasLongInteger Text.digitLimit then some .longInteger else none

mutual

/-- The first thing in a value that cannot be written. -/
def obstacle? : Value → Option Value.Obstacle
  | .list items | .tuple items => itemsObstacle? items
  | .map entries => entriesObstacle? entries
  | v => if v.hasLongInteger Text.digitLimit then some .longInteger else none

def itemsObstacle? : List Value → Option Value.Obstacle
  | [] => none
  | v :: rest => (obstacle? v).or (itemsObstacle? rest)

def entriesObstacle? : List (Value × Value) → Option Value.Obstacle
  | [] => none
  | (key, v) :: rest => (keyObstacle? key).or ((obstacle? v).or (entriesObstacle? rest))

end

end ScalarStore.Json
