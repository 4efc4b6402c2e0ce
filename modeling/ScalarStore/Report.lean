import ScalarStore.Schema.Row
import ScalarStore.Value.Text

/-! # Reports

Rows as a grid of aligned columns, and maps as lines of keys and values. Lines of a grid hold no
white space at their end; `ruler` alone keeps its dashes in full. What is printed ends before the
first line that cannot be written. -/

namespace ScalarStore.Report

/-- A text that was printed, and the fault that ended it, if one did. -/
structure Printed where
  text : String
  fault : Option Fault

namespace Printed

def ofText (text : String) : Printed := ⟨text, none⟩

/-- Nothing is printed behind a fault. -/
def append (a b : Printed) : Printed :=
  if a.fault.isSome then a else ⟨a.text ++ b.text, b.fault⟩

instance : Append Printed := ⟨append⟩

/-- Lines up to the first that cannot be written. -/
def ofLines : List (Except Fault String) → Printed
  | [] => ofText ""
  | .ok line :: rest => ofText (line ++ "\n") ++ ofLines rest
  | .error fault :: _ => ⟨"", some fault⟩

end Printed

/-- Lines, each ended by a line feed. -/
def lines (texts : List String) : String := String.join (texts.map (· ++ "\n"))

/-- A text without the white space at its end. -/
def stripEnd (s : String) : String :=
  String.ofList (s.toList.reverse.dropWhile Text.isBlank).reverse

/-- A text filled up with spaces to a number of characters. -/
def padTo (width : Nat) (s : String) : String :=
  s ++ String.ofList (List.replicate (width - s.length) ' ')

/-- The names of all rows in the order of their first mention. -/
def columnsOf (rows : List Record) : List String := (rows.flatMap (·.map (·.1))).eraseDups

/-- The cell of a row in a column; a row that lacks the name leaves it empty. -/
def cell (row : Record) (column : String) : String := ((row.lookup column).getD .null).cellText

def width (rows : List Record) (column : String) : Nat :=
  (rows.map fun row => (cell row column).length).foldl max column.length

/-- Cells filled up to the widths of their columns, two spaces apart. -/
def gridLine (widths : List Nat) (cells : List String) : String :=
  stripEnd ("  ".intercalate (List.zipWith padTo widths cells))

/-- The line of dashes under the header. -/
def ruler (widths : List Nat) : String :=
  "  ".intercalate (widths.map fun n => String.ofList (List.replicate n '-'))

/-- The number of rows under a label. Without a label there is no such line. -/
def countLines (label : String) (count : Nat) : List String :=
  if label = "" then [] else ["", count.repr ++ " " ++ label]

/-- Rows as a grid, with the columns given or those of the rows. -/
def grid (columns : Option (List String)) (label : String) (rows : List Record) : String :=
  if rows.isEmpty then lines ["No results."]
  else
    let columns := columns.getD (columnsOf rows)
    let widths := columns.map (width rows)
    lines (gridLine widths columns :: ruler widths ::
      rows.map (fun row => gridLine widths (columns.map (cell row))) ++
      countLines label rows.length)

/-- The label of a grid unless another is given. -/
def rowLabel : String := "row(s)"

/-- The spaces before a line at a level. -/
def indentation (level : Nat) : String := String.ofList (List.replicate (2 * level) ' ')

/-- A line at a level with a key and what stands behind its colon. -/
def entryLine (level : Nat) (key : Value) (behind : Except Fault String) :
    Except Fault String := do
  return indentation level ++ (← key.written) ++ ":" ++ (← behind)

/-- The lines of a map, of which inner maps stand one level deeper. -/
def entryLines (level : Nat) : List (Value × Value) → List (Except Fault String)
  | [] => []
  | (key, .map []) :: rest => entryLine level key (.ok " (none)") :: entryLines level rest
  | (key, .map inner) :: rest =>
      entryLine level key (.ok "") :: entryLines (level + 1) inner ++ entryLines level rest
  | (key, v) :: rest =>
      entryLine level key (v.writtenCell.map (" " ++ ·)) :: entryLines level rest

def mapping (level : Nat) (entries : List (Value × Value)) : Printed :=
  .ofLines (entryLines level entries)

/-- A complaint on one line, or on as many as it has. -/
def complaint (message : String) : String := lines ["Error: " ++ message]

end ScalarStore.Report
