import ScalarStore.Value.Basic
import ScalarStore.Text.Quoted

/-! # The text of a value

`shown` is the form in messages, which quotes texts; `plain` leaves a text that stands alone as
it is; `cellText` is the form in reports. -/

namespace ScalarStore.Value

def boolWord (b : Bool) : String := if b then "True" else "False"

/-- A distance in minutes as it is written in messages: whole days and the seconds beyond them. -/
def shownSpan (minutes : Int) : String :=
  let days := minutes / 1440
  let seconds := minutes % 1440 * 60
  let parts :=
    (if days = 0 then [] else ["days=" ++ intText days]) ++
      (if seconds = 0 then [] else ["seconds=" ++ intText seconds])
  "datetime.timedelta(" ++ (if parts = [] then "0" else ", ".intercalate parts) ++ ")"

def shownDay (d : Day) : String :=
  "datetime.date(" ++ ", ".intercalate ([d.year, d.month, d.day].map Nat.repr) ++ ")"

/-- A moment as it is written in messages, less the parts behind the minute that are zero. -/
def shownMoment (m : Moment) : String :=
  let time :=
    if m.micro ≠ 0 then [m.hour, m.minute, m.second, m.micro]
    else if m.second ≠ 0 then [m.hour, m.minute, m.second]
    else [m.hour, m.minute]
  let zone := match m.zone with
    | none => []
    | some 0 => ["tzinfo=datetime.timezone.utc"]
    | some minutes => ["tzinfo=datetime.timezone(" ++ shownSpan minutes ++ ")"]
  "datetime.datetime(" ++
    ", ".intercalate (([m.day.year, m.day.month, m.day.day] ++ time).map Nat.repr ++ zone) ++ ")"

/-- Items as a tuple is written; a single one is followed by a comma. -/
def tupleText (items : List String) : String :=
  match items with
  | [item] => "(" ++ item ++ ",)"
  | items => "(" ++ ", ".intercalate items ++ ")"

mutual

/-- A value as it is written in messages. -/
def shown : Value → String
  | .null => "None"
  | .bool b => boolWord b
  | .int n => intText n
  | .float x => x.text
  | .str s => Text.quoted s
  | .day d => shownDay d
  | .moment m => shownMoment m
  | .list items => "[" ++ ", ".intercalate (shownItems items) ++ "]"
  | .tuple items => tupleText (shownItems items)
  | .map entries => "\x7b" ++ ", ".intercalate (shownEntries entries) ++ "\x7d"

def shownItems : List Value → List String
  | [] => []
  | v :: rest => shown v :: shownItems rest

def shownEntries : List (Value × Value) → List String
  | [] => []
  | (k, v) :: rest => (shown k ++ ": " ++ shown v) :: shownEntries rest

end

/-- A text, a day or a moment as it is, any other value as in messages. -/
def plain : Value → String
  | .str s => s
  | .day d => d.text
  | .moment m => m.text
  | v => shown v

/-- A cell or a property value in a report: truth values in lower case, nothing for `null`,
items of a list or tuple joined by commas. -/
def cellText : Value → String
  | .null => ""
  | .bool b => if b then "true" else "false"
  | .list items | .tuple items => ", ".intercalate (cellTexts items)
  | v => plain v
where
  cellTexts : List Value → List String
    | [] => []
    | v :: rest => cellText v :: cellTexts rest

mutual

/-- Whether a value holds an integer too long to be written in decimal. -/
def hasLongInteger (limit : Nat) : Value → Bool
  | .int n => limit < digitCount n.natAbs
  | .list items | .tuple items => itemsHaveLongInteger limit items
  | .map entries => entriesHaveLongInteger limit entries
  | _ => false

def itemsHaveLongInteger (limit : Nat) : List Value → Bool
  | [] => false
  | v :: rest => hasLongInteger limit v || itemsHaveLongInteger limit rest

def entriesHaveLongInteger (limit : Nat) : List (Value × Value) → Bool
  | [] => false
  | (k, v) :: rest =>
      hasLongInteger limit k || hasLongInteger limit v || entriesHaveLongInteger limit rest

end

/-- Why a value cannot be written: an integer that is too long, or a key that is no text and
stands for none. -/
inductive Obstacle
  | longInteger
  | key (kind : Kind)
deriving DecidableEq

end ScalarStore.Value
