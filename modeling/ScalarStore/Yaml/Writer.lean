import ScalarStore.Text.Quoted
import ScalarStore.Value.Text
import ScalarStore.Yaml.Line
import ScalarStore.Yaml.Scalar

/-! # Writing YAML

Maps, lists and tuples are written in block form, the items of a list at the column of the key they
belong to, and tuples as lists. A text stands plain where that reads back as the same text, else
between quotes, and a long one is continued on the next line. -/

namespace ScalarStore.Yaml

/-! ## Styles -/

inductive Style
  | plain | single | double
deriving DecidableEq

/-- Characters that may stand in a scalar outside double quotes. -/
def isOrdinary (c : Char) : Bool := c == '\n' || (32 ≤ c.toNat && c.toNat < 127)

def hasLineBreak (cs : List Char) : Bool := cs.any isBreak

/-- Whether two neighbours in a list satisfy a condition. -/
def anyNeighbours (p : Char → Char → Bool) : List Char → Bool
  | c :: d :: rest => p c d || anyNeighbours p (d :: rest)
  | _ => false

/-- Characters that mean something at the start of a scalar, the last three only before a space
or alone. -/
def startsAsMark (cs : List Char) : Bool :=
  match cs with
  | [] => false
  | c :: rest =>
      "#,[]\x7b\x7d&*!|>'\x22%@\x60".toList.contains c ||
        ("?:-".toList.contains c && (rest.isEmpty || rest.head? == some ' '))

/-- Whether something in a text would end a plain scalar or start a document. -/
def breaksPlain (cs : List Char) : Bool :=
  startsAsMark cs || "---".toList.isPrefixOf cs || "...".toList.isPrefixOf cs ||
    cs.getLast? == some ':' ||
    anyNeighbours (fun c d => (c == ':' && d == ' ') || (c == ' ' && d == '#')) cs

def allowsPlain (cs : List Char) : Bool :=
  cs.all isOrdinary && !hasLineBreak cs && cs.head? != some ' ' && cs.getLast? != some ' ' &&
    !breaksPlain cs

/-- Spaces beside a line break would be lost between single quotes. -/
def allowsSingle (cs : List Char) : Bool :=
  cs.all isOrdinary &&
    !anyNeighbours (fun c d => (c == '\n' && d == ' ') || (c == ' ' && d == '\n')) cs

/-- The style of a text. A key stays on one line. -/
def styleOf (isKey : Bool) (cs : List Char) : Style :=
  if Tag.ofPlain cs = .str && allowsPlain cs then .plain
  else if allowsSingle cs && !(isKey && hasLineBreak cs) then .single
  else .double

/-! ## Texts -/

/-- Lines are continued at the first chance behind this column. -/
def lineWidth : Nat := 80

def spaces (n : Nat) : List Char := List.replicate n ' '

/-- A text from a column on, plain or between single quotes. A single space behind the line
width becomes a line break; a run of line breaks is written with one more. -/
def wrapWords (wraps doublesQuotes : Bool) (indent column : Nat) (before : Option Char) :
    List Char → List Char
  | [] => []
  | c :: rest =>
      let next := rest.head?
      if c = '\n' then
        (if before = some '\n' then [] else ['\n']) ++
          if next = some '\n' then '\n' :: wrapWords wraps doublesQuotes indent 0 (some c) rest
          else '\n' :: spaces indent ++ wrapWords wraps doublesQuotes indent indent (some c) rest
      else if c = ' ' ∧ wraps ∧ lineWidth < column ∧ before ≠ none ∧ before ≠ some ' ' ∧
          next ≠ none ∧ next ≠ some ' ' then
        '\n' :: spaces indent ++ wrapWords wraps doublesQuotes indent indent (some c) rest
      else if c = '\x27' ∧ doublesQuotes then
        c :: c :: wrapWords wraps doublesQuotes indent (column + 2) (some c) rest
      else c :: wrapWords wraps doublesQuotes indent (column + 1) (some c) rest

/-- The letter that stands for a character behind a backslash. -/
def escapeLetter? (c : Char) : Option Char :=
  (['\x00', '\x07', '\x08', '\t', '\n', '\x0b', '\x0c', '\r', '\x1b', '\x22', '\\', '\u0085',
      '\u00a0', '\u2028', '\u2029'].zip
    ['0', 'a', 'b', 't', 'n', 'v', 'f', 'r', 'e', '\x22', '\\', 'N', '_', 'L', 'P']).lookup c

/-- At least `width` hexadecimal digits in upper case. -/
def hexUpper (width n : Nat) : List Char := (Text.hexDigits width n).map Char.toUpper

/-- The escape of a character that does not stand for itself between double quotes. -/
def escape? (c : Char) : Option (List Char) :=
  match escapeLetter? c with
  | some letter => some ['\\', letter]
  | none =>
      let n := c.toNat
      if 32 ≤ n ∧ n < 127 then none
      else if n < 0x100 then some ('\\' :: 'x' :: hexUpper 2 n)
      else if n < 0x10000 then some ('\\' :: 'u' :: hexUpper 4 n)
      else some ('\\' :: 'U' :: hexUpper 8 n)

/-- A text from a column on between double quotes. A backslash ends a line that goes on; it may
stand before a space, before the character behind an escape and behind an escape. -/
def wrapEscaped (wraps : Bool) (indent column : Nat) (isFirst afterEscape : Bool) :
    List Char → List Char
  | [] => []
  | c :: rest =>
      let inner := wraps && !isFirst && !rest.isEmpty
      match escape? c with
      | some escaped =>
          let column := column + escaped.length
          if inner ∧ lineWidth + 1 < column then
            if rest.head? = some ' ' then
              escaped ++ '\\' :: '\n' :: spaces indent ++
                '\\' :: wrapEscaped wraps indent (indent + 1) false true rest
            else
              escaped ++ '\\' :: '\n' :: spaces indent ++
                wrapEscaped wraps indent indent false true rest
          else escaped ++ wrapEscaped wraps indent column false true rest
      | none =>
          if inner ∧ (c = ' ' ∨ afterEscape) ∧ lineWidth < column then
            if c = ' ' then
              '\\' :: '\n' :: spaces indent ++
                '\\' :: c :: wrapEscaped wraps indent (indent + 2) false false rest
            else
              '\\' :: '\n' :: spaces indent ++
                c :: wrapEscaped wraps indent (indent + 1) false false rest
          else c :: wrapEscaped wraps indent (column + 1) false false rest

/-- A text from a column on. A key is never continued on the next line. -/
def writeText (isKey : Bool) (indent column : Nat) (cs : List Char) : List Char :=
  match styleOf isKey cs with
  | .plain => wrapWords (!isKey) false indent column none cs
  | .single =>
      '\x27' :: wrapWords (!isKey) true indent (column + 1) none cs ++ ['\x27']
  | .double => '\x22' :: wrapEscaped (!isKey) indent (column + 1) true false cs ++ ['\x22']

/-! ## Values -/

/-- A real number in a form that has a point. -/
def writeReal : Binary64 → List Char
  | .nan _ => ".nan".toList
  | .infinite negative => (if negative then "-.inf" else ".inf").toList
  | x =>
      let cs := x.text.toList
      if '.' ∈ cs then cs
      else cs.takeWhile (· != 'e') ++ '.' :: '0' :: cs.dropWhile (· != 'e')

/-- A value on one line, or a text from a column on. -/
def writeScalar (isKey : Bool) (indent column : Nat) : Value → List Char
  | .null => "null".toList
  | .bool b => (if b then "true" else "false").toList
  | .int n => (intText n).toList
  | .float x => writeReal x
  | .str s => writeText isKey indent column s.toList
  | .day d => d.text.toList
  | .moment m => wrapWords (!isKey) false indent column none m.text.toList
  | .list _ | .tuple _ => "[]".toList
  | .map _ => "\x7b\x7d".toList

/-- The longest key that stands before its colon on one line, less the name of its kind. -/
def keyRoom : Value → Nat
  | .null => 121
  | .bool _ => 121
  | .float _ => 120
  | .day _ => 116
  | .moment _ => 116
  | _ => 122

/-- Whether a key is a short one on one line. -/
def isSimpleKey (key : Value) : Bool :=
  match key with
  | .str s => s != "" && !hasLineBreak s.toList && s.length ≤ keyRoom key
  | .tuple items => items.isEmpty
  | key => (writeScalar true 0 0 key).length ≤ keyRoom key

def newLine (indent : Nat) : List Char := '\n' :: spaces indent

/-- Where a value stands: behind the colon of a key that ends at a column, or behind a mark, which
is a dash, a question mark or the colon that answers one. -/
inductive Place
  | behindKey (column : Nat)
  | behindMark

/-- The indentation of a list at a place, and what leads to its first item. Behind a mark the
first item stands on the same line. -/
def listIndent (indent : Nat) : Place → List Char × Nat
  | .behindKey _ => (newLine indent, indent)
  | .behindMark => ([' '], indent + 2)

/-- The indentation of a map at a place, and what leads to its first entry. -/
def mapIndent (indent : Nat) : Place → List Char × Nat
  | .behindKey _ => (newLine (indent + 2), indent + 2)
  | .behindMark => ([' '], indent + 2)

/-- The column of a scalar at a place. -/
def scalarColumn (indent : Nat) : Place → Nat
  | .behindKey column => column + 1
  | .behindMark => indent + 2

mutual

/-- A value of a collection at `indent`. -/
def writeValue (indent : Nat) (place : Place) : Value → List Char
  | .list items | .tuple items =>
      if items.isEmpty then " []".toList
      else
        let (lead, inner) := listIndent indent place
        writeItems lead inner items
  | .map entries =>
      if entries.isEmpty then " \x7b\x7d".toList
      else
        let (lead, inner) := mapIndent indent place
        writeEntries lead inner entries
  | v => ' ' :: writeScalar false (indent + 2) (scalarColumn indent place) v

/-- Items, the first behind `lead` and the others on lines of their own. -/
def writeItems (lead : List Char) (indent : Nat) : List Value → List Char
  | [] => []
  | v :: rest =>
      lead ++ '-' :: writeValue indent .behindMark v ++ writeItems (newLine indent) indent rest

/-- Entries, the first behind `lead` and the others on lines of their own. A key that is not
simple stands behind a question mark, and the colon on the next line. -/
def writeEntries (lead : List Char) (indent : Nat) : List (Value × Value) → List Char
  | [] => []
  | (key, v) :: rest =>
      if isSimpleKey key then
        let name := writeScalar true (indent + 2) indent key
        lead ++ name ++ ':' :: writeValue indent (.behindKey (indent + name.length + 1)) v ++
          writeEntries (newLine indent) indent rest
      else
        lead ++ '?' :: writeValue indent .behindMark key ++ newLine indent ++
          ':' :: writeValue indent .behindMark v ++ writeEntries (newLine indent) indent rest

end

/-- A document that is a map. -/
def write (entries : List (Value × Value)) : String :=
  String.ofList (
    (if entries.isEmpty then "\x7b\x7d".toList else writeEntries [] 0 entries) ++ ['\n'])

end ScalarStore.Yaml
