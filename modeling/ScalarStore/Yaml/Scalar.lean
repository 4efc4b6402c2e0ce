import ScalarStore.Calendar
import ScalarStore.Text.Integer
import ScalarStore.Value.Basic

/-! # Scalars

The tag of a scalar tells how its text is read. A plain scalar has the tag of the first form
that it fits: a word for nothing or a truth value, a number, a day or moment, a mark with a
meaning of its own, or else a text. -/

namespace ScalarStore.Yaml

/-- The last two are of a reference within its own node, which stands for no value, and of names
without a meaning. -/
inductive Tag
  | null | bool | int | float | time | str | list | map | merge | main
  | endless
  | other (name : String)
deriving DecidableEq

/-- What the names of the tags above start with. -/
def tagSpace : String := "tag:yaml.org,2002:"

namespace Tag

/-- The tags with a meaning, by their names. -/
def known : List (String × Tag) :=
  ["null", "bool", "int", "float", "timestamp", "str", "seq", "map", "merge", "value"].map
      (tagSpace ++ ·) |>.zip
    [null, bool, int, float, time, str, list, map, merge, main]

def ofName (name : String) : Tag := (known.lookup name).getD (.other name)

def name (tag : Tag) : String :=
  match tag with
  | .other name => name
  | tag => ((known.find? (·.2 = tag)).map (·.1)).getD ""

end Tag

/-- Why a text cannot be read as its tag asks. -/
inductive ScalarFault
  | nothing
  | integer (base : Nat) (text : String)
  | longInteger (digits : Nat)
  | real (text : String)
  | truth (word : String)
  | time
  | calendar (fault : CalendarFault)
deriving DecidableEq

/-! ## Digits -/

def isDigit (c : Char) : Bool := 48 ≤ c.toNat && c.toNat ≤ 57

/-- Digits of numbers may have underscores between and behind them. -/
def isDigitOrGap (c : Char) : Bool := isDigit c || c == '_'

def withoutGaps (cs : List Char) : List Char := cs.filter (· != '_')

/-- The value of a digit; letters go on from ten. -/
def digitValue? (c : Char) : Option Nat :=
  if isDigit c then some (c.toNat - 48)
  else if 97 ≤ c.toLower.toNat ∧ c.toLower.toNat ≤ 102 then some (c.toLower.toNat - 87)
  else none

def isDigitOf (base : Nat) (c : Char) : Bool := (digitValue? c).any (· < base)

/-- The number that digits write in a base. -/
def inBase (base : Nat) (cs : List Char) : Nat :=
  (cs.filterMap digitValue?).foldl (base * · + ·) 0

/-- The parts of a list between separators. -/
def splitAt (separator : Char) : List Char → List (List Char)
  | [] => [[]]
  | c :: rest =>
      if c = separator then [] :: splitAt separator rest
      else
        match splitAt separator rest with
        | [] => [[c]]
        | part :: parts => (c :: part) :: parts

def startsWithDigit (cs : List Char) : Bool := cs.head?.any isDigit

/-- One digit, or two of which the first is at most five. -/
def isSixtieth : List Char → Bool
  | [c] => isDigit c
  | [c, d] => isDigit c && c.toNat ≤ 53 && isDigit d
  | _ => false

/-! ## Words -/

def nullWords : List String := ["", "~", "null", "Null", "NULL"]

def trueWords : List String := ["yes", "Yes", "YES", "true", "True", "TRUE", "on", "On", "ON"]

def falseWords : List String := ["no", "No", "NO", "false", "False", "FALSE", "off", "Off", "OFF"]

/-- The truth value of a word in any letter case. -/
def truthOf (cs : List Char) : Except ScalarFault Bool :=
  let word := Text.lower (String.ofList cs)
  if word ∈ trueWords then .ok true
  else if word ∈ falseWords then .ok false
  else .error (.truth word)

/-! ## Integers -/

/-- Integers have base two, sixteen or eight if they start with `0b`, `0x` or another zero, else
base ten, or base sixty with colons between the digits. -/
def isInteger (cs : List Char) : Bool :=
  match (Text.splitSign cs).2 with
  | '0' :: 'b' :: ds => !ds.isEmpty && ds.all fun c => isDigitOf 2 c || c == '_'
  | '0' :: 'x' :: ds => !ds.isEmpty && ds.all fun c => isDigitOf 16 c || c == '_'
  | '0' :: ds => ds.all fun c => isDigitOf 8 c || c == '_'
  | body =>
      match splitAt ':' body with
      | [] => false
      | whole :: sixtieths =>
          startsWithDigit whole && whole.all isDigitOrGap && sixtieths.all isSixtieth

/-- The letter that stands behind a zero before the digits of a base. -/
def baseLetter? (base : Nat) : Option Char := [(2, 'b'), (8, 'o'), (16, 'x')].lookup base

/-- Digits without the mark of their base, if it is there. -/
def withoutBase (base : Nat) (cs : List Char) : List Char :=
  match cs with
  | '0' :: letter :: ds => if baseLetter? base = some letter.toLower then ds else cs
  | _ => cs

/-- An integer in a base with perhaps a sign and white space around. -/
def digitsOf (base : Nat) (cs : List Char) : Except ScalarFault Int :=
  let (negative, body) := Text.splitSign (Text.trim Text.isIntegerBlank cs)
  let ds := withoutBase base body
  if ds ≠ [] ∧ ds.all (isDigitOf base) then
    let n : Int := inBase base ds
    .ok (if negative then -n else n)
  else .error (.integer base (String.ofList cs))

def decimalOf (cs : List Char) : Except ScalarFault Int :=
  match Text.readInteger (String.ofList cs) with
  | .ok n => .ok n
  | .error .malformed => .error (.integer 10 (String.ofList cs))
  | .error (.tooLong digits) => .error (.longInteger digits)

def naturalOf (cs : List Char) : Except ScalarFault Int :=
  match cs with
  | [] => .error .nothing
  | ['0'] => .ok 0
  | '0' :: 'b' :: ds => digitsOf 2 ds
  | '0' :: 'x' :: ds => digitsOf 16 ds
  | '0' :: ds => digitsOf 8 ('0' :: ds)
  | cs => do return (← (splitAt ':' cs).mapM decimalOf).foldl (fun n part => 60 * n + part) 0

def integerOf (cs : List Char) : Except ScalarFault Int := do
  let (negative, body) := Text.splitSign (withoutGaps cs)
  let n ← naturalOf body
  return if negative then -n else n

/-! ## Real numbers -/

/-- Whether a text is nothing or a signed power of ten. -/
def isPower : List Char → Bool
  | [] => true
  | e :: sign :: ds =>
      (e == 'e' || e == 'E') && (sign == '+' || sign == '-') && !ds.isEmpty && ds.all isDigit
  | _ => false

def infinityWords : List String := [".inf", ".Inf", ".INF"]

def nanWords : List String := [".nan", ".NaN", ".NAN"]

/-- The one object that these words are read as, which is not that of other readers. -/
def nan : Binary64 := .nan (some 1)

/-- A real number has a point. The digits before it may be left out in a number without sign,
and stand in base sixty in one without power. -/
def isReal (cs : List Char) : Bool :=
  let body := (Text.splitSign cs).2
  let isSigned := body.length < cs.length
  String.ofList body ∈ infinityWords || String.ofList cs ∈ nanWords ||
    match body.dropWhile (· != '.') with
    | [] => false
    | _ :: rest =>
        let behind := rest.dropWhile isDigitOrGap
        match splitAt ':' (body.takeWhile (· != '.')) with
        | [] => false
        | [[]] => !isSigned && startsWithDigit rest && isPower behind
        | [whole] => startsWithDigit whole && whole.all isDigitOrGap && isPower behind
        | whole :: sixtieths =>
            startsWithDigit whole && whole.all isDigitOrGap && sixtieths.all isSixtieth &&
              behind.isEmpty

/-- The power of ten that stands behind a letter, if any. -/
def powerOf? : List Char → Option Int
  | [] => some 0
  | _ :: cs =>
      let (negative, ds) := Text.splitSign cs
      if ds ≠ [] ∧ ds.all isDigit then
        let n : Int := inBase 10 ds
        some (if negative then -n else n)
      else none

/-- An unsigned number in small letters with perhaps a point and a power of ten. -/
def magnitude? (cs : List Char) : Option Binary64 :=
  let number := cs.takeWhile (· != 'e')
  let whole := number.takeWhile (· != '.')
  let fraction := (number.dropWhile (· != '.')).drop 1
  if String.ofList cs ∈ ["inf", "infinity"] then some (.infinite false)
  else if String.ofList cs = "nan" then some .nan
  else if (whole ++ fraction).isEmpty || !(whole ++ fraction).all isDigit then none
  else do
    let power ← powerOf? (cs.dropWhile (· != 'e'))
    return .ofDecimal false (inBase 10 (whole ++ fraction)) (power - fraction.length)

/-- A real number with perhaps a sign and white space around. -/
def decimalRealOf (cs : List Char) : Except ScalarFault Binary64 :=
  let (negative, body) := Text.splitSign (Text.trim Text.isBlank cs)
  match magnitude? body with
  | some x => .ok (if negative then x.neg else x)
  | none => .error (.real (String.ofList cs))

/-- Numbers in base sixty, the last of which counts one; each step is rounded. -/
def sixtiethsSum (parts : List Binary64) : Binary64 :=
  (parts.foldr (fun part (sum, base) => (sum.add (part.times base), 60 * base))
    (Binary64.zero false, 1)).1

def realOf (cs : List Char) : Except ScalarFault Binary64 := do
  if withoutGaps cs = [] then throw .nothing
  let (negative, body) := Text.splitSign ((withoutGaps cs).map Char.toLower)
  if body = ".nan".toList then return nan
  let x ←
    if body = ".inf".toList then .ok (.infinite false)
    else if ':' ∈ body then ((splitAt ':' body).mapM decimalRealOf).map sixtiethsSum
    else decimalRealOf body
  return if negative then x.neg else x

/-! ## Days and moments -/

structure Clock where
  hour : Nat
  minute : Nat
  second : Nat
  micro : Nat
  zone : Option Int

/-- The parts of a day and of a time on it. -/
structure Time where
  year : Nat
  month : Nat
  day : Nat
  clock : Option Clock

def isBlank (c : Char) : Bool := c == ' ' || c == '\t'

/-- A number whose digits are as many as one of the counts. -/
def number? (counts : List Nat) (cs : List Char) : Option Nat :=
  if cs.all isDigit ∧ cs.length ∈ counts then some (inBase 10 cs) else none

/-- A zone in minutes: nothing, `Z`, or hours and perhaps minutes behind a sign. -/
def zone? (cs : List Char) : Option (Option Int) :=
  match cs.dropWhile isBlank with
  | [] => if cs = [] then some none else none
  | ['Z'] => some (some 0)
  | sign :: rest => do
      guard (sign = '+' ∨ sign = '-')
      let (hours, minutes) ←
        match splitAt ':' rest with
        | [hours] => pure (hours, "00".toList)
        | [hours, minutes] => pure (hours, minutes)
        | _ => none
      let minutes : Int := 60 * (← number? [1, 2] hours) + (← number? [2] minutes)
      return some (if sign = '-' then -minutes else minutes)

/-- Hours, minutes and seconds with perhaps a fraction and a zone. Of the fraction six digits
count. -/
def clock? (cs : List Char) : Option Clock :=
  match splitAt ':' cs with
  | hours :: minutes :: seconds :: more => do
      let behind := [':'].intercalate (seconds.drop 2 :: more)
      let hasPoint := behind.head? = some '.'
      let fraction := if hasPoint then (behind.drop 1).takeWhile isDigit else []
      let zone ← zone? (if hasPoint then (behind.drop 1).dropWhile isDigit else behind)
      let micro := inBase 10 ((fraction ++ List.replicate 6 '0').take 6)
      return ⟨← number? [1, 2] hours, ← number? [2] minutes, ← number? [2] (seconds.take 2), micro,
        zone⟩
  | _ => none

/-- Year, month and day between dashes, and perhaps a time behind `T`, `t` or white space. -/
def time? (cs : List Char) : Option Time :=
  match splitAt '-' cs with
  | year :: month :: rest => do
      let behind := ['-'].intercalate rest
      let clock ←
        match behind.dropWhile isDigit with
        | [] => pure none
        | c :: time =>
            if c = 'T' ∨ c = 't' then some <$> clock? time
            else if isBlank c then some <$> clock? (time.dropWhile isBlank)
            else none
      return ⟨← number? [4] year, ← number? [1, 2] month,
        ← number? [1, 2] (behind.takeWhile isDigit), clock⟩
  | _ => none

/-- A day without time has all its digits. -/
def isTime (cs : List Char) : Bool :=
  match time? cs with
  | none => false
  | some time => time.clock.isSome || cs.length == 10

def timeOf (cs : List Char) : Except ScalarFault Value :=
  match time? cs with
  | none => .error .time
  | some ⟨year, month, day, none⟩ =>
      ((Day.make year month day).map .day).mapError .calendar
  | some ⟨year, month, day, some c⟩ =>
      ((Moment.make year month day c.hour c.minute c.second c.micro c.zone).map .moment).mapError
        .calendar

/-! ## Tags and values -/

/-- The tag of a plain scalar. -/
def Tag.ofPlain (cs : List Char) : Tag :=
  let word := String.ofList cs
  if word ∈ nullWords then .null
  else if word ∈ trueWords ∨ word ∈ falseWords then .bool
  else if isReal cs then .float
  else if isInteger cs then .int
  else if isTime cs then .time
  else if word = "<<" then .merge
  else if word = "=" then .main
  else .str

/-- The value of a text by its tag; tags that are not for scalars count as for texts. -/
def valueOf (tag : Tag) (cs : List Char) : Except ScalarFault Value :=
  match tag with
  | .null => .ok .null
  | .bool => (truthOf cs).map .bool
  | .int => (integerOf cs).map .int
  | .float => (realOf cs).map .float
  | .time => timeOf cs
  | _ => .ok (.str (String.ofList cs))

end ScalarStore.Yaml
