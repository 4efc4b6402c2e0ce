import ScalarStore.Calendar

/-! # Values

What rows, literals and documents hold. `identical` decides propositional equality; `same` is
equality by content, under which numbers of different kinds are equal when their values are, and
moments when universal time is. What lists, maps and sets hold is compared by `coincides`, under
which one object also coincides with itself. -/

namespace ScalarStore

/-- The entries of a map keep their order; no two keys of a map coincide. A tuple is a list that
does not change, so that it can be a key; no text is read as one. -/
inductive Value
  | null
  | bool (b : Bool)
  | int (n : Int)
  | float (x : Binary64)
  | str (s : String)
  | day (d : Day)
  | moment (m : Moment)
  | list (items : List Value)
  | tuple (items : List Value)
  | map (entries : List (Value × Value))

inductive Kind
  | null | bool | int | float | str | day | moment | list | tuple | map
deriving DecidableEq

namespace Kind

/-- The name of a kind in messages. -/
def word : Kind → String
  | .null => "NoneType"
  | .bool => "bool"
  | .int => "int"
  | .float => "float"
  | .str => "str"
  | .day => "datetime.date"
  | .moment => "datetime.datetime"
  | .list => "list"
  | .tuple => "tuple"
  | .map => "dict"

/-- The last part of the name. -/
def shortWord : Kind → String
  | .day => "date"
  | .moment => "datetime"
  | kind => kind.word

end Kind

namespace Value

def kind : Value → Kind
  | .null => .null
  | .bool _ => .bool
  | .int _ => .int
  | .float _ => .float
  | .str _ => .str
  | .day _ => .day
  | .moment _ => .moment
  | .list _ => .list
  | .tuple _ => .tuple
  | .map _ => .map

mutual

/-- Equality of values as trees. -/
def identical : Value → Value → Bool
  | .null, .null => true
  | .bool a, .bool b => a == b
  | .int a, .int b => a == b
  | .float a, .float b => a == b
  | .str a, .str b => a == b
  | .day a, .day b => a == b
  | .moment a, .moment b => a == b
  | .list a, .list b => identicalItems a b
  | .tuple a, .tuple b => identicalItems a b
  | .map a, .map b => identicalEntries a b
  | _, _ => false

def identicalItems : List Value → List Value → Bool
  | [], [] => true
  | a :: as, b :: bs => identical a b && identicalItems as bs
  | _, _ => false

def identicalEntries : List (Value × Value) → List (Value × Value) → Bool
  | [], [] => true
  | (k, a) :: as, (l, b) :: bs => identical k l && identical a b && identicalEntries as bs
  | _, _ => false

end

mutual

theorem identical_iff : ∀ a b : Value, identical a b = true ↔ a = b
  | .list a, b => by
      cases b <;> simp [identical]
      exact identicalItems_iff a _
  | .tuple a, b => by
      cases b <;> simp [identical]
      exact identicalItems_iff a _
  | .map a, b => by
      cases b <;> simp [identical]
      exact identicalEntries_iff a _
  | .null, b => by cases b <;> simp [identical]
  | .bool _, b => by cases b <;> simp [identical]
  | .int _, b => by cases b <;> simp [identical]
  | .float _, b => by cases b <;> simp [identical]
  | .str _, b => by cases b <;> simp [identical]
  | .day _, b => by cases b <;> simp [identical]
  | .moment _, b => by cases b <;> simp [identical]

theorem identicalItems_iff : ∀ as bs : List Value, identicalItems as bs = true ↔ as = bs
  | [], bs => by cases bs <;> simp [identicalItems]
  | a :: as, bs => by
      cases bs with
      | nil => simp [identicalItems]
      | cons b bs => simp [identicalItems, identical_iff a b, identicalItems_iff as bs]

theorem identicalEntries_iff :
    ∀ as bs : List (Value × Value), identicalEntries as bs = true ↔ as = bs
  | [], bs => by cases bs <;> simp [identicalEntries]
  | (k, a) :: as, bs => by
      cases bs with
      | nil => simp [identicalEntries]
      | cons b bs =>
          simp [identicalEntries, identical_iff k b.1, identical_iff a b.2,
            identicalEntries_iff as bs, Prod.ext_iff]

end

instance : DecidableEq Value := fun a b => decidable_of_iff _ (identical_iff a b)

/-- The number that a value counts as; truth values count as 0 and 1. -/
def number? : Value → Option Number
  | .bool b => some (.flag b)
  | .int n => some (.whole n)
  | .float x => some (.real x)
  | _ => none

end Value

def Number.toValue : Number → Value
  | .flag b => .bool b
  | .whole n => .int n
  | .real x => .float x

namespace Value

/-- Whether two values are one `nan`, met more than once. -/
def isOneNan : Value → Value → Bool
  | .float (.nan (some a)), .float (.nan (some b)) => a == b
  | _, _ => false

mutual

/-- Equality by content: numbers by value across kinds, lists and tuples item by item, maps by the
values at their keys whatever the order. No value is the same as `nan`, but an item, a key or the
value at a key may be the one that another map or list holds. -/
def same : Value → Value → Bool
  | .null, .null => true
  | .str a, .str b => a == b
  | .day a, .day b => a == b
  | .moment a, .moment b => a.same b
  | .list a, .list b => sameItems a b
  | .tuple a, .tuple b => sameItems a b
  | .map a, .map b => a.length == b.length && sameEntries a b
  | a, b =>
      match a.number?, b.number? with
      | some x, some y => x.compare? y == some .eq
      | _, _ => false

def sameItems : List Value → List Value → Bool
  | [], [] => true
  | a :: as, b :: bs => (same a b || isOneNan a b) && sameItems as bs
  | _, _ => false

def sameEntries : List (Value × Value) → List (Value × Value) → Bool
  | [], _ => true
  | (k, a) :: as, bs =>
      bs.any (fun (l, b) => (same k l || isOneNan k l) && (same a b || isOneNan a b)) &&
        sameEntries as bs

end

/-- Whether two values that are held by lists, maps or sets count as one there: they are the same,
or are one object. -/
def coincides (a b : Value) : Bool := a.same b || a.isOneNan b

/-- Empty texts, lists and maps, zeros, `false` and `null` count as nothing. -/
def truthy : Value → Bool
  | .null => false
  | .str s => s != ""
  | .day _ => true
  | .moment _ => true
  | .list items | .tuple items => !items.isEmpty
  | .map entries => !entries.isEmpty
  | .bool b => b
  | .int n => n != 0
  | .float x => !(Number.real x).isZero

mutual

/-- The list or map that keeps a value from being a key or a member of a set, if there is one: the
value itself or, in a tuple, the first one within. -/
def nonKey? : Value → Option Value
  | .list items => some (.list items)
  | .map entries => some (.map entries)
  | .tuple items => nonKeyAmong? items
  | _ => none

def nonKeyAmong? : List Value → Option Value
  | [] => none
  | v :: rest => (nonKey? v).or (nonKeyAmong? rest)

end

def isKey (v : Value) : Bool := v.nonKey?.isNone

/-- The value at a key of a map's entries. -/
def lookup (key : Value) (entries : List (Value × Value)) : Option Value :=
  (entries.find? fun entry => entry.1.coincides key).map (·.2)

/-- Sets the value at a key: in place if the key is present, at the end otherwise. -/
def assign (key value : Value) : List (Value × Value) → List (Value × Value)
  | [] => [(key, value)]
  | (k, v) :: rest =>
      if k.coincides key then (k, value) :: rest else (k, v) :: assign key value rest

/-- The items of a list or a tuple. -/
def sequence? : Value → Option (List Value)
  | .list items => some items
  | .tuple items => some items
  | _ => none

/-- The characters of a text, each as a text. -/
def characters (s : String) : List Value := s.toList.map fun c => .str c.toString

end Value

end ScalarStore
