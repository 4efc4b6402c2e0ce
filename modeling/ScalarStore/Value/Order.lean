import ScalarStore.Value.Basic

/-! # The order of values

Numbers have an order, as have texts, days, and moments, those of known zone apart from those of
unknown. No number stands before or behind `nan`, so where it ends up in a sorted list depends on
how the list is sorted: each item is put into the sorted ones before it by halving them. Only what
is read from a text is put in order, so tuples are left out. -/

namespace ScalarStore

/-- Values of one sort can be put in order. -/
inductive Value.Sort
  | number | text | day | local | universal
deriving DecidableEq

namespace Value

def sort? : Value → Option Value.Sort
  | .bool _ => some .number
  | .int _ => some .number
  | .float _ => some .number
  | .str _ => some .text
  | .day _ => some .day
  | .moment m => some (if m.zone.isSome then .universal else .local)
  | _ => none

/-- Whether a value stands before another of its sort. -/
def before (a b : Value) : Bool :=
  match a, b with
  | .str s, .str t => s < t
  | .day d, .day e => d.ordinal < e.ordinal
  | .moment m, .moment n => m.micros < n.micros
  | a, b =>
      match a.number?, b.number? with
      | some x, some y => x.lt y
      | _, _ => false

end Value

namespace Sorting

variable {α : Type}

/-- The place of an item among sorted ones between two bounds. -/
def place (before : α → α → Bool) (x : α) (sorted : Array α) (low high : Nat) : Nat :=
  if low < high then
    match sorted[(low + high) / 2]? with
    | none => low
    | some y =>
        if before x y then place before x sorted low ((low + high) / 2)
        else place before x sorted ((low + high) / 2 + 1) high
  else low
termination_by high - low

/-- Puts an item into sorted ones, behind those that do not stand behind it. -/
def insert (before : α → α → Bool) (sorted : Array α) (x : α) : Array α :=
  sorted.insertIdxIfInBounds (place before x sorted 0 sorted.size) x

/-- The items that go on from one as a condition on neighbours tells, and the others. -/
def run (goesOn : α → α → Bool) (x : α) : List α → List α × List α
  | [] => ([], [])
  | y :: rest =>
      if goesOn x y then
        let (more, others) := run goesOn y rest
        (y :: more, others)
      else ([], y :: rest)

/-- Sorted items. The items at the start that are in order, or all in the opposite order, are
taken first, and the others put in one after another. -/
def sorted (before : α → α → Bool) : List α → List α
  | [] => []
  | [x] => [x]
  | x :: y :: rest =>
      let (start, others) :=
        if before y x then
          let (more, others) := run (fun a b => before b a) y rest
          ((x :: y :: more).reverse, others)
        else
          let (more, others) := run (fun a b => !before b a) y rest
          (x :: y :: more, others)
      (others.foldl (insert before) start.toArray).toList

end Sorting

/-- Values of one sort in order. One value alone need not have an order. -/
def Value.ascending? (values : List Value) : Option (List Value) :=
  match values with
  | [] => some []
  | [v] => some [v]
  | v :: rest =>
      if v.sort?.isSome ∧ rest.all fun w => w.sort? == v.sort? then
        some (Sorting.sorted Value.before values)
      else none

end ScalarStore
