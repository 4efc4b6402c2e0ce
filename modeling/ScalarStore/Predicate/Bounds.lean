import ScalarStore.Fault

/-! # Comparisons that a range decides

A comparison with a number beyond a range of integers has one outcome for the whole range. -/

namespace ScalarStore.Comparison

/-- The outcome for every value of the range below a number. -/
def belowNumber : Comparison → Bool
  | .eq => false
  | .ne => true
  | .lt => true
  | .le => true
  | .gt => false
  | .ge => false

/-- The outcome for every value of the range above a number. -/
def aboveNumber : Comparison → Bool
  | .eq => false
  | .ne => true
  | .lt => false
  | .le => false
  | .gt => true
  | .ge => true

/-- The one outcome of comparing the integers from `low` to `high` with a number, if the number
lies beyond them. -/
def overRange? (c : Comparison) (n : Number) (low high : Int) : Option Bool :=
  if (Number.whole high).lt n then some c.belowNumber
  else if n.lt (.whole low) then some c.aboveNumber
  else none

/-- Whether two numbers stand in a relation; `nan` stands in none but inequality. -/
def holds (c : Comparison) (a b : Number) : Bool :=
  match c with
  | .eq => a.compare? b == some .eq
  | .ne => a.compare? b != some .eq
  | .lt => a.lt b
  | .le => a.le b
  | .gt => b.lt a
  | .ge => b.le a

/-- Whether two texts stand in a relation, by the order of their code points. -/
def holdsText (c : Comparison) (a b : String) : Bool :=
  match c with
  | .eq => a == b
  | .ne => a != b
  | .lt => decide (a < b)
  | .le => !decide (b < a)
  | .gt => decide (b < a)
  | .ge => !decide (a < b)

/-- Compares any two values. Equality is by content; only numbers and texts are ordered. -/
def run (c : Comparison) (a b : Value) : Except Fault Bool :=
  match c with
  | .eq => .ok (a.same b)
  | .ne => .ok !(a.same b)
  | c =>
      match a.number?, b.number?, a, b with
      | some m, some n, _, _ => .ok (c.holds m n)
      | _, _, .str s, .str t => .ok (c.holdsText s t)
      | _, _, _, _ => .error (.kind (.notOrdered c.symbol a.kind b.kind))

end ScalarStore.Comparison
