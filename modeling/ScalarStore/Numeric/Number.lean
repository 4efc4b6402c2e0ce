import ScalarStore.Numeric.Shortest

/-! # Numbers of three representations

Truth values count as 0 and 1. Comparison goes by exact mathematical value across
representations, and only `nan` compares with nothing. -/

namespace ScalarStore

inductive Number
  | flag (b : Bool)
  | whole (n : Int)
  | real (x : Binary64)
deriving DecidableEq

namespace Number

def place? : Number → Option Place
  | .flag b => some (.ofInt b.toInt)
  | .whole n => some (.ofInt n)
  | .real x => x.place?

def compare? (a b : Number) : Option Ordering := do
  return (← a.place?).compare (← b.place?)

def lt (a b : Number) : Bool := a.compare? b == some .lt

def le (a b : Number) : Bool := a.lt b || a.compare? b == some .eq

/-- The integer that a number other than a real one stands for. -/
def int? : Number → Option Int
  | .flag b => some b.toInt
  | .whole n => some n
  | .real _ => none

def isZero (a : Number) : Bool := a.compare? (.whole 0) == some .eq

/-- The real number nearest to a number, if that is finite or was real already. -/
def toReal? : Number → Option Binary64
  | .flag b => Binary64.ofInt? b.toInt
  | .whole n => Binary64.ofInt? n
  | .real x => some x

/-- Integers add exactly; with a real term both are taken as real numbers, which fails for an
integer beyond the real range. -/
def add? (a b : Number) : Option Number :=
  match a.int?, b.int? with
  | some m, some n => some (.whole (m + n))
  | _, _ => do return .real ((← a.toReal?).add (← b.toReal?))

end Number

/-- The decimal digits of an integer, with a minus sign below zero. -/
def intText (n : Int) : String :=
  if n < 0 then String.ofList ('-' :: n.natAbs.repr.toList) else n.natAbs.repr

end ScalarStore
