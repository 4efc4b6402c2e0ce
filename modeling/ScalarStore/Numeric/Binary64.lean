/-! # Binary floating-point numbers with 53 significant bits

A finite number is a sign, a mantissa and a power of two, in the one canonical form of its
magnitude. Order and equality go by exact value; every operation computes exactly first and
then rounds once, to the nearest number, a half to the even mantissa. -/

namespace ScalarStore

/-- A power of two. -/
def pow2 (n : Nat) : Nat := Nat.pow 2 n

/-- A power of ten. -/
def pow10 (n : Nat) : Nat := Nat.pow 10 n

/-- The mantissa of a canonical pair fills all 53 bits unless the exponent is the least one,
so equal magnitudes have equal pairs. -/
def Binary64.Canonical (mantissa : Nat) (exponent : Int) : Prop :=
  mantissa < pow2 53 ∧ -1074 ≤ exponent ∧ exponent ≤ 971 ∧ (pow2 52 ≤ mantissa ∨ exponent = -1074)

instance (mantissa : Nat) (exponent : Int) : Decidable (Binary64.Canonical mantissa exponent) :=
  inferInstanceAs (Decidable (_ ∧ _))

/-- A finite number has magnitude `mantissa * 2 ^ exponent`; zero has either sign. No number equals
a `nan`, so only the object that it is tells one `nan` from another: objects that are met more
than once have a number of their own, and one without is met nowhere else. -/
inductive Binary64
  | nan (object : Option Nat := none)
  | infinite (negative : Bool)
  | finite (negative : Bool) (mantissa : Nat) (exponent : Int)
      (canonical : Binary64.Canonical mantissa exponent)
deriving DecidableEq

/-- A place on the extended number line. Finite places count units of `2 ^ -1074`, of which
every integer and every finite number is a whole multiple. -/
inductive Place
  | low
  | units (n : Int)
  | high
deriving DecidableEq

namespace Place

def ofInt (n : Int) : Place := .units (n * pow2 1074)

def compare : Place → Place → Ordering
  | .low, .low => .eq
  | .low, _ => .lt
  | .units _, .low => .gt
  | .units a, .units b => if a < b then .lt else if a = b then .eq else .gt
  | .units _, .high => .lt
  | .high, .high => .eq
  | .high, _ => .gt

end Place

/-- The quotient rounded to the nearest integer, a half to the even one. -/
def nearestQuotient (n d : Nat) : Nat :=
  let q := n / d
  if 2 * (n % d) < d then q else if d < 2 * (n % d) then q + 1 else q + q % 2

/-- The number of decimal digits; zero has one. -/
def digitCount (n : Nat) : Nat :=
  if n < 10 then 1 else digitCount (n / 10) + 1

namespace Binary64

def zero (negative : Bool) : Binary64 :=
  .finite negative 0 (-1074) (by decide)

/-- A magnitude in units of `2 ^ -1074`, with its sign. -/
def signedUnits (negative : Bool) (mantissa : Nat) (exponent : Int) : Int :=
  let magnitude : Int := mantissa * pow2 (exponent + 1074).toNat
  if negative then -magnitude else magnitude

/-- Where a number lies; `nan` lies nowhere. -/
def place? : Binary64 → Option Place
  | .nan _ => none
  | .infinite negative => some (if negative then .low else .high)
  | .finite negative mantissa exponent _ => some (.units (signedUnits negative mantissa exponent))

def neg : Binary64 → Binary64
  | .nan _ => .nan
  | .infinite negative => .infinite !negative
  | .finite negative mantissa exponent h => .finite (!negative) mantissa exponent h

/-- The exponent of the last mantissa bit of a number near `n / d`. -/
def lastBitExponent (n d : Nat) : Int :=
  if n = 0 then -1074
  else
    let e : Int := n.log2 - d.log2 - 52
    let filled := pow2 52 * (d * pow2 e.toNat) ≤ n * pow2 (-e).toNat
    max (if filled then e else e - 1) (-1074)

/-- The number nearest to `n / d`. A mantissa that rounds up to `2 ^ 53` takes the next
exponent, and a magnitude past the largest exponent is infinite. -/
def ofRatio (negative : Bool) (n d : Nat) : Binary64 :=
  let e := lastBitExponent n d
  let m := nearestQuotient (n * pow2 (-e).toNat) (d * pow2 e.toNat)
  let (m, e) := if m = pow2 53 then (pow2 52, e + 1) else (m, e)
  if h : Canonical m e then .finite negative m e h else .infinite negative

/-- The number nearest to `digits * 10 ^ exponent`. Magnitudes outside `10 ^ -330 .. 10 ^ 310`
are decided by their digit count alone. -/
def ofDecimal (negative : Bool) (digits : Nat) (exponent : Int) : Binary64 :=
  if digits = 0 then zero negative
  else if 310 < digitCount digits + exponent then .infinite negative
  else if digitCount digits + exponent < -330 then zero negative
  else ofRatio negative (digits * pow10 exponent.toNat) (pow10 (-exponent).toNat)

/-- The number nearest to an integer, if the integer is within the finite range. -/
def ofInt? (n : Int) : Option Binary64 :=
  match ofRatio (n < 0) n.natAbs 1 with
  | .finite negative m e h => some (.finite negative m e h)
  | _ => none

/-- The number nearest to a count of units. An exact zero takes the sign given. -/
def ofUnits (zeroNegative : Bool) (n : Int) : Binary64 :=
  if n = 0 then zero zeroNegative else ofRatio (n < 0) n.natAbs (pow2 1074)

/-- The sum, computed exactly and rounded once; a zero sum is negative only if both terms are. -/
def add : Binary64 → Binary64 → Binary64
  | .nan _, _ => .nan
  | _, .nan _ => .nan
  | .infinite a, .infinite b => if a = b then .infinite a else .nan
  | .infinite a, .finite .. => .infinite a
  | .finite .., .infinite b => .infinite b
  | .finite a m e _, .finite b n f _ =>
      ofUnits (a && b) (signedUnits a m e + signedUnits b n f)

def sub (x y : Binary64) : Binary64 := x.add y.neg

/-- The multiple of a number by a natural one, rounded once. -/
def times (x : Binary64) (n : Nat) : Binary64 :=
  match x with
  | .nan _ => .nan
  | .infinite negative => .infinite negative
  | .finite negative m e _ => ofUnits negative (signedUnits negative m e * n)

/-- The integer part, toward zero, of a finite number. -/
def truncate? : Binary64 → Option Int
  | .finite negative mantissa exponent _ =>
      let magnitude : Int := (mantissa * pow2 exponent.toNat / pow2 (-exponent).toNat : Nat)
      some (if negative then -magnitude else magnitude)
  | _ => none

end Binary64

end ScalarStore
