import ScalarStore.Numeric.Binary64

/-! # The decimal text of a binary number

A number is written with the fewest decimal digits that read back as the number; among those
the nearest to its value, and of two equally near the one with an even last digit. -/

namespace ScalarStore

/-- The value `digits * 10 ^ exponent`. -/
structure Decimal where
  digits : Nat
  exponent : Int
deriving DecidableEq, Repr

namespace Decimal

/-- The largest `p` with `10 ^ p * d ≤ n`, for positive `n` and `d`. -/
def magnitude (n d : Nat) : Int :=
  if d ≤ n then digitCount (n / d) - 1 else -digitCount ((d - 1) / n)

/-- The two neighbours of `n / d` among the multiples of `10 ^ exponent`, nearer one first. -/
def neighbours (n d : Nat) (exponent : Int) : List Decimal :=
  let scaled := n * pow10 (-exponent).toNat
  let unit := d * pow10 exponent.toNat
  let below := scaled / unit
  if nearestQuotient scaled unit = below then [⟨below, exponent⟩, ⟨below + 1, exponent⟩]
  else [⟨below + 1, exponent⟩, ⟨below, exponent⟩]

/-- The first grid, from one digit upward, with a neighbour that reads back as the positive
number of the given mantissa and exponent. Seventeen digits always suffice. -/
def shortest (mantissa : Nat) (exponent : Int) : Decimal :=
  let n := mantissa * pow2 exponent.toNat
  let d := pow2 (-exponent).toNat
  let top := magnitude n d
  let readsBack (c : Decimal) : Bool :=
    match Binary64.ofDecimal false c.digits c.exponent with
    | .finite _ m e _ => m == mantissa && e == exponent
    | _ => false
  let candidates := (List.range 17).flatMap fun (places : Nat) => neighbours n d (top - places)
  (candidates.find? readsBack).getD ⟨n * pow10 (-exponent).toNat / d, exponent⟩

end Decimal

/-- The choices of a decimal notation: which leading exponents are written positionally, and
how the others are marked. -/
structure DecimalNotation where
  leastPositional : Int
  firstScientific : Int
  leastExponentDigits : Nat

/-- Positional from `0.0001` below `10 ^ 16`; otherwise a signed exponent of two digits or more. -/
def DecimalNotation.standard : DecimalNotation := ⟨-4, 16, 2⟩

/-- The digits without trailing zeros. -/
def significantDigits (n : Nat) : List Char :=
  (n.repr.toList.reverse.dropWhile (· == '0')).reverse

def zeros (n : Nat) : List Char := List.replicate n '0'

/-- Positional notation keeps one fractional digit; scientific notation has a point only
between two digits. The decimal is positive. -/
def DecimalNotation.write (format : DecimalNotation) (c : Decimal) : List Char :=
  let ds := significantDigits c.digits
  let lead : Int := c.exponent + digitCount c.digits - 1
  if format.leastPositional ≤ lead ∧ lead < format.firstScientific then
    if lead < 0 then "0.".toList ++ zeros (-lead - 1).toNat ++ ds
    else
      let whole := (lead + 1).toNat
      let fraction := ds.drop whole
      ds.take whole ++ zeros (whole - ds.length) ++
        '.' :: (if fraction = [] then ['0'] else fraction)
  else
    let exponent := lead.natAbs.repr.toList
    ds.take 1 ++ (if ds.length = 1 then [] else '.' :: ds.drop 1) ++
      'e' :: (if lead < 0 then '-' else '+') ::
      (zeros (format.leastExponentDigits - exponent.length) ++ exponent)

namespace Binary64

def text : Binary64 → String
  | .nan _ => "nan"
  | .infinite negative => if negative then "-inf" else "inf"
  | .finite negative mantissa exponent _ =>
      let digits :=
        if mantissa = 0 then "0.0".toList
        else DecimalNotation.standard.write (Decimal.shortest mantissa exponent)
      String.ofList (if negative then '-' :: digits else digits)

end Binary64

end ScalarStore
