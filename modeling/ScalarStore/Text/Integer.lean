import ScalarStore.Text.Blank
import ScalarStore.Text.Digit

/-! # Reading integers

An integer is an optional sign and digits of any script, with single underscores between them
and white space around. -/

namespace ScalarStore.Text

/-- Why a text is no integer: its form, or more digits than are read. -/
inductive IntegerFault
  | malformed
  | tooLong (digits : Nat)
deriving DecidableEq

/-- White space that may surround an integer: all but the information separators. -/
def isIntegerBlank (c : Char) : Bool := isBlank c && !(28 ≤ c.toNat && c.toNat ≤ 31)

/-- Underscores stand singly, each between two digits; the flag tells whether a digit precedes. -/
def wellSeparated : Bool → List Char → Bool
  | afterDigit, [] => afterDigit
  | afterDigit, c :: rest =>
      if c = '_' then afterDigit && wellSeparated false rest else wellSeparated true rest

/-- Splits a sign off and tells whether it is a minus. -/
def splitSign : List Char → Bool × List Char
  | '-' :: rest => (true, rest)
  | '+' :: rest => (false, rest)
  | cs => (false, cs)

/-- An unsigned run of digits, if it is not longer than the limit. -/
def readDigits (cs : List Char) : Except IntegerFault Nat :=
  let digits := cs.filterMap digitValue?
  if digitLimit < digits.length then .error (.tooLong digits.length) else .ok (ofDigits digits)

def readInteger (s : String) : Except IntegerFault Int := do
  let (negative, body) := splitSign (s.toList.dropWhile isIntegerBlank)
  let inRun (c : Char) : Bool := c == '_' || isDigit c
  let run := body.takeWhile inRun
  unless wellSeparated false run do throw .malformed
  let n ← readDigits run
  unless (body.dropWhile inRun).all isIntegerBlank do throw .malformed
  return if negative then -n else n

end ScalarStore.Text
