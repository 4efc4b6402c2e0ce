import ScalarStore.Text.Printable

/-! # Quoted text

A text is shown between single quotes, or double ones when it holds a single quote and no
double one. The backslash, the quote in use and unprintable characters are escaped. -/

namespace ScalarStore.Text

def singleQuote : Char := '\x27'

def doubleQuote : Char := '\x22'

/-- At least `width` hexadecimal digits in lower case. -/
def hexDigits (width n : Nat) : List Char :=
  let digits := Nat.toDigits 16 n
  List.replicate (width - digits.length) '0' ++ digits

/-- A code point in the shortest of the three escape forms that holds it. -/
def escapeCode (n : Nat) : List Char :=
  if n < 0x100 then '\\' :: 'x' :: hexDigits 2 n
  else if n < 0x10000 then '\\' :: 'u' :: hexDigits 4 n
  else '\\' :: 'U' :: hexDigits 8 n

def escapeChar (quote c : Char) : List Char :=
  if c = '\\' ∨ c = quote then ['\\', c]
  else if c = '\n' then ['\\', 'n']
  else if c = '\r' then ['\\', 'r']
  else if c = '\t' then ['\\', 't']
  else if isPrintable c then [c]
  else escapeCode c.toNat

def quoteFor (cs : List Char) : Char :=
  if singleQuote ∈ cs ∧ doubleQuote ∉ cs then doubleQuote else singleQuote

def quoteChars (cs : List Char) : List Char :=
  let quote := quoteFor cs
  quote :: cs.flatMap (escapeChar quote) ++ [quote]

def quoted (s : String) : String := String.ofList (quoteChars s.toList)

end ScalarStore.Text
