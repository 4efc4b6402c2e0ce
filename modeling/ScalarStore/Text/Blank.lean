/-! # White space

The characters that separate words, and the removal of them around a text. -/

namespace ScalarStore.Text

/-- White space of the ASCII range, the four information separators among it, and the line,
paragraph and space separators beyond. -/
def isBlank (c : Char) : Bool :=
  let n := c.toNat
  (9 ≤ n && n ≤ 13) || (28 ≤ n && n ≤ 32) || n == 0x85 || n == 0xA0 || n == 0x1680 ||
    (0x2000 ≤ n && n ≤ 0x200A) || n == 0x2028 || n == 0x2029 || n == 0x202F || n == 0x205F ||
    n == 0x3000

def isBlankText (s : String) : Bool := s.toList.all isBlank

/-- A list without the leading and trailing elements that satisfy `p`. -/
def trim {α : Type} (p : α → Bool) (xs : List α) : List α :=
  ((xs.dropWhile p).reverse.dropWhile p).reverse

/-- A text without the white space around it. -/
def strip (s : String) : String := String.ofList (trim isBlank s.toList)

/-- A text with its ASCII letters in lower case. -/
def lower (s : String) : String := s.map Char.toLower

end ScalarStore.Text
