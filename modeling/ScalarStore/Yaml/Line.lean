/-! # Lines

A text is read in lines, which end at a line feed or one of the three further line breaks. A
place in it is told by line, column and the part of the line around it. -/

namespace ScalarStore.Yaml

def isBreak (c : Char) : Bool := c == '\n' || c == '\u0085' || c == '\u2028' || c == '\u2029'

/-- What a line break in a scalar counts as. Only the two separators stand for themselves. -/
def breakText (c : Char) : Char := if c = '\u0085' then '\n' else c

/-! ## What may follow

Each holds at the end of a text as well. -/

/-- Whether a line ends. -/
def endsLine (cs : List Char) : Bool := cs.head?.all isBreak

/-- Whether a line ends or goes on with a space. -/
def endsWord (cs : List Char) : Bool := cs.head?.all fun c => c == ' ' || isBreak c

/-- Whether a line ends or goes on with a space or a tab. -/
def endsMark (cs : List Char) : Bool := cs.head?.all fun c => c == ' ' || c == '\t' || isBreak c

/-- Three dashes or dots that stand alone. At the start of a line they part documents. -/
def isSeparator (cs : List Char) : Bool :=
  ("---".toList.isPrefixOf cs || "...".toList.isPrefixOf cs) && endsMark (cs.drop 3)

/-! ## Places -/

/-- A place: what follows it and how much that is, and the characters, the lines and the columns of
its line before it. -/
structure Cursor where
  rest : List Char
  left : Nat
  index : Nat
  line : Nat
  column : Nat

namespace Cursor

def start (text : List Char) : Cursor := ⟨text, text.length, 0, 0, 0⟩

/-- The place behind the next character. A byte order mark takes up no column. -/
def next (c : Cursor) : Cursor :=
  match c.rest with
  | [] => c
  | x :: rest =>
      if isBreak x then ⟨rest, c.left - 1, c.index + 1, c.line + 1, 0⟩
      else ⟨rest, c.left - 1, c.index + 1, c.line, if x = '\uFEFF' then c.column else c.column + 1⟩

/-- The place behind some characters. -/
def skip (c : Cursor) : Nat → Cursor
  | 0 => c
  | n + 1 => c.next.skip n

/-- The number of characters up to where `rest` is left. -/
def distance (c : Cursor) (rest : List Char) : Nat := c.left - rest.length

end Cursor

/-- The number of characters of a line shown on either side of a place, unless all fit. -/
def shownAround : Nat := 32

/-- The part of a line next to a place, nearest character first, and a sign of what is cut off.
A little more than is shown else is not cut. -/
def nearPart (cs : List Char) : List Char × String :=
  if cs.length ≤ shownAround + 4 then (cs, "") else (cs.take shownAround, " ... ")

/-- The line and column of a place, counted from one, and its line with the place pointed out. -/
def placeText (text : List Char) (index : Nat) : String :=
  let place := (Cursor.start text).skip index
  let (before, head) := nearPart ((text.take index).reverse.takeWhile (!isBreak ·))
  let (after, tail) := nearPart (place.rest.takeWhile (!isBreak ·))
  let spaces (n : Nat) := String.ofList (List.replicate n ' ')
  "  in \"<unicode string>\", line " ++ (place.line + 1).repr ++ ", column " ++
    (place.column + 1).repr ++ ":\n" ++ spaces 4 ++ head ++ String.ofList before.reverse ++
    String.ofList after ++ tail ++ "\n" ++ spaces (4 + before.length + head.length) ++ "^"

end ScalarStore.Yaml
