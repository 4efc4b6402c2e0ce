/-! # Wildcard patterns

In a pattern `%` stands for any run of characters and `_` for one character. A backslash before
`%`, `_` or a backslash makes that character literal; any other backslash is literal itself.
Letter case counts. -/

namespace ScalarStore

/-- What one place of a pattern matches. -/
inductive Wildcard
  | exact (c : Char)
  | any
  | run
deriving DecidableEq

abbrev Pattern := List Wildcard

namespace Pattern

def isSpecial (c : Char) : Bool := c == '%' || c == '_' || c == '\\'

def ofChar (c : Char) : Wildcard :=
  if c = '%' then .run else if c = '_' then .any else .exact c

def ofChars : List Char → Pattern
  | '\\' :: c :: rest =>
      if isSpecial c then .exact c :: ofChars rest else .exact '\\' :: ofChars (c :: rest)
  | c :: rest => ofChar c :: ofChars rest
  | [] => []

def ofText (s : String) : Pattern := ofChars s.toList

/-- A list and all its tails, longest first. -/
def tails {α : Type} : List α → List (List α)
  | [] => [[]]
  | x :: xs => (x :: xs) :: tails xs

/-- What one place may leave of the texts it is matched against, longest first as they are. -/
def advance (w : Wildcard) (texts : List (List Char)) : List (List Char) :=
  match w with
  | .exact c => texts.filterMap fun
      | d :: rest => if c = d then some rest else none
      | [] => none
  | .any => texts.filterMap List.tail?
  | .run =>
      match texts with
      | [] => []
      | longest :: _ => tails longest

/-- Whether a pattern matches a whole text: all its places leave nothing. -/
def test (pattern : Pattern) (text : List Char) : Bool :=
  (pattern.foldl (fun texts w => advance w texts) [text]).any List.isEmpty

end Pattern

end ScalarStore
