import ScalarStore.Reading
import ScalarStore.Yaml.Refusal

/-! # Texts of scalars

The text that a plain, quoted or block scalar stands for, and what is left of the input behind
it. Within plain and quoted scalars the white space around a line break counts as one space, or
as the further line breaks in it. -/

namespace ScalarStore.Yaml

/-- What is wrong, and what is left of the text from there on. -/
structure Stop where
  problem : Problem
  rest : List Char

/-- A character of a text, or NUL if there is none. -/
def nextChar (cs : List Char) : Char := cs.headD '\x00'

/-! ## White space within scalars -/

/-- White space read behind a word, of which it is not yet known whether another word follows.
Behind an escaped line break nothing but further line breaks counts. -/
inductive Gap
  | none
  | within (blanks : List Char)
  | across (first : Char) (later : List Char)
  | joined (later : List Char)

namespace Gap

def blank (c : Char) : Gap → Gap
  | .none => .within [c]
  | .within blanks => .within (blanks ++ [c])
  | gap => gap

def lineBreak (c : Char) : Gap → Gap
  | .across first later => .across first (later ++ [breakText c])
  | .joined later => .joined (later ++ [breakText c])
  | _ => .across (breakText c) []

def text : Gap → List Char
  | .none => []
  | .within blanks => blanks
  | .across '\n' [] => [' ']
  | .across '\n' later => later
  | .across first later => first :: later
  | .joined later => later

def isNone : Gap → Bool
  | .none => true
  | _ => false

def isAcross : Gap → Bool
  | .across _ _ => true
  | _ => false

end Gap

/-! ## Plain scalars -/

/-- Characters that have a meaning within flow collections. -/
def isFlowMark (c : Char) : Bool := c == ',' || c == '[' || c == ']' || c == '\x7b' || c == '\x7d'

/-- Whether a plain scalar ends before a colon. -/
def endsBeforeColon (inFlow : Bool) (rest : List Char) : Bool :=
  endsMark rest || (inFlow && rest.head?.any isFlowMark)

/-- Whether a plain scalar ends before a character at a column. On another line than it started
on it goes on from the column `least` only, unless it is within a flow collection. -/
def endsPlain (inFlow : Bool) (least column : Nat) (gap : Gap) (c : Char) (rest : List Char) :
    Bool :=
  c == '\t' ||
  (c == ':' && endsBeforeColon inFlow rest) ||
  (c == '#' && !gap.isNone) ||
  (inFlow && (isFlowMark c || c == '?')) ||
  (!inFlow && gap.isAcross && column < least)

/-- A plain scalar: its text, the white space behind it and what follows. -/
structure Plain where
  text : List Char
  gap : Gap
  rest : List Char

/-- A plain scalar from a column of its line on. A separator of documents ends it. -/
def plain (inFlow : Bool) (least column : Nat) (gap : Gap) : List Char → Plain
  | [] => ⟨[], gap, []⟩
  | c :: rest =>
      if c = ' ' then plain inFlow least (column + 1) (gap.blank c) rest
      else if isBreak c then
        if isSeparator rest then ⟨[], gap.lineBreak c, rest⟩
        else plain inFlow least 0 (gap.lineBreak c) rest
      else if endsPlain inFlow least column gap c rest then ⟨[], gap, c :: rest⟩
      else
        let more := plain inFlow least (column + 1) .none rest
        { more with text := gap.text ++ c :: more.text }

/-- Whether a plain scalar starts with a character. A dash starts one if a word follows, as do a
question mark and a colon outside of flow collections. -/
def startsPlain (inFlow : Bool) (c : Char) (rest : List Char) : Bool :=
  if endsMark [c] || "#,[]\x7b\x7d&*!|>'\x22%@\x60".toList.contains c then false
  else if c = '-' then !endsMark rest
  else if c = '?' ∨ c = ':' then !inFlow && !endsMark rest
  else true

/-! ## Quoted scalars -/

/-- Goes on behind a line break, where no separator of documents may stand. -/
def behindBreak {α : Type} (rest : List Char) (goOn : Except Stop α) : Except Stop α :=
  if isSeparator rest then .error ⟨.unexpectedSeparator, rest⟩ else goOn

/-- Puts white space and characters before a text that was read. -/
def Gap.before (gap : Gap) (cs : List Char) (found : Except Stop (List Char × List Char)) :
    Except Stop (List Char × List Char) :=
  found.map fun (text, after) => (gap.text ++ cs ++ text, after)

/-- The rest of a text between single quotes, of which a pair stands for one. -/
def singleQuoted (gap : Gap) : List Char → Except Stop (List Char × List Char)
  | [] => .error ⟨.unexpectedEnd, []⟩
  | '\x27' :: '\x27' :: rest => gap.before ['\x27'] (singleQuoted .none rest)
  | '\x27' :: rest => .ok (gap.text, rest)
  | c :: rest =>
      if c = ' ' ∨ c = '\t' then singleQuoted (gap.blank c) rest
      else if isBreak c then behindBreak rest (singleQuoted (gap.lineBreak c) rest)
      else gap.before [c] (singleQuoted .none rest)

/-- The character that a letter behind a backslash stands for. -/
def escaped? (letter : Char) : Option Char :=
  (['0', 'a', 'b', 't', '\t', 'n', 'v', 'f', 'r', 'e', ' ', '\x22', '/', '\\', 'N', '_', 'L',
      'P'].zip
    ['\x00', '\x07', '\x08', '\t', '\t', '\n', '\x0b', '\x0c', '\r', '\x1b', ' ', '\x22', '/', '\\',
      '\u0085', '\u00a0', '\u2028', '\u2029']).lookup letter

/-- The number of hexadecimal digits behind a letter, if it takes any. -/
def codeWidth? (letter : Char) : Option Nat :=
  if letter = 'x' then some 2
  else if letter = 'u' then some 4
  else if letter = 'U' then some 8
  else none

/-- The first character that is no hexadecimal digit although so many should be. -/
def notHex? (width : Nat) (cs : List Char) : Option Char :=
  (cs.take width).find? (!isDigitOf 16 ·) <|> if cs.length < width then some '\x00' else none

/-- What a letter behind a backslash, and the digits behind it, stand for. -/
def escape (letter : Char) (rest : List Char) : Except Stop (Char × List Char) :=
  match escaped? letter, codeWidth? letter with
  | some c, _ => .ok (c, rest)
  | none, none => .error ⟨.unknownEscape letter, letter :: rest⟩
  | none, some width =>
      match notHex? width rest with
      | some found => .error ⟨.expected (.hexDigits width) found, rest⟩
      | none =>
          let code := inBase 16 (rest.take width)
          if 0x110000 ≤ code then .error ⟨.noCharacter code, rest⟩
          else .ok (Char.ofNat code, rest.drop width)

theorem length_escape_le {letter c : Char} {rest after : List Char}
    (h : escape letter rest = .ok (c, after)) : after.length ≤ rest.length := by
  unfold escape at h
  repeat' split at h
  all_goals grind

/-- The rest of a text between double quotes. -/
def doubleQuoted (gap : Gap) (cs : List Char) : Except Stop (List Char × List Char) :=
  match cs with
  | [] => .error ⟨.unexpectedEnd, []⟩
  | '\x22' :: rest => .ok (gap.text, rest)
  | ['\\'] => .error ⟨.unknownEscape '\x00', []⟩
  | '\\' :: letter :: rest =>
      if isBreak letter then
        behindBreak rest (gap.before [] (doubleQuoted (.joined []) rest))
      else
        match _h : escape letter rest with
        | .error stop => .error stop
        | .ok (c, after) => gap.before [c] (doubleQuoted .none after)
  | c :: rest =>
      if c = ' ' ∨ c = '\t' then doubleQuoted (gap.blank c) rest
      else if isBreak c then behindBreak rest (doubleQuoted (gap.lineBreak c) rest)
      else gap.before [c] (doubleQuoted .none rest)
termination_by cs.length
decreasing_by
  all_goals simp only [List.length_cons]
  all_goals
    first
    | omega
    | exact Nat.lt_of_le_of_lt (length_escape_le ‹_›) (by omega)

/-! ## Block scalars -/

/-- What becomes of the line breaks at the end of a block scalar. -/
inductive Chomping
  | strip | clip | keep
deriving DecidableEq

/-- What is told of a block scalar: what becomes of its last line breaks, and perhaps how far its
lines are indented. -/
structure BlockStyle where
  chomping : Chomping
  indent : Option Nat

def chomping? (c : Char) : Option Chomping :=
  if c = '+' then some .keep else if c = '-' then some .strip else none

/-- The indentation that a digit at the start of a text tells. -/
def indentAt (cs : List Char) : Except Stop (Option Nat × List Char) :=
  match cs with
  | [] => .ok (none, [])
  | c :: rest =>
      if c = '0' then .error ⟨.zeroIndent, c :: rest⟩
      else if isDigit c then .ok (some (inBase 10 [c]), rest)
      else .ok (none, c :: rest)

def chompingAt (cs : List Char) : Option Chomping × List Char :=
  match cs.head?.bind chomping? with
  | some chomping => (some chomping, cs.drop 1)
  | none => (none, cs)

/-- The line that a text starts with must be blank or a comment; leaves what follows it. -/
def blankLine (cs : List Char) : Except Stop (List Char) :=
  match cs.dropWhile (· == ' ') with
  | '#' :: rest => .ok ((rest.dropWhile (!isBreak ·)).drop 1)
  | rest =>
      if endsLine rest then .ok (rest.drop 1)
      else .error ⟨.expected .lineEnd (nextChar rest), rest⟩

/-- The marks behind the first one of a block scalar, in either order, and what is left behind
their line. -/
def blockHead (cs : List Char) : Except Stop (BlockStyle × List Char) := do
  let (first, rest) := chompingAt cs
  let (indent, rest) ← indentAt rest
  let (second, rest) :=
    if first = none ∧ indent ≠ none then chompingAt rest else (none, rest)
  if !endsWord rest then throw ⟨.expected .indicators (nextChar rest), rest⟩
  return (⟨(first <|> second).getD .clip, indent⟩, ← blankLine rest)

/-- The line breaks at the start of a text, each behind at most so many spaces; the column
reached behind them, and what follows. -/
def leadingBreaks (most : Nat) (column : Nat) : List Char → List Char × Nat × List Char
  | [] => ([], column, [])
  | c :: rest =>
      if c = ' ' ∧ column < most then leadingBreaks most (column + 1) rest
      else if isBreak c then
        let (breaks, found) := leadingBreaks most 0 rest
        (breakText c :: breaks, found)
      else ([], column, c :: rest)

theorem length_leadingBreaks_le (most column : Nat) (cs : List Char) :
    (leadingBreaks most column cs).2.2.length ≤ cs.length := by
  fun_induction leadingBreaks most column cs <;> simp_all <;> omega

/-- The greatest number of spaces in lines at the start of a text that hold nothing before. -/
def greatestIndent (column : Nat) : List Char → Nat
  | [] => column
  | c :: rest =>
      if c = ' ' then greatestIndent (column + 1) rest
      else if isBreak c then max column (greatestIndent 0 rest)
      else column

def startsBlank (cs : List Char) : Bool := cs.head?.any isBlank

/-- What stands for the line break between two lines of a block scalar and for the further ones
behind it. Only between lines that start with no blank a line feed counts as a space. -/
def lineJoint (folds : Bool) (line : List Char) (c : Char) (breaks next : List Char) : List Char :=
  if folds ∧ breakText c = '\n' ∧ !startsBlank line ∧ !startsBlank next then
    if breaks = [] then [' '] else breaks
  else breakText c :: breaks

/-- What the line breaks at the end of a block scalar stand for. -/
def lineTail : Chomping → List Char → List Char
  | .strip, _ => []
  | .clip, breaks => breaks.take 1
  | .keep, breaks => breaks

/-- A block scalar from a line of it on, and what follows. -/
def blockLines (folds : Bool) (chomping : Chomping) (indent : Nat) (cs : List Char) :
    List Char × List Char :=
  let line := cs.takeWhile (!isBreak ·)
  match _h : cs.dropWhile (!isBreak ·) with
  | [] => (line, [])
  | c :: after =>
      let breaks := (leadingBreaks indent 0 after).1
      let rest := (leadingBreaks indent 0 after).2.2
      if (leadingBreaks indent 0 after).2.1 = indent ∧ rest ≠ [] then
        let (more, left) := blockLines folds chomping indent rest
        (line ++ lineJoint folds line c breaks rest ++ more, left)
      else (line ++ lineTail chomping (breakText c :: breaks), rest)
termination_by cs.length
decreasing_by
  have := congrArg List.length _h
  have := length_dropWhile_le (!isBreak ·) cs
  have := length_leadingBreaks_le indent 0 after
  simp only [List.length_cons] at *
  omega

/-- The text of a block scalar whose lines are indented at least so far, and what follows. -/
def blockScalar (folds : Bool) (least : Nat) (cs : List Char) :
    Except Stop (List Char × List Char) := do
  let (style, rest) ← blockHead cs
  let indent := match style.indent with
    | some n => least + n - 1
    | none => max least (greatestIndent 0 rest)
  let (breaks, column, rest) := leadingBreaks indent 0 rest
  if column = indent ∧ rest ≠ [] then
    let (text, left) := blockLines folds style.chomping indent rest
    return (breaks ++ text, left)
  return (if style.chomping = .keep then breaks else [], rest)

end ScalarStore.Yaml
