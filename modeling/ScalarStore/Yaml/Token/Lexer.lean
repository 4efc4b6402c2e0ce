import ScalarStore.Yaml.Token.Tag

/-! # Reading tokens

Blocks follow from the columns that lines start at. A scalar may turn out to be a key when a
colon follows it on its line; then the mark of a key, and perhaps the start of a map, go in
front of it. -/

namespace ScalarStore.Yaml

/-- The place of a token that a colon would make a key, and the number of tokens before it. One
at the column of its block must become a key. -/
structure Candidate where
  count : Nat
  place : Cursor
  isRequired : Bool

/-- The longest distance between a key and its colon. -/
def keyReach : Nat := 1024

/-- Whether a colon would come too late. -/
def Candidate.isStale (k : Candidate) (c : Cursor) : Bool :=
  k.place.line != c.line || keyReach < c.index - k.place.index

/-- How far a text has been read: the place, the tokens with the last one first, the columns of
the open blocks, the candidates of the innermost and the outer flow collections, and whether a
key may stand next. -/
structure Lexer where
  cursor : Cursor
  found : List Token
  indents : List Nat
  candidate : Option Candidate
  outer : List (Option Candidate)
  allowsKey : Bool

namespace Lexer

def start (text : List Char) : Lexer :=
  let cursor := Cursor.start text
  ⟨if text.head? = some '\uFEFF' then cursor.next else cursor, [], [], none, [], true⟩

def inFlow (s : Lexer) : Bool := !s.outer.isEmpty

/-- The least column inside of the innermost block. -/
def least (s : Lexer) : Nat := (s.indents.head?.map (· + 1)).getD 0

/-! ## Candidates -/

def lateKey (s : Lexer) (k : Candidate) : Refusal :=
  .marked (some (.simpleKey, k.place.index)) .colonMissing s.cursor.index

/-- Drops the candidates for which a colon would come too late. -/
def dropStale (s : Lexer) : Except Refusal Lexer :=
  let isStale (k : Candidate) : Bool := k.isStale s.cursor
  match (s.candidate :: s.outer).findSome? (·.filter fun k => k.isRequired && isStale k) with
  | some k => .error (s.lateKey k)
  | none =>
      .ok { s with
        candidate := s.candidate.filter (!isStale ·)
        outer := s.outer.map (·.filter (!isStale ·)) }

/-- Drops the candidate of the innermost collection. -/
def dropCandidate (s : Lexer) : Except Refusal Lexer :=
  match s.candidate with
  | some k => if k.isRequired then .error (s.lateKey k) else .ok { s with candidate := none }
  | none => .ok s

/-- Makes the next token the candidate, if a key may stand here. -/
def offer (s : Lexer) : Except Refusal Lexer := do
  if !s.allowsKey then return s
  let s ← s.dropCandidate
  let isRequired := !s.inFlow && s.indents.head? == some s.cursor.column
  return { s with candidate := some ⟨s.found.length, s.cursor, isRequired⟩ }

/-! ## Tokens -/

/-- A token of so many characters. -/
def add (s : Lexer) (lexeme : Lexeme) (width : Nat) : Lexer :=
  let cursor := s.cursor.skip width
  { s with cursor, found := ⟨lexeme, s.cursor.index, cursor.index⟩ :: s.found }

/-- Ends the blocks whose columns satisfy a condition. In flow collections columns mean nothing. -/
def closeBlocks (s : Lexer) (isClosed : Nat → Bool) : Lexer :=
  if s.inFlow then s
  else
    let closed := (s.indents.takeWhile isClosed).foldl (fun s _ => s.add .blockEnd 0) s
    { closed with indents := s.indents.dropWhile isClosed }

/-- Starts a block at the place, unless one at its column is open. -/
def openBlock (s : Lexer) (lexeme : Lexeme) : Lexer :=
  if s.least ≤ s.cursor.column then
    { s.add lexeme 0 with indents := s.cursor.column :: s.indents }
  else s

/-- The refusal of a token that starts at the place. -/
def refusal (s : Lexer) (activity : Activity) (stop : Stop) : Refusal :=
  .marked (some (activity, s.cursor.index)) stop.problem
    (s.cursor.index + s.cursor.distance stop.rest)

/-- A token read by a function that leaves the rest of the text. -/
def addRead {α : Type} (s : Lexer) (activity : Activity) (lexeme : α → Lexeme)
    (found : Except Stop (α × List Char)) : Except Refusal Lexer :=
  match found with
  | .error stop => .error (s.refusal activity stop)
  | .ok (a, rest) => .ok (s.add (lexeme a) (s.cursor.distance rest))

/-! ## Marks -/

/-- Leaves all blocks at the start of a directive or the end of a document. -/
def leaveBlocks (s : Lexer) : Except Refusal Lexer := do
  let s ← (s.closeBlocks fun _ => true).dropCandidate
  return { s with allowsKey := false }

def addFlowStart (s : Lexer) (lexeme : Lexeme) : Except Refusal Lexer := do
  let s ← s.offer
  return { s with candidate := none, outer := s.candidate :: s.outer, allowsKey := true }.add
    lexeme 1

def addFlowEnd (s : Lexer) (lexeme : Lexeme) : Except Refusal Lexer := do
  let s ← s.dropCandidate
  return { s with
    candidate := s.outer.head?.join
    outer := s.outer.drop 1
    allowsKey := false }.add lexeme 1

def addFlowNext (s : Lexer) : Except Refusal Lexer := do
  let s ← s.dropCandidate
  return { s with allowsKey := true }.add .flowNext 1

/-- The start of a block at a mark, which may stand where a key may. -/
def openAtMark (s : Lexer) (lexeme : Lexeme) (problem : Problem) : Except Refusal Lexer :=
  if s.inFlow then .ok s
  else if s.allowsKey then .ok (s.openBlock lexeme)
  else .error (.marked none problem s.cursor.index)

def addItem (s : Lexer) : Except Refusal Lexer := do
  let s ← s.openAtMark .blockListStart .itemPlace
  let s ← { s with allowsKey := true }.dropCandidate
  return s.add .item 1

def addKey (s : Lexer) : Except Refusal Lexer := do
  let s ← s.openAtMark .blockMapStart .keyPlace
  let s ← { s with allowsKey := !s.inFlow }.dropCandidate
  return s.add .key 1

/-- Puts the mark of a key, and the start of a map unless one is open, in front of a candidate. -/
def insertKey (s : Lexer) (k : Candidate) : Lexer :=
  let mark (lexeme : Lexeme) : Token := ⟨lexeme, k.place.index, k.place.index⟩
  let isFirst := !s.inFlow && s.least ≤ k.place.column
  let inside := s.found.length - k.count
  { s with
    found := s.found.take inside ++ mark .key ::
      ((if isFirst then [mark .blockMapStart] else []) ++ s.found.drop inside)
    indents := if isFirst then k.place.column :: s.indents else s.indents
    candidate := none
    allowsKey := false }

def addValue (s : Lexer) : Except Refusal Lexer := do
  match s.candidate with
  | some k => return (s.insertKey k).add .value 1
  | none =>
      let s ← s.openAtMark .blockMapStart .valuePlace
      return { s with allowsKey := !s.inFlow }.add .value 1

/-! ## Scalars and properties -/

/-- A property or a scalar, which may be a key; no other key starts behind it on its line. -/
def addInline {α : Type} (s : Lexer) (activity : Activity) (lexeme : α → Lexeme)
    (found : Except Stop (α × List Char)) : Except Refusal Lexer := do
  let s ← s.offer
  { s with allowsKey := false }.addRead activity lexeme found

/-- The activity at a problem within a tag or a directive. -/
def withinTag {α : Type} (usual atAddress : Activity) (found : Except Stop α) : Activity :=
  match found with
  | .error ⟨.expected .address _, _⟩ => atAddress
  | .error ⟨.expected .bracket _, _⟩ => atAddress
  | _ => usual

def addTag (s : Lexer) (rest : List Char) : Except Refusal Lexer :=
  let found := tagAt rest
  s.addInline (withinTag .tag .tagName found) (fun (handle, name) => .tag handle name) found

def addDirective (s : Lexer) (rest : List Char) : Except Refusal Lexer := do
  let found := directiveAt rest
  (← s.leaveBlocks).addRead (withinTag .directive .directiveTag found) .directive found

/-- A text between double quotes. White space is told of apart from what it separates. -/
def addDoubleQuoted (s : Lexer) (rest : List Char) : Except Refusal Lexer :=
  let found := doubleQuoted .none rest
  let activity := match found with
    | .error ⟨.unexpectedEnd, _⟩ => .quoted
    | .error ⟨.unexpectedSeparator, _⟩ => .quoted
    | _ => .doubleQuoted
  s.addInline activity (.scalar false) found

/-- A scalar over several lines ends where a key may stand. -/
def addPlain (s : Lexer) : Except Refusal Lexer := do
  let s ← s.offer
  let found := plain s.inFlow s.least s.cursor.column .none s.cursor.rest
  return { s with allowsKey := found.gap.isAcross }.add (.scalar true found.text)
    (s.cursor.distance found.rest)

def addBlockScalar (s : Lexer) (folds : Bool) (rest : List Char) : Except Refusal Lexer := do
  let s ← { s with allowsKey := true }.dropCandidate
  s.addRead .blockScalar (.scalar false) (blockScalar folds (max 1 s.least) rest)

/-! ## Texts -/

/-- The number of spaces, characters of comments and line breaks at the start of a text, and
whether there are line breaks among them. -/
def blanks (inComment sawBreak : Bool) : List Char → Nat × Bool
  | [] => (0, sawBreak)
  | c :: rest =>
      let count (found : Nat × Bool) := (found.1 + 1, found.2)
      if isBreak c then count (blanks false true rest)
      else if inComment ∨ c = ' ' then count (blanks inComment sawBreak rest)
      else if c = '#' then count (blanks true sawBreak rest)
      else (0, sawBreak)

/-- Goes on to the next mark or scalar and ends the blocks that it is outside of. On a new line a
key may stand. -/
def settle (s : Lexer) : Except Refusal Lexer := do
  let (width, sawBreak) := blanks false false s.cursor.rest
  let s ← { s with
    cursor := s.cursor.skip width
    allowsKey := s.allowsKey || (sawBreak && !s.inFlow) }.dropStale
  return s.closeBlocks (s.cursor.column < ·)

/-- The token that starts with a character. -/
def addNext (s : Lexer) (c : Char) (rest : List Char) : Except Refusal Lexer := do
  let isMark := s.inFlow || endsMark rest
  if s.cursor.column = 0 ∧ c = '%' then s.addDirective rest
  else if s.cursor.column = 0 ∧ isSeparator (c :: rest) then
    return (← s.leaveBlocks).add (if c = '-' then .documentStart else .documentEnd) 3
  else if c = '[' then s.addFlowStart .flowListStart
  else if c = '\x7b' then s.addFlowStart .flowMapStart
  else if c = ']' then s.addFlowEnd .flowListEnd
  else if c = '\x7d' then s.addFlowEnd .flowMapEnd
  else if c = ',' then s.addFlowNext
  else if c = '-' ∧ endsMark rest then s.addItem
  else if c = '?' ∧ isMark then s.addKey
  else if c = ':' ∧ isMark then s.addValue
  else if c = '*' then s.addInline .reference .reference (nameAt endsAnchor rest)
  else if c = '&' then s.addInline .anchor .anchor (nameAt endsAnchor rest)
  else if c = '!' then s.addTag rest
  else if c = '|' ∧ !s.inFlow then s.addBlockScalar false rest
  else if c = '>' ∧ !s.inFlow then s.addBlockScalar true rest
  else if c = '\x27' then s.addInline .quoted (.scalar false) (singleQuoted .none rest)
  else if c = '\x22' then s.addDoubleQuoted rest
  else if startsPlain s.inFlow c rest then s.addPlain
  else .error (.marked (some (.token, s.cursor.index)) (.noToken c) s.cursor.index)

/-- The tokens before the first one that may still become a key. -/
def settled (s : Lexer) : List Token :=
  let candidates := (s.candidate :: s.outer).filterMap (·.map (·.count))
  s.found.reverse.take (candidates.foldl min s.found.length)

end Lexer

/-- The tokens of a text, and why there are no more of them. -/
structure Tokens where
  all : List Token
  stop : Refusal

namespace Lexer

/-- All tokens from a place on. A step that takes nothing would be the last one. -/
def tokens (s : Lexer) : Tokens :=
  match s.settle with
  | .error refusal => ⟨s.settled, refusal⟩
  | .ok here =>
      match here.cursor.rest with
      | [] =>
          match here.leaveBlocks with
          | .error refusal => ⟨s.settled, refusal⟩
          | .ok done => ⟨(done.add .textEnd 0).found.reverse, .unsupported⟩
      | c :: rest =>
          match (do (← here.addNext c rest).dropStale) with
          | .error refusal => ⟨s.settled, refusal⟩
          | .ok next =>
              if _h : next.cursor.left < s.cursor.left then tokens next
              else ⟨next.settled, .unsupported⟩
termination_by s.cursor.left

end Lexer

end ScalarStore.Yaml
