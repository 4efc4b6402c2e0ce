import ScalarStore.Text.Blank
import ScalarStore.Text.Digit
import ScalarStore.Filter.Basic

/-! # Tokens of filter text

Each lexeme is told by its first character, so at most one form matches at a place. White space
separates lexemes and is dropped. -/

namespace ScalarStore.Filter

inductive Keyword
  | and | or | not | in | like | true | false
deriving DecidableEq

namespace Keyword

def word : Keyword → String
  | .and => "and"
  | .or => "or"
  | .not => "not"
  | .in => "in"
  | .like => "like"
  | .true => "true"
  | .false => "false"

def all : List Keyword := [.and, .or, .not, .in, .like, .true, .false]

/-- Keywords are matched whatever the case of their letters. -/
def ofWord? (s : String) : Option Keyword := all.find? fun k => k.word == Text.lower s

end Keyword

inductive Symbol
  | compare (c : Comparison)
  | and | or | not | openParen | closeParen | openBracket | closeBracket | comma | plus | minus
deriving DecidableEq

def Symbol.text : Symbol → String
  | .compare c => c.symbol
  | .and => "&&"
  | .or => "||"
  | .not => "!"
  | .openParen => "("
  | .closeParen => ")"
  | .openBracket => "["
  | .closeBracket => "]"
  | .comma => ","
  | .plus => "+"
  | .minus => "-"

/-- Numbers and quoted texts keep their spelling; the body of a quoted text still has its
escapes. -/
inductive Lexeme
  | number (spelling : List Char)
  | quoted (mark : Char) (body : List Char)
  | symbol (s : Symbol)
  | name (s : String)
  | keyword (k : Keyword)
deriving DecidableEq

/-- The text of a lexeme, with keywords in lower case. -/
def Lexeme.text : Lexeme → String
  | .number spelling => String.ofList spelling
  | .quoted mark body => String.ofList (mark :: body ++ [mark])
  | .symbol s => s.text
  | .name s => s
  | .keyword k => k.word

/-- A lexeme and the number of characters before it. -/
structure Token where
  lexeme : Lexeme
  position : Nat
deriving DecidableEq

/-- Why a text has no tokens: a quote that is not closed, or a character that starts no lexeme. -/
inductive LexicalFault
  | unterminated
  | unexpected (c : Char)
deriving DecidableEq

namespace Lexeme

def isNameStart (c : Char) : Bool := c.isAlpha || c == '_'

def isNamePart (c : Char) : Bool := c.isAlphanum || c == '_'

def isQuote (c : Char) : Bool := c == '\x27' || c == '\x22'

/-- Splits a run of digits off. -/
def digits (cs : List Char) : List Char × List Char :=
  (cs.takeWhile Text.isDigit, cs.dropWhile Text.isDigit)

/-- Splits a sign off, if there is one. -/
def sign : List Char → List Char × List Char
  | '+' :: rest => (['+'], rest)
  | '-' :: rest => (['-'], rest)
  | rest => ([], rest)

/-- Splits a point and the digits after it off; the digits may be missing. -/
def fraction : List Char → List Char × List Char
  | '.' :: rest => ('.' :: (digits rest).1, (digits rest).2)
  | cs => ([], cs)

/-- Splits an exponent off: a letter, an optional sign and at least one digit. -/
def exponent : List Char → List Char × List Char
  | [] => ([], [])
  | e :: cs =>
      let (mark, rest) := sign cs
      let (power, rest) := digits rest
      if (e = 'e' ∨ e = 'E') ∧ power ≠ [] then (e :: mark ++ power, rest) else ([], e :: cs)

/-- A number has digits before or after its point. -/
def number? (cs : List Char) : Option (List Char × List Char) :=
  let (whole, rest) := digits cs
  let (part, rest) := fraction rest
  let (power, rest) := exponent rest
  if whole = [] ∧ part.length < 2 then none else some (whole ++ part ++ power, rest)

/-- The body of a quoted text up to the closing mark. A backslash takes the next character with
it, which must not be a line feed. -/
def quotedBody (mark : Char) : List Char → Option (List Char × List Char)
  | [] => none
  | [c] => if c = mark then some ([], []) else none
  | c :: d :: rest =>
      if c = '\\' then
        if d = '\n' then none
        else (quotedBody mark rest).map fun (body, after) => (c :: d :: body, after)
      else if c = mark then some ([], d :: rest)
      else (quotedBody mark (d :: rest)).map fun (body, after) => (c :: body, after)

def symbol? : List Char → Option (Lexeme × List Char)
  | '<' :: '=' :: rest => some (.symbol (.compare .le), rest)
  | '>' :: '=' :: rest => some (.symbol (.compare .ge), rest)
  | '=' :: '=' :: rest => some (.symbol (.compare .eq), rest)
  | '!' :: '=' :: rest => some (.symbol (.compare .ne), rest)
  | '&' :: '&' :: rest => some (.symbol .and, rest)
  | '|' :: '|' :: rest => some (.symbol .or, rest)
  | '<' :: rest => some (.symbol (.compare .lt), rest)
  | '>' :: rest => some (.symbol (.compare .gt), rest)
  | '!' :: rest => some (.symbol .not, rest)
  | '(' :: rest => some (.symbol .openParen, rest)
  | ')' :: rest => some (.symbol .closeParen, rest)
  | '[' :: rest => some (.symbol .openBracket, rest)
  | ']' :: rest => some (.symbol .closeBracket, rest)
  | ',' :: rest => some (.symbol .comma, rest)
  | '+' :: rest => some (.symbol .plus, rest)
  | '-' :: rest => some (.symbol .minus, rest)
  | _ => none

def ofWord (word : List Char) : Lexeme :=
  match Keyword.ofWord? (String.ofList word) with
  | some k => .keyword k
  | none => .name (String.ofList word)

/-- The lexeme at the start of a text that is not empty and starts with no white space. -/
def read? (c : Char) (cs : List Char) : Except LexicalFault (Lexeme × List Char) :=
  if isQuote c then
    match quotedBody c cs with
    | some (body, rest) => .ok (.quoted c body, rest)
    | none => .error .unterminated
  else if isNameStart c then
    .ok (ofWord (c :: cs.takeWhile isNamePart), cs.dropWhile isNamePart)
  else
    match number? (c :: cs), symbol? (c :: cs) with
    | some (spelling, rest), _ => .ok (.number spelling, rest)
    | none, some found => .ok found
    | none, none => .error (.unexpected c)

/-! The readers split their input: what they take and what they leave make it up. -/

theorem digits_append (cs : List Char) : (digits cs).1 ++ (digits cs).2 = cs := by
  simp [digits]

theorem sign_append (cs : List Char) : (sign cs).1 ++ (sign cs).2 = cs := by
  unfold sign; split <;> rfl

theorem fraction_append (cs : List Char) : (fraction cs).1 ++ (fraction cs).2 = cs := by
  unfold fraction; split
  · simp [digits_append]
  · rfl

theorem exponent_append (cs : List Char) : (exponent cs).1 ++ (exponent cs).2 = cs := by
  cases cs with
  | nil => rfl
  | cons e cs =>
      simp only [exponent]
      split
      · simp [digits_append, sign_append]
      · rfl

theorem number?_append {cs spelling rest : List Char} (h : number? cs = some (spelling, rest)) :
    spelling ++ rest = cs ∧ spelling ≠ [] := by
  simp only [number?] at h
  split at h
  · contradiction
  · next hn =>
      simp only [Option.some.injEq, Prod.mk.injEq] at h
      obtain ⟨rfl, rfl⟩ := h
      refine ⟨by simp [exponent_append, fraction_append, digits_append], ?_⟩
      intro he
      simp only [List.append_eq_nil_iff] at he
      exact hn ⟨he.1.1, by simp [he.1.2]⟩

theorem quotedBody_append {mark : Char} {cs body rest : List Char}
    (h : quotedBody mark cs = some (body, rest)) : body ++ mark :: rest = cs := by
  fun_induction quotedBody mark cs generalizing body rest <;> simp_all
  all_goals
    next ih =>
      obtain ⟨a, ha, rfl⟩ := h
      simpa using ih ha

theorem symbol?_length {cs rest : List Char} {lexeme : Lexeme}
    (h : symbol? cs = some (lexeme, rest)) : rest.length < cs.length := by
  unfold symbol? at h
  split at h <;> cases h <;> simp only [List.length_cons] <;> omega

/-- A lexeme takes at least one character. -/
theorem read?_length {c : Char} {cs rest : List Char} {lexeme : Lexeme}
    (h : read? c cs = .ok (lexeme, rest)) : rest.length < (c :: cs).length := by
  unfold read? at h
  split at h
  · split at h
    · next hq =>
        cases h
        have := congrArg List.length (quotedBody_append hq)
        simp at this ⊢
        omega
    · contradiction
  · split at h
    · cases h
      exact Nat.lt_succ_of_le (List.dropWhile_suffix isNamePart).length_le
    · split at h
      · next hn =>
          cases h
          obtain ⟨happ, hne⟩ := number?_append hn
          have := congrArg List.length happ
          have := List.length_pos_iff.mpr hne
          simp at *
          omega
      · next hs =>
          cases h
          exact symbol?_length hs
      · contradiction

end Lexeme

/-- The tokens of a text of which the first character has a position, or the first place where
no lexeme starts. -/
def scan (position : Nat) : List Char → Except (LexicalFault × Nat) (List Token)
  | [] => .ok []
  | c :: cs =>
      if Text.isBlank c then scan (position + 1) cs
      else
        match _h : Lexeme.read? c cs with
        | .error fault => .error (fault, position)
        | .ok (lexeme, rest) =>
            (scan (position + lexeme.text.length) rest).map (⟨lexeme, position⟩ :: ·)
termination_by cs => cs.length
decreasing_by
  · simp
  · exact Lexeme.read?_length ‹_›

def tokenize (text : String) : Except (LexicalFault × Nat) (List Token) := scan 0 text.toList

/-! ## Listed tokens -/

/-- What a listed token is. The end of a text is one as well. -/
inductive EntryKind
  | number | quoted | symbol | name | keyword | last
deriving DecidableEq

def EntryKind.word : EntryKind → String
  | .number => "number"
  | .quoted => "string"
  | .symbol => "op"
  | .name => "ident"
  | .keyword => "keyword"
  | .last => "end"

def Lexeme.kind : Lexeme → EntryKind
  | .number _ => .number
  | .quoted _ _ => .quoted
  | .symbol _ => .symbol
  | .name _ => .name
  | .keyword _ => .keyword

/-- A token as it is listed: what it is, its text, and the number of characters before it. -/
structure Entry where
  kind : EntryKind
  text : String
  position : Nat
deriving DecidableEq

def Token.entry (token : Token) : Entry := ⟨token.lexeme.kind, token.lexeme.text, token.position⟩

/-- The tokens of a text as they are listed, with the end of the text as the last one. -/
def listing (text : String) : Except (LexicalFault × Nat) (List Entry) := do
  let tokens ← tokenize text
  return tokens.map Token.entry ++ [⟨.last, "", text.length⟩]

end ScalarStore.Filter
