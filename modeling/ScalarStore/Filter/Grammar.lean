import ScalarStore.Filter.Token
import ScalarStore.Reading
import ScalarStore.Text.Integer

/-! # The grammar of filters

    disjunction := conjunction (("or" | "||") conjunction)*
    conjunction := unary (("and" | "&&") unary)*
    unary       := ("not" | "!") unary | "(" disjunction ")" | predicate
    predicate   := NAME ["not"] "in" list | NAME "like" TEXT | NAME CMP literal | NAME
                 | literal CMP NAME [CMP literal]
    list        := "[" [literal ("," literal)*] "]"

A literal on the left is moved to the right of the flipped operator, and a second operator must
point the way of the first. A name alone stands for a comparison with `true`. Every function
returns the tokens it leaves, so the recursion ends because tokens run out. -/

namespace ScalarStore.Filter

/-- What was looked for at the token where reading stopped. -/
inductive Expectation
  | closeParen | openBracket | listEnd | inputEnd | predicate | pattern | noSecondName | noChain
  | comparison | name | literal
deriving DecidableEq

inductive Refusal
  | unexpected (wanted : Expectation)
  | mixedChain (first second : Comparison)
  | tooDeep (limit : Int)
  | longInteger (digits : Nat)
deriving DecidableEq

/-- Why reading stopped, and the tokens from that place on. -/
structure Stop where
  refusal : Refusal
  tokens : List Token

abbrev Reading (α : Type) (tokens : List Token) := Except Stop (Taken α tokens)

def stop {α : Type} (wanted : Expectation) (tokens : List Token) : Except Stop α :=
  .error ⟨.unexpected wanted, tokens⟩

/-! ## Literals -/

/-- The meaning of a quoted body. An unknown escape stands for itself, backslash included. -/
def unescape : List Char → List Char
  | '\\' :: 'n' :: rest => '\n' :: unescape rest
  | '\\' :: 't' :: rest => '\t' :: unescape rest
  | '\\' :: 'r' :: rest => '\r' :: unescape rest
  | '\\' :: '\\' :: rest => '\\' :: unescape rest
  | '\\' :: '\x22' :: rest => '\x22' :: unescape rest
  | '\\' :: '\x27' :: rest => '\x27' :: unescape rest
  | '\\' :: c :: rest => '\\' :: c :: unescape rest
  | c :: rest => c :: unescape rest
  | [] => []

/-- The real number of a spelling with a point or an exponent. -/
def realOf (negative : Bool) (spelling : List Char) : Binary64 :=
  let (whole, rest) := Lexeme.digits spelling
  let (part, rest) := Lexeme.fraction rest
  let (mark, power) := Lexeme.sign (rest.drop 1)
  let places := part.filterMap Text.digitValue?
  let shift : Int := Text.ofDigits (power.filterMap Text.digitValue?)
  .ofDecimal negative (Text.ofDigits (whole.filterMap Text.digitValue? ++ places))
    ((if mark = ['-'] then -shift else shift) - places.length)

/-- Digits alone are an integer, which must not be too long; any other number is real. -/
def numberValue (negative : Bool) (spelling : List Char) : Except Refusal Value :=
  if spelling.all Text.isDigit then
    match Text.readDigits spelling with
    | .ok n => .ok (.int (if negative then -n else n))
    | .error _ => .error (.longInteger spelling.length)
  else .ok (.float (realOf negative spelling))

/-- The number after an optional sign. -/
def unsignedNumber (negative : Bool) : (tokens : List Token) → Reading Value tokens
  | ⟨.number spelling, position⟩ :: rest =>
      match numberValue negative spelling with
      | .ok value => .ok ⟨value, rest, Nat.lt_succ_self _⟩
      | .error refusal => .error ⟨refusal, ⟨.number spelling, position⟩ :: rest⟩
  | tokens => stop .literal tokens

def literal : (tokens : List Token) → Reading Value tokens
  | ⟨.quoted _ body, _⟩ :: rest =>
      .ok ⟨.str (String.ofList (unescape body)), rest, Nat.lt_succ_self _⟩
  | ⟨.keyword .true, _⟩ :: rest => .ok ⟨.bool true, rest, Nat.lt_succ_self _⟩
  | ⟨.keyword .false, _⟩ :: rest => .ok ⟨.bool false, rest, Nat.lt_succ_self _⟩
  | ⟨.symbol .plus, _⟩ :: rest =>
      (unsignedNumber false rest).map fun n => ⟨n.value, n.rest, Nat.lt_succ_of_lt n.shorter⟩
  | ⟨.symbol .minus, _⟩ :: rest =>
      (unsignedNumber true rest).map fun n => ⟨n.value, n.rest, Nat.lt_succ_of_lt n.shorter⟩
  | tokens => unsignedNumber false tokens

/-- The literals after the first one of a list, up to the closing bracket. -/
def listRest (tokens : List Token) : Reading (List Value) tokens :=
  match tokens with
  | ⟨.symbol .closeBracket, _⟩ :: rest => .ok ⟨[], rest, Nat.lt_succ_self _⟩
  | ⟨.symbol .comma, _⟩ :: rest =>
      match literal rest with
      | .error stopped => .error stopped
      | .ok first =>
          have := first.shorter
          match listRest first.rest with
          | .error stopped => .error stopped
          | .ok more =>
              .ok ⟨first.value :: more.value, more.rest, by
                have := more.shorter; simp only [List.length_cons]; omega⟩
  | tokens => stop .listEnd tokens
termination_by tokens.length

def list : (tokens : List Token) → Reading (List Value) tokens
  | ⟨.symbol .openBracket, _⟩ :: ⟨.symbol .closeBracket, _⟩ :: rest =>
      .ok ⟨[], rest, Nat.lt_succ_of_lt (Nat.lt_succ_self _)⟩
  | ⟨.symbol .openBracket, _⟩ :: rest =>
      match literal rest with
      | .error stopped => .error stopped
      | .ok first =>
          match listRest first.rest with
          | .error stopped => .error stopped
          | .ok more =>
              .ok ⟨first.value :: more.value, more.rest, by
                have := first.shorter; have := more.shorter
                simp only [List.length_cons]; omega⟩
  | tokens => stop .openBracket tokens

/-! ## Predicates -/

def startsComparison : List Token → Bool
  | ⟨.symbol (.compare _), _⟩ :: _ => true
  | _ => false

/-- What follows a name. -/
def afterName (name : String) (tokens : List Token) : Except Stop (Maybe Filter tokens) :=
  match tokens with
  | ⟨.keyword .not, _⟩ :: ⟨.keyword .in, _⟩ :: rest =>
      (list rest).map fun l =>
        ⟨.leaf name .notIn (.list l.value), l.rest, by
          have := l.shorter; simp only [List.length_cons]; omega⟩
  | ⟨.keyword .in, _⟩ :: rest =>
      (list rest).map fun l =>
        ⟨.leaf name .isIn (.list l.value), l.rest, by
          have := l.shorter; simp only [List.length_cons]; omega⟩
  | ⟨.keyword .like, _⟩ :: ⟨.quoted _ body, _⟩ :: rest =>
      .ok ⟨.leaf name .like (.str (String.ofList (unescape body))), rest, by
        simp only [List.length_cons]; omega⟩
  | ⟨.keyword .like, _⟩ :: rest => stop .pattern rest
  | ⟨.symbol (.compare _), _⟩ :: ⟨.name second, position⟩ :: rest =>
      stop .noSecondName (⟨.name second, position⟩ :: rest)
  | ⟨.symbol (.compare c), _⟩ :: rest =>
      match literal rest with
      | .error stopped => .error stopped
      | .ok right =>
          match startsComparison right.rest with
          | true => stop .noChain right.rest
          | false =>
              .ok ⟨.leaf name (.compare c) right.value, right.rest, by
                have := right.shorter; simp only [List.length_cons]; omega⟩
  | tokens => .ok ⟨.leaf name (.compare .eq) (.bool true), tokens, Nat.le_refl _⟩

/-- What follows a literal, a comparison and a name: nothing, or a second comparison that points
the same way as the first and its literal. -/
def afterFlipped (first : Comparison) (low : Value) (name : String) (tokens : List Token) :
    Except Stop (Maybe Filter tokens) :=
  let left := Filter.leaf name (.compare first.flip) low
  match tokens with
  | ⟨.symbol (.compare second), position⟩ :: rest =>
      if (first.ascending && second.ascending) || (first.descending && second.descending) then
        (literal rest).map fun high =>
          ⟨.node .and [left, .leaf name (.compare second) high.value], high.rest, by
            have := high.shorter; simp only [List.length_cons]; omega⟩
      else
        .error ⟨.mixedChain first second, ⟨.symbol (.compare second), position⟩ :: rest⟩
  | tokens => .ok ⟨left, tokens, Nat.le_refl _⟩

/-- A comparison and a name, as they follow a literal. -/
def flippedName : (tokens : List Token) → Reading (Comparison × String) tokens
  | ⟨.symbol (.compare c), _⟩ :: ⟨.name name, _⟩ :: rest =>
      .ok ⟨(c, name), rest, Nat.lt_succ_of_lt (Nat.lt_succ_self _)⟩
  | ⟨.symbol (.compare _), _⟩ :: rest => stop .name rest
  | tokens => stop .comparison tokens

/-- A comparison that starts with its literal. -/
def literalFirst (tokens : List Token) : Reading Filter tokens :=
  match literal tokens with
  | .error stopped => .error stopped
  | .ok low =>
      match flippedName low.rest with
      | .error stopped => .error stopped
      | .ok head =>
          match afterFlipped head.value.1 low.value head.value.2 head.rest with
          | .error stopped => .error stopped
          | .ok f =>
              .ok ⟨f.value, f.rest,
                Nat.lt_of_le_of_lt f.noLonger (Nat.lt_trans head.shorter low.shorter)⟩

def startsLiteral : List Token → Bool
  | ⟨.number _, _⟩ :: _ => true
  | ⟨.quoted _ _, _⟩ :: _ => true
  | ⟨.keyword .true, _⟩ :: _ => true
  | ⟨.keyword .false, _⟩ :: _ => true
  | ⟨.symbol .plus, _⟩ :: _ => true
  | ⟨.symbol .minus, _⟩ :: _ => true
  | _ => false

def predicate (tokens : List Token) : Reading Filter tokens :=
  match tokens with
  | ⟨.name name, _⟩ :: rest =>
      (afterName name rest).map fun f => ⟨f.value, f.rest, Nat.lt_succ_of_le f.noLonger⟩
  | tokens => if startsLiteral tokens then literalFirst tokens else stop .predicate tokens

/-! ## Connectives -/

/-- One filter stands for itself; several are joined under a connective. -/
def joined (connective : Connective) (first : Filter) : List Filter → Filter
  | [] => first
  | more => .node connective (first :: more)

def isOr : Lexeme → Bool
  | .keyword .or => true
  | .symbol .or => true
  | _ => false

def isAnd : Lexeme → Bool
  | .keyword .and => true
  | .symbol .and => true
  | _ => false

def isNot : Lexeme → Bool
  | .keyword .not => true
  | .symbol .not => true
  | _ => false

/-- The parenthesis that closes a level. -/
def closing : (tokens : List Token) → Reading Unit tokens
  | ⟨.symbol .closeParen, _⟩ :: rest => .ok ⟨(), rest, Nat.lt_succ_self _⟩
  | tokens => stop .closeParen tokens

mutual

def disjunction (limit : Int) (depth : Nat) (tokens : List Token) : Reading Filter tokens :=
  match conjunction limit depth tokens with
  | .error stopped => .error stopped
  | .ok first =>
      have := first.shorter
      match disjuncts limit depth first.rest with
      | .error stopped => .error stopped
      | .ok more =>
          .ok ⟨joined .or first.value more.value, more.rest,
            Nat.lt_of_le_of_lt more.noLonger first.shorter⟩
termination_by (tokens.length, 3)

/-- The conjunctions after the first one, each behind an `or`. -/
def disjuncts (limit : Int) (depth : Nat) (tokens : List Token) :
    Except Stop (Maybe (List Filter) tokens) :=
  match tokens with
  | token :: rest =>
      if isOr token.lexeme then
        match conjunction limit depth rest with
        | .error stopped => .error stopped
        | .ok first =>
            have := first.shorter
            match disjuncts limit depth first.rest with
            | .error stopped => .error stopped
            | .ok more =>
                .ok ⟨first.value :: more.value, more.rest, by
                  have := more.noLonger; simp only [List.length_cons]; omega⟩
      else .ok ⟨[], token :: rest, Nat.le_refl _⟩
  | [] => .ok ⟨[], [], Nat.le_refl _⟩
termination_by (tokens.length, 4)

def conjunction (limit : Int) (depth : Nat) (tokens : List Token) : Reading Filter tokens :=
  match unary limit depth tokens with
  | .error stopped => .error stopped
  | .ok first =>
      have := first.shorter
      match conjuncts limit depth first.rest with
      | .error stopped => .error stopped
      | .ok more =>
          .ok ⟨joined .and first.value more.value, more.rest,
            Nat.lt_of_le_of_lt more.noLonger first.shorter⟩
termination_by (tokens.length, 1)

/-- The unary filters after the first one, each behind an `and`. -/
def conjuncts (limit : Int) (depth : Nat) (tokens : List Token) :
    Except Stop (Maybe (List Filter) tokens) :=
  match tokens with
  | token :: rest =>
      if isAnd token.lexeme then
        match unary limit depth rest with
        | .error stopped => .error stopped
        | .ok first =>
            have := first.shorter
            match conjuncts limit depth first.rest with
            | .error stopped => .error stopped
            | .ok more =>
                .ok ⟨first.value :: more.value, more.rest, by
                  have := more.noLonger; simp only [List.length_cons]; omega⟩
      else .ok ⟨[], token :: rest, Nat.le_refl _⟩
  | [] => .ok ⟨[], [], Nat.le_refl _⟩
termination_by (tokens.length, 2)

/-- A negation or a parenthesis opens a level; no more than `limit` may be open at once. -/
def unary (limit : Int) (depth : Nat) (tokens : List Token) : Reading Filter tokens :=
  match tokens with
  | [] => predicate []
  | token :: rest =>
      if isNot token.lexeme then
        if limit < depth + 1 then .error ⟨.tooDeep limit, token :: rest⟩
        else
          match unary limit (depth + 1) rest with
          | .error stopped => .error stopped
          | .ok f => .ok ⟨.node .not [f.value], f.rest, Nat.lt_succ_of_lt f.shorter⟩
      else if token.lexeme = .symbol .openParen then
        if limit < depth + 1 then .error ⟨.tooDeep limit, token :: rest⟩
        else
          match disjunction limit (depth + 1) rest with
          | .error stopped => .error stopped
          | .ok f =>
              match closing f.rest with
              | .error stopped => .error stopped
              | .ok close =>
                  .ok ⟨f.value, close.rest,
                    Nat.lt_succ_of_lt (Nat.lt_trans close.shorter f.shorter)⟩
      else predicate (token :: rest)
termination_by (tokens.length, 0)

end

/-- The filter that all tokens together spell. -/
def ofTokens (limit : Int) (tokens : List Token) : Except Stop Filter :=
  match disjunction limit 0 tokens with
  | .error stopped => .error stopped
  | .ok f => if f.rest = [] then .ok f.value else stop .inputEnd f.rest

end ScalarStore.Filter
