import ScalarStore.Fault

/-! # Filter text -/

namespace ScalarStore.Filter

/-- The fault that a stop amounts to in a text. Its place is that of the first token left, or
the end of the text. -/
def Stop.fault (text : String) (stopped : Stop) : Fault :=
  let position := (stopped.tokens.head?.map (·.position)).getD text.length
  match stopped.refusal with
  | .unexpected wanted =>
      .filter (.unexpected wanted (stopped.tokens.head?.map (·.lexeme))) position text
  | .mixedChain first second => .filter (.mixedChain first second) position text
  | .tooDeep limit => .filter (.tooDeep limit) position text
  | .longInteger digits => .value (.integerTooLong digits)

/-- The filter that a text spells, with at most `limit` levels open at once. A blank text
spells none. -/
def parse (limit : Int) (text : String) : Except Fault (Option Filter) :=
  if Text.isBlankText text then .ok none
  else
    match tokenize text with
    | .error (fault, position) => .error (.filter (.lexical fault) position text)
    | .ok tokens =>
        match ofTokens limit tokens with
        | .error stopped => .error (stopped.fault text)
        | .ok filter => .ok (some filter)

/-- How many levels of negations and parentheses may be open unless a limit is given. -/
def defaultDepth : Int := 128

end ScalarStore.Filter
