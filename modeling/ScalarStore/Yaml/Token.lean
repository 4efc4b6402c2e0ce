/-! # Tokens

The marks, names and scalars of a document in order, with the places where they start and end.
Blocks are opened and closed by tokens of no width. -/

namespace ScalarStore.Yaml

/-- A directive: a version, a handle that stands for the start of tags, or one without effect. -/
inductive Directive
  | version (major minor : Nat)
  | handle (handle start : String)
  | other

/-- Of a tag the handle may be missing, and a scalar is plain or not. -/
inductive Lexeme
  | directive (d : Directive)
  | documentStart | documentEnd | textEnd
  | blockListStart | blockMapStart | blockEnd
  | flowListStart | flowListEnd | flowMapStart | flowMapEnd | flowNext
  | item | key | value
  | reference (name : String)
  | anchor (name : String)
  | tag (handle : Option String) (name : String)
  | scalar (isPlain : Bool) (text : List Char)

/-- The name of a token in messages. -/
def Lexeme.word : Lexeme → String
  | .directive _ => "<directive>"
  | .documentStart => "<document start>"
  | .documentEnd => "<document end>"
  | .textEnd => "<stream end>"
  | .blockListStart => "<block sequence start>"
  | .blockMapStart => "<block mapping start>"
  | .blockEnd => "<block end>"
  | .flowListStart => "["
  | .flowListEnd => "]"
  | .flowMapStart => "\x7b"
  | .flowMapEnd => "\x7d"
  | .flowNext => ","
  | .item => "-"
  | .key => "?"
  | .value => ":"
  | .reference _ => "<alias>"
  | .anchor _ => "<anchor>"
  | .tag _ _ => "<tag>"
  | .scalar _ _ => "<scalar>"

structure Token where
  lexeme : Lexeme
  start : Nat
  finish : Nat

end ScalarStore.Yaml
