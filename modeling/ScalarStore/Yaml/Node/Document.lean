import ScalarStore.Yaml.Node.Reader

/-! # Documents

A text holds one document at most. Directives may stand before its start, which must then be
marked; a mark of its end may be left out. -/

namespace ScalarStore.Yaml

/-- What directives tell: a version or not, and the handles of tags. -/
structure Preamble where
  hasVersion : Bool
  handles : List (String × String)

/-- The handles that need no directive. -/
def usualHandles : List (String × String) := [("!", "!"), ("!!", tagSpace)]

/-- The directives up to the start of a document, and what follows it. -/
def preamble (stop : Refusal) (p : Preamble) :
    List Token → Except Refusal (Preamble × List Token)
  | [] => .error stop
  | t :: rest =>
      let refuse (problem : Problem) := .error (.marked none problem t.start)
      match t.lexeme with
      | .directive (.version major _) =>
          if p.hasVersion then refuse .repeatedVersion
          else if major ≠ 1 then refuse .unknownVersion
          else preamble stop { p with hasVersion := true } rest
      | .directive (.handle handle space) =>
          if (p.handles.lookup handle).isSome then refuse (.repeatedHandle handle)
          else preamble stop { p with handles := (handle, space) :: p.handles } rest
      | .directive .other => preamble stop p rest
      | .documentStart => .ok (p, rest)
      | lexeme => refuse (.expectedToken .documentStart lexeme.word)

def isDocumentEnd : Lexeme → Bool
  | .documentEnd => true
  | _ => false

/-- Whether a document or its directives start at a token. -/
def startsDocument : Lexeme → Bool
  | .directive _ => true
  | .documentStart => true
  | _ => false

/-- Whether a document ends before a token. -/
def endsDocument : Lexeme → Bool
  | .textEnd => true
  | lexeme => isDocumentEnd lexeme || startsDocument lexeme

/-- Behind a document nothing but marks of its end may stand. -/
def checkBehind (stop : Refusal) (document : Node) (ts : List Token) : Except Refusal Unit :=
  match ts.dropWhile fun t => isDocumentEnd t.lexeme with
  | [] => .error stop
  | t :: rest =>
      match t.lexeme with
      | .textEnd => .ok ()
      | _ => do
          let _ ← preamble stop ⟨false, []⟩ (t :: rest)
          throw (.marked (some (.document, document.place)) .secondDocument t.start)

/-- The only document of a text, if there is one. Behind a mark of its start it may be left
out. -/
def Tokens.document (tokens : Tokens) : Except Refusal (Option Node) :=
  match tokens.all with
  | [] => .error tokens.stop
  | t :: rest =>
      match t.lexeme with
      | .textEnd => .ok none
      | lexeme => do
          let isMarked := startsDocument lexeme
          let (p, rest) ←
            if isMarked then preamble tokens.stop ⟨false, []⟩ (t :: rest)
            else .ok (⟨false, []⟩, t :: rest)
          let sc : Scope := ⟨p.handles ++ usualHandles, tokens.stop⟩
          let start := (rest.head?.map (·.start)).getD 0
          let found ← nodeOr sc .block (isMarked && endsDocument ·) start [] rest
          checkBehind tokens.stop found.value.1 found.rest
          return some found.value.1

end ScalarStore.Yaml
