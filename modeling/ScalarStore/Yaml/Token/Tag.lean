import ScalarStore.Yaml.Token
import ScalarStore.Yaml.Token.Scalar

/-! # Names, tags and directives

The names of anchors, the tags of nodes with their handles and addresses, and the directives that
stand before a document. -/

namespace ScalarStore.Yaml

/-! ## Names -/

def isNameChar (c : Char) : Bool := c.isAlphanum || c == '-' || c == '_'

def splitName (cs : List Char) : String × List Char :=
  (String.ofList (cs.takeWhile isNameChar), cs.dropWhile isNameChar)

/-- The name at the start of a text. There must be one, and something that ends it. -/
def nameAt (isEnd : List Char → Bool) (cs : List Char) : Except Stop (String × List Char) :=
  let (name, rest) := splitName cs
  if name = "" ∨ !isEnd rest then .error ⟨.expected .name (nextChar rest), rest⟩
  else .ok (name, rest)

/-- Whether the name of an anchor ends. -/
def endsAnchor (cs : List Char) : Bool :=
  endsMark cs || cs.head?.any ("?:,]\x7d%@\x60".toList.contains ·)

/-! ## Tags -/

/-- A handle: an exclamation mark alone before a space, or two around a name. -/
def handleAt (cs : List Char) : Except Stop (String × List Char) :=
  match cs with
  | '!' :: ' ' :: rest => .ok ("!", ' ' :: rest)
  | '!' :: cs =>
      match splitName cs with
      | (name, '!' :: rest) => .ok ("!" ++ name ++ "!", rest)
      | (_, rest) => .error ⟨.expected .exclamation (nextChar rest), rest⟩
  | cs => .error ⟨.expected .exclamation (nextChar cs), cs⟩

def isAddressChar (c : Char) : Bool :=
  c.isAlphanum || "-;/?:@&=+$,_.!~*'()[]".toList.contains c

/-- The bytes of an address. A percent sign stands before the two digits of a byte. -/
def addressBytes (cs : List Char) : Except Stop (List Nat × List Char) :=
  match cs with
  | '%' :: high :: low :: rest =>
      match notHex? 2 [high, low] with
      | some found => .error ⟨.expected .addressEscape found, high :: low :: rest⟩
      | none =>
          (addressBytes rest).map fun (bytes, after) => (inBase 16 [high, low] :: bytes, after)
  | '%' :: rest => .error ⟨.expected .addressEscape ((notHex? 2 rest).getD '\x00'), rest⟩
  | c :: rest =>
      if isAddressChar c then
        (addressBytes rest).map fun (bytes, after) => (c.toNat :: bytes, after)
      else .ok ([], c :: rest)
  | [] => .ok ([], [])

/-- An address, which is not empty. -/
def addressAt (cs : List Char) : Except Stop (String × List Char) := do
  let (bytes, rest) ← addressBytes cs
  match bytes, String.fromUTF8? ⟨(bytes.map Nat.toUInt8).toArray⟩ with
  | [], _ => throw ⟨.expected .address (nextChar rest), rest⟩
  | _, none => throw ⟨.expected .addressEscape (nextChar cs), cs⟩
  | _, some address => return (address, rest)

/-- The parts of a tag whose exclamation mark has been read. -/
def tagParts (cs : List Char) : Except Stop ((Option String × String) × List Char) := do
  if cs.head? = some '<' then
    let (address, rest) ← addressAt (cs.drop 1)
    if rest.head? ≠ some '>' then throw ⟨.expected .bracket (nextChar rest), rest⟩
    return ((none, address), rest.drop 1)
  if endsMark cs then return ((none, "!"), cs)
  let hasHandle := (cs.takeWhile fun c => !endsWord [c]).contains '!'
  let (handle, rest) ← if hasHandle then handleAt ('!' :: cs) else .ok ("!", cs)
  let (address, rest) ← addressAt rest
  return ((some handle, address), rest)

/-- A tag ends at a space or with its line. -/
def tagAt (cs : List Char) : Except Stop ((Option String × String) × List Char) := do
  let (parts, rest) ← tagParts cs
  if !endsWord rest then throw ⟨.expected .space (nextChar rest), rest⟩
  return (parts, rest)

/-! ## Directives -/

def skipSpaces (cs : List Char) : List Char := cs.dropWhile (· == ' ')

def naturalAt (cs : List Char) : Except Stop (Nat × List Char) :=
  match cs.takeWhile isDigit with
  | [] => .error ⟨.expected .digit (nextChar cs), cs⟩
  | ds => .ok (inBase 10 ds, cs.dropWhile isDigit)

def versionAt (cs : List Char) : Except Stop (Directive × List Char) := do
  let (major, rest) ← naturalAt (skipSpaces cs)
  if rest.head? ≠ some '.' then throw ⟨.expected .digitOrPoint (nextChar rest), rest⟩
  let (minor, rest) ← naturalAt (rest.drop 1)
  if !endsWord rest then throw ⟨.expected .digitOrSpace (nextChar rest), rest⟩
  return (.version major minor, rest)

def handleDirectiveAt (cs : List Char) : Except Stop (Directive × List Char) := do
  let (handle, rest) ← handleAt (skipSpaces cs)
  if rest.head? ≠ some ' ' then throw ⟨.expected .space (nextChar rest), rest⟩
  let (start, rest) ← addressAt (skipSpaces rest)
  if !endsWord rest then throw ⟨.expected .space (nextChar rest), rest⟩
  return (.handle handle start, rest)

/-- A directive whose percent sign has been read, and what follows its line. -/
def directiveAt (cs : List Char) : Except Stop (Directive × List Char) := do
  let (name, rest) ← nameAt endsWord cs
  let (directive, rest) ←
    if name = "YAML" then versionAt rest
    else if name = "TAG" then handleDirectiveAt rest
    else .ok (.other, rest.dropWhile (!isBreak ·))
  return (directive, ← blankLine rest)

end ScalarStore.Yaml
