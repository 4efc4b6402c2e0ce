import ScalarStore.Fault
import ScalarStore.Yaml.Line
import ScalarStore.Yaml.Scalar

/-! # Refusals

Why a text is no YAML document that can be read: what was being read, since where, what is wrong
with it, and where. Places are numbers of characters before them. -/

namespace ScalarStore.Yaml

/-- What was being read. -/
inductive Activity
  | token | simpleKey | directive | directiveTag | reference | anchor | tag | tagName
  | blockScalar | quoted | doubleQuoted
  | node | blockNode | flowNode | blockList | blockMap | flowList | flowMap
  | document | map
  | repeatedAnchor (name : String)
deriving DecidableEq

/-- What was expected in place of a character. -/
inductive Wanted
  | name | digit | digitOrPoint | digitOrSpace | space | exclamation | bracket | address
  | addressEscape | lineEnd | indicators
  | hexDigits (count : Nat)
deriving DecidableEq

/-- What was expected in place of a token. -/
inductive WantedToken
  | documentStart | content | blockEnd | listEnd | mapEnd
deriving DecidableEq

/-- What is wrong. A character that is looked for behind the end counts as NUL. -/
inductive Problem
  | noToken (found : Char)
  | colonMissing
  | itemPlace
  | keyPlace
  | valuePlace
  | expected (wanted : Wanted) (found : Char)
  | expectedToken (wanted : WantedToken) (found : String)
  | zeroIndent
  | unknownEscape (found : Char)
  | noCharacter (code : Nat)
  | unexpectedEnd
  | unexpectedSeparator
  | repeatedVersion
  | unknownVersion
  | repeatedHandle (handle : String)
  | unknownHandle (handle : String)
  | unknownReference (name : String)
  | secondAnchor
  | secondDocument
  | unknownTag (tag : String)
  | wrongKind (wanted found : String)
  | mergeItem (found : String)
  | mergeValue (found : String)
  | notKey
deriving DecidableEq

inductive Refusal
  | character (c : Char) (place : Nat)
  | marked (context : Option (Activity × Nat)) (problem : Problem) (place : Nat)
  | scalar (fault : ScalarFault)
  | unsupported
deriving DecidableEq

/-! ## Messages -/

def Activity.message : Activity → String
  | .token => "while scanning for the next token"
  | .simpleKey => "while scanning a simple key"
  | .directive => "while scanning a directive"
  | .directiveTag => "while parsing a directive"
  | .reference => "while scanning an alias"
  | .anchor => "while scanning an anchor"
  | .tag => "while scanning a tag"
  | .tagName => "while parsing a tag"
  | .blockScalar => "while scanning a block scalar"
  | .quoted => "while scanning a quoted scalar"
  | .doubleQuoted => "while scanning a double-quoted scalar"
  | .node => "while parsing a node"
  | .blockNode => "while parsing a block node"
  | .flowNode => "while parsing a flow node"
  | .blockList => "while parsing a block collection"
  | .blockMap => "while parsing a block mapping"
  | .flowList => "while parsing a flow sequence"
  | .flowMap => "while parsing a flow mapping"
  | .document => "expected a single document in the stream"
  | .map => "while constructing a mapping"
  | .repeatedAnchor name => "found duplicate anchor " ++ Text.quoted name ++ "; first occurrence"

def Wanted.message : Wanted → String
  | .name => "expected alphabetic or numeric character"
  | .digit => "expected a digit"
  | .digitOrPoint => "expected a digit or '.'"
  | .digitOrSpace => "expected a digit or ' '"
  | .space => "expected ' '"
  | .exclamation => "expected '!'"
  | .bracket => "expected '>'"
  | .address => "expected URI"
  | .addressEscape => "expected URI escape sequence of 2 hexadecimal numbers"
  | .lineEnd => "expected a comment or a line break"
  | .indicators => "expected chomping or indentation indicators"
  | .hexDigits count => "expected escape sequence of " ++ count.repr ++ " hexadecimal numbers"

def WantedToken.message : WantedToken → String
  | .documentStart => "expected '<document start>', but found "
  | .content => "expected the node content, but found "
  | .blockEnd => "expected <block end>, but found "
  | .listEnd => "expected ',' or ']', but got "
  | .mapEnd => "expected ',' or '\x7d', but got "

/-- Numbers from here on are not even compared with code points. -/
def codeLimit : Nat := pow2 31

def Problem.message : Problem → String
  | .noToken found => "found character " ++ shownChar found ++ " that cannot start any token"
  | .colonMissing => "could not find expected ':'"
  | .itemPlace => "sequence entries are not allowed here"
  | .keyPlace => "mapping keys are not allowed here"
  | .valuePlace => "mapping values are not allowed here"
  | .expected wanted found => wanted.message ++ ", but found " ++ shownChar found
  | .expectedToken wanted found => wanted.message ++ Text.quoted found
  | .zeroIndent => "expected indentation indicator in the range 1-9, but found 0"
  | .noCharacter code =>
      if code < codeLimit then "chr() arg not in range(0x110000)"
      else "Python int too large to convert to C int"
  | .unknownEscape found => "found unknown escape character " ++ shownChar found
  | .unexpectedEnd => "found unexpected end of stream"
  | .unexpectedSeparator => "found unexpected document separator"
  | .repeatedVersion => "found duplicate YAML directive"
  | .unknownVersion => "found incompatible YAML document (version 1.* is required)"
  | .repeatedHandle handle => "duplicate tag handle " ++ Text.quoted handle
  | .unknownHandle handle => "found undefined tag handle " ++ Text.quoted handle
  | .unknownReference name => "found undefined alias " ++ Text.quoted name
  | .secondAnchor => "second occurrence"
  | .secondDocument => "but found another document"
  | .unknownTag tag => "could not determine a constructor for the tag " ++ Text.quoted tag
  | .wrongKind wanted found => "expected a " ++ wanted ++ " node, but found " ++ found
  | .mergeItem found => "expected a mapping for merging, but found " ++ found
  | .mergeValue found => "expected a mapping or list of mappings for merging, but found " ++ found
  | .notKey => "found unhashable key"
where
  shownChar (c : Char) : String := Text.quoted c.toString

def calendarMessage : CalendarFault → String
  | .year year => "year " ++ year.repr ++ " is out of range"
  | .month => "month must be in 1..12"
  | .day => "day is out of range for month"
  | .hour => "hour must be in 0..23"
  | .minute => "minute must be in 0..59"
  | .second => "second must be in 0..59"
  | .zone minutes =>
      "offset must be a timedelta strictly between -timedelta(hours=24) and " ++
        "timedelta(hours=24), not " ++ Value.shownSpan minutes ++ "."

def ScalarFault.message : ScalarFault → String
  | .nothing => "string index out of range"
  | .integer base text => (ValueFault.malformedInteger base text).message
  | .longInteger digits => (ValueFault.integerTooLong digits).message
  | .real text => "could not convert string to float: " ++ Text.quoted text
  | .truth word => Text.quoted word
  | .time => "'NoneType' object has no attribute 'groupdict'"
  | .calendar fault => calendarMessage fault

/-- Whether two places have one line and column. -/
def isOnePlace (text : List Char) (a b : Nat) : Bool :=
  let (a, b) := ((Cursor.start text).skip a, (Cursor.start text).skip b)
  a.line == b.line && a.column == b.column

/-- The words for a refusal of a text. Where both places are one it is told once, and of a number
that is no code point none is told. -/
def Refusal.message (text : List Char) : Refusal → String
  | .character c place =>
      "unacceptable character #x" ++ String.ofList (Text.hexDigits 4 c.toNat) ++
        ": special characters are not allowed\n  in \"<unicode string>\", position " ++ place.repr
  | .marked _ (.noCharacter code) _ => (Problem.noCharacter code).message
  | .marked context problem place =>
      let introduction := match context with
        | none => []
        | some (activity, since) =>
            activity.message ::
              if isOnePlace text since place then [] else [placeText text since]
      "\n".intercalate (introduction ++ [problem.message, placeText text place])
  | .scalar fault => fault.message
  | .unsupported => "The document holds a value that stands for nothing here"

end ScalarStore.Yaml
