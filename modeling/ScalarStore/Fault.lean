import ScalarStore.DataType
import ScalarStore.Filter.Grammar

/-! # Faults

Why an operation was refused, and the words in which that is told. A fault holds its causes;
the wording is here only. -/

namespace ScalarStore

/-- Why a text is no filter. What was found is the lexeme at the fault, if the text goes on. -/
inductive FilterFault
  | lexical (fault : Filter.LexicalFault)
  | unexpected (wanted : Filter.Expectation) (found : Option Filter.Lexeme)
  | mixedChain (first second : Comparison)
  | tooDeep (limit : Int)
deriving DecidableEq

/-- Why an operator or literal does not fit a field. -/
inductive TypeFault
  | likeField
  | likePattern
  | membershipValues (operator : Operator)
  | unknownOperator (symbol : String)
  | literal (value : Value)
  | unordered (c : Comparison)
deriving DecidableEq

/-- Why an argument is refused. -/
inductive ParameterFault
  | filterTooDeep (limit : Int)
  | fieldName (name : String)
  | keywordName (name : String)
  | keyType (name : String)
  | lengthWithoutText (name : String)
  | lengthNotPositive (name : String)
  | repeatedField (name : String)
  | keyCount (count : Nat)
  | ttlText (value : Value)
  | ttlNegative
  | ttlKind
  | mmapText (value : Value)
  | mmapKind (kind : Kind)
  | nameMissing
  | nameBlank
  | propertyMissing
  | propertyKeyBlank
  | limitNegative (limit : Number)
  | offsetNegative (offset : Number)
  | countCombined
  | windowExceeded (last : Number) (window : Int)
  | filterTooLong (length : Nat) (limit : Int)
  | filterEmpty
  | partitionNameBlank
  | partitionExists (name collection : String)
  | partitionDefault
  | databaseNameBlank
  | databaseExists (name : String)
  | databaseDefault
  | databaseInUse (name : String) (collections : Nat)
  | collectionNameBlank
  | dropThroughAlias (name : String)
  | aliasInUse (name : String)
  | aliasUnknown (name : String)
deriving DecidableEq

/-- Why the value at a name is refused. -/
inductive EntryIssue
  | missing
  | extra
  | notInteger
  | notNumber
  | notBoolean
  | notText
  | aboveMost (most : Int)
  | belowLeast (least : Int)
  | tooLong (most : Int)
  | keyNotText
deriving DecidableEq

/-- Why no text can be checked against a greatest length. -/
inductive LengthIssue
  | notInteger
  | negative
  | tooBig
deriving DecidableEq

/-- An operation on a value of a kind that does not have it. -/
inductive KindFault
  | notIterable (kind : Kind)
  | notOrdered (symbol : String) (left right : Kind)
  | notKey (kind : Kind)
  | notIndexed (kind : Kind)
  | listIndex
  | tupleIndex
  | textIndex
  | notText (kind : Kind)
  | notPair (position : Nat)
  | noLength (kind : Kind)
  | notCallable (kind : Kind)
  | notName (kind : Kind)
  | sliceBound
  | nullLiteral
  | unsupportedFilter (filter : Filter)
  | operandMissing

/-- A value of the right kind that is out of its domain. -/
inductive ValueFault
  | integerTooLong (digits : Nat)
  | integerUnwritable
  | malformedInteger (base : Nat) (text : String)
  | reservedName (name : String)
  | nullInName
  | unknownDataType (value : Value)
  | unknownConsistency (value : Value)
  | unknownConnective (symbol : String)
  | negationArity
  | pairLength (position length : Nat)
deriving DecidableEq

/-- Why a row is refused. -/
inductive RowFault
  | notMapping (kind : Kind)
  | entries (issues : List (String × EntryIssue))
  | unreadable (cause : KindFault)
  | unpaired (cause : ValueFault)

inductive OverflowFault
  | integerBeyondReals
  | infinityToInteger
deriving DecidableEq

inductive Fault
  | filter (reason : FilterFault) (position : Nat) (text : String)
  | unknownField (field : String) (collection : Option String)
  | fieldType (field : String) (type : DataType) (reason : TypeFault)
  | parameter (reason : ParameterFault)
  | row (index : Option Nat) (reason : RowFault)
  | databaseNotFound (name : String)
  | collectionNotFound (name : String)
  | collectionExists (name : String)
  | partitionNotFound (name collection : String)
  | duplicateKey (key : Value) (collection : String)
  | lengthLimit (field : String) (issue : LengthIssue)
  | value (reason : ValueFault)
  | missingKey (key : String)
  | kind (reason : KindFault)
  | noMember (kind : Kind) (member : String)
  | overflow (reason : OverflowFault)
  | notImplemented

/-- The fault of a value that cannot be written. -/
def Fault.ofObstacle : Value.Obstacle → Fault
  | .longInteger => .value .integerUnwritable
  | .key k => .kind (.notName k)

/-- A single fault under the name of a parameter. -/
def refuse {α : Type} (reason : ParameterFault) : Except Fault α := .error (.parameter reason)

def LexicalFault.message : Filter.LexicalFault → String
  | .unterminated => "Unterminated string literal"
  | .unexpected c => "Unexpected character " ++ Text.quoted c.toString

def Expectation.message : Filter.Expectation → String
  | .closeParen => "Expected ')'"
  | .openBracket => "Expected '[' to open a list"
  | .listEnd => "Expected ',' or ']'"
  | .inputEnd => "Unexpected token"
  | .predicate => "Expected a predicate"
  | .pattern => "Expected a string pattern after 'like'"
  | .noSecondName => "Comparisons between two fields are not supported"
  | .noChain => "A chained comparison must start with a literal"
  | .comparison => "Expected a comparison operator after literal"
  | .name => "Expected a field name"
  | .literal => "Expected a literal"

def FilterFault.message : FilterFault → String
  | .lexical fault => LexicalFault.message fault
  | .unexpected wanted found =>
      Expectation.message wanted ++ ", found " ++
        match found with
        | some lexeme => Text.quoted lexeme.text
        | none => "end of input"
  | .mixedChain first second =>
      "Chained comparison operators " ++ Text.quoted first.symbol ++ " and " ++
        Text.quoted second.symbol ++ " must both be '<'/'<=' or both be '>'/'>='"
  | .tooDeep limit => "Expression nested too deeply (more than " ++ intText limit ++ " levels)"

def TypeFault.message : TypeFault → String
  | .likeField => "'like' requires a VARCHAR field"
  | .likePattern => "'like' requires a string pattern"
  | .membershipValues operator => "'" ++ operator.symbol ++ "' requires a list of values"
  | .unknownOperator symbol => "unsupported operator '" ++ symbol ++ "'"
  | .literal value => "cannot compare with " ++ value.kind.shortWord ++ " literal " ++ value.shown
  | .unordered c => "operator '" ++ c.symbol ++ "' is not defined for BOOL"

def ParameterFault.message : ParameterFault → String
  | .filterTooDeep limit =>
      "Expression nested too deeply (more than " ++ intText limit ++ " levels)"
  | .fieldName name => "Invalid field name '" ++ name ++ "': must match [A-Za-z][A-Za-z0-9_]*"
  | .keywordName name =>
      "Invalid field name '" ++ name ++ "': '" ++ Text.lower name ++ "' is a filter keyword"
  | .keyType name => "Primary key field '" ++ name ++ "' must be INT64 or VARCHAR"
  | .lengthWithoutText name => "max_length is only valid for VARCHAR fields ('" ++ name ++ "')"
  | .lengthNotPositive name => "max_length of '" ++ name ++ "' must be positive"
  | .repeatedField name => "Duplicate field name '" ++ name ++ "'"
  | .keyCount count =>
      "Collection schema must have exactly one primary key field, got " ++ count.repr
  | .ttlText value =>
      "Invalid collection.ttl.seconds value " ++ value.shown ++ ": expected an integer"
  | .ttlNegative => "TTL seconds must be 0 or greater"
  | .ttlKind => "TTL seconds must be an integer"
  | .mmapText value =>
      "Invalid mmap.enabled value " ++ value.shown ++ ": expected 'true' or 'false'"
  | .mmapKind kind => "mmap enabled must be a bool, got " ++ kind.shortWord
  | .nameMissing => "Collection name cannot be None"
  | .nameBlank => "Collection name cannot be null or empty"
  | .propertyMissing => "Property key and value cannot be None"
  | .propertyKeyBlank => "Property key cannot be empty"
  | .limitNegative limit => "limit must be 0 or greater, got " ++ limit.toValue.shown
  | .offsetNegative offset => "offset must be 0 or greater, got " ++ offset.toValue.shown
  | .countCombined => "count(*) cannot be combined with other output fields"
  | .windowExceeded last window =>
      "offset + limit (" ++ last.toValue.shown ++ ") exceeds the maximum result window of " ++
        intText window
  | .filterTooLong length limit =>
      "Filter length " ++ length.repr ++ " exceeds the maximum of " ++ intText limit
  | .filterEmpty => "An empty filter must be combined with ids, a limit, or count(*)"
  | .partitionNameBlank => "Partition name cannot be empty"
  | .partitionExists name collection =>
      "Partition '" ++ name ++ "' already exists in collection '" ++ collection ++ "'"
  | .partitionDefault => "The default partition cannot be dropped"
  | .databaseNameBlank => "Database name cannot be empty"
  | .databaseExists name => "Database '" ++ name ++ "' already exists"
  | .databaseDefault => "The default database cannot be dropped"
  | .databaseInUse name collections =>
      "Database '" ++ name ++ "' still has " ++ collections.repr ++ " collection(s)"
  | .collectionNameBlank => "Collection name cannot be empty"
  | .dropThroughAlias name => "cannot drop the collection via alias = " ++ name
  | .aliasInUse name => "Alias '" ++ name ++ "' is already in use"
  | .aliasUnknown name => "Alias '" ++ name ++ "' does not exist"

def EntryIssue.message : EntryIssue → String
  | .missing => "Field required"
  | .extra => "Extra inputs are not permitted"
  | .notInteger => "Input should be a valid integer"
  | .notNumber => "Input should be a valid number"
  | .notBoolean => "Input should be a valid boolean"
  | .notText => "Input should be a valid string"
  | .aboveMost most => "Input should be less than or equal to " ++ intText most
  | .belowLeast least => "Input should be greater than or equal to " ++ intText least
  | .tooLong most =>
      "String should have at most " ++ intText most ++
        (if most = 1 then " character" else " characters")
  | .keyNotText => "Keys should be strings"

def KindFault.message : KindFault → String
  | .notIterable kind => "'" ++ kind.word ++ "' object is not iterable"
  | .notOrdered symbol left right =>
      "'" ++ symbol ++ "' not supported between instances of '" ++ left.word ++ "' and '" ++
        right.word ++ "'"
  | .notKey kind => "unhashable type: '" ++ kind.word ++ "'"
  | .notIndexed kind => "'" ++ kind.word ++ "' object is not subscriptable"
  | .listIndex => "list indices must be integers or slices, not str"
  | .tupleIndex => "tuple indices must be integers or slices, not str"
  | .textIndex => "string indices must be integers, not 'str'"
  | .notText kind => "expected string or bytes-like object, got '" ++ kind.word ++ "'"
  | .notPair position =>
      "cannot convert dictionary update sequence element #" ++ position.repr ++ " to a sequence"
  | .notName kind =>
      "keys must be str, int, float, bool or None, not " ++ kind.shortWord
  | .notCallable kind => "'" ++ kind.word ++ "' object is not callable"
  | .noLength kind => "object of type '" ++ kind.word ++ "' has no len()"
  | .sliceBound => "slice indices must be integers or None or have an __index__ method"
  | .nullLiteral => "None is not a valid literal in scalarq filter expressions."
  | .unsupportedFilter filter =>
      "Unsupported filter expression: " ++
        match filter with
        | .bare => "FilterExpression"
        | _ => "NoneType"
  | .operandMissing => "an operand of the expression is missing"

def ValueFault.message : ValueFault → String
  | .integerTooLong digits =>
      "Exceeds the limit (" ++ Text.digitLimit.repr ++
        " digits) for integer string conversion: value has " ++ digits.repr ++
        " digits; use sys.set_int_max_str_digits() to increase the limit"
  | .integerUnwritable =>
      "Exceeds the limit (" ++ Text.digitLimit.repr ++
        " digits) for integer string conversion; use sys.set_int_max_str_digits()" ++
        " to increase the limit"
  | .malformedInteger base text =>
      "invalid literal for int() with base " ++ base.repr ++ ": " ++
        String.ofList ((Text.quoteChars text.toList).take 200)
  | .reservedName name =>
      let space := if "model_validate".isPrefixOf name then "model_validate" else "model_dump"
      "Field '" ++ name ++ "' conflicts with member <bound method BaseModel." ++ name ++
        " of <class 'pydantic.main.BaseModel'>> of protected namespace '" ++ space ++ "'."
  | .nullInName => "type name must not contain null characters"
  | .unknownDataType value => value.shown ++ " is not a valid DataType"
  | .unknownConsistency value => value.shown ++ " is not a valid ConsistencyLevel"
  | .unknownConnective symbol => "Unknown logical operator '" ++ symbol ++ "'"
  | .negationArity => "NOT expression must have exactly one child"
  | .pairLength position length =>
      "dictionary update sequence element #" ++ position.repr ++ " has length " ++ length.repr ++
        "; 2 is required"

def RowFault.message : RowFault → String
  | .notMapping kind => "expected a mapping, got " ++ kind.shortWord
  | .entries issues =>
      "; ".intercalate (issues.map fun (name, issue) => name ++ ": " ++ issue.message)
  | .unreadable cause => "Rows must be mappings: " ++ cause.message
  | .unpaired cause => "Rows must be mappings: " ++ cause.message

def LengthIssue.message : LengthIssue → String
  | .notInteger => "TypeError: 'float' object cannot be interpreted as an integer"
  | .negative => "OverflowError: can't convert negative int to unsigned"
  | .tooBig => "OverflowError: int too big to convert"

def OverflowFault.message : OverflowFault → String
  | .integerBeyondReals => "int too large to convert to float"
  | .infinityToInteger => "cannot convert float infinity to integer"

def Fault.message : Fault → String
  | .filter reason position text =>
      reason.message ++ " at position " ++ position.repr ++ " in filter " ++ Text.quoted text
  | .unknownField field collection =>
      "Field '" ++ field ++ "' does not exist" ++
        match collection with
        | none => ""
        | some name => if name = "" then "" else " in collection '" ++ name ++ "'"
  | .fieldType field type reason =>
      "Field '" ++ field ++ "' of type " ++ type.word ++ ": " ++ reason.message
  | .parameter reason => reason.message
  | .row none reason => reason.message
  | .row (some index) reason => "Row " ++ index.repr ++ ": " ++ reason.message
  | .databaseNotFound name => "Database '" ++ name ++ "' not found"
  | .collectionNotFound name => "Collection '" ++ name ++ "' not found"
  | .collectionExists name => "Collection '" ++ name ++ "' already exists"
  | .partitionNotFound name collection =>
      "Partition '" ++ name ++ "' not found in collection '" ++ collection ++ "'"
  | .duplicateKey key collection =>
      "Duplicate primary key " ++ key.shown ++ " in collection '" ++ collection ++ "'"
  | .lengthLimit field issue =>
      "Error building \"model\" validator:\n  SchemaError: " ++
        "Error building \"model-fields\" validator:\n  SchemaError: Field \"" ++ field ++
        "\":\n  SchemaError: Error building \"str\" validator:\n  " ++ issue.message
  | .value reason => reason.message
  | .missingKey key => Text.quoted key
  | .kind reason => reason.message
  | .noMember k member => "'" ++ k.word ++ "' object has no attribute '" ++ member ++ "'"
  | .overflow reason => reason.message
  | .notImplemented => ""

end ScalarStore
