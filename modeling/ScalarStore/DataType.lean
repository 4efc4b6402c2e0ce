/-! # Data types of fields -/

namespace ScalarStore

inductive DataType
  | bool | int8 | int16 | int32 | int64 | float | double | varchar
deriving DecidableEq

namespace DataType

def word : DataType → String
  | .bool => "BOOL"
  | .int8 => "INT8"
  | .int16 => "INT16"
  | .int32 => "INT32"
  | .int64 => "INT64"
  | .float => "FLOAT"
  | .double => "DOUBLE"
  | .varchar => "VARCHAR"

def all : List DataType :=
  [.bool, .int8, .int16, .int32, .int64, .float, .double, .varchar]

def ofWord? (s : String) : Option DataType := all.find? fun type => type.word == s

/-- The least and greatest value of a two's-complement integer type. -/
def integerBounds? : DataType → Option (Int × Int)
  | .int8 => some (-128, 127)
  | .int16 => some (-32768, 32767)
  | .int32 => some (-2147483648, 2147483647)
  | .int64 => some (-9223372036854775808, 9223372036854775807)
  | _ => none

def isInteger (type : DataType) : Bool := type.integerBounds?.isSome

def isNumeric (type : DataType) : Bool := type.isInteger || type == .float || type == .double

/-- The types of which a primary key may be. -/
def isKey (type : DataType) : Bool := type == .int64 || type == .varchar

end DataType

end ScalarStore
