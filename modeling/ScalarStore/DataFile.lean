import ScalarStore.Document
import ScalarStore.Json.Reader
import ScalarStore.Json.Writer
import ScalarStore.Yaml.Reader
import ScalarStore.Yaml.Writer

/-! # Data files

The text of a document in a file, as JSON or YAML by the file's name, and why a file holds no
document. -/

namespace ScalarStore.DataFile

/-! ## Names -/

/-- The parts of a path; empty parts and single dots add nothing to it. -/
def parts (path : String) : List String :=
  (path.splitOn "/").filter fun part => part ≠ "" ∧ part ≠ "."

/-- What a path starts with: two slashes differ from one, and more count as one. -/
def root (path : String) : String :=
  match (path.toList.takeWhile (· == '/')).length with
  | 0 => ""
  | 2 => "//"
  | _ => "/"

/-- A path in its shortest form. -/
def normal (path : String) : String :=
  let short := root path ++ "/".intercalate (parts path)
  if short = "" then "." else short

/-- The end of a file's name from its last dot on. A dot at either end of a name starts none. -/
def suffix (path : String) : String :=
  let name := (parts path).getLastD ""
  let ending := (name.toList.reverse.takeWhile (· != '.')).reverse
  if ending = [] ∨ name.length < ending.length + 2 then "" else String.ofList ('.' :: ending)

inductive Format
  | json
  | yaml
deriving DecidableEq

/-- Files are JSON unless their names tell otherwise. -/
def format (path : String) : Format :=
  if Text.lower (suffix path) = ".yaml" ∨ Text.lower (suffix path) = ".yml" then .yaml else .json

/-! ## Reading -/

inductive Trouble
  | notFound (path : String)
  | json (fault : Json.Fault)
  | yaml (text : String) (refusal : Yaml.Refusal)
  | notMapping (path : String)
  | missing (path name : String)

/-- Lines that end in a carriage return, or in one and a line feed, made to end in a line feed. -/
def withLineFeeds : List Char → List Char
  | [] => []
  | '\r' :: '\n' :: rest => '\n' :: withLineFeeds rest
  | '\r' :: rest => '\n' :: withLineFeeds rest
  | c :: rest => c :: withLineFeeds rest

def readValue (format : Format) (text : String) : Except Trouble Value :=
  let text := String.ofList (withLineFeeds text.toList)
  match format with
  | .json => (Json.read text).mapError .json
  | .yaml => (Yaml.read text).mapError (.yaml text)

/-- The document in the text of a file. -/
def read (path text : String) : Except Trouble Document :=
  match readValue (format path) text with
  | .error trouble => .error trouble
  | .ok (.map entries) => (Document.ofEntries entries).mapError (.missing path)
  | .ok _ => .error (.notMapping path)

/-! ## Writing -/

/-- The text of a file that holds a document. -/
def write (path : String) (d : Document) : String :=
  match format path with
  | .json => Json.write (.map d.entries) ++ "\n"
  | .yaml => Yaml.write d.entries

/-- Why a document cannot be written, if that is so. -/
def obstacle? (path : String) (d : Document) : Option Value.Obstacle :=
  match format path with
  | .json => Json.obstacle? (.map d.entries)
  | .yaml =>
      if (Value.map d.entries).hasLongInteger Text.digitLimit then some .longInteger else none

/-! ## Messages -/

def jsonMessage : Json.Fault → String
  | .form refusal line column position =>
      refusal.message ++ ": line " ++ line.repr ++ " column " ++ column.repr ++ " (char " ++
        position.repr ++ ")"
  | .longInteger digits => (ValueFault.integerTooLong digits).message

def Trouble.message : Trouble → String
  | .notFound path => "Data file not found: " ++ normal path
  | .json fault => jsonMessage fault
  | .yaml text refusal => refusal.message text.toList
  | .notMapping path =>
      "Data file " ++ normal path ++ " must contain a mapping at the top level"
  | .missing path name => "Data file " ++ normal path ++ " is missing '" ++ name ++ "'"

end ScalarStore.DataFile
