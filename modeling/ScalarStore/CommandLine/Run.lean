import ScalarStore.CommandLine.Order
import ScalarStore.CommandLine.Outcome
import ScalarStore.DataFile
import ScalarStore.Filter.Build
import ScalarStore.Filter.Mention

/-! # Running orders

An order is run against the environment, the files and the clock. The clock is read
twice, when the data file is loaded and when its rows are looked at. -/

namespace ScalarStore.CommandLine

/-- All that an order depends on. Files are found by their shortest paths. -/
structure Surroundings where
  environment : String → Option String
  files : String → Option String
  loadedAt : Binary64
  now : Binary64

/-! ## Loading the data file -/

/-- The integer that an environment variable sets. -/
def variableInteger (environment : String → Option String) (name : String) (default : Int) :
    Except Fault Int :=
  match environment name with
  | none => .ok default
  | some text =>
      match Text.readInteger text with
      | .ok n => .ok n
      | .error .malformed => .error (.value (.malformedInteger 10 text))
      | .error (.tooLong digits) => .error (.value (.integerTooLong digits))

/-- The settings that the environment asks for. -/
def settings (environment : String → Option String) : Except Fault Settings := do
  let usual : Settings := {}
  let maxFilterLength ←
    variableInteger environment "SCALARQ_MAX_FILTER_LENGTH" usual.maxFilterLength
  let maxWindow ← variableInteger environment "SCALARQ_MAX_RESULT_WINDOW" usual.maxWindow
  let maxDepth ← variableInteger environment "SCALARQ_MAX_EXPRESSION_DEPTH" usual.maxDepth
  return { usual with
    defaultPartition :=
      (environment "SCALARQ_DEFAULT_PARTITION").getD usual.defaultPartition
    maxFilterLength
    maxWindow
    maxDepth }

namespace Surroundings

/-- The collection in a data file, or the words that tell why there is none. -/
def load (s : Surroundings) (path : String) : Except String Loaded :=
  match s.files (DataFile.normal path) with
  | none => .error (DataFile.Trouble.notFound path).message
  | some text =>
      match DataFile.read path text with
      | .error trouble => .error trouble.message
      | .ok document =>
          (do Loaded.ofDocument (← settings s.environment) s.loadedAt document).mapError
            Fault.message

/-- The path of the data file and the collection in it. -/
def openData (s : Surroundings) (globals : Globals) : Except Outcome (String × Loaded) :=
  match nonEmpty globals.data with
  | none =>
      .error (.complain .misused "A data file is required: pass --data or set SCALARQ_DATA")
  | some path =>
      match s.load path with
      | .ok loaded => .ok (path, loaded)
      | .error reason =>
          .error (.complain .badData ("Failed to load " ++ path ++ ": " ++ reason))

end Surroundings

/-- An answer as JSON, of which nothing is printed if any of it cannot be written. -/
def toldAsJson (json : Value) : Outcome :=
  match Json.obstacle? json with
  | some obstacle => .fail (.ofObstacle obstacle)
  | none => .print (Json.write json ++ "\n")

/-- An answer as JSON or as a report. -/
def told (globals : Globals) (json : Value) (report : Report.Printed) : Outcome :=
  if globals.json then toldAsJson json else .ofPrinted report

/-- A value, or the outcome of the fault in its place. -/
def orElse {α : Type} (outcome : Fault → Outcome) (result : Except Fault α) : Except Outcome α :=
  result.mapError outcome

/-! ## Queries -/

/-- An id as JSON; a text that is no JSON stands for itself. -/
def readId (text : String) : Except String Value :=
  match Json.read text with
  | .ok v => .ok v
  | .error (.form ..) => .ok (.str text)
  | .error fault => .error (DataFile.jsonMessage fault)

/-- Integers and texts may be ids. -/
def checkId (v : Value) : Except String Value :=
  match v with
  | .int _ => .ok v
  | .str _ => .ok v
  | v => .error ("Invalid id " ++ v.shown ++ ": expected an integer or string")

/-- All ids are read before the first is checked. -/
def readIds (texts : List String) : Except String (List Value) := do
  (← texts.mapM readId).mapM checkId

/-- The request of an order. Without ids there is no restriction on keys, and without output
fields all are given. -/
def QueryOrder.request (q : QueryOrder) (name : String) (level : Consistency)
    (ids : List Value) : Except Fault Request :=
  Request.ofArguments name (.text q.filter) (if ids = [] then .null else .list ids)
    (.list (q.partitions.map .str)) (.str level.word)
    (.list ((if q.output = [] then ["*"] else q.output).map .str))
    ((q.limit.map Value.int).getD .null) (.int q.offset)

def QueryOrder.run (q : QueryOrder) (s : Surroundings) (globals : Globals) :
    Except Outcome Outcome :=
  match Consistency.ofWord? (Text.upper q.consistency) with
  | none =>
      .error (.complain .misused ("Unknown consistency level '" ++ q.consistency ++ "'"))
  | some level => do
      let ids ← (readIds q.ids).mapError (Outcome.complain .misused)
      let (_, loaded) ← s.openData globals
      let request ← orElse .ofRequestFault (q.request loaded.name level ids)
      let records ← orElse .ofRequestFault (loaded.store.query s.now request).1
      return told globals (.list (records.map Loaded.recordDocument))
        (.ofText (Report.grid none Report.rowLabel records))

/-! ## Filters -/

/-- The lines of a filter, of which children stand one level deeper than their connective. -/
def treeLines (level : Nat) : Filter → List String
  | .leaf field operator value =>
      [Report.indentation level ++ field ++ " " ++ operator.symbol ++ " " ++ value.shown]
  | .node connective children =>
      (Report.indentation level ++ connective.symbol) :: childLines (level + 1) children
  | .bare => []
  | .absent => []
where
  childLines (level : Nat) : List Filter → List String
    | [] => []
    | child :: rest => treeLines level child ++ childLines level rest

/-- The line that tells what a check found: the filter fits, and may be the same for all rows. -/
def checkLine : Option Bool → String
  | none => "type check: ok"
  | some b => "type check: ok (always " ++ (if b then "true" else "false") ++ ")"

def constantValue : Option Bool → Value
  | none => .null
  | some b => .bool b

/-- A filter with what a check of it found, if it was checked. -/
def toldFilter (globals : Globals) (f : Filter) (checked : Option (Option Bool)) :
    Except Outcome Outcome := do
  let tree ← orElse .fail f.document
  return told globals
    (.map ([(.str "tree", tree), (.str "fields", .list (f.fieldNames.map .str))] ++
      (checked.map fun constant => (Value.str "constant", constantValue constant)).toList))
    (.ofText (Report.lines (treeLines 0 f ++ (checked.map checkLine).toList)))

/-- Whether a filter fits the collection of the data file, and its constant value. -/
def checkFilter (s : Surroundings) (globals : Globals) (f : Filter) :
    Except Outcome (Option Bool) := do
  let (_, loaded) ← s.openData globals
  let c ← orElse .fail loaded.collection
  let p ← orElse (.ofFault .refused) (Filter.compile c.schema (some c.name) none (some f))
  return p.constant?

def runParse (s : Surroundings) (globals : Globals) (text : String) (check : Bool) :
    Except Outcome Outcome := do
  match ← orElse (.ofFault .misused) (Filter.parse Filter.defaultDepth text) with
  | none =>
      return told globals (.map [(.str "tree", .null), (.str "fields", .list [])])
        (.ofText (Report.lines ["(no predicate)"]))
  | some f =>
      if check then toldFilter globals f (some (← checkFilter s globals f))
      else toldFilter globals f none

/-! ## Descriptions -/

/-- What is told of a field in a column each. -/
def fieldRecord (f : Field) : Record :=
  [("name", .str f.name), ("dtype", .str f.type.word),
    ("is_primary", if f.isPrimary then .bool true else .null),
    ("max_length", (f.maxLength.map Number.toValue).getD .null)]

/-- The report of a description. Lines of which nothing is to tell are left out. -/
def describeReport (d : Description) (aliases : List Value) : Report.Printed :=
  let c := d.collection
  Report.mapping 0
      ((.str "Collection", .str c.name) :: Value.entryUnlessEmpty "Description" c.description ++
        [(.str "Primary field", .str c.primaryName), (.str "Entities", .int d.size),
          (.str "Partitions", .list (c.partitionNames.map .str))] ++
        Value.entryUnlessEmpty "Aliases" (.list aliases)) ++
    .ofText (Report.lines ["", "Fields:"] ++
      Report.grid (some ["name", "dtype", "is_primary", "max_length"]) ""
        (c.schema.fields.map fieldRecord) ++
      Report.lines [""]) ++
    Report.mapping 0 [(.str "Properties", c.properties.document)]

def runDescribe (s : Surroundings) (globals : Globals) : Except Outcome Outcome := do
  let (_, loaded) ← s.openData globals
  let (d, aliases) ← orElse .fail (loaded.describe s.now)
  return told globals (d.documentWith aliases) (describeReport d aliases)

def runStats (s : Surroundings) (globals : Globals) : Except Outcome Outcome := do
  let (_, loaded) ← s.openData globals
  let c ← orElse .fail loaded.collection
  let size ← orElse .fail (c.size s.now)
  let rows ← orElse .fail (Loaded.liveRows c s.now)
  let counts := rows.map fun (name, records) => (name, Value.int records.length)
  return told globals
    (.map [(.str "row_count", .int size),
      (.str "partitions", .map (counts.map fun (name, n) => (.str name, n)))])
    (.ofText (Report.lines ["Row count: " ++ size.repr] ++
      Report.grid none "partition(s)"
        (counts.map fun (name, n) => [("partition", .str name), ("rows", n)])))

/-! ## Alterations -/

/-- A property as a key and a value, with an equals sign between them. -/
def readProperty (text : String) : Except Outcome (Value × Value) :=
  match splitAttached text with
  | (_, none) =>
      .error (.complain .misused ("Invalid property (expected KEY=VALUE): " ++ text))
  | (key, some value) => .ok (.str (Text.strip key), .str (Text.strip value))

/-- The alteration of an order, put together in the order of its parts. -/
def AlterOrder.alteration (a : AlterOrder) (name : String) : Except Outcome Alteration := do
  let refused := Outcome.ofFault .misused
  let draft ← orElse refused (Alteration.Draft.new.withCollection (.str name))
  let draft ← match a.ttl with
    | none => pure draft
    | some seconds => orElse refused (draft.withTtl (.int seconds))
  let draft ← match a.mmap with
    | none => pure draft
    | some enabled => orElse refused (draft.withMmap (.bool enabled))
  let draft ← a.properties.foldlM (fun draft text => do
    let (key, value) ← readProperty text
    orElse refused (draft.withProperty key value)) draft
  orElse refused draft.build

def AlterOrder.isEmpty (a : AlterOrder) : Bool :=
  a.ttl.isNone && a.mmap.isNone && a.properties.isEmpty

/-- An alteration is told with the properties that it leads to. -/
def toldAlteration (globals : Globals) (c : Collection) (written : Bool) : Outcome :=
  let entries : List (Value × Value) :=
    [(.str "collection_name", .str c.name), (.str "properties", c.properties.document),
      (.str "written", .bool written)]
  told globals (.map entries) (Report.mapping 0 entries)

def AlterOrder.run (a : AlterOrder) (s : Surroundings) (globals : Globals) :
    Except Outcome Outcome :=
  if a.isEmpty then
    .error (.complain .misused
      "Nothing to alter: pass --ttl, --mmap/--no-mmap or --property")
  else do
    let (path, loaded) ← s.openData globals
    let alteration ← a.alteration loaded.name
    let loaded ← orElse (.ofFault .misused) (loaded.alter alteration)
    let c ← orElse .fail loaded.collection
    let outcome := toldAlteration globals c !a.dryRun
    if a.dryRun then return outcome
    let document ← orElse .fail (loaded.dump s.now)
    match DataFile.obstacle? path document with
    | some obstacle => throw (.fail (.ofObstacle obstacle))
    | none =>
        return { outcome with
          written := some (DataFile.normal path, DataFile.write path document) }

/-! ## Command lines -/

def Order.run (order : Order) (s : Surroundings) (globals : Globals) : Outcome :=
  Outcome.settle <|
    match order with
    | .query q => q.run s globals
    | .parse filter check => runParse s globals filter check
    | .describe => runDescribe s globals
    | .stats => runStats s globals
    | .alter a => a.run s globals

/-- The levels of messages about the program's own work, in letters of any case. -/
def isLogLevel (name : String) : Bool :=
  Text.upper name ∈
    ["CRITICAL", "FATAL", "ERROR", "WARNING", "WARN", "INFO", "DEBUG", "NOTSET"]

def versionLine : String := "scalarq 0.1.0\n"

/-- The answer to words of which the first names no command. They may be options behind two
dashes, and of these only a demand for information is answered. -/
def withoutCommand (environment : String → Option String) (words : List String) : Outcome :=
  match readGlobals environment words with
  | .help => .help usage
  | .version => .print versionLine
  | _ => .misuse usage

def runCommand (s : Surroundings) (globals : Globals) (command : Command) (name : String)
    (words : List String) : Outcome :=
  if !isLogLevel globals.logLevel then .misuse usage
  else
    match command.read words with
    | .misuse => .misuse (commandUsage name)
    | .help => .help (commandUsage name)
    | .version => .misuse (commandUsage name)
    | .order order => order.run s globals

/-- Runs a whole command line. -/
def run (s : Surroundings) (words : List String) : Outcome :=
  match readGlobals s.environment words with
  | .misuse => .misuse usage
  | .help => .help usage
  | .version => .print versionLine
  | .order (globals, name :: rest) =>
      match command? name with
      | some command => runCommand s globals command name rest
      | none => withoutCommand s.environment (name :: rest)
  | .order (globals, []) =>
      if words = [] then .misuse usage
      else if isLogLevel globals.logLevel then .help usage
      else .misuse usage

/-- The data file that a command line names, if any. -/
def dataPath? (environment : String → Option String) (words : List String) : Option String :=
  match readGlobals environment words with
  | .order (globals, _) => nonEmpty globals.data
  | _ => none

end ScalarStore.CommandLine
