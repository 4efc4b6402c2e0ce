import ScalarStore.CommandLine.Options
import ScalarStore.Text.Integer

/-! # Orders

A command line starts with options for all commands, followed by a command and its own options
and words. Of an option given several times the last counts, unless it may be repeated. -/

namespace ScalarStore.CommandLine

/-- What holds for all commands. -/
structure Globals where
  data : Option String
  json : Bool
  logLevel : String

structure QueryOrder where
  filter : String
  ids : List String
  partitions : List String
  output : List String
  limit : Option Int
  offset : Int
  consistency : String

structure AlterOrder where
  ttl : Option Int
  mmap : Option Bool
  properties : List String
  dryRun : Bool

inductive Order
  | query (q : QueryOrder)
  | parse (filter : String) (check : Bool)
  | describe
  | stats
  | alter (a : AlterOrder)

/-- What words demand: nothing that is understood, information, or an order. -/
inductive Demand (α : Type)
  | misuse
  | help
  | version
  | order (a : α)

/-- Information is given before any other option counts. -/
def information? {α : Type} (settings : List Setting) : Option (Demand α) :=
  settings.findSome? fun
    | .help => some .help
    | .version => some .version
    | _ => none

/-- All texts that settings of one kind give. -/
def every {α : Type} (pick : Setting → Option α) (settings : List Setting) : List α :=
  settings.filterMap pick

/-- What the last setting of a kind gives. -/
def last? {α : Type} (pick : Setting → Option α) (settings : List Setting) : Option α :=
  (every pick settings).getLast?

/-- The integer that a text gives, if there is one; a text that gives none is misuse. Only digits
of ASCII count here. -/
def integer? : Option String → Option (Option Int)
  | none => some none
  | some text =>
      if text.toList.any fun c => 127 < c.toNat then none
      else
        match Text.readInteger text with
        | .ok n => some (some n)
        | .error _ => none

/-! ## Options for all commands -/

def globalOptions : Options where
  words :=
    [("--data", .taking .data), ("--json", .alone .json), ("--log-level", .taking .logLevel),
      ("--version", .alone .version), ("--help", .alone .help)]
  letters := [('d', .data)]

/-- The value of an environment variable, of which an empty one counts as not set. -/
def nonEmpty (value : Option String) : Option String := value.filter (· ≠ "")

def globals (environment : String → Option String) (settings : List Setting) : Globals where
  data := (last? (fun | .data path => some path | _ => none) settings).or
    (nonEmpty (environment "SCALARQ_DATA"))
  json := (last? (fun | .json => some true | _ => none) settings).isSome
  logLevel := ((last? (fun | .logLevel name => some name | _ => none) settings).or
    (nonEmpty (environment "SCALARQ_LOG_LEVEL"))).getD "WARNING"

/-- What the words before a command demand, and the words from the command on. -/
def readGlobals (environment : String → Option String) (words : List String) :
    Demand (Globals × List String) :=
  match globalOptions.read false words with
  | none => .misuse
  | some (settings, rest) =>
      (information? settings).getD (.order (globals environment settings, rest))

/-! ## Commands -/

/-- The options of a command, and the order that settings and words give. -/
structure Command where
  options : Options
  order : List Setting → List String → Option Order

def queryOptions : Options where
  words :=
    [("--filter", .taking .filter), ("--id", .taking .id), ("--partition", .taking .partition),
      ("--output-field", .taking .output), ("--limit", .taking .limit),
      ("--offset", .taking .offset), ("--consistency-level", .taking .consistency),
      ("--help", .alone .help)]
  letters := [('f', .filter), ('p', .partition), ('o', .output)]

def queryOrder (settings : List Setting) (words : List String) : Option Order := do
  guard (words = [])
  let limit ← integer? (last? (fun | .limit text => some text | _ => none) settings)
  let offset ← integer? (last? (fun | .offset text => some text | _ => none) settings)
  return .query {
    filter := (last? (fun | .filter text => some text | _ => none) settings).getD ""
    ids := every (fun | .id text => some text | _ => none) settings
    partitions := every (fun | .partition name => some name | _ => none) settings
    output := every (fun | .output field => some field | _ => none) settings
    limit
    offset := offset.getD 0
    consistency :=
      (last? (fun | .consistency word => some word | _ => none) settings).getD "BOUNDED" }

def parseOptions : Options where
  words := [("--check", .alone .check), ("--help", .alone .help)]
  letters := []

def parseOrder (settings : List Setting) (words : List String) : Option Order :=
  match words with
  | [filter] =>
      some (.parse filter (last? (fun | .check => some true | _ => none) settings).isSome)
  | _ => none

def plainOptions : Options where
  words := [("--help", .alone .help)]
  letters := []

def plainOrder (order : Order) (_ : List Setting) (words : List String) : Option Order :=
  if words = [] then some order else none

def alterOptions : Options where
  words :=
    [("--ttl", .taking .ttl), ("--mmap", .alone (.mmap true)),
      ("--no-mmap", .alone (.mmap false)), ("--property", .taking .property),
      ("--dry-run", .alone .dryRun), ("--help", .alone .help)]
  letters := []

def alterOrder (settings : List Setting) (words : List String) : Option Order := do
  guard (words = [])
  let ttl ← integer? (last? (fun | .ttl text => some text | _ => none) settings)
  return .alter {
    ttl
    mmap := last? (fun | .mmap enabled => some enabled | _ => none) settings
    properties := every (fun | .property text => some text | _ => none) settings
    dryRun := (last? (fun | .dryRun => some true | _ => none) settings).isSome }

def command? (name : String) : Option Command :=
  match name with
  | "query" => some ⟨queryOptions, queryOrder⟩
  | "parse" => some ⟨parseOptions, parseOrder⟩
  | "describe" => some ⟨plainOptions, plainOrder .describe⟩
  | "stats" => some ⟨plainOptions, plainOrder .stats⟩
  | "alter" => some ⟨alterOptions, alterOrder⟩
  | _ => none

/-- What the words behind a command demand. -/
def Command.read (command : Command) (words : List String) : Demand Order :=
  match command.options.read true words with
  | none => .misuse
  | some (settings, words) =>
      (information? settings).getD
        (match command.order settings words with
          | none => .misuse
          | some order => .order order)

end ScalarStore.CommandLine
