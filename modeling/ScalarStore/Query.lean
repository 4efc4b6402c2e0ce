import ScalarStore.Collection
import ScalarStore.Filter.Parse
import ScalarStore.Predicate.Compile

/-! # Queries

A query parses and checks its filter before it reads a row, restricts the live rows of the
requested partitions to the requested keys, keeps those on which the filter holds, and gives a
page of their requested fields, or their number. -/

namespace ScalarStore

/-- How stale an answer may be. Every answer is up to date, so all levels read alike. -/
inductive Consistency
  | strong | session | bounded | eventually | customized
deriving DecidableEq

namespace Consistency

def word : Consistency → String
  | .strong => "STRONG"
  | .session => "SESSION"
  | .bounded => "BOUNDED"
  | .eventually => "EVENTUALLY"
  | .customized => "CUSTOMIZED"

def all : List Consistency := [.strong, .session, .bounded, .eventually, .customized]

def ofWord? (s : String) : Option Consistency := all.find? fun c => c.word == s

def ofValue (v : Value) : Except Fault Consistency :=
  match v with
  | .str s => match ofWord? s with
    | some c => .ok c
    | none => .error (.value (.unknownConsistency v))
  | v => .error (.value (.unknownConsistency v))

end Consistency

/-- An argument, or the fault of taking it apart, which counts where the argument is used. -/
abbrev Supplied (α : Type) := Except Fault α

/-- A filter as text, as a tree, or as a value that is neither. -/
inductive FilterArgument
  | text (s : String)
  | tree (f : Filter)
  | other (kind : Kind)

/-- No ids put no restriction on keys; no partitions mean all of them. -/
structure Request where
  collection : String
  filter : FilterArgument
  ids : Option (Supplied (List Value))
  partitions : Supplied (List Value)
  consistency : Consistency
  output : Supplied (List Value)
  limit : Option Number
  offset : Number

namespace Request

/-- The name of the field that stands for the number of rows. -/
def countAll : String := "count(*)"

/-- A number that must not be negative, or a value of another kind, which has no order. -/
def nonNegative (v : Value) (reason : Number → ParameterFault) : Except Fault Number :=
  match v.number? with
  | none => .error (.kind (.notOrdered "<" v.kind .int))
  | some n => if n.lt (.whole 0) then refuse (reason n) else .ok n

/-- A limit, which may be missing. -/
def limitOf (v : Value) : Except Fault (Option Number) :=
  match v with
  | .null => .ok none
  | v => (nonNegative v .limitNegative).map some

/-- Checks consistency, limit and offset, in this order. -/
def make (collection : String) (filter : FilterArgument) (ids partitions : Value)
    (consistency : Value) (output : Supplied (List Value)) (limit offset : Value) :
    Except Fault Request := do
  let consistency ← Consistency.ofValue consistency
  let limit ← limitOf limit
  let offset ← nonNegative offset .offsetNegative
  return ⟨collection, filter, if ids = .null then none else some ids.items,
    partitions.itemsOrNone, consistency, output, limit, offset⟩

/-- A request whose output fields are taken apart when it is made, after the consistency is
checked. -/
def ofArguments (collection : String) (filter : FilterArgument) (ids partitions : Value)
    (consistency output limit offset : Value) : Except Fault Request := do
  let _ ← Consistency.ofValue consistency
  let output ← output.itemsOrNone
  make collection filter ids partitions consistency (.ok output) limit offset

/-- The name of an output field without the white space around it. -/
def outputName : Value → Except Fault String
  | .str s => .ok (Text.strip s)
  | v => .error (.noMember v.kind "strip")

/-- Whether a request asks for the number of rows alone. -/
def isCount (r : Request) : Except Fault Bool := do
  let names ← (← r.output).mapM outputName
  return names.map Text.lower == [countAll]

/-- The offset and limit must stay within the window. Without a limit there is no window. -/
def checkWindow (r : Request) (window : Int) : Except Fault Unit :=
  match r.limit with
  | none => .ok ()
  | some limit =>
      match r.offset.add? limit with
      | none => .error (.overflow .integerBeyondReals)
      | some last =>
          if !(Number.whole window).lt last then .ok ()
          else if last.toValue.hasLongInteger Text.digitLimit then
            .error (.value .integerUnwritable)
          else refuse (.windowExceeded last window)

/-- The fields that one output name stands for. -/
def expand (c : Collection) (name : String) : Except Fault (List String) :=
  if name = "*" then .ok c.schema.fieldNames
  else if Text.lower name = countAll then refuse .countCombined
  else if name ∈ c.schema.fieldNames then .ok [name]
  else .error (.unknownField name (some c.name))

/-- The primary key first, then the requested fields in the order of first mention. -/
def outputFields (c : Collection) (output : List Value) : Except Fault (List String) := do
  let groups ← output.mapM fun v => do expand c (← outputName v)
  return (c.primaryName :: groups.flatten).eraseDups

/-- The ids that can equal a key: all but truth values. -/
def allowedKeys (ids : List Value) : Except Fault (List Value) :=
  (ids.filter fun v => v.kind != .bool).mapM Value.asKey

/-- The rows whose key is among the ids, if any are given. -/
def restrict (c : Collection) (ids : Option (Supplied (List Value))) (rows : List StoredRow) :
    Except Fault (List StoredRow) :=
  match ids with
  | none => .ok rows
  | some ids => do
      let allowed ← allowedKeys (← ids)
      return rows.filter fun row => allowed.any (c.keyOf row.record).same

/-- The rows on which a predicate holds; a fault on any row fails them all. -/
def matching (p : Predicate) (rows : List StoredRow) : Except Fault (List StoredRow) := do
  let answers ← rows.mapM fun row => do return (row, ← p.test row.record)
  return (answers.filter (·.2)).map (·.1)

/-- A place in a list. Real numbers are none. -/
def placeOf (n : Number) : Except Fault Nat :=
  match n.int? with
  | some i => .ok i.toNat
  | none => .error (.kind .sliceBound)

/-- The page of a list from an offset on, with at most as many items as the limit. -/
def page {α : Type} (offset : Number) (limit : Option Number) (items : List α) :
    Except Fault (List α) := do
  let start ← placeOf offset
  match limit with
  | none => return items.drop start
  | some limit => return (items.drop start).take (← placeOf limit)

/-- The values of a row at the names of fields, all of which it must have. -/
def project (fields : List String) (row : StoredRow) : Except Fault Record :=
  fields.mapM fun name =>
    match row.record.lookup name with
    | some v => .ok (name, v)
    | none => .error (.missingKey name)

/-- The filter of a request and the limit on its connectives. A text is parsed, which limits
its levels already. -/
def readFilter (settings : Settings) (parsed : Except Fault (Option Filter)) :
    FilterArgument → Except Fault (Option Filter × Option Int)
  | .tree f => .ok (some f, some settings.maxDepth)
  | .other kind => .error (.kind (.noLength kind))
  | .text s =>
      if settings.maxFilterLength < s.length then
        refuse (.filterTooLong s.length settings.maxFilterLength)
      else parsed.map (·, none)

/-- Answers a request whose filter has been read. -/
def answer (c : Collection) (now : Binary64) (r : Request) (filter : Option Filter)
    (depthLimit : Option Int) : Except Fault (List Record) := do
  let isCount ← r.isCount
  if filter.isNone ∧ r.ids.isNone ∧ r.limit.isNone ∧ !isCount then refuse .filterEmpty
  r.checkWindow c.settings.maxWindow
  let predicate ← Filter.compile c.schema (some c.name) depthLimit filter
  let fields ← if isCount then .ok [] else do outputFields c (← r.output)
  let live ← c.snapshot now (← r.partitions)
  let candidates ← restrict c r.ids live
  let matched ← matching predicate candidates
  if isCount then return [[(countAll, .int matched.length)]]
  (← page r.offset r.limit matched).mapM (project fields)

/-- Answers a request, given what its filter text parses to. -/
def run (c : Collection) (now : Binary64) (r : Request) (parsed : Except Fault (Option Filter)) :
    Except Fault (List Record) := do
  let (filter, depthLimit) ← readFilter c.settings parsed r.filter
  r.answer c now filter depthLimit

end Request

end ScalarStore
