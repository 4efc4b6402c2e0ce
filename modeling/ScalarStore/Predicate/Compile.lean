import ScalarStore.Filter.Parse
import ScalarStore.Predicate.Basic

/-! # Compiling filters

A filter is checked against a schema before any row is read: unknown fields and operators that
do not fit a field's type are faults, whatever the other parts of the filter decide. -/

namespace ScalarStore

/-- Whether a value has a kind that is comparable with a type. -/
def DataType.fits (type : DataType) (v : Value) : Bool :=
  if type = .bool then v.kind == .bool
  else if type.isNumeric then v.kind == .int || v.kind == .float
  else v.kind == .str

namespace Filter

/-- A test of a field. -/
def ask (f : Field) (t : Test) : Predicate := .live (.test f.name t)

def misfit {α : Type} (f : Field) (reason : TypeFault) : Except Fault α :=
  .error (.fieldType f.name f.type reason)

/-- A literal of another kind is spelled in its fault, unless it holds an integer too long for
that. -/
def misfitLiteral {α : Type} (f : Field) (v : Value) : Except Fault α :=
  if v.hasLongInteger Text.digitLimit then .error (.value .integerUnwritable)
  else misfit f (.literal v)

/-- A pattern without wildcards is an equality; one whose only wildcard is a last `%` asks for
a start. -/
def likeTest (pattern : String) : Test :=
  let cs := pattern.toList
  if cs.getLast? = some '%' ∧ !cs.dropLast.any Pattern.isSpecial then
    .startsWith (String.ofList cs.dropLast)
  else if !cs.any Pattern.isSpecial then .equals pattern
  else .matching (.ofText pattern)

def compileLike (f : Field) (v : Value) : Except Fault Predicate :=
  if f.type ≠ .varchar then misfit f .likeField
  else
    match v with
    | .str pattern => .ok (ask f (likeTest pattern))
    | _ => misfit f .likePattern

/-- The values of a list or a tuple that a field can hold. Without any, membership is decided. -/
def compileMembership (f : Field) (operator : Operator) (v : Value) : Except Fault Predicate :=
  match v.sequence? with
  | some values =>
      let members := values.filter f.type.fits
      if members.isEmpty then .ok (.constant (operator == .notIn))
      else .ok (ask f (if operator == .isIn then .within members else .outside members))
  | none => misfit f (.membershipValues operator)

/-- A comparison of an integer field with a number beyond its range is decided. -/
def compileComparison (f : Field) (c : Comparison) (v : Value) : Except Fault Predicate :=
  if !f.type.fits v then misfitLiteral f v
  else if f.type = .bool ∧ c ≠ .eq ∧ c ≠ .ne then misfit f (.unordered c)
  else
    match f.type.integerBounds?, v.number? with
    | some (low, high), some n =>
        match c.overRange? n low high with
        | some b => .ok (.constant b)
        | none => .ok (ask f (.compare c v))
    | _, _ => .ok (ask f (.compare c v))

def compileLeaf (f : Field) (operator : Operator) (v : Value) : Except Fault Predicate :=
  match operator with
  | .like => compileLike f v
  | .isIn => compileMembership f .isIn v
  | .notIn => compileMembership f .notIn v
  | .compare c => compileComparison f c v
  | .other symbol _ => misfit f (.unknownOperator symbol)

/-- Joins compiled children under a connective. -/
def connect (connective : Connective) (children : List Predicate) : Except Fault Predicate :=
  match connective, children with
  | .not, [p] => .ok p.negate
  | .not, _ => .error (.value .negationArity)
  | .and, ps => .ok (Predicate.all ps)
  | .or, ps => .ok (Predicate.any ps)
  | .other symbol _, _ => .error (.value (.unknownConnective symbol))

mutual

/-- Compiles a filter that lies under `depth` connectives, of which a limit allows only so many
above one another. -/
def compileAt (schema : Schema) (collection : Option String) (limit : Option Int) (depth : Nat) :
    Filter → Except Fault Predicate
  | .leaf field operator value =>
      match schema.field collection field with
      | .error fault => .error fault
      | .ok f => compileLeaf f operator value
  | .node connective children =>
      if limit.any (· ≤ (depth : Int)) then refuse (.filterTooDeep (limit.getD 0))
      else
        match compileAll schema collection limit (depth + 1) children with
        | .error fault => .error fault
        | .ok ps => connect connective ps
  | .bare => .error (.kind (.unsupportedFilter .bare))
  | .absent => .error (.kind (.unsupportedFilter .absent))

def compileAll (schema : Schema) (collection : Option String) (limit : Option Int) (depth : Nat) :
    List Filter → Except Fault (List Predicate)
  | [] => .ok []
  | child :: rest =>
      match compileAt schema collection limit depth child with
      | .error fault => .error fault
      | .ok p => (compileAll schema collection limit depth rest).map (p :: ·)

end

/-- The predicate of a filter. No filter at all holds of every row. -/
def compile (schema : Schema) (collection : Option String) (limit : Option Int) :
    Option Filter → Except Fault Predicate
  | none => .ok (.constant true)
  | some filter => compileAt schema collection limit 0 filter

/-- The answer of a filter for one record, with the usual limit on its connectives. -/
def evaluate (schema : Schema) (filter : Option Filter) (record : Record) : Except Fault Bool := do
  (← compile schema none (some defaultDepth) filter).test record

end Filter

end ScalarStore
