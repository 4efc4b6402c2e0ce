import ScalarStore.Like
import ScalarStore.Predicate.Bounds
import ScalarStore.Schema.Row

/-! # Predicates

A compiled predicate is constant or a circuit of tests. Running a circuit reads the fields of a
row from left to right and stops as soon as the outcome is known; what was read is part of the
result. -/

namespace ScalarStore

/-- What a leaf asks of the value it reads. -/
inductive Test
  | compare (c : Comparison) (literal : Value)
  | within (members : List Value)
  | outside (members : List Value)
  | startsWith (start : String)
  | equals (text : String)
  | matching (pattern : Pattern)

inductive Circuit
  | test (field : String) (t : Test)
  | not (c : Circuit)
  | all (cs : List Circuit)
  | any (cs : List Circuit)

inductive Predicate
  | constant (b : Bool)
  | live (c : Circuit)

/-- The result of a run and the names of the fields it read, repeats kept. -/
structure Reads (α : Type) where
  names : List String
  result : Except Fault α

namespace Test

/-- Whether a value is a member of a set: it is the same as one of them, or one of them itself. A
list or a map cannot be looked for. -/
def isAmong (members : List Value) (v : Value) : Except Fault Bool :=
  v.asKey.map fun v => members.any v.coincides

def run (t : Test) (v : Value) : Except Fault Bool :=
  match t with
  | .compare c literal => c.run v literal
  | .within members => isAmong members v
  | .outside members => (isAmong members v).map not
  | .startsWith start =>
      match v with
      | .str s => .ok (start.toList.isPrefixOf s.toList)
      | v => .error (.noMember v.kind "startswith")
  | .equals text => .ok (v.same (.str text))
  | .matching pattern =>
      match v with
      | .str s => .ok (pattern.test s.toList)
      | v => .error (.kind (.notText v.kind))

end Test

namespace Circuit

mutual

/-- Runs a circuit on a record. A missing field is a fault at its reading. -/
def run (record : Record) : Circuit → Reads Bool
  | .test field t =>
      ⟨[field], match record.lookup field with
        | some v => t.run v
        | none => .error (.missingKey field)⟩
  | .not c => let r := run record c; ⟨r.names, r.result.map Bool.not⟩
  | .all cs => runAll record cs
  | .any cs => runAny record cs

/-- Stops at the first circuit that is false. -/
def runAll (record : Record) : List Circuit → Reads Bool
  | [] => ⟨[], .ok true⟩
  | c :: cs =>
      let first := run record c
      match first.result with
      | .ok true => let rest := runAll record cs; ⟨first.names ++ rest.names, rest.result⟩
      | result => ⟨first.names, result⟩

/-- Stops at the first circuit that is true. -/
def runAny (record : Record) : List Circuit → Reads Bool
  | [] => ⟨[], .ok false⟩
  | c :: cs =>
      let first := run record c
      match first.result with
      | .ok false => let rest := runAny record cs; ⟨first.names ++ rest.names, rest.result⟩
      | result => ⟨first.names, result⟩

end

end Circuit

namespace Predicate

def constant? : Predicate → Option Bool
  | .constant b => some b
  | .live _ => none

def live? : Predicate → Option Circuit
  | .constant _ => none
  | .live c => some c

def run (record : Record) : Predicate → Reads Bool
  | .constant b => ⟨[], .ok b⟩
  | .live c => c.run record

/-- The answer for a record, or a fault. -/
def test (p : Predicate) (record : Record) : Except Fault Bool := (p.run record).result

def negate : Predicate → Predicate
  | .constant b => .constant !b
  | .live c => .live (.not c)

/-- The conjunction: false as soon as a part is known to be; parts known to be true are dropped,
and a single part left stands for itself. -/
def all (ps : List Predicate) : Predicate :=
  if ps.any (·.constant? == some false) then .constant false
  else
    match ps.filterMap live? with
    | [] => .constant true
    | [c] => .live c
    | cs => .live (.all cs)

/-- The disjunction, likewise. -/
def any (ps : List Predicate) : Predicate :=
  if ps.any (·.constant? == some true) then .constant true
  else
    match ps.filterMap live? with
    | [] => .constant false
    | [c] => .live c
    | cs => .live (.any cs)

end Predicate

end ScalarStore
