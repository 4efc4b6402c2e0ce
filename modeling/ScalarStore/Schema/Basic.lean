import ScalarStore.Value.Access

/-! # Fields and schemas

A field declares the type of the values at a name; a schema is an ordered list of fields with
exactly one primary key. Both carry the proofs of the rules that `make` checks. -/

namespace ScalarStore

/-- A letter and then letters, digits and underscores; one line feed may end the name. -/
def isFieldName (name : String) : Bool :=
  match name.toList with
  | [] => false
  | c :: cs =>
      let tail := cs.dropWhile Filter.Lexeme.isNamePart
      c.isAlpha && (tail == [] || tail == ['\n'])

/-- The greatest length is a number of any kind; only a text field has one. -/
structure Field where
  name : String
  type : DataType
  isPrimary : Bool
  maxLength : Option Number
  description : Value
  named : isFieldName name = true
  notKeyword : Filter.Keyword.ofWord? name = none
  keyed : isPrimary = true → type.isKey = true
  bounded : maxLength ≠ none → type = .varchar
  positive : ∀ n, maxLength = some n → n.le (.whole 0) = false
deriving DecidableEq

namespace Field

/-- The greatest length that a value stands for, if it is given. -/
def lengthOf (name : String) (type : DataType) : Value → Except Fault (Option Number)
  | .null => .ok none
  | v =>
      if type ≠ .varchar then refuse (.lengthWithoutText name)
      else
        match v.number? with
        | none => .error (.kind (.notOrdered "<=" v.kind .int))
        | some n => if n.le (.whole 0) then refuse (.lengthNotPositive name) else .ok (some n)

theorem lengthOf_bounded {name : String} {type : DataType} {v : Value} {n : Number}
    (h : lengthOf name type v = .ok (some n)) : type = .varchar ∧ n.le (.whole 0) = false := by
  unfold lengthOf at h
  split at h
  · simp at h
  · split at h
    · simp [refuse] at h
    · next ht =>
        split at h
        · contradiction
        · split at h
          · simp [refuse] at h
          · next hn =>
              simp only [Except.ok.injEq, Option.some.injEq] at h
              subst h
              exact ⟨Classical.not_not.mp ht, by simpa using hn⟩

/-- Checks the name first, then the type, the key's type and the length. -/
def make (name : Value) (type : Except Fault DataType) (isPrimary : Bool) (maxLength : Value)
    (description : Value) : Except Fault Field :=
  match name with
  | .str name =>
      if named : isFieldName name = true then
        if notKeyword : Filter.Keyword.ofWord? name = none then
          match type with
          | .error fault => .error fault
          | .ok type =>
              if keyed : isPrimary = true → type.isKey = true then
                match h : lengthOf name type maxLength with
                | .error fault => .error fault
                | .ok none =>
                    .ok ⟨name, type, isPrimary, none, description, named, notKeyword, keyed,
                      by simp, by simp⟩
                | .ok (some n) =>
                    .ok ⟨name, type, isPrimary, some n, description, named, notKeyword, keyed,
                      fun _ => (lengthOf_bounded h).1,
                      fun m hm => by cases hm; exact (lengthOf_bounded h).2⟩
              else refuse (.keyType name)
        else refuse (.keywordName name)
      else refuse (.fieldName name)
  | v => .error (.kind (.notText v.kind))

end Field

/-- The data type that a value names. -/
def DataType.ofValue (v : Value) : Except Fault DataType :=
  match v with
  | .str s => match ofWord? s with
    | some type => .ok type
    | none => .error (.value (.unknownDataType v))
  | v => .error (.value (.unknownDataType v))

structure Schema where
  fields : List Field
  description : Value
  distinct : (fields.map (·.name)).Nodup
  oneKey : (fields.filter (·.isPrimary)).length = 1
deriving DecidableEq

namespace Schema

/-- The first name of a list that also stands earlier in it. -/
def firstRepeat (seen : List String) : List String → Option String
  | [] => none
  | name :: rest => if name ∈ seen then some name else firstRepeat (name :: seen) rest

theorem firstRepeat_eq_none_iff (seen names : List String) :
    firstRepeat seen names = none ↔ names.Nodup ∧ ∀ name ∈ names, name ∉ seen := by
  induction names generalizing seen with
  | nil => simp [firstRepeat]
  | cons name rest ih =>
      simp only [firstRepeat, List.nodup_cons, List.mem_cons]
      split
      · next h => simp [h]
      · next h =>
          rw [ih]
          simp only [List.mem_cons, not_or]
          grind

theorem nodup_of_firstRepeat {names : List String} (h : firstRepeat [] names = none) :
    names.Nodup :=
  ((firstRepeat_eq_none_iff [] names).mp h).1

/-- Names must differ, and exactly one field is the primary key. -/
def make (fields : List Field) (description : Value) : Except Fault Schema :=
  match distinct : firstRepeat [] (fields.map (·.name)) with
  | some name => refuse (.repeatedField name)
  | none =>
      if oneKey : (fields.filter (·.isPrimary)).length = 1 then
        .ok ⟨fields, description, nodup_of_firstRepeat distinct, oneKey⟩
      else refuse (.keyCount (fields.filter (·.isPrimary)).length)

/-- The primary key field. -/
def primary (schema : Schema) : Field :=
  (schema.fields.filter (·.isPrimary)).head (by
    intro h
    have := schema.oneKey
    rw [h] at this
    contradiction)

def fieldNames (schema : Schema) : List String := schema.fields.map (·.name)

def field? (schema : Schema) (name : String) : Option Field :=
  schema.fields.find? (·.name == name)

/-- The field at a name, or a fault that may name the collection too. -/
def field (schema : Schema) (collection : Option String) (name : String) : Except Fault Field :=
  match schema.field? name with
  | some f => .ok f
  | none => .error (.unknownField name collection)

end Schema

end ScalarStore
