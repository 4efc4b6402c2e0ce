import ScalarStore.Value.Access

/-! # Filters built by hand

Comparisons of a named field, their combinations, and the form of a filter as a document. -/

namespace ScalarStore.Filter

/-- A comparison that has no answer for `null`. -/
def comparing (c : Comparison) (field : String) (value : Value) : Except Fault Filter :=
  if value = .null ∧ (c = .eq ∨ c = .ne) then .error (.kind .nullLiteral)
  else .ok (.leaf field (.compare c) value)

/-- A text that stands for itself in a pattern. -/
def escapePattern (s : String) : String :=
  String.ofList (s.toList.flatMap fun c =>
    if c = '\\' ∨ c = '%' ∨ c = '_' then ['\\', c] else [c])

def startsWith (field : String) : Value → Except Fault Filter
  | .str start => .ok (.leaf field .like (.str (escapePattern start ++ "%")))
  | v => .error (.noMember v.kind "replace")

/-- Membership among, or absence from, the items of a value. -/
def membership (operator : Operator) (field : String) (values : Value) : Except Fault Filter :=
  values.items.map fun items => .leaf field operator (.list items)

/-- The closed range from `low` to `high`. -/
def between (field : String) (low high : Value) : Filter :=
  .node .and [.leaf field (.compare .ge) low, .leaf field (.compare .le) high]

/-- Two filters under a connective. Only the right one may be missing. -/
def combine (connective : Connective) : Option Filter → Option Filter → Except Fault Filter
  | none, _ => .error (.kind .operandMissing)
  | some left, right => .ok (.node connective [left, right.getD .absent])

def negate : Option Filter → Except Fault Filter
  | none => .error (.kind .operandMissing)
  | some filter => .ok (.node .not [filter])

mutual

/-- A filter as a document: leaves by field, operator and value, nodes by operator and
children. -/
def document : Filter → Except Fault Value
  | .leaf field operator value =>
      .ok (.map [(.str "field", .str field), (.str "op", .str operator.symbol),
        (.str "value", value)])
  | .node connective children => do
      let items ← documents children
      return .map [(.str "op", .str connective.symbol), (.str "children", .list items)]
  | .bare => .error .notImplemented
  | .absent => .error (.noMember .null "to_dict")

def documents : List Filter → Except Fault (List Value)
  | [] => .ok []
  | child :: rest => do return (← document child) :: (← documents rest)

end

end ScalarStore.Filter
