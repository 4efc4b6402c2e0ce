import ScalarStore.Value.Text

/-! # Filters

A filter is a tree of comparisons of one field with a literal, joined by connectives. Trees may
also be built by hand, so operators and connectives may be unknown symbols, and a child may be
missing or without content; compilation refuses those. -/

namespace ScalarStore

inductive Comparison
  | eq | ne | lt | le | gt | ge
deriving DecidableEq

namespace Comparison

def symbol : Comparison → String
  | .eq => "=="
  | .ne => "!="
  | .lt => "<"
  | .le => "<="
  | .gt => ">"
  | .ge => ">="

/-- The comparison seen from the other side: `5 < x` is `x > 5`. -/
def flip : Comparison → Comparison
  | .eq => .eq
  | .ne => .ne
  | .lt => .gt
  | .le => .ge
  | .gt => .lt
  | .ge => .le

def ascending (c : Comparison) : Bool := c == .lt || c == .le

def descending (c : Comparison) : Bool := c == .gt || c == .ge

end Comparison

/-- What a leaf does with its literal. An `other` symbol is none of the nine known ones. -/
inductive Operator
  | compare (c : Comparison)
  | like
  | isIn
  | notIn
  | other (symbol : String)
      (unknown : symbol ∉ ["==", "!=", "<", "<=", ">", ">=", "LIKE", "IN", "NOT_IN"])
deriving DecidableEq

namespace Operator

def symbol : Operator → String
  | .compare c => c.symbol
  | .like => "LIKE"
  | .isIn => "IN"
  | .notIn => "NOT_IN"
  | .other s _ => s

def known : List Operator :=
  [.compare .eq, .compare .ne, .compare .lt, .compare .le, .compare .gt, .compare .ge,
    .like, .isIn, .notIn]

def ofSymbol (s : String) : Operator :=
  if h : s ∈ ["==", "!=", "<", "<=", ">", ">=", "LIKE", "IN", "NOT_IN"] then
    (known.find? fun operator => operator.symbol == s).getD .like
  else .other s h

end Operator

inductive Connective
  | and
  | or
  | not
  | other (symbol : String) (unknown : symbol ∉ ["AND", "OR", "NOT"])
deriving DecidableEq

namespace Connective

def symbol : Connective → String
  | .and => "AND"
  | .or => "OR"
  | .not => "NOT"
  | .other s _ => s

def ofSymbol (s : String) : Connective :=
  if h : s ∈ ["AND", "OR", "NOT"] then
    if s = "AND" then .and else if s = "OR" then .or else .not
  else .other s h

end Connective

/-- `bare` is an expression without content, `absent` a child that is no expression at all. -/
inductive Filter
  | leaf (field : String) (operator : Operator) (value : Value)
  | node (connective : Connective) (children : List Filter)
  | bare
  | absent

namespace Filter

mutual

/-- The field names of the leaves from left to right, repeats kept. -/
def leafFields : Filter → List String
  | .leaf field _ _ => [field]
  | .node _ children => leafFieldsOf children
  | .bare => []
  | .absent => []

def leafFieldsOf : List Filter → List String
  | [] => []
  | child :: rest => leafFields child ++ leafFieldsOf rest

end

mutual

/-- Equality by content. Literals must be of one kind, and `bare` equals nothing. -/
def same : Filter → Filter → Bool
  | .leaf f o v, .leaf g p w => f == g && o == p && v.same w && v.kind == w.kind
  | .node c fs, .node d gs => c == d && sameChildren fs gs
  | .absent, .absent => true
  | _, _ => false

def sameChildren : List Filter → List Filter → Bool
  | [], [] => true
  | f :: fs, g :: gs => same f g && sameChildren fs gs
  | _, _ => false

end

mutual

/-- The first list or map that keeps a filter from being a member of a set. A list of keys is
allowed as a literal. -/
def nonKey? : Filter → Option Value
  | .leaf _ _ (.list items) => Value.nonKeyAmong? items
  | .leaf _ _ v => v.nonKey?
  | .node _ children => nonKeyAmong? children
  | .bare => none
  | .absent => none

def nonKeyAmong? : List Filter → Option Value
  | [] => none
  | child :: rest => (nonKey? child).or (nonKeyAmong? rest)

end

end Filter

end ScalarStore
