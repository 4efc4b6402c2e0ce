import ScalarStore.Proofs.Like.Matching
import ScalarStore.Proofs.Numeric.Exact

/-! # The meaning of a filter

A filter is true or false of a row by recursion over its tree, without compilation: each leaf
compares the row's value at its field with the literal, and connectives join the answers. A value
is among the items of a list if it equals one of them. The program also finds it there if it is
one of them, which is more only if the value is a `nan`. -/

namespace ScalarStore

namespace Comparison

/-- The relation that a comparison names in an ordered type. -/
def Orders {α : Type} [LT α] (c : Comparison) (a b : α) : Prop :=
  match c with
  | .eq => a = b
  | .ne => a ≠ b
  | .lt => a < b
  | .le => a < b ∨ a = b
  | .gt => b < a
  | .ge => b < a ∨ b = a

/-- Numbers are compared by value. Without a value on one side only inequality holds. -/
def RelatesNumbers (c : Comparison) (a b : Number) : Prop :=
  match a.exactValue?, b.exactValue? with
  | some x, some y => c.Orders x y
  | _, _ => c = .ne

end Comparison

namespace Value

/-- The number that a value is. A truth value is none. -/
def numeric? : Value → Option Number
  | .int n => some (.whole n)
  | .float x => some (.real x)
  | _ => none

/-- Values are compared with values of their own kind: truth values by equality alone, texts by
code points, numbers by value. -/
def Relates (c : Comparison) (a b : Value) : Prop :=
  match a, b with
  | .bool p, .bool q => (c = .eq ∧ p = q) ∨ (c = .ne ∧ p ≠ q)
  | .str s, .str t => c.Orders s t
  | a, b => ∃ m n, a.numeric? = some m ∧ b.numeric? = some n ∧ c.RelatesNumbers m n

end Value

/-- What a leaf says of a value: its relation to a literal, its equality with an item of a list or
a tuple, its difference from all items, or the match of a pattern. -/
def Operator.Holds (operator : Operator) (v literal : Value) : Prop :=
  match operator, literal with
  | .compare c, w => v.Relates c w
  | .isIn, w => ∃ items, w.sequence? = some items ∧ ∃ item ∈ items, v.Relates .eq item
  | .notIn, w => ∃ items, w.sequence? = some items ∧ ¬∃ item ∈ items, v.Relates .eq item
  | .like, .str pattern => ∃ s, v = .str s ∧ Pattern.LikeDerivation pattern.toList s.toList
  | _, _ => False

/-- A value is a `nan` that is an item of a literal itself. -/
def Value.IsItemOf (v literal : Value) : Prop :=
  ∃ items, literal.sequence? = some items ∧ ∃ item ∈ items, v.isOneNan item = true

/-- What the program says of a value: it also finds a `nan` among items of which it is one. -/
def Operator.Finds (operator : Operator) (v literal : Value) : Prop :=
  match operator with
  | .isIn => Operator.isIn.Holds v literal ∨ v.IsItemOf literal
  | .notIn => Operator.notIn.Holds v literal ∧ ¬v.IsItemOf literal
  | operator => operator.Holds v literal

namespace Filter

section

variable (meaning : String → Operator → Value → Prop)

mutual

/-- The meaning of a filter of which each leaf has the meaning given. A negation has one child. -/
def HoldsBy : Filter → Prop
  | .leaf field operator literal => meaning field operator literal
  | .node .and children => AllHoldBy children
  | .node .or children => AnyHoldsBy children
  | .node .not children => ¬AllHoldBy children
  | .node (.other _ _) _ => False
  | .bare => False
  | .absent => False

def AllHoldBy : List Filter → Prop
  | [] => True
  | child :: rest => HoldsBy child ∧ AllHoldBy rest

def AnyHoldsBy : List Filter → Prop
  | [] => False
  | child :: rest => HoldsBy child ∨ AnyHoldsBy rest

end

theorem allHoldBy_iff (children : List Filter) :
    AllHoldBy meaning children ↔ ∀ child ∈ children, HoldsBy meaning child := by
  induction children with
  | nil => simp [AllHoldBy]
  | cons child rest ih => simp [AllHoldBy, ih]

theorem anyHoldsBy_iff (children : List Filter) :
    AnyHoldsBy meaning children ↔ ∃ child ∈ children, HoldsBy meaning child := by
  induction children with
  | nil => simp [AnyHoldsBy]
  | cons child rest ih => simp [AnyHoldsBy, ih]

end

variable (row : String → Value)

/-- The meaning of a filter on the values of a row. -/
def Holds : Filter → Prop :=
  HoldsBy fun field operator literal => operator.Holds (row field) literal

/-- What the program finds a filter to be on the values of a row. -/
def Finds : Filter → Prop :=
  HoldsBy fun field operator literal => operator.Finds (row field) literal

/-- No filter at all holds of every row. -/
def HoldsIfAny (filter : Option Filter) : Prop := ∀ f ∈ filter, Holds row f

def FindsIfAny (filter : Option Filter) : Prop := ∀ f ∈ filter, Finds row f

/-- The leaves of a filter. -/
inductive HasLeaf (field : String) (operator : Operator) (literal : Value) : Filter → Prop where
  | leaf : HasLeaf field operator literal (.leaf field operator literal)
  | node {connective children child} (hc : child ∈ children)
      (h : HasLeaf field operator literal child) :
      HasLeaf field operator literal (.node connective children)

/-- A list of a filter has an item that is the `nan` of the row itself at the field of the leaf. -/
def ListsOwnNan (filter : Filter) : Prop :=
  ∃ field operator literal, filter.HasLeaf field operator literal ∧
    (operator = .isIn ∨ operator = .notIn) ∧ (row field).IsItemOf literal

/-- The values of a record by name. -/
def valuesOf (record : Record) (name : String) : Value := (record.lookup name).getD .null

/-! ## Equal meanings -/

section

variable {meaning meaning' : String → Operator → Value → Prop}

mutual

/-- The meaning of a filter is told by that of its leaves. -/
theorem holdsBy_congr : (filter : Filter) →
    (∀ field operator literal, filter.HasLeaf field operator literal →
      (meaning field operator literal ↔ meaning' field operator literal)) →
    (HoldsBy meaning filter ↔ HoldsBy meaning' filter)
  | .leaf field operator literal, h => h field operator literal .leaf
  | .node connective children, h => by
      have heach := holdsBy_congr_each children fun child hc field operator literal hl =>
        h field operator literal (.node hc hl)
      have hall : AllHoldBy meaning children ↔ AllHoldBy meaning' children := by
        rw [allHoldBy_iff, allHoldBy_iff]
        exact forall₂_congr heach
      cases connective with
      | and => exact hall
      | not => exact not_congr hall
      | other symbol unknown => exact Iff.rfl
      | or =>
          rw [HoldsBy, HoldsBy, anyHoldsBy_iff, anyHoldsBy_iff]
          exact exists_congr fun child => and_congr_right (heach child)
  | .bare, _ => Iff.rfl
  | .absent, _ => Iff.rfl

theorem holdsBy_congr_each : (children : List Filter) →
    (∀ child ∈ children, ∀ field operator literal, child.HasLeaf field operator literal →
      (meaning field operator literal ↔ meaning' field operator literal)) →
    ∀ child ∈ children, (HoldsBy meaning child ↔ HoldsBy meaning' child)
  | [], _ => List.forall_mem_nil _
  | child :: rest, h => by
      obtain ⟨hchild, hrest⟩ := List.forall_mem_cons.mp h
      exact List.forall_mem_cons.mpr ⟨holdsBy_congr child hchild, holdsBy_congr_each rest hrest⟩

end

end

end Filter

/-- What is found of a value is what holds of it, unless it is a `nan` and an item itself. -/
theorem Operator.finds_iff_holds {operator : Operator} {v literal : Value}
    (h : operator = .isIn ∨ operator = .notIn → ¬v.IsItemOf literal) :
    operator.Finds v literal ↔ operator.Holds v literal := by
  cases operator with
  | isIn => exact or_iff_left (h (.inl rfl))
  | notIn => exact and_iff_left (h (.inr rfl))
  | _ => exact Iff.rfl

namespace Filter

variable {row : String → Value}

theorem finds_iff_holds {filter : Filter} (h : ¬filter.ListsOwnNan row) :
    Finds row filter ↔ Holds row filter :=
  holdsBy_congr filter fun field operator literal hleaf => Operator.finds_iff_holds fun ho hitem =>
    h ⟨field, operator, literal, hleaf, ho, hitem⟩

theorem findsIfAny_iff_holdsIfAny {filter : Option Filter}
    (h : ∀ f ∈ filter, ¬f.ListsOwnNan row) : FindsIfAny row filter ↔ HoldsIfAny row filter :=
  forall₂_congr fun f hf => finds_iff_holds (h f hf)

/-- An answer for a row is what is found of a filter, and so its meaning, unless a list of the
filter has a `nan` of the row for an item. -/
structure IsAnswer (row : String → Value) (filter : Option Filter) (b : Bool) : Prop where
  finds : b = true ↔ FindsIfAny row filter
  holds : (∀ f ∈ filter, ¬f.ListsOwnNan row) → (b = true ↔ HoldsIfAny row filter)

theorem isAnswer_iff {filter : Option Filter} {b : Bool} :
    IsAnswer row filter b ↔ (b = true ↔ FindsIfAny row filter) :=
  ⟨IsAnswer.finds, fun h => ⟨h, fun hlists => h.trans (findsIfAny_iff_holdsIfAny hlists)⟩⟩

end Filter

/-! ## Comparisons as the program makes them -/

namespace Comparison

theorem relatesNumbers_iff (c : Comparison) {a b : Number} {x y : ExactValue}
    (ha : a.exactValue? = some x) (hb : b.exactValue? = some y) :
    c.RelatesNumbers a b ↔ c.Orders x y := by
  simp only [RelatesNumbers, ha, hb]

theorem holds_iff (c : Comparison) (a b : Number) :
    c.holds a b = true ↔ c.RelatesNumbers a b := by
  cases ha : a.exactValue? with
  | none =>
      cases c <;> simp [holds, RelatesNumbers, ha, Number.compare?_eq_eq_iff, Number.lt_iff,
        Number.le_iff]
  | some x =>
      cases hb : b.exactValue? with
      | none =>
          cases c <;> simp [holds, RelatesNumbers, ha, hb, Number.compare?_eq_eq_iff,
            Number.lt_iff, Number.le_iff]
      | some y =>
          cases c <;> simp [holds, RelatesNumbers, Orders, ha, hb, Number.compare?_eq_eq_iff,
            Number.lt_iff, Number.le_iff, le_iff_lt_or_eq]
          · exact eq_comm
          · exact not_congr eq_comm

/-- Texts are ordered linearly. -/
theorem not_lt_text_iff (s t : String) : ¬ t < s ↔ s < t ∨ s = t := by
  constructor
  · intro h
    by_cases hlt : s < t
    · exact .inl hlt
    · exact .inr (String.le_antisymm (String.not_lt.mp h) (String.not_lt.mp hlt))
  · rintro (h | rfl)
    · exact String.lt_asymm h
    · exact String.lt_irrefl s

theorem holdsText_iff (c : Comparison) (s t : String) :
    c.holdsText s t = true ↔ c.Orders s t := by
  cases c with
  | eq => exact beq_iff_eq
  | ne => exact bne_iff_ne
  | lt => exact decide_eq_true_iff
  | le => rw [holdsText, Bool.not_eq_true', decide_eq_false_iff_not]; exact not_lt_text_iff s t
  | gt => exact decide_eq_true_iff
  | ge => rw [holdsText, Bool.not_eq_true', decide_eq_false_iff_not]; exact not_lt_text_iff t s

end Comparison

end ScalarStore
