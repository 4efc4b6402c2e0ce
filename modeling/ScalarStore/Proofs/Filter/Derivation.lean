import Mathlib.Data.Nat.Notation
import ScalarStore.Filter.Grammar

/-! # The grammar of filters as rules

A phrase derives from a list of tokens by rules that look at nothing beyond the phrase. The rules
say what a reader may build from tokens; they do not say in which order it looks at them. -/

namespace ScalarStore

/-- Both comparisons point up, or both point down. -/
def Comparison.SameWay (first second : Comparison) : Prop :=
  first.ascending = true ∧ second.ascending = true ∨
    first.descending = true ∧ second.descending = true

/-- An integer of more digits than are read as one. -/
def Filter.Lexeme.IsLongInteger : Filter.Lexeme → Prop
  | .number spelling => spelling.all Text.isDigit = true ∧ Text.digitLimit < spelling.length
  | _ => False

namespace Filter

/-! ## Literals and lists -/

/-- A text, a truth value, or a number behind one sign at most. -/
inductive LiteralDerivation : List Token → Value → Prop where
  | quoted (mark body p) :
      LiteralDerivation [⟨.quoted mark body, p⟩] (.str (String.ofList (unescape body)))
  | isTrue (p) : LiteralDerivation [⟨.keyword .true, p⟩] (.bool true)
  | isFalse (p) : LiteralDerivation [⟨.keyword .false, p⟩] (.bool false)
  | unsigned (p) {spelling value} (h : numberValue false spelling = .ok value) :
      LiteralDerivation [⟨.number spelling, p⟩] value
  | plus (p q) {spelling value} (h : numberValue false spelling = .ok value) :
      LiteralDerivation [⟨.symbol .plus, p⟩, ⟨.number spelling, q⟩] value
  | minus (p q) {spelling value} (h : numberValue true spelling = .ok value) :
      LiteralDerivation [⟨.symbol .minus, p⟩, ⟨.number spelling, q⟩] value

/-- The literals after the first one of a list, and the closing bracket. -/
inductive ItemsDerivation : List Token → List Value → Prop where
  | close (p) : ItemsDerivation [⟨.symbol .closeBracket, p⟩] []
  | cons (p) {first rest value values} : LiteralDerivation first value →
      ItemsDerivation rest values →
      ItemsDerivation (⟨.symbol .comma, p⟩ :: (first ++ rest)) (value :: values)

inductive ListDerivation : List Token → List Value → Prop where
  | empty (p q) : ListDerivation [⟨.symbol .openBracket, p⟩, ⟨.symbol .closeBracket, q⟩] []
  | cons (p) {first rest value values} : LiteralDerivation first value →
      ItemsDerivation rest values →
      ListDerivation (⟨.symbol .openBracket, p⟩ :: (first ++ rest)) (value :: values)

/-! ## Predicates -/

inductive PredicateDerivation : List Token → Filter → Prop where
  | isIn (name p q) {items values} : ListDerivation items values →
      PredicateDerivation (⟨.name name, p⟩ :: ⟨.keyword .in, q⟩ :: items)
        (.leaf name .isIn (.list values))
  | notIn (name p q r) {items values} : ListDerivation items values →
      PredicateDerivation (⟨.name name, p⟩ :: ⟨.keyword .not, q⟩ :: ⟨.keyword .in, r⟩ :: items)
        (.leaf name .notIn (.list values))
  | like (name mark body p q r) :
      PredicateDerivation [⟨.name name, p⟩, ⟨.keyword .like, q⟩, ⟨.quoted mark body, r⟩]
        (.leaf name .like (.str (String.ofList (unescape body))))
  | compare (name c p q) {tokens value} : LiteralDerivation tokens value →
      PredicateDerivation (⟨.name name, p⟩ :: ⟨.symbol (.compare c), q⟩ :: tokens)
        (.leaf name (.compare c) value)
  | flipped (name c p q) {tokens value} : LiteralDerivation tokens value →
      PredicateDerivation (tokens ++ [⟨.symbol (.compare c), p⟩, ⟨.name name, q⟩])
        (.leaf name (.compare c.flip) value)
  | chain (name first second p q r) {left right low high} : LiteralDerivation left low →
      LiteralDerivation right high → first.SameWay second →
      PredicateDerivation
        (left ++ ⟨.symbol (.compare first), p⟩ :: ⟨.name name, q⟩ ::
          ⟨.symbol (.compare second), r⟩ :: right)
        (.node .and [.leaf name (.compare first.flip) low, .leaf name (.compare second) high])
  | flag (name p) : PredicateDerivation [⟨.name name, p⟩] (.leaf name (.compare .eq) (.bool true))

/-! ## Connectives

The number says how many negations and parentheses may be open at once. -/

/-- The parts that a connective joins make one filter: a single part stands for itself, and two or
more make a node, whose children are the parts in their order. -/
inductive JoinDerivation (connective : Connective) : List Filter → Filter → Prop where
  | one (f) : JoinDerivation connective [f] f
  | several (f g fs) : JoinDerivation connective (f :: g :: fs) (.node connective (f :: g :: fs))

/-- What the reader builds of several parts is what they make. -/
theorem joinDerivation_iff {connective : Connective} {f g : Filter} {fs : List Filter} :
    JoinDerivation connective (f :: fs) g ↔ joined connective f fs = g := by
  constructor
  · intro h
    cases h with
    | one | several => rfl
  · rintro rfl
    cases fs with
    | nil => exact .one f
    | cons g fs => exact .several f g fs

mutual

inductive DisjunctionDerivation : ℕ → List Token → Filter → Prop where
  | run {n first rest f fs g} : ConjunctionDerivation n first f → DisjunctsDerivation n rest fs →
      JoinDerivation .or (f :: fs) g → DisjunctionDerivation n (first ++ rest) g

inductive DisjunctsDerivation : ℕ → List Token → List Filter → Prop where
  | nil (n) : DisjunctsDerivation n [] []
  | cons {n token first rest f fs} (h : isOr token.lexeme = true) :
      ConjunctionDerivation n first f → DisjunctsDerivation n rest fs →
      DisjunctsDerivation n (token :: (first ++ rest)) (f :: fs)

inductive ConjunctionDerivation : ℕ → List Token → Filter → Prop where
  | run {n first rest f fs g} : UnaryDerivation n first f → ConjunctsDerivation n rest fs →
      JoinDerivation .and (f :: fs) g → ConjunctionDerivation n (first ++ rest) g

inductive ConjunctsDerivation : ℕ → List Token → List Filter → Prop where
  | nil (n) : ConjunctsDerivation n [] []
  | cons {n token first rest f fs} (h : isAnd token.lexeme = true) :
      UnaryDerivation n first f → ConjunctsDerivation n rest fs →
      ConjunctsDerivation n (token :: (first ++ rest)) (f :: fs)

inductive UnaryDerivation : ℕ → List Token → Filter → Prop where
  | predicate (n) {tokens f} : PredicateDerivation tokens f → UnaryDerivation n tokens f
  | negation {n token tokens f} (h : isNot token.lexeme = true) : UnaryDerivation n tokens f →
      UnaryDerivation (n + 1) (token :: tokens) (.node .not [f])
  | parentheses {n tokens f} (p q) : DisjunctionDerivation n tokens f →
      UnaryDerivation (n + 1)
        (⟨.symbol .openParen, p⟩ :: (tokens ++ [⟨.symbol .closeParen, q⟩])) f

end

/-! ## Phrases by themselves -/

section Single

variable {n : ℕ} {tokens : List Token} {f : Filter}

theorem UnaryDerivation.conjunction (h : UnaryDerivation n tokens f) :
    ConjunctionDerivation n tokens f := by
  have hrun : ConjunctionDerivation n (tokens ++ []) f := .run h (.nil n) (.one f)
  rwa [List.append_nil] at hrun

theorem ConjunctionDerivation.disjunction (h : ConjunctionDerivation n tokens f) :
    DisjunctionDerivation n tokens f := by
  have hrun : DisjunctionDerivation n (tokens ++ []) f := .run h (.nil n) (.one f)
  rwa [List.append_nil] at hrun

theorem UnaryDerivation.disjunction (h : UnaryDerivation n tokens f) :
    DisjunctionDerivation n tokens f :=
  h.conjunction.disjunction

/-- A predicate is a filter that opens no level. -/
theorem PredicateDerivation.disjunction (h : PredicateDerivation tokens f) (n : ℕ) :
    DisjunctionDerivation n tokens f :=
  (UnaryDerivation.predicate n h).disjunction

theorem ConjunctsDerivation.one {token : Token} (ht : isAnd token.lexeme = true)
    (h : UnaryDerivation n tokens f) : ConjunctsDerivation n (token :: tokens) [f] := by
  have hone : ConjunctsDerivation n (token :: (tokens ++ [])) [f] := .cons ht h (.nil n)
  rwa [List.append_nil] at hone

theorem DisjunctsDerivation.one {token : Token} (ht : isOr token.lexeme = true)
    (h : ConjunctionDerivation n tokens f) : DisjunctsDerivation n (token :: tokens) [f] := by
  have hone : DisjunctsDerivation n (token :: (tokens ++ [])) [f] := .cons ht h (.nil n)
  rwa [List.append_nil] at hone

end Single

end Filter

end ScalarStore
