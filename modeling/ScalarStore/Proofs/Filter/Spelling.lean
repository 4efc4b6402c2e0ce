import ScalarStore.Filter.Build
import ScalarStore.Json.Writer
import ScalarStore.Proofs.Filter.Composition
import ScalarStore.Proofs.Filter.Correctness
import ScalarStore.Proofs.Filter.Shape

/-! # What texts can spell

A filter that is read from a text is whole: every child is there, and every literal can be
written. Its text has no integer too long, so under another limit it spells the same filter or
has a fault of its own, one of too many levels. -/

namespace ScalarStore.Filter

/-! ## Tokens of a phrase -/

/-- None of the tokens is an integer too long to be read. -/
def Short (tokens : List Token) : Prop := ∀ token ∈ tokens, ¬ token.lexeme.IsLongInteger

variable {token : Token} {tokens rest : List Token} {n : ℕ}

@[simp]
theorem short_nil : Short [] := nofun

@[simp]
theorem short_cons : Short (token :: rest) ↔ ¬ token.lexeme.IsLongInteger ∧ Short rest :=
  List.forall_mem_cons

@[simp]
theorem short_append : Short (tokens ++ rest) ↔ Short tokens ∧ Short rest :=
  List.forall_mem_append

theorem not_isLongInteger_of_numberValue {negative : Bool} {spelling : List Char} {value : Value}
    (h : numberValue negative spelling = .ok value) :
    ¬ (Lexeme.number spelling).IsLongInteger := by
  rintro ⟨hdigits, hlong⟩
  have hlength : (spelling.filterMap Text.digitValue?).length = spelling.length :=
    List.filterMap_length_eq_length.mpr (List.all_eq_true.mp hdigits)
  rw [numberValue, if_pos hdigits] at h
  simp only [Text.readDigits, hlength, if_pos hlong] at h
  cases h

theorem LiteralDerivation.short {value : Value} (h : LiteralDerivation tokens value) :
    Short tokens := by
  cases h with
  | quoted | isTrue | isFalse => simp [Lexeme.IsLongInteger]
  | unsigned p hvalue => simpa using not_isLongInteger_of_numberValue hvalue
  | plus p q hvalue =>
      simpa [Lexeme.IsLongInteger] using not_isLongInteger_of_numberValue hvalue
  | minus p q hvalue =>
      simpa [Lexeme.IsLongInteger] using not_isLongInteger_of_numberValue hvalue

theorem ItemsDerivation.short {values : List Value} (h : ItemsDerivation tokens values) :
    Short tokens := by
  induction h with
  | close => simp [Lexeme.IsLongInteger]
  | cons p hfirst _ ih => simp [Lexeme.IsLongInteger, hfirst.short, ih]

theorem ListDerivation.short {values : List Value} (h : ListDerivation tokens values) :
    Short tokens := by
  cases h with
  | empty => simp [Lexeme.IsLongInteger]
  | cons p hfirst hrest => simp [Lexeme.IsLongInteger, hfirst.short, hrest.short]

theorem PredicateDerivation.short {f : Filter} (h : PredicateDerivation tokens f) :
    Short tokens := by
  cases h with
  | isIn name p q hitems => simp [Lexeme.IsLongInteger, hitems.short]
  | notIn name p q r hitems => simp [Lexeme.IsLongInteger, hitems.short]
  | like => simp [Lexeme.IsLongInteger]
  | compare name c p q hvalue => simp [Lexeme.IsLongInteger, hvalue.short]
  | flipped name c p q hvalue => simp [Lexeme.IsLongInteger, hvalue.short]
  | chain name first second p q r hlow hhigh => simp [Lexeme.IsLongInteger, hlow.short, hhigh.short]
  | flag => simp [Lexeme.IsLongInteger]

theorem not_isLongInteger_of_isWord {lexeme : Lexeme}
    (h : isOr lexeme = true ∨ isAnd lexeme = true ∨ isNot lexeme = true) :
    ¬ lexeme.IsLongInteger := by
  cases lexeme with
  | number => simp [isOr, isAnd, isNot] at h
  | quoted | symbol | name | keyword => exact id

mutual

theorem DisjunctionDerivation.short : ∀ {n : ℕ} {tokens : List Token} {f : Filter},
    DisjunctionDerivation n tokens f → Short tokens
  | _, _, _, .run hfirst hrest _ => by simp [hfirst.short, hrest.short]

theorem DisjunctsDerivation.short : ∀ {n : ℕ} {tokens : List Token} {fs : List Filter},
    DisjunctsDerivation n tokens fs → Short tokens
  | _, _, _, .nil _ => short_nil
  | _, _, _, .cons h hfirst hrest => by
      simp [not_isLongInteger_of_isWord (.inl h), hfirst.short, hrest.short]

theorem ConjunctionDerivation.short : ∀ {n : ℕ} {tokens : List Token} {f : Filter},
    ConjunctionDerivation n tokens f → Short tokens
  | _, _, _, .run hfirst hrest _ => by simp [hfirst.short, hrest.short]

theorem ConjunctsDerivation.short : ∀ {n : ℕ} {tokens : List Token} {fs : List Filter},
    ConjunctsDerivation n tokens fs → Short tokens
  | _, _, _, .nil _ => short_nil
  | _, _, _, .cons h hfirst hrest => by
      simp [not_isLongInteger_of_isWord (.inr (.inl h)), hfirst.short, hrest.short]

theorem UnaryDerivation.short : ∀ {n : ℕ} {tokens : List Token} {f : Filter},
    UnaryDerivation n tokens f → Short tokens
  | _, _, _, .predicate _ h => h.short
  | _, _, _, .negation h hf => by
      simp [not_isLongInteger_of_isWord (.inr (.inr h)), hf.short]
  | _, _, _, .parentheses _ _ hf => by simp [Lexeme.IsLongInteger, hf.short]

end

/-! ## Well-formed filters can be written -/

theorem obstacle?_of_isLiteral {v : Value} (h : v.IsLiteral) : Json.obstacle? v = none := by
  cases v with
  | int n =>
      have hshort : (Value.int n).hasLongInteger Text.digitLimit = false :=
        (Value.hasLongInteger_int (by decide) n).mpr h
      simp [Json.obstacle?, hshort]
  | bool | float | str => rfl
  | _ => exact h.elim

theorem itemsObstacle?_of_isLiteral {values : List Value} (h : ∀ v ∈ values, v.IsLiteral) :
    Json.itemsObstacle? values = none := by
  induction values with
  | nil => rfl
  | cons v values ih =>
      obtain ⟨hv, hvalues⟩ := List.forall_mem_cons.mp h
      rw [Json.itemsObstacle?, obstacle?_of_isLiteral hv, Option.none_or, ih hvalues]

theorem obstacle?_of_takes {operator : Operator} {literal : Value} (h : operator.Takes literal) :
    Json.obstacle? literal = none := by
  cases operator with
  | compare c => exact obstacle?_of_isLiteral h
  | like =>
      obtain ⟨pattern, rfl⟩ := h
      rfl
  | isIn | notIn =>
      obtain ⟨values, rfl, hvalues⟩ := h
      exact itemsObstacle?_of_isLiteral hvalues
  | other => exact h.elim

/-- A filter that has a form as a document, and one that can be written. -/
def Writable (f : Filter) : Prop := ∃ v, f.document = .ok v ∧ Json.obstacle? v = none

theorem writable_leaf {value : Value} (h : Json.obstacle? value = none) (field : String)
    (operator : Operator) : (Filter.leaf field operator value).Writable := by
  refine ⟨_, rfl, ?_⟩
  simp [Json.obstacle?, Json.entriesObstacle?, Json.keyObstacle?, Value.hasLongInteger, h]

theorem documents_of_writable {fs : List Filter} (h : ∀ f ∈ fs, f.Writable) :
    ∃ vs, documents fs = .ok vs ∧ Json.itemsObstacle? vs = none := by
  induction fs with
  | nil => exact ⟨[], rfl, rfl⟩
  | cons f fs ih =>
      obtain ⟨⟨v, hv, hnone⟩, hrest⟩ := List.forall_mem_cons.mp h
      obtain ⟨vs, hvs, hnones⟩ := ih hrest
      refine ⟨v :: vs, ?_, by rw [Json.itemsObstacle?, hnone, hnones]; rfl⟩
      rw [documents, hv, hvs]
      rfl

theorem writable_node {fs : List Filter} (h : ∀ f ∈ fs, f.Writable) (connective : Connective) :
    (Filter.node connective fs).Writable := by
  obtain ⟨vs, hvs, hnone⟩ := documents_of_writable h
  refine ⟨.map [(.str "op", .str connective.symbol), (.str "children", .list vs)], ?_, ?_⟩
  · rw [document, hvs]
    rfl
  · simp [Json.obstacle?, Json.entriesObstacle?, Json.keyObstacle?, Value.hasLongInteger, hnone]

theorem WellFormed.writable {f : Filter} (h : f.WellFormed) : f.Writable := by
  induction h with
  | leaf field h => exact writable_leaf (obstacle?_of_takes h) field _
  | all hcount h ih => exact writable_node ih .and
  | any hcount h ih => exact writable_node ih .or
  | not h ih => exact writable_node (List.forall_mem_singleton.mpr ih) .not

/-! ## Texts under several limits -/

variable {limit : ℤ} {text : String} {f : Filter}

theorem writable_of_parse (h : parse limit text = .ok (some f)) : f.Writable := by
  obtain ⟨tokens, -, hderivation⟩ := parse_eq_ok h
  exact hderivation.wellFormed.writable

theorem parse_eq_none_iff : parse limit text = .ok none ↔ Text.isBlankText text = true := by
  unfold parse
  split
  · next hblank => simp [hblank]
  · next hblank =>
      refine ⟨fun h => ?_, fun h => absurd h hblank⟩
      split at h
      · cases h
      · split at h <;> cases h

/-- A text that spells a filter under one limit spells the same or has a fault of its own under
another. -/
theorem parse_of_parse (h : parse limit text = .ok (some f)) (other : ℤ) :
    parse other text = .ok (some f) ∨
      ∃ reason position, parse other text = .error (.filter reason position text) := by
  obtain ⟨tokens, htokens, hderivation⟩ := parse_eq_ok h
  have hblank : Text.isBlankText text = false := by
    by_contra hblank
    have hnone : parse limit text = .ok none := parse_eq_none_iff.mpr (by simpa using hblank)
    cases h.symm.trans hnone
  rw [parse_eq_ofTokens other hblank htokens]
  cases hread : ofTokens other tokens with
  | error stopped =>
      obtain ⟨reason, position, he⟩ :=
        Stop.fault_eq_filter text (ofTokens_stops hread) hderivation.short
      exact .inr ⟨reason, position, congrArg _ he⟩
  | ok g =>
      have hparse : parse other text = .ok (some g) := by
        rw [parse_eq_ofTokens other hblank htokens, hread]
      obtain ⟨_, htokens', hderivation'⟩ := parse_eq_ok hparse
      cases htokens.symm.trans htokens'
      exact .inl (congrArg _ (congrArg _ (hderivation'.unique hderivation)))

end ScalarStore.Filter
