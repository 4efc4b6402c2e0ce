import ScalarStore.Proofs.Filter.Composition
import ScalarStore.Proofs.Numeric.Digits
import ScalarStore.Proofs.Predicate.Offence

/-! # The shape of filters that are read from texts

Trees that are built by hand may have connectives without children and literals of any kind.
Those that a text spells have neither. They may have more connectives above one another than the
text has open levels, since operators without parentheses nest too: at most two for each level
and three more. -/

namespace ScalarStore

/-! ## Well-formed filters -/

/-- A single value of which the text can be written. -/
def Value.IsLiteral : Value → Prop
  | .bool _ => True
  | .int n => n.natAbs < 10 ^ Text.digitLimit
  | .float _ => True
  | .str _ => True
  | _ => False

/-- The literals that an operator takes on a field of a suitable type. -/
def Operator.Takes (literal : Value) : Operator → Prop
  | .compare _ => literal.IsLiteral
  | .like => ∃ pattern, literal = .str pattern
  | .isIn => ∃ values, literal = .list values ∧ ∀ v ∈ values, v.IsLiteral
  | .notIn => ∃ values, literal = .list values ∧ ∀ v ∈ values, v.IsLiteral
  | .other _ _ => False

namespace Filter

/-- Every leaf has a known operator and a literal for it, and every connective is known and has
something to connect. -/
inductive WellFormed : Filter → Prop where
  | leaf (field) {operator literal} (h : operator.Takes literal) :
      WellFormed (.leaf field operator literal)
  | all {children} (hcount : 2 ≤ children.length) (h : ∀ child ∈ children, WellFormed child) :
      WellFormed (.node .and children)
  | any {children} (hcount : 2 ≤ children.length) (h : ∀ child ∈ children, WellFormed child) :
      WellFormed (.node .or children)
  | not {child} (h : WellFormed child) : WellFormed (.node .not [child])

variable {tokens : List Token} {n : ℕ}

theorem isLiteral_of_numberValue {negative : Bool} {spelling : List Char} {value : Value}
    (h : numberValue negative spelling = .ok value) : value.IsLiteral := by
  unfold numberValue at h
  split at h
  · split at h
    · next k hk =>
        cases h
        have hlt := Text.readDigits_lt hk
        cases negative <;> simpa [Value.IsLiteral] using hlt
    · cases h
  · cases h
    trivial

theorem LiteralDerivation.isLiteral {value : Value} (h : LiteralDerivation tokens value) :
    value.IsLiteral := by
  cases h with
  | quoted | isTrue | isFalse => trivial
  | unsigned _ hvalue => exact isLiteral_of_numberValue hvalue
  | plus _ _ hvalue => exact isLiteral_of_numberValue hvalue
  | minus _ _ hvalue => exact isLiteral_of_numberValue hvalue

theorem ItemsDerivation.isLiteral {values : List Value} (h : ItemsDerivation tokens values) :
    ∀ v ∈ values, v.IsLiteral := by
  induction h with
  | close => exact nofun
  | cons p hfirst _ ih => exact List.forall_mem_cons.mpr ⟨hfirst.isLiteral, ih⟩

theorem ListDerivation.isLiteral {values : List Value} (h : ListDerivation tokens values) :
    ∀ v ∈ values, v.IsLiteral := by
  cases h with
  | empty => exact nofun
  | cons p hfirst hrest => exact List.forall_mem_cons.mpr ⟨hfirst.isLiteral, hrest.isLiteral⟩

theorem PredicateDerivation.wellFormed {f : Filter} (h : PredicateDerivation tokens f) :
    f.WellFormed := by
  cases h with
  | isIn name p q hitems => exact .leaf name ⟨_, rfl, hitems.isLiteral⟩
  | notIn name p q r hitems => exact .leaf name ⟨_, rfl, hitems.isLiteral⟩
  | like name => exact .leaf name ⟨_, rfl⟩
  | compare name c p q hvalue => exact .leaf name hvalue.isLiteral
  | flipped name c p q hvalue => exact .leaf name hvalue.isLiteral
  | @chain name first second p q r left right low high hlow hhigh =>
      have hleft : WellFormed (.leaf name (.compare first.flip) low) := .leaf name hlow.isLiteral
      have hright : WellFormed (.leaf name (.compare second) high) := .leaf name hhigh.isLiteral
      exact .all (Nat.le_refl 2)
        (List.forall_mem_cons.mpr ⟨hleft, List.forall_mem_singleton.mpr hright⟩)
  | flag name => exact .leaf name trivial

theorem JoinDerivation.wellFormed {connective : Connective} {fs : List Filter} {g : Filter}
    (h : JoinDerivation connective fs g) (hfs : ∀ f ∈ fs, f.WellFormed)
    (hnode : 2 ≤ fs.length → (∀ f ∈ fs, f.WellFormed) → (node connective fs).WellFormed) :
    g.WellFormed := by
  cases h with
  | one => exact hfs g (List.mem_singleton_self g)
  | several f g fs => exact hnode (Nat.le_add_left 2 _) hfs

mutual

theorem DisjunctionDerivation.wellFormed : ∀ {n : ℕ} {tokens : List Token} {f : Filter},
    DisjunctionDerivation n tokens f → f.WellFormed
  | _, _, _, .run hfirst hrest hj =>
      hj.wellFormed (List.forall_mem_cons.mpr ⟨hfirst.wellFormed, hrest.wellFormed⟩) .any

theorem DisjunctsDerivation.wellFormed : ∀ {n : ℕ} {tokens : List Token} {fs : List Filter},
    DisjunctsDerivation n tokens fs → ∀ f ∈ fs, f.WellFormed
  | _, _, _, .nil _ => nofun
  | _, _, _, .cons _ hfirst hrest =>
      List.forall_mem_cons.mpr ⟨hfirst.wellFormed, hrest.wellFormed⟩

theorem ConjunctionDerivation.wellFormed : ∀ {n : ℕ} {tokens : List Token} {f : Filter},
    ConjunctionDerivation n tokens f → f.WellFormed
  | _, _, _, .run hfirst hrest hj =>
      hj.wellFormed (List.forall_mem_cons.mpr ⟨hfirst.wellFormed, hrest.wellFormed⟩) .all

theorem ConjunctsDerivation.wellFormed : ∀ {n : ℕ} {tokens : List Token} {fs : List Filter},
    ConjunctsDerivation n tokens fs → ∀ f ∈ fs, f.WellFormed
  | _, _, _, .nil _ => nofun
  | _, _, _, .cons _ hfirst hrest =>
      List.forall_mem_cons.mpr ⟨hfirst.wellFormed, hrest.wellFormed⟩

theorem UnaryDerivation.wellFormed : ∀ {n : ℕ} {tokens : List Token} {f : Filter},
    UnaryDerivation n tokens f → f.WellFormed
  | _, _, _, .predicate _ h => h.wellFormed
  | _, _, _, .negation _ hf => .not hf.wellFormed
  | _, _, _, .parentheses _ _ hf => hf.wellFormed

end

/-! ## Levels of filters that texts spell -/

theorem JoinDerivation.levels_le {connective : Connective} {fs : List Filter} {g : Filter} {m : ℕ}
    (h : JoinDerivation connective fs g) (hfs : levelsOf fs ≤ m) : g.levels ≤ m + 1 := by
  cases h with
  | one => exact Nat.le_succ_of_le (Nat.max_le.mp hfs).1
  | several f g fs => exact Nat.succ_le_succ hfs

theorem PredicateDerivation.levels_le {f : Filter} (h : PredicateDerivation tokens f) :
    f.levels ≤ 1 := by
  cases h <;> simp [levels, levelsOf]

mutual

theorem DisjunctionDerivation.levels_le : ∀ {n : ℕ} {tokens : List Token} {f : Filter},
    DisjunctionDerivation n tokens f → f.levels ≤ 2 * n + 3
  | _, _, _, .run hfirst hrest hj =>
      hj.levels_le (Nat.max_le.mpr ⟨hfirst.levels_le, hrest.levels_le⟩)

theorem DisjunctsDerivation.levels_le : ∀ {n : ℕ} {tokens : List Token} {fs : List Filter},
    DisjunctsDerivation n tokens fs → levelsOf fs ≤ 2 * n + 2
  | _, _, _, .nil _ => Nat.zero_le _
  | _, _, _, .cons _ hfirst hrest => Nat.max_le.mpr ⟨hfirst.levels_le, hrest.levels_le⟩

theorem ConjunctionDerivation.levels_le : ∀ {n : ℕ} {tokens : List Token} {f : Filter},
    ConjunctionDerivation n tokens f → f.levels ≤ 2 * n + 2
  | _, _, _, .run hfirst hrest hj =>
      hj.levels_le (Nat.max_le.mpr ⟨hfirst.levels_le, hrest.levels_le⟩)

theorem ConjunctsDerivation.levels_le : ∀ {n : ℕ} {tokens : List Token} {fs : List Filter},
    ConjunctsDerivation n tokens fs → levelsOf fs ≤ 2 * n + 1
  | _, _, _, .nil _ => Nat.zero_le _
  | _, _, _, .cons _ hfirst hrest => Nat.max_le.mpr ⟨hfirst.levels_le, hrest.levels_le⟩

/-- A level is opened by a negation, which is one connective, or by parentheses, which hold a
disjunction of conjunctions. -/
theorem UnaryDerivation.levels_le : ∀ {n : ℕ} {tokens : List Token} {f : Filter},
    UnaryDerivation n tokens f → f.levels ≤ 2 * n + 1
  | _, _, _, .predicate _ h => Nat.le_trans h.levels_le (Nat.le_add_left 1 _)
  | _, _, _, .negation _ hf => by
      have := hf.levels_le
      simp only [levels, levelsOf]
      omega
  | _, _, _, .parentheses _ _ hf => hf.levels_le

end

/-! ## Faults of well-formed filters -/

/-- A field that a schema does not declare, or something that its type does not admit. -/
inductive Misfit (schema : Schema) (collection : Option String) : Fault → Prop where
  | unknownField {name} (h : name ∉ schema.fieldNames) :
      Misfit schema collection (.unknownField name collection)
  | fieldType {f} (hf : f ∈ schema.fields) (reason) :
      Misfit schema collection (.fieldType f.name f.type reason)

variable {schema : Schema} {collection : Option String}

/-- A literal that an operator takes on some field can be spelled if it does not fit this one. -/
theorem misfit_of_leafOffences {f : Field} {operator : Operator} {literal : Value}
    (hf : f ∈ schema.fields) (h : operator.Takes literal) :
    ∀ fault ∈ leafOffences f operator literal, Misfit schema collection fault := by
  intro fault hfault
  unfold leafOffences at hfault
  split at hfault
  · cases hfault
  · rw [List.mem_singleton.mp hfault]
    cases operator with
    | compare c =>
        have hshort : literal.hasLongInteger Text.digitLimit = false := by
          cases literal with
          | int n => exact (Value.hasLongInteger_int (by decide) n).mpr h
          | bool | float | str => rfl
          | _ => exact h.elim
        rw [Field.objection, hshort]
        split
        · exact .fieldType hf _
        · exact .fieldType hf _
    | like => exact .fieldType hf _
    | isIn => exact .fieldType hf _
    | notIn => exact .fieldType hf _
    | other symbol unknown => exact .fieldType hf _

theorem WellFormed.misfit_of_offences {f : Filter} (h : f.WellFormed) (depth : ℕ) :
    ∀ fault ∈ offences schema collection none depth f, Misfit schema collection fault := by
  induction h generalizing depth with
  | @leaf field operator literal h =>
      intro fault hfault
      rw [offences] at hfault
      split at hfault
      · next hfield =>
          rw [List.mem_singleton.mp hfault]
          exact .unknownField (Schema.field?_eq_none_iff.mp hfield)
      · next f hfield =>
          exact misfit_of_leafOffences (Schema.field?_eq_some_iff.mp hfield).1 h fault hfault
  | all hcount h ih | any hcount h ih =>
      exact forall_offences_node (List.forall_mem_nil _) (fun child hc => ih child hc _)
        (List.forall_mem_nil _)
  | not h ih =>
      exact forall_offences_node (List.forall_mem_nil _)
        (List.forall_mem_singleton.mpr (ih _)) (List.forall_mem_nil _)

/-! ## Filters that are read from texts -/

/-- A filter that is read from a text is well formed and has few connectives above one another.
So it compiles without a limit as under one that the open levels give, and it fails only where it
does not fit the schema. -/
theorem shape_of_parse {limit : ℕ} {text : String} {f : Filter}
    (h : parse limit text = .ok (some f)) :
    f.WellFormed ∧ f.levels ≤ 2 * limit + 3 ∧
    ∀ (schema : Schema) (collection : Option String),
      (∀ fault, compile schema collection none (some f) = .error fault →
        Misfit schema collection fault) ∧
      compile schema collection none (some f) =
        compile schema collection (some (2 * limit + 3)) (some f) := by
  obtain ⟨tokens, -, hderivation⟩ := parse_eq_ok h
  have hformed := hderivation.wellFormed
  have hlevels := hderivation.levels_le
  rw [Int.toNat_natCast] at hlevels
  refine ⟨hformed, hlevels, fun schema collection => ⟨fun fault hfault => ?_, ?_⟩⟩
  · have hfirst := List.mem_of_head? (compile_eq_error_iff.mp hfault)
    exact hformed.misfit_of_offences 0 fault hfirst
  · rw [compile_of_levels (by exact_mod_cast hlevels)]

/-- A negation, a conjunction in parentheses and a comparison. -/
def outsideRange : Filter :=
  .node .not [.node .and [.leaf "n" (.compare .gt) (.int 1), .leaf "title" .like (.str "x%")]]

/-- The tokens of `not (n > 1 and title like 'x%')`. -/
def outsideTokens : List Token :=
  [⟨.keyword .not, 0⟩, ⟨.symbol .openParen, 4⟩, ⟨.name "n", 5⟩, ⟨.symbol (.compare .gt), 7⟩,
    ⟨.number ['1'], 9⟩, ⟨.keyword .and, 11⟩, ⟨.name "title", 15⟩, ⟨.keyword .like, 21⟩,
    ⟨.quoted '\x27' ['x', '%'], 26⟩, ⟨.symbol .closeParen, 30⟩]

theorem shape_of_parse_outsideRange :
    parse 2 "not (n > 1 and title like 'x%')" = .ok (some outsideRange) ∧
      outsideRange.WellFormed ∧ outsideRange.levels ≤ 7 ∧
      compile titleSchema none none (some outsideRange) = .error (.unknownField "n" none) ∧
      Misfit titleSchema none (.unknownField "n" none) := by
  have htokens : tokenize "not (n > 1 and title like 'x%')" = .ok outsideTokens := by cbv
  have one : LiteralDerivation [⟨.number ['1'], 9⟩] (.int 1) := .unsigned 9 rfl
  have hleft := PredicateDerivation.compare "n" .gt 5 7 one
  have hright := PredicateDerivation.like "title" '\x27' ['x', '%'] 15 21 26
  have hand : isAnd (Token.lexeme ⟨.keyword .and, 11⟩) = true := rfl
  have hnot : isNot (Token.lexeme ⟨.keyword .not, 0⟩) = true := rfl
  have hboth : ConjunctionDerivation 0 _ _ :=
    .run (.predicate 0 hleft) (.one hand (.predicate 0 hright)) (.several _ _ [])
  have hunary := UnaryDerivation.negation hnot (.parentheses 4 30 hboth.disjunction)
  have hparse : parse (2 : ℕ) "not (n > 1 and title like 'x%')" = .ok (some outsideRange) :=
    parse_of_derivation htokens hunary.disjunction
  have hfault : compile titleSchema none none (some outsideRange) =
      .error (.unknownField "n" none) := rfl
  obtain ⟨hformed, hlevels, hcompile⟩ := shape_of_parse hparse
  exact ⟨hparse, hformed, hlevels, hfault, (hcompile titleSchema none).1 _ hfault⟩

end Filter

end ScalarStore
