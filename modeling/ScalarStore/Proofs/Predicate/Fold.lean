import ScalarStore.Proofs.Predicate.Offence
import ScalarStore.Proofs.Predicate.Tree

/-! # What folding decides

Some leaves have an answer before any row is read. A filter folds to a constant exactly if its
value is known when all other leaves are unknown, by the strong rules for three truth values, and
the constant is then the answer for every row. -/

namespace ScalarStore

/-! ## Truth values that may be unknown -/

namespace Kleene

def not (v : Option Bool) : Option Bool := v.map Bool.not

/-- A false part decides a conjunction, whatever is unknown of the other. -/
def and : Option Bool → Option Bool → Option Bool
  | some false, _ => some false
  | _, some false => some false
  | some true, some true => some true
  | _, _ => none

/-- A true part decides a disjunction. -/
def or : Option Bool → Option Bool → Option Bool
  | some true, _ => some true
  | _, some true => some true
  | some false, some false => some false
  | _, _ => none

def all (vs : List (Option Bool)) : Option Bool := vs.foldr and (some true)

def any (vs : List (Option Bool)) : Option Bool := vs.foldr or (some false)

/-- The order of the parts plays no role. -/
theorem all_eq (vs : List (Option Bool)) :
    all vs = if some false ∈ vs then some false else if none ∈ vs then none else some true := by
  induction vs with
  | nil => rfl
  | cons v vs ih =>
      have hcons : all (v :: vs) = and v (all vs) := rfl
      rw [hcons, ih]
      cases v with
      | none => by_cases hfalse : some false ∈ vs <;> by_cases hnone : none ∈ vs <;> simp [and, *]
      | some b =>
          cases b with
          | false => simp [and]
          | true =>
              by_cases hfalse : some false ∈ vs <;> by_cases hnone : none ∈ vs <;> simp [and, *]

theorem any_eq (vs : List (Option Bool)) :
    any vs = if some true ∈ vs then some true else if none ∈ vs then none else some false := by
  induction vs with
  | nil => rfl
  | cons v vs ih =>
      have hcons : any (v :: vs) = or v (any vs) := rfl
      rw [hcons, ih]
      cases v with
      | none => by_cases htrue : some true ∈ vs <;> by_cases hnone : none ∈ vs <;> simp [or, *]
      | some b =>
          cases b with
          | true => simp [or]
          | false =>
              by_cases htrue : some true ∈ vs <;> by_cases hnone : none ∈ vs <;> simp [or, *]

theorem all_singleton (v : Option Bool) : all [v] = v := by
  cases v with
  | none => rfl
  | some b => cases b <;> rfl

/-- What is known is so. -/
def Sound (v : Option Bool) (p : Prop) : Prop := ∀ b, v = some b → (b = true ↔ p)

section

variable {v w : Option Bool} {p q : Prop}

theorem Sound.not (h : Sound v p) : Sound (not v) ¬p := by
  intro b hb
  obtain ⟨c, rfl, rfl⟩ := Option.map_eq_some_iff.mp hb
  rw [← h c rfl]
  cases c <;> simp

theorem Sound.and (hv : Sound v p) (hw : Sound w q) : Sound (and v w) (p ∧ q) := by
  rcases v with _ | _ | _ <;> rcases w with _ | _ | _ <;> simp_all [Sound, Kleene.and]

theorem Sound.or (hv : Sound v p) (hw : Sound w q) : Sound (or v w) (p ∨ q) := by
  rcases v with _ | _ | _ <;> rcases w with _ | _ | _ <;> simp_all [Sound, Kleene.or]

end

end Kleene

/-! ## Known leaves -/

theorem Comparison.overRange?_whole (c : Comparison) (n low high : ℤ) :
    c.overRange? (.whole n) low high =
      if high < n then some c.belowNumber else if n < low then some c.aboveNumber else none := by
  simp [overRange?, Number.lt_whole]

/-- What is known of a leaf without a row: the outcome of a comparison with a number beyond the
range of an integer field, and of a membership in a list or a tuple without a comparable item. -/
def Field.known (f : Field) : Operator → Value → Option Bool
  | .compare c, literal => do
      let (low, high) ← f.type.integerBounds?
      c.overRange? (← literal.numeric?) low high
  | .isIn, literal => do if (← literal.sequence?).any f.type.fits then none else some false
  | .notIn, literal => do if (← literal.sequence?).any f.type.fits then none else some true
  | _, _ => none

/-- What is known of a leaf that names a field of a schema. -/
def Schema.known (schema : Schema) (name : String) (operator : Operator) (literal : Value) :
    Option Bool := do
  (← schema.field? name).known operator literal

theorem Schema.known_of_field? {schema : Schema} {name : String} {f : Field}
    (hf : schema.field? name = some f) (operator : Operator) (literal : Value) :
    schema.known name operator literal = f.known operator literal := by
  rw [known, hf]
  rfl

/-- What a leaf asks of the value that it reads. -/
def Field.test? (f : Field) : Operator → Value → Option Test
  | .compare c, literal => some (.compare c literal)
  | .like, .str pattern => some (Filter.likeTest pattern)
  | .isIn, literal => literal.sequence?.map fun items => .within (items.filter f.type.fits)
  | .notIn, literal => literal.sequence?.map fun items => .outside (items.filter f.type.fits)
  | _, _ => none

/-- What is known of a leaf is its meaning for every value of the field. -/
theorem Field.sound_known {f : Field} {v : Value} (hv : f.type.Admits v) (operator : Operator)
    (literal : Value) : Kleene.Sound (f.known operator literal) (operator.Holds v literal) := by
  -- No value of the field equals an item that is not comparable with it.
  have hnone {items : List Value} (hany : ¬items.any f.type.fits = true) :
      ∀ item ∈ items, ¬v.Relates .eq item := fun item hm hequal =>
    hany (List.any_eq_true.mpr ⟨item, hm, DataType.fits_of_relates hv hequal⟩)
  intro b hb
  cases operator with
  | compare c =>
      obtain ⟨⟨low, high⟩, hbounds, hb⟩ := Option.bind_eq_some_iff.mp hb
      obtain ⟨n, hn, hover⟩ := Option.bind_eq_some_iff.mp hb
      exact Comparison.overRange?_relates hv hbounds hn hover
  | isIn | notIn =>
      obtain ⟨items, hitems, hb⟩ := Option.bind_eq_some_iff.mp hb
      split at hb
      · cases hb
      · next hany =>
          cases hb
          simpa [Operator.Holds, hitems] using hnone hany
  | like | other => cases hb

/-- What is known of a leaf is its meaning for every row. A name of no field is unknown. -/
theorem Schema.Completes.sound_known {schema : Schema} {record : Record} {row : String → Value}
    (h : schema.Completes record row) (name : String) (operator : Operator) (literal : Value) :
    Kleene.Sound (schema.known name operator literal) (operator.Holds (row name) literal) := by
  intro b hb
  obtain ⟨f, hf, hleaf⟩ := Option.bind_eq_some_iff.mp hb
  obtain ⟨hmem, rfl⟩ := Schema.field?_eq_some_iff.mp hf
  exact Field.sound_known (h.admits f hmem) operator literal b hleaf

namespace Filter

mutual

/-- The value of a filter of whose leaves only some are known. A negation has one child. -/
def kleene (known : String → Operator → Value → Option Bool) : Filter → Option Bool
  | .leaf name operator literal => known name operator literal
  | .node .and children => Kleene.all (kleeneEach known children)
  | .node .or children => Kleene.any (kleeneEach known children)
  | .node .not children => Kleene.not (Kleene.all (kleeneEach known children))
  | .node (.other _ _) _ => none
  | .bare => none
  | .absent => none

def kleeneEach (known : String → Operator → Value → Option Bool) :
    List Filter → List (Option Bool)
  | [] => []
  | child :: rest => kleene known child :: kleeneEach known rest

end

variable {f : Field} {literal : Value} {p : Predicate}

theorem compileComparison_eq_ok {c : Comparison} (h : compileComparison f c literal = .ok p) :
    (∃ b, f.known (.compare c) literal = some b ∧ p = .constant b) ∨
      f.known (.compare c) literal = none ∧ p = ask f (.compare c literal) := by
  unfold compileComparison at h
  split at h
  · unfold misfitLiteral at h
    split at h <;> cases h
  · next hfits =>
      have hfits : f.type.fits literal = true := by simpa using hfits
      split at h
      · cases h
      · cases hbounds : f.type.integerBounds? with
        | none =>
            simp only [hbounds, Except.ok.injEq] at h
            exact .inr ⟨by simp [Field.known, hbounds], h.symm⟩
        | some bounds =>
            obtain ⟨low, high⟩ := bounds
            have hnumeric := DataType.isNumeric_of_integerBounds hbounds
            obtain ⟨n, hn⟩ := (DataType.fits_numeric_iff hnumeric literal).mp hfits
            have hknown : f.known (.compare c) literal = c.overRange? n low high := by
              simp [Field.known, hbounds, hn]
            simp only [hbounds, Value.number?_of_numeric? hn] at h
            cases hover : c.overRange? n low high with
            | none =>
                simp only [hover, Except.ok.injEq] at h
                exact .inr ⟨hknown.trans hover, h.symm⟩
            | some b =>
                simp only [hover, Except.ok.injEq] at h
                exact .inl ⟨b, hknown.trans hover, h.symm⟩

/-- A leaf that compiles is what is known of it, or else a test of its field. -/
theorem compileLeaf_eq_ok {operator : Operator} (h : compileLeaf f operator literal = .ok p) :
    (∃ b, f.known operator literal = some b ∧ p = .constant b) ∨
      ∃ t, f.known operator literal = none ∧ f.test? operator literal = some t ∧ p = ask f t := by
  cases operator with
  | compare c => exact (compileComparison_eq_ok h).imp_right fun ht => ⟨_, ht.1, rfl, ht.2⟩
  | like =>
      simp only [compileLeaf, compileLike] at h
      split at h
      · cases h
      · split at h
        · exact .inr ⟨_, rfl, rfl, (Except.ok.inj h).symm⟩
        · cases h
  | isIn | notIn =>
      obtain ⟨items, hitems, ⟨hnone, rfl⟩ | ⟨hsome, rfl⟩⟩ := compileMembership_eq_ok h
      · refine .inl ⟨_, ?_, rfl⟩
        simpa [Field.known, hitems] using List.filter_eq_nil_iff.mp hnone
      · refine .inr ⟨_, ?_, by rw [Field.test?, hitems]; rfl, rfl⟩
        simpa [Field.known, hitems] using hsome
  | other symbol unknown => cases h

theorem constant?_compileLeaf {operator : Operator}
    (h : compileLeaf f operator literal = .ok p) : p.constant? = f.known operator literal := by
  rcases compileLeaf_eq_ok h with ⟨b, hb, rfl⟩ | ⟨t, hnone, -, rfl⟩
  · exact hb.symm
  · exact hnone.symm

end Filter

/-! ## Known connectives -/

namespace Predicate

theorem constant?_eq_some_iff {p : Predicate} {b : Bool} :
    p.constant? = some b ↔ p = .constant b := by
  cases p <;> simp [constant?]

theorem constant?_negate (p : Predicate) : p.negate.constant? = Kleene.not p.constant? := by
  cases p <;> rfl

variable (ps : List Predicate)

theorem any_constant?_iff (b : Bool) :
    ps.any (·.constant? == some b) = true ↔ some b ∈ ps.map constant? := by
  simp

/-- A predicate is live exactly if nothing is known of it. -/
theorem none_mem_constants_iff : none ∈ ps.map constant? ↔ ps.filterMap live? ≠ [] := by
  rw [ne_eq, List.filterMap_eq_nil_iff, not_forall, List.mem_map]
  refine exists_congr fun p => ?_
  cases p <;> simp [live?, constant?]

theorem constant?_all : (all ps).constant? = Kleene.all (ps.map constant?) := by
  rw [Kleene.all_eq, all]
  simp only [any_constant?_iff, none_mem_constants_iff]
  split
  · rfl
  · split
    · next hnil => simp [hnil, constant?]
    · next hone => simp [hone, constant?]
    · next hnil _ => rw [if_pos hnil]; rfl

theorem constant?_any : (any ps).constant? = Kleene.any (ps.map constant?) := by
  rw [Kleene.any_eq, any]
  simp only [any_constant?_iff, none_mem_constants_iff]
  split
  · rfl
  · split
    · next hnil => simp [hnil, constant?]
    · next hone => simp [hone, constant?]
    · next hnil _ => rw [if_pos hnil]; rfl

end Predicate

namespace Filter

theorem constant?_connect {known : String → Operator → Value → Option Bool}
    {connective : Connective} {ps : List Predicate} {children : List Filter} {p : Predicate}
    (h : connect connective ps = .ok p)
    (hps : ps.map Predicate.constant? = kleeneEach known children) :
    p.constant? = kleene known (.node connective children) := by
  cases connective with
  | and => cases h; rw [Predicate.constant?_all, hps, kleene]
  | or => cases h; rw [Predicate.constant?_any, hps, kleene]
  | other symbol unknown => cases h
  | not =>
      cases ps with
      | nil => cases h
      | cons q rest =>
          cases rest with
          | cons => cases h
          | nil =>
              cases h
              rw [kleene, ← hps, Predicate.constant?_negate, List.map_singleton,
                Kleene.all_singleton]

/-! ## Trees -/

variable {schema : Schema} {collection : Option String} {limit : Option ℤ} {literal : Value}
  {p : Predicate}

theorem compileAt_leaf_eq_ok {depth : ℕ} {name : String} {operator : Operator}
    (h : compileAt schema collection limit depth (.leaf name operator literal) = .ok p) :
    ∃ f, schema.field? name = some f ∧ compileLeaf f operator literal = .ok p := by
  rw [compileAt, Schema.field] at h
  cases hf : schema.field? name with
  | none => simp [hf] at h
  | some f => exact ⟨f, rfl, by simpa [hf] using h⟩

theorem compileAt_node_eq_ok {depth : ℕ} {connective : Connective} {children : List Filter}
    (h : compileAt schema collection limit depth (.node connective children) = .ok p) :
    ∃ ps, compileAll schema collection limit (depth + 1) children = .ok ps ∧
      connect connective ps = .ok p := by
  rw [compileAt] at h
  split at h
  · cases h
  · split at h
    · cases h
    · next ps hps => exact ⟨ps, hps, h⟩

theorem compileAll_cons_eq_ok {depth : ℕ} {child : Filter} {rest : List Filter}
    {ps : List Predicate}
    (h : compileAll schema collection limit depth (child :: rest) = .ok ps) :
    ∃ q others, compileAt schema collection limit depth child = .ok q ∧
      compileAll schema collection limit depth rest = .ok others ∧ ps = q :: others := by
  rw [compileAll] at h
  split at h
  · cases h
  · next q hq =>
      obtain ⟨others, hothers, rfl⟩ := map_eq_ok_iff.mp h
      exact ⟨q, others, hq, hothers, rfl⟩

mutual

theorem constant?_compileAt (depth : ℕ) : (filter : Filter) → {p : Predicate} →
    compileAt schema collection limit depth filter = .ok p →
      p.constant? = filter.kleene schema.known
  | .leaf name operator literal, p, h => by
      obtain ⟨f, hf, hc⟩ := compileAt_leaf_eq_ok h
      rw [constant?_compileLeaf hc, kleene, Schema.known_of_field? hf]
  | .node connective children, p, h => by
      obtain ⟨ps, hps, hc⟩ := compileAt_node_eq_ok h
      exact constant?_connect hc (constants_compileAll (depth + 1) children hps)
  | .bare, _, h => nomatch h
  | .absent, _, h => nomatch h

theorem constants_compileAll (depth : ℕ) : (children : List Filter) → {ps : List Predicate} →
    compileAll schema collection limit depth children = .ok ps →
      ps.map Predicate.constant? = kleeneEach schema.known children
  | [], ps, h => by
      cases h
      rfl
  | child :: rest, ps, h => by
      obtain ⟨q, others, hq, hothers, rfl⟩ := compileAll_cons_eq_ok h
      rw [List.map_cons, kleeneEach, constant?_compileAt depth child hq,
        constants_compileAll depth rest hothers]

end

/-! ## Known values are meanings -/

section

variable {known : String → Operator → Value → Option Bool}
  {meaning : String → Operator → Value → Prop}

mutual

/-- What is known of a filter from leaves of which what is known is so. -/
theorem sound_kleene (hknown : ∀ name operator literal,
    Kleene.Sound (known name operator literal) (meaning name operator literal)) :
    (filter : Filter) → Kleene.Sound (filter.kleene known) (HoldsBy meaning filter)
  | .leaf name operator literal => hknown name operator literal
  | .node .and children => (sound_kleeneEach hknown children).1
  | .node .or children => (sound_kleeneEach hknown children).2
  | .node .not children => (sound_kleeneEach hknown children).1.not
  | .node (.other _ _) _ => nofun
  | .bare => nofun
  | .absent => nofun

theorem sound_kleeneEach (hknown : ∀ name operator literal,
    Kleene.Sound (known name operator literal) (meaning name operator literal)) :
    (children : List Filter) → Kleene.Sound (Kleene.all (kleeneEach known children))
        (AllHoldBy meaning children) ∧
      Kleene.Sound (Kleene.any (kleeneEach known children)) (AnyHoldsBy meaning children)
  | [] => by simp [Kleene.Sound, Kleene.all, Kleene.any, kleeneEach, AllHoldBy, AnyHoldsBy]
  | child :: rest => by
      have hchild := sound_kleene hknown child
      obtain ⟨hall, hany⟩ := sound_kleeneEach hknown rest
      exact ⟨hchild.and hall, hchild.or hany⟩

end

end

/-- A predicate is constant exactly if the filter has a value when all is unknown but the leaves
that the schema decides. That value is the answer for every record of checked rows, and the
meaning of the filter on it. -/
theorem constant_of_compile {filter : Filter} {p : Predicate}
    (h : compile schema collection limit (some filter) = .ok p) :
    p.constant? = filter.kleene schema.known ∧
    ∀ b, filter.kleene schema.known = some b →
      ∀ defaultLength rows records record,
        schema.records defaultLength rows = .ok records → record ∈ records →
        p.test record = .ok b ∧
          ∀ row, schema.Completes record row → (b = true ↔ Holds row filter) := by
  have hconstant : p.constant? = filter.kleene schema.known := constant?_compileAt 0 filter h
  refine ⟨hconstant, fun b hb defaultLength rows records record hr hm => ?_⟩
  obtain rfl := Predicate.constant?_eq_some_iff.mp (hconstant.trans hb)
  exact ⟨rfl, fun row hrow => sound_kleene hrow.sound_known filter b hb⟩

def starsField : Field :=
  ⟨"stars", .int8, false, none, .null, by decide,
    (Keyword.ofWord?_eq_none_iff _).mpr (by decide), fun h => absurd h Bool.false_ne_true,
    fun h => absurd rfl h, positive_of_none⟩

/-- A schema of a key and a small number. -/
def starsSchema : Schema :=
  ⟨[titleSchema.primary, starsField], .null, nodup_pair (by decide), rfl⟩

/-- No number of stars is among texts and all are at most 200, so the key plays no role. -/
def overrated : Filter :=
  .node .and [.leaf "id" (.compare .eq) (.str "a"),
    .node .not [.node .or [.leaf "stars" .isIn (.list [.str "x", .bool true]),
      .leaf "stars" (.compare .le) (.int 200)]]]

theorem kleene_overrated : overrated.kleene starsSchema.known = some false := by
  have hfield : starsSchema.field? "stars" = some starsField := rfl
  have hmost : starsSchema.known "stars" (.compare .le) (.int 200) = some true := by
    simp [Schema.known, hfield, Field.known, starsField, DataType.integerBounds?, Value.numeric?,
      Comparison.overRange?_whole, Comparison.belowNumber]
  have hnone : starsSchema.known "stars" .isIn (.list [.str "x", .bool true]) = some false := rfl
  have hkey : starsSchema.known "id" (.compare .eq) (.str "a") = none := rfl
  simp only [overrated, kleene, kleeneEach, hmost, hnone, hkey]
  rfl

theorem constant_of_compile_overrated :
    ∃ p, compile starsSchema none (some 3) (some overrated) = .ok p ∧
      p.constant? = some false ∧
      starsSchema.records none [.map [(.str "id", .str "a"), (.str "stars", .int 2)]] =
        .ok [[("id", .str "a"), ("stars", .int 2)]] ∧
      p.test [("id", .str "a"), ("stars", .int 2)] = .ok false := by
  have hallows : Allows (some 3) 0 overrated.levels := by
    rintro _ ⟨⟩
    exact .inr (by decide)
  obtain ⟨p, hc⟩ := compile_eq_ok_iff.mpr
    ⟨(by decide : overrated.Legal starsSchema), hallows⟩
  have hr : starsSchema.records none [.map [(.str "id", .str "a"), (.str "stars", .int 2)]] =
      .ok [[("id", .str "a"), ("stars", .int 2)]] := rfl
  obtain ⟨hconstant, hknown⟩ := constant_of_compile hc
  exact ⟨p, hc, hconstant.trans kleene_overrated, hr,
    (hknown false kleene_overrated none _ _ _ hr (List.mem_singleton_self _)).1⟩

end Filter

end ScalarStore
