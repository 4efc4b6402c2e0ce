import ScalarStore.Proofs.Outcome
import ScalarStore.Proofs.Predicate.Leaf

/-! # What compilation refuses

A filter compiles exactly if its leaves fit the schema, its connectives have the children they
need and it is not nested too deeply. Nothing that folding would decide is left unchecked. The
offences of a filter stand in the order in which they are looked for, and the first one is the
fault. -/

namespace ScalarStore

theorem Schema.field?_eq_some_iff {schema : Schema} {name : String} {f : Field} :
    schema.field? name = some f ↔ f ∈ schema.fields ∧ f.name = name := by
  constructor
  · intro h
    exact ⟨List.mem_of_find?_eq_some h, by simpa using List.find?_some h⟩
  · rintro ⟨hf, rfl⟩
    cases h : schema.fields.find? (·.name == f.name) with
    | none => exact absurd (List.find?_eq_none.mp h f hf) (by simp)
    | some g =>
        have hname : g.name = f.name := by simpa using List.find?_some h
        rw [Schema.field?, h, List.inj_on_of_nodup_map schema.distinct
          (List.mem_of_find?_eq_some h) hf hname]

theorem Schema.field?_eq_none_iff {schema : Schema} {name : String} :
    schema.field? name = none ↔ name ∉ schema.fieldNames := by
  simp [field?, fieldNames]

/-! ## Leaves -/

theorem Value.exists_sequence?_iff {v : Value} :
    (∃ items, v.sequence? = some items) ↔ v.kind = .list ∨ v.kind = .tuple := by
  cases v <;> simp [sequence?, kind]

/-- The literals that an operator takes on fields of a type. -/
def Operator.Suits (type : DataType) (literal : Value) : Operator → Prop
  | .compare c =>
      type.isNumeric = true ∧ (literal.kind = .int ∨ literal.kind = .float) ∨
        type = .varchar ∧ literal.kind = .str ∨
        type = .bool ∧ literal.kind = .bool ∧ (c = .eq ∨ c = .ne)
  | .like => type = .varchar ∧ literal.kind = .str
  | .isIn => literal.kind = .list ∨ literal.kind = .tuple
  | .notIn => literal.kind = .list ∨ literal.kind = .tuple
  | .other _ _ => False

instance (type : DataType) (literal : Value) (operator : Operator) :
    Decidable (operator.Suits type literal) :=
  match operator with
  | .compare _ => inferInstanceAs (Decidable (_ ∨ _ ∨ _))
  | .like => inferInstanceAs (Decidable (_ ∧ _))
  | .isIn | .notIn => inferInstanceAs (Decidable (_ ∨ _))
  | .other _ _ => inferInstanceAs (Decidable False)

/-- What is said of a literal that an operator does not take on a field. -/
def Field.objection (f : Field) (literal : Value) : Operator → Fault
  | .compare c =>
      if f.type.fits literal then .fieldType f.name f.type (.unordered c)
      else if literal.hasLongInteger Text.digitLimit then .value .integerUnwritable
      else .fieldType f.name f.type (.literal literal)
  | .like => .fieldType f.name f.type (if f.type = .varchar then .likePattern else .likeField)
  | .isIn => .fieldType f.name f.type (.membershipValues .isIn)
  | .notIn => .fieldType f.name f.type (.membershipValues .notIn)
  | .other symbol _ => .fieldType f.name f.type (.unknownOperator symbol)

namespace Filter

/-- The objection to a leaf on a field, if there is one. -/
def leafOffences (f : Field) (operator : Operator) (literal : Value) : List Fault :=
  if operator.Suits f.type literal then [] else [f.objection literal operator]

theorem suits_compare_iff (type : DataType) (c : Comparison) (literal : Value) :
    (Operator.compare c).Suits type literal ↔
      type.fits literal = true ∧ (type = .bool → c = .eq ∨ c = .ne) := by
  rcases type.bool_or_varchar_or_numeric with rfl | rfl | hnumeric
  · simp [Operator.Suits, DataType.fits, DataType.isNumeric, DataType.isInteger,
      DataType.integerBounds?]
  · simp [Operator.Suits, DataType.fits, DataType.isNumeric, DataType.isInteger,
      DataType.integerBounds?]
  · have hbool : type ≠ .bool := by rintro rfl; exact absurd hnumeric (by decide)
    have htext : type ≠ .varchar := by rintro rfl; exact absurd hnumeric (by decide)
    simp [Operator.Suits, DataType.fits, hnumeric, hbool, htext]

variable (f : Field) (literal : Value)

theorem fault?_compileComparison (c : Comparison) :
    fault? (compileComparison f c literal) = (leafOffences f (.compare c) literal).head? := by
  have hsuits := suits_compare_iff f.type c literal
  unfold compileComparison leafOffences
  split
  · next hfits =>
      have hfits : f.type.fits literal = false := by simpa using hfits
      rw [if_neg (by simp [hsuits, hfits])]
      unfold misfitLiteral
      split <;> simp_all [Field.objection, misfit, fault?]
  · next hfits =>
      have hfits : f.type.fits literal = true := by simpa using hfits
      split
      · next hflag =>
          rw [if_neg fun hs => (hsuits.mp hs).2 hflag.1 |>.elim hflag.2.1 hflag.2.2]
          simp [Field.objection, hfits, misfit, fault?]
      · next hflag =>
          have hsuited : (Operator.compare c).Suits f.type literal := by
            rw [hsuits]
            refine ⟨hfits, fun htype => ?_⟩
            by_contra hne
            rw [not_or] at hne
            exact hflag ⟨htype, hne⟩
          rw [if_pos hsuited]
          repeat' split
          all_goals rfl

theorem fault?_compileLike :
    fault? (compileLike f literal) = (leafOffences f .like literal).head? := by
  unfold compileLike leafOffences
  split
  · next htype => simp [Operator.Suits, Field.objection, htype, misfit, fault?]
  · next htype =>
      rw [Classical.not_not] at htype
      cases literal <;>
        simp [Operator.Suits, Field.objection, htype, misfit, fault?, Value.kind]

theorem fault?_compileMembership {operator : Operator} (ho : operator = .isIn ∨ operator = .notIn) :
    fault? (compileMembership f operator literal) = (leafOffences f operator literal).head? := by
  have hsuits : operator.Suits f.type literal ↔ ∃ items, literal.sequence? = some items := by
    rw [Value.exists_sequence?_iff]
    rcases ho with rfl | rfl <;> rfl
  have hobjection : f.objection literal operator =
      .fieldType f.name f.type (.membershipValues operator) := by
    rcases ho with rfl | rfl <;> rfl
  unfold compileMembership leafOffences
  split
  · next values hvalues =>
      rw [if_pos (hsuits.mpr ⟨values, hvalues⟩)]
      dsimp only
      split <;> rfl
  · next hnone =>
      rw [if_neg (hsuits.not.mpr (by simp [hnone])), hobjection]
      rfl

theorem fault?_compileLeaf (operator : Operator) :
    fault? (compileLeaf f operator literal) = (leafOffences f operator literal).head? := by
  cases operator with
  | compare c => exact fault?_compileComparison f literal c
  | like => exact fault?_compileLike f literal
  | isIn => exact fault?_compileMembership f literal (.inl rfl)
  | notIn => exact fault?_compileMembership f literal (.inr rfl)
  | other symbol unknown => rfl

/-! ## Connectives and depth -/

/-- The objection to a connective with some number of children. -/
def connectiveOffences (count : ℕ) : Connective → List Fault
  | .and => []
  | .or => []
  | .not => if count = 1 then [] else [.value .negationArity]
  | .other symbol _ => [.value (.unknownConnective symbol)]

/-- The objection to a connective under too many others. -/
def depthOffences (limit : Option ℤ) (depth : ℕ) : List Fault :=
  match limit with
  | none => []
  | some n => if n ≤ depth then [.parameter (.filterTooDeep n)] else []

/-- Under `depth` connectives a limit allows so many more above one another. -/
def Allows (limit : Option ℤ) (depth levels : ℕ) : Prop :=
  ∀ n ∈ limit, levels = 0 ∨ (levels + depth : ℕ) ≤ n

mutual

/-- The most connectives above one another. -/
def levels : Filter → ℕ
  | .leaf _ _ _ => 0
  | .node _ children => levelsOf children + 1
  | .bare => 0
  | .absent => 0

def levelsOf : List Filter → ℕ
  | [] => 0
  | child :: rest => max (levels child) (levelsOf rest)

end

/-- Every leaf is one of the schema, every connective is known and has the children it needs. -/
inductive Legal (schema : Schema) : Filter → Prop where
  | leaf {f operator literal} (hf : f ∈ schema.fields) (h : operator.Suits f.type literal) :
      Legal schema (.leaf f.name operator literal)
  | all {children} (h : ∀ child ∈ children, Legal schema child) :
      Legal schema (.node .and children)
  | any {children} (h : ∀ child ∈ children, Legal schema child) :
      Legal schema (.node .or children)
  | not {child} (h : Legal schema child) : Legal schema (.node .not [child])

section

variable (schema : Schema) (collection : Option String) (limit : Option ℤ)

mutual

/-- All offences of a filter under some connectives: of a connective its depth, what is wrong
below it from left to right, and then its symbol and the number of its children. -/
def offences (depth : ℕ) : Filter → List Fault
  | .leaf name operator literal =>
      match schema.field? name with
      | none => [.unknownField name collection]
      | some f => leafOffences f operator literal
  | .node connective children =>
      depthOffences limit depth ++ offencesOf (depth + 1) children ++
        connectiveOffences children.length connective
  | .bare => [.kind (.unsupportedFilter .bare)]
  | .absent => [.kind (.unsupportedFilter .absent)]

def offencesOf (depth : ℕ) : List Filter → List Fault
  | [] => []
  | child :: rest => offences depth child ++ offencesOf depth rest

end

end

variable {schema : Schema} {collection : Option String} {limit : Option ℤ}

theorem mem_offencesOf_iff {depth : ℕ} {children : List Filter} {fault : Fault} :
    fault ∈ offencesOf schema collection limit depth children ↔
      ∃ child ∈ children, fault ∈ offences schema collection limit depth child := by
  induction children with
  | nil => simp [offencesOf]
  | cons child rest ih => simp [offencesOf, ih]

/-- What holds of the offences of a connective and of those below it. -/
theorem forall_offences_node {P : Fault → Prop} {depth : ℕ} {connective : Connective}
    {children : List Filter} (hdepth : ∀ fault ∈ depthOffences limit depth, P fault)
    (hchildren : ∀ child ∈ children,
      ∀ fault ∈ offences schema collection limit (depth + 1) child, P fault)
    (hconnective : ∀ fault ∈ connectiveOffences children.length connective, P fault) :
    ∀ fault ∈ offences schema collection limit depth (.node connective children), P fault := by
  intro fault hfault
  rw [offences, List.append_assoc, List.mem_append, List.mem_append] at hfault
  rcases hfault with hfault | hfault | hfault
  · exact hdepth fault hfault
  · obtain ⟨child, hchild, hfault⟩ := mem_offencesOf_iff.mp hfault
    exact hchildren child hchild fault hfault
  · exact hconnective fault hfault

/-! ## The first offence is the fault -/

theorem depthOffences_head? (depth : ℕ) :
    (depthOffences limit depth).head? =
      if limit.any (· ≤ (depth : ℤ)) then some (.parameter (.filterTooDeep (limit.getD 0)))
      else none := by
  cases limit with
  | none => rfl
  | some n => by_cases h : n ≤ depth <;> simp [depthOffences, h]

theorem length_of_compileAll {depth : ℕ} : ∀ {children : List Filter} {ps : List Predicate},
    compileAll schema collection limit depth children = .ok ps → ps.length = children.length
  | [], _, h => by
      cases h
      rfl
  | child :: rest, ps, h => by
      simp only [compileAll] at h
      split at h
      · cases h
      · obtain ⟨others, hothers, rfl⟩ := map_eq_ok_iff.mp h
        rw [List.length_cons, List.length_cons, length_of_compileAll hothers]

theorem fault?_connect (connective : Connective) (ps : List Predicate) :
    fault? (connect connective ps) = (connectiveOffences ps.length connective).head? := by
  cases connective with
  | and => rfl
  | or => rfl
  | other symbol unknown => rfl
  | not =>
      match ps with
      | [] => rfl
      | [p] => rfl
      | p :: q :: ps => simp [connect, connectiveOffences, fault?]

mutual

theorem fault?_compileAt (depth : ℕ) : (filter : Filter) →
    fault? (compileAt schema collection limit depth filter) =
      (offences schema collection limit depth filter).head?
  | .leaf name operator literal => by
      rw [compileAt, offences, Schema.field]
      cases schema.field? name with
      | none => rfl
      | some f => exact fault?_compileLeaf f literal operator
  | .node connective children => by
      have hchildren := fault?_compileAll (depth + 1) children
      rw [compileAt, offences, List.append_assoc, List.head?_append, depthOffences_head?]
      split
      · rfl
      · rw [Option.none_or, List.head?_append, ← hchildren]
        split
        · next hps =>
            rw [hps]
            rfl
        · next ps hps =>
            rw [hps, fault?_connect, length_of_compileAll hps]
            rfl
  | .bare => rfl
  | .absent => rfl

theorem fault?_compileAll (depth : ℕ) : (children : List Filter) →
    fault? (compileAll schema collection limit depth children) =
      (offencesOf schema collection limit depth children).head?
  | [] => rfl
  | child :: rest => by
      have hchild := fault?_compileAt depth child
      have hrest := fault?_compileAll depth rest
      rw [compileAll, offencesOf, List.head?_append, ← hchild, ← hrest]
      cases compileAt schema collection limit depth child with
      | error fault => rfl
      | ok p => exact fault?_map _ _

end

/-! ## Without offences a filter is legal and shallow -/

theorem legal_leaf_iff {name : String} {operator : Operator} {literal : Value} :
    Legal schema (.leaf name operator literal) ↔
      ∃ f, schema.field? name = some f ∧ operator.Suits f.type literal := by
  constructor
  · intro h
    cases h with
    | leaf hf h => exact ⟨_, Schema.field?_eq_some_iff.mpr ⟨hf, rfl⟩, h⟩
  · rintro ⟨f, hf, h⟩
    obtain ⟨hmem, rfl⟩ := Schema.field?_eq_some_iff.mp hf
    exact .leaf hmem h

theorem legal_node_iff {connective : Connective} {children : List Filter} :
    Legal schema (.node connective children) ↔
      (∀ child ∈ children, Legal schema child) ∧
        connectiveOffences children.length connective = [] := by
  constructor
  · intro h
    cases h with
    | all h => exact ⟨h, rfl⟩
    | any h => exact ⟨h, rfl⟩
    | not h => exact ⟨List.forall_mem_singleton.mpr h, rfl⟩
  · rintro ⟨h, hconnective⟩
    cases connective with
    | and => exact .all h
    | or => exact .any h
    | other symbol unknown => cases hconnective
    | not =>
        have hcount : children.length = 1 := by
          by_contra hcount
          simp [connectiveOffences, hcount] at hconnective
        obtain ⟨child, rfl⟩ := List.length_eq_one_iff.mp hcount
        exact .not (h child (List.mem_singleton_self child))

theorem depthOffences_eq_nil_iff (depth : ℕ) :
    depthOffences limit depth = [] ↔ ¬ limit.any (· ≤ (depth : ℤ)) = true := by
  cases limit <;> simp [depthOffences]

theorem allows_none (depth levels : ℕ) : Allows none depth levels := nofun

@[simp]
theorem allows_zero (depth : ℕ) : Allows limit depth 0 := fun _ _ => .inl rfl

theorem allows_max_iff {depth m n : ℕ} :
    Allows limit depth (max m n) ↔ Allows limit depth m ∧ Allows limit depth n := by
  cases limit with
  | none => simp [Allows]
  | some bound =>
      simp only [Allows, Option.mem_some_iff, forall_eq']
      omega

theorem allows_succ_iff {depth m : ℕ} :
    Allows limit depth (m + 1) ↔ depthOffences limit depth = [] ∧ Allows limit (depth + 1) m := by
  cases limit with
  | none => simp [Allows, depthOffences]
  | some bound =>
      simp only [Allows, Option.mem_some_iff, forall_eq', depthOffences_eq_nil_iff,
        Option.any_some, decide_eq_true_eq]
      omega

mutual

theorem offences_eq_nil_iff (depth : ℕ) : (filter : Filter) →
    (offences schema collection limit depth filter = [] ↔
      filter.Legal schema ∧ Allows limit depth filter.levels)
  | .leaf name operator literal => by
      rw [offences, legal_leaf_iff, levels]
      cases schema.field? name with
      | none => simp
      | some f => simp [leafOffences]
  | .node connective children => by
      rw [offences, legal_node_iff, levels, allows_succ_iff, List.append_eq_nil_iff,
        List.append_eq_nil_iff, offencesOf_eq_nil_iff (depth + 1) children]
      tauto
  | .bare => iff_of_false (List.cons_ne_nil _ _) nofun
  | .absent => iff_of_false (List.cons_ne_nil _ _) nofun

theorem offencesOf_eq_nil_iff (depth : ℕ) : (children : List Filter) →
    (offencesOf schema collection limit depth children = [] ↔
      (∀ child ∈ children, child.Legal schema) ∧ Allows limit depth (levelsOf children))
  | [] => by simp [offencesOf, levelsOf]
  | child :: rest => by
      rw [offencesOf, levelsOf, allows_max_iff, List.append_eq_nil_iff, List.forall_mem_cons,
        offences_eq_nil_iff depth child, offencesOf_eq_nil_iff depth rest]
      tauto

end

instance (schema : Schema) (filter : Filter) : Decidable (filter.Legal schema) :=
  decidable_of_iff (filter.offences schema none none 0 = [])
    ((offences_eq_nil_iff 0 filter).trans (and_iff_left nofun))

theorem mem_depthOffences {depth : ℕ} {fault : Fault} (h : fault ∈ depthOffences limit depth) :
    ∃ n ∈ limit, fault = .parameter (.filterTooDeep n) := by
  unfold depthOffences at h
  split at h
  · cases h
  · next n =>
      split at h
      · exact ⟨n, rfl, List.mem_singleton.mp h⟩
      · cases h

/-- A leaf offends by what its field does not take, or by a literal too long to be told. -/
theorem mem_leafOffences {f : Field} {operator : Operator} {literal : Value} {fault : Fault}
    (h : fault ∈ leafOffences f operator literal) :
    (∃ reason, fault = .fieldType f.name f.type reason) ∨ fault = .value .integerUnwritable := by
  unfold leafOffences at h
  split at h
  · cases h
  · rw [List.mem_singleton.mp h]
    cases operator with
    | compare c =>
        rw [Field.objection]
        split
        · exact .inl ⟨_, rfl⟩
        · split
          · exact .inr rfl
          · exact .inl ⟨_, rfl⟩
    | like | isIn | notIn | other => exact .inl ⟨_, rfl⟩

theorem mem_connectiveOffences {count : ℕ} {connective : Connective} {fault : Fault}
    (h : fault ∈ connectiveOffences count connective) : ∃ reason, fault = .value reason := by
  cases connective with
  | and | or => cases h
  | other symbol unknown => exact ⟨_, List.mem_singleton.mp h⟩
  | not =>
      rw [connectiveOffences] at h
      split at h
      · cases h
      · exact ⟨_, List.mem_singleton.mp h⟩

/-- A legal filter offends by its depth alone. -/
theorem Legal.tooDeep_of_offences {filter : Filter} (h : filter.Legal schema) (depth : ℕ) :
    ∀ fault ∈ offences schema collection limit depth filter,
      ∃ n ∈ limit, fault = .parameter (.filterTooDeep n) := by
  induction h generalizing depth with
  | leaf hf h =>
      rw [offences, Schema.field?_eq_some_iff.mpr ⟨hf, rfl⟩]
      simp [leafOffences, h]
  | all h ih | any h ih =>
      exact forall_offences_node (fun _ => mem_depthOffences) (fun child hc => ih child hc _)
        (List.forall_mem_nil _)
  | not h ih =>
      exact forall_offences_node (fun _ => mem_depthOffences)
        (List.forall_mem_singleton.mpr (ih _)) (List.forall_mem_nil _)

/-! ## When a filter compiles -/

theorem compile_eq_error_iff {filter : Filter} {fault : Fault} :
    compile schema collection limit (some filter) = .error fault ↔
      (filter.offences schema collection limit 0).head? = some fault := by
  rw [compile, ← fault?_eq_some_iff, fault?_compileAt]

theorem compile_eq_ok_iff {filter : Filter} :
    (∃ p, compile schema collection limit (some filter) = .ok p) ↔
      filter.Legal schema ∧ Allows limit 0 filter.levels := by
  rw [compile, ← fault?_eq_none_iff, fault?_compileAt, List.head?_eq_none_iff,
    offences_eq_nil_iff]

/-- A filter compiles exactly if it is legal and no path in it passes more connectives than
allowed; a fault is always its first offence. -/
theorem compile_iff_legal (schema : Schema) (collection : Option String) (limit : Option ℕ)
    (filter : Filter) :
    ((∃ p, compile schema collection (limit.map Nat.cast) (some filter) = .ok p) ↔
      filter.Legal schema ∧ ∀ n ∈ limit, filter.levels ≤ n) ∧
    ∀ fault, compile schema collection (limit.map Nat.cast) (some filter) = .error fault ↔
      (filter.offences schema collection (limit.map Nat.cast) 0).head? = some fault := by
  refine ⟨?_, fun fault => compile_eq_error_iff⟩
  have hallows : Allows (limit.map Nat.cast) 0 filter.levels ↔ ∀ n ∈ limit, filter.levels ≤ n := by
    cases limit with
    | none => simp [Allows]
    | some n =>
        simp only [Allows, Option.map_some, Option.mem_some_iff, forall_eq']
        omega
  rw [compile_eq_ok_iff, hallows]

/-- A leaf that asks for one of two titles, which a tuple holds. -/
def titledByPair : Filter := .leaf "title" .isIn (.tuple [.str "x", .str "y"])

/-- A tuple is taken for a list. No filter at all is taken, too, but refused as a child, although
it is no bare expression. -/
theorem compile_titledByPair :
    (∀ items, titledByPair ≠ .leaf "title" .isIn (.list items)) ∧
      (∃ p, compile titleSchema none (some 1) (some titledByPair) = .ok p ∧
        p.test [("id", .str "a"), ("title", .str "y")] = .ok true) ∧
      compile titleSchema none (some 1) none = .ok (.constant true) ∧
      compile titleSchema none (some 1) (some (.node .and [.absent])) =
        .error (.kind (.unsupportedFilter .absent)) :=
  ⟨nofun, ⟨_, rfl, rfl⟩, rfl, rfl⟩

/-- The first child is always true, yet the second one is checked, after the depth. -/
example : offences titleSchema none (some 0) 0
    (.node .or [.leaf "id" .notIn (.list []), .leaf "title" .like (.int 1)]) =
      [.parameter (.filterTooDeep 0), .fieldType "title" .varchar .likePattern] := rfl

/-! ## Limits that are not met -/

mutual

/-- The limit and the connectives above play no part in a filter that the limit allows. -/
theorem compileAt_of_allows {other : Option ℤ} {depth place : ℕ} : (filter : Filter) →
    Allows limit depth filter.levels → Allows other place filter.levels →
      compileAt schema collection limit depth filter =
        compileAt schema collection other place filter
  | .leaf _ _ _, _, _ => by rw [compileAt, compileAt]
  | .node connective children, h, h' => by
      rw [levels, allows_succ_iff, depthOffences_eq_nil_iff] at h h'
      rw [compileAt, compileAt, if_neg h.1, if_neg h'.1, compileAll_of_allows children h.2 h'.2]
  | .bare, _, _ => rfl
  | .absent, _, _ => rfl

theorem compileAll_of_allows {other : Option ℤ} {depth place : ℕ} : (children : List Filter) →
    Allows limit depth (levelsOf children) → Allows other place (levelsOf children) →
      compileAll schema collection limit depth children =
        compileAll schema collection other place children
  | [], _, _ => rfl
  | child :: rest, h, h' => by
      rw [levelsOf, allows_max_iff] at h h'
      rw [compileAll, compileAll, compileAt_of_allows child h.1 h'.1,
        compileAll_of_allows rest h.2 h'.2]

end

/-- A limit that a filter keeps is no limit. -/
theorem compile_of_levels {n : ℤ} {filter : Filter} (h : filter.levels ≤ n) :
    compile schema collection (some n) (some filter) =
      compile schema collection none (some filter) := by
  refine compileAt_of_allows filter ?_ (allows_none 0 _)
  rintro _ ⟨⟩
  exact .inr h

end Filter

end ScalarStore
