import ScalarStore.Proofs.Filter.Composition
import ScalarStore.Proofs.Predicate.Offence
import ScalarStore.Proofs.Query.Failure
import ScalarStore.Proofs.Query.Selection

/-! # Joined and negated filters

The predicate of a joined filter answers with the conjunction or disjunction of the answers of the
parts, and that of a negated filter with the opposite. So a filter and its negation split the rows
of a query. -/

namespace ScalarStore

/-! ## Answers of joined predicates -/

namespace Predicate

variable {record : Record}

theorem test_negate (p : Predicate) (record : Record) :
    p.negate.test record = (p.test record).map not := by
  cases p <;> rfl

variable {p : Predicate} {ps : List Predicate}

/-- A part that is false makes a conjunction false, before or after the others are looked at. -/
theorem test_all_of_false (h : p.test record = .ok false) :
    (all (p :: ps)).test record = .ok false := by
  rw [test, run_all]
  split
  · rfl
  · next hlive =>
      cases p with
      | constant b =>
          cases h
          exact absurd rfl hlive
      | live c =>
          have hc : (Circuit.run record c).result = .ok false := h
          simp only [List.filterMap_cons, live?, Circuit.runAll, hc]

theorem test_all_of_true (h : p.test record = .ok true) :
    (all (p :: ps)).test record = (all ps).test record := by
  rw [test, test, run_all, run_all]
  cases p with
  | constant b =>
      cases h
      rfl
  | live c =>
      have hc : (Circuit.run record c).result = .ok true := h
      have hd : (live c :: ps).any (·.constant? == some false) =
          ps.any (·.constant? == some false) := rfl
      rw [hd]
      split
      · rfl
      · simp only [List.filterMap_cons, live?, Circuit.runAll, hc]

theorem test_any_of_true (h : p.test record = .ok true) :
    (any (p :: ps)).test record = .ok true := by
  rw [test, run_any]
  split
  · rfl
  · next hlive =>
      cases p with
      | constant b =>
          cases h
          exact absurd rfl hlive
      | live c =>
          have hc : (Circuit.run record c).result = .ok true := h
          simp only [List.filterMap_cons, live?, Circuit.runAny, hc]

theorem test_any_of_false (h : p.test record = .ok false) :
    (any (p :: ps)).test record = (any ps).test record := by
  rw [test, test, run_any, run_any]
  cases p with
  | constant b =>
      cases h
      rfl
  | live c =>
      have hc : (Circuit.run record c).result = .ok false := h
      have hd : (live c :: ps).any (·.constant? == some true) =
          ps.any (·.constant? == some true) := rfl
      rw [hd]
      split
      · rfl
      · simp only [List.filterMap_cons, live?, Circuit.runAny, hc]

/-- Predicates answer one by one. -/
def Tests (record : Record) (ps : List Predicate) (answers : List Bool) : Prop :=
  List.Forall₂ (fun p a => p.test record = .ok a) ps answers

theorem test_all {answers : List Bool} (h : Tests record ps answers) :
    (all ps).test record = .ok (answers.all id) := by
  induction h with
  | nil => rfl
  | @cons p a ps answers hp _ ih =>
      cases a with
      | false => exact test_all_of_false hp
      | true => exact (test_all_of_true hp).trans ih

theorem test_any {answers : List Bool} (h : Tests record ps answers) :
    (any ps).test record = .ok (answers.any id) := by
  induction h with
  | nil => rfl
  | @cons p a ps answers hp _ ih =>
      cases a with
      | false => exact (test_any_of_false hp).trans ih
      | true => exact test_any_of_true hp

end Predicate

/-! ## Compiled filters under a connective -/

namespace Filter

variable {schema : Schema} {collection : Option String}

theorem compile_node {fs : List Filter} {ps : List Predicate} (connective : Connective)
    (h : List.Forall₂ (fun f p => compile schema collection none (some f) = .ok p) fs ps) :
    compile schema collection none (some (.node connective fs)) = connect connective ps := by
  have hall : compileAll schema collection none 1 fs = .ok ps := by
    induction h with
    | nil => rfl
    | @cons f p fs ps hf _ ih =>
        have hfirst : compileAt schema collection none 1 f = .ok p :=
          (compileAt_of_allows f (allows_none 1 _) (allows_none 0 _)).trans hf
        simp only [compileAll, hfirst, ih]
        rfl
  simp [compile, compileAt, hall]

end Filter

/-! ## Splitting rows -/

namespace Request

/-- A predicate and its opposite answer a list of rows: each row is kept by one of them. -/
def Splits (p opposite : Predicate) (rows : List StoredRow) : Prop :=
  ∃ kept others, matching p rows = .ok kept ∧ matching opposite rows = .ok others ∧
    (kept ++ others).Perm rows ∧ kept.Disjoint others

theorem matching_cons (p : Predicate) (row : StoredRow) (rows : List StoredRow) :
    matching p (row :: rows) = (do
      let b ← p.test row.record
      let kept ← matching p rows
      return if b then row :: kept else kept) := by
  unfold matching
  rw [List.mapM_cons]
  cases p.test row.record with
  | error fault => rfl
  | ok b =>
      cases rows.mapM fun row => do return (row, ← p.test row.record) with
      | error fault => rfl
      | ok answers => cases b <;> rfl

/-- A row that a predicate fails on is one that its opposite fails on. -/
theorem matching_negate_error {p : Predicate} {rows : List StoredRow} {fault : Fault}
    (h : matching p rows = .error fault) : matching p.negate rows = .error fault := by
  induction rows with
  | nil => cases h
  | cons row rows ih =>
      rw [matching_cons] at h ⊢
      rw [Predicate.test_negate]
      cases ht : p.test row.record with
      | error other =>
          rw [ht] at h
          exact h
      | ok b =>
          rw [ht] at h
          cases hm : matching p rows with
          | error other =>
              rw [hm] at h
              cases h
              rw [ih hm]
              rfl
          | ok kept =>
              rw [hm] at h
              cases h

theorem matching_negate {p : Predicate} {rows kept : List StoredRow}
    (h : matching p rows = .ok kept) :
    ∃ others, matching p.negate rows = .ok others ∧ (kept ++ others).Perm rows := by
  induction rows generalizing kept with
  | nil =>
      cases h
      exact ⟨[], rfl, .nil⟩
  | cons row rows ih =>
      rw [matching_cons] at h ⊢
      obtain ⟨b, hb, h⟩ := bind_eq_ok_iff.mp h
      obtain ⟨left, hleft, h⟩ := bind_eq_ok_iff.mp h
      obtain ⟨others, hothers, hperm⟩ := ih hleft
      cases h
      rw [Predicate.test_negate, hb, hothers]
      cases b with
      | true => exact ⟨others, rfl, hperm.cons row⟩
      | false => exact ⟨row :: others, rfl, List.perm_middle.trans (hperm.cons row)⟩

theorem splits_negate {p : Predicate} {rows kept : List StoredRow}
    (h : matching p rows = .ok kept) : Splits p p.negate rows := by
  obtain ⟨others, hothers, hperm⟩ := matching_negate h
  refine ⟨kept, others, h, hothers, hperm, fun row hkept hother => ?_⟩
  have hrow : row ∈ rows := (matching_sublist h).subset hkept
  obtain ⟨a, ha, hiff⟩ := mem_matching_iff h hrow
  obtain ⟨b, hb, hiff'⟩ := mem_matching_iff hothers hrow
  rw [Predicate.test_negate, ha, hiff.mp hkept] at hb
  cases hb
  exact absurd (hiff'.mp hother) (by simp)

end Request

/-! ## Filter texts put together -/

/-- On a record, the conjunction, the disjunction and the negation of filters answer with those of
the answers of the filters. -/
structure Predicate.Connects (p q both either opposite : Predicate) (record : Record) : Prop where
  both : ∀ a b, p.test record = .ok a → q.test record = .ok b → both.test record = .ok (a && b)
  either : ∀ a b, p.test record = .ok a → q.test record = .ok b → either.test record = .ok (a || b)
  opposite : ∀ a, p.test record = .ok a → opposite.test record = .ok !a

theorem Predicate.connects (p q : Predicate) (record : Record) :
    p.Connects q (all [p, q]) (any [p, q]) p.negate record where
  both a b ha hb := by simpa using test_all (.cons ha (.cons hb .nil))
  either a b ha hb := by simpa using test_any (.cons ha (.cons hb .nil))
  opposite a ha := by rw [test_negate, ha]; rfl

namespace Filter

open Schema (settingsName)

variable {schema : Schema} {collection : Option String} {filter : Option Filter} {p : Predicate}
  {defaultLength : Option Number} {values : List Value} {records : List Record}

/-- On checked records a compiled filter fails at most for the field that takes no value. -/
theorem failsOnly_test {depth : Option ℤ} (hp : compile schema collection depth filter = .ok p)
    (hr : schema.records defaultLength values = .ok records) {record : Record}
    (hm : record ∈ records) : FailsOnly schema.IsExempt (p.test record) := by
  have hconforms := Schema.conforms_of_mem_records hr hm
  obtain ⟨row, hrow⟩ := Schema.exists_completes hconforms
  exact (answers_compile hconforms hrow hp).failsOnly

theorem failsOnly_matching_of_records {depth : Option ℤ}
    (hp : compile schema collection depth filter = .ok p)
    (hr : schema.records defaultLength values = .ok records) {rows : List StoredRow}
    (hrows : ∀ row ∈ rows, row.record ∈ records) :
    FailsOnly schema.IsExempt (Request.matching p rows) := by
  refine FailsOnly.bind (FailsOnly.mapM fun row hm => ?_) fun answers _ => .of_ok _
  exact (failsOnly_test hp hr (hrows row hm)).bind fun b _ => .of_ok _

variable {limit : ℤ} {s t : String} {f g : Filter}

/-- Two texts that spell filters are put together in parentheses around `and` or `or`, one level
deeper, and one is negated two levels deeper. If both filters compile then so do the new ones.
On checked records the new predicates answer with the conjunction, the disjunction and the
negation, and no predicate fails but for the declared field that takes no value; any rows with
such records are split by a filter and its negation, or both fail for that field. -/
theorem composition_of_parse (hs : parse limit s = .ok (some f))
    (ht : parse limit t = .ok (some g)) :
    parse (limit.toNat + 1 : ℕ) (linkedText .and s t) = .ok (some (.node .and [f, g])) ∧
    parse (limit.toNat + 1 : ℕ) (linkedText .or s t) = .ok (some (.node .or [f, g])) ∧
    parse (limit.toNat + 2 : ℕ) (negatedText s) = .ok (some (.node .not [f])) ∧
    ∀ {schema : Schema} {collection : Option String} {p q : Predicate},
      compile schema collection none (some f) = .ok p →
      compile schema collection none (some g) = .ok q →
      ∃ both either opposite,
        compile schema collection none (some (.node .and [f, g])) = .ok both ∧
        compile schema collection none (some (.node .or [f, g])) = .ok either ∧
        compile schema collection none (some (.node .not [f])) = .ok opposite ∧
        ∀ {defaultLength : Option Number} {values : List Value} {records : List Record},
          schema.records defaultLength values = .ok records →
          (∀ record ∈ records, p.Connects q both either opposite record ∧
            ∀ r ∈ [p, q, both, either, opposite],
              FailsOnly schema.IsExempt (r.test record)) ∧
          ∀ rows : List StoredRow, (∀ row ∈ rows, row.record ∈ records) →
            Request.Splits p opposite rows ∨
              settingsName ∈ schema.fieldNames ∧
                Request.matching p rows = .error (.missingKey settingsName) ∧
                Request.matching opposite rows = .error (.missingKey settingsName) := by
  refine ⟨parse_conjunction hs ht, parse_disjunction hs ht, parse_negation hs, ?_⟩
  intro schema collection p q hp hq
  have hboth := compile_node .and (.cons hp (.cons hq .nil))
  have heither := compile_node .or (.cons hp (.cons hq .nil))
  have hopposite := compile_node .not (.cons hp .nil)
  refine ⟨_, _, _, hboth, heither, hopposite, ?_⟩
  intro defaultLength values records hrecords
  refine ⟨fun record hm => ⟨p.connects q record, ?_⟩, fun rows hrows => ?_⟩
  · simp only [List.forall_mem_cons]
    exact ⟨failsOnly_test hp hrecords hm, failsOnly_test hq hrecords hm,
      failsOnly_test hboth hrecords hm, failsOnly_test heither hrecords hm,
      failsOnly_test hopposite hrecords hm, nofun⟩
  · cases hm : Request.matching p rows with
    | ok kept => exact .inl (Request.splits_negate hm)
    | error fault =>
        obtain ⟨hdeclared, rfl⟩ := failsOnly_matching_of_records hp hrecords hrows fault hm
        exact .inr ⟨hdeclared, rfl, Request.matching_negate_error hm⟩

/-- A name, an equality sign and a quoted text open no level. -/
theorem parse_equality (n : ℕ) {text name : String} {mark : Char} {body : List Char} {i j k : ℕ}
    (ht : tokenize text =
      .ok [⟨.name name, i⟩, ⟨.symbol (.compare .eq), j⟩, ⟨.quoted mark body, k⟩]) :
    parse n text =
      .ok (some (.leaf name (.compare .eq) (.str (String.ofList (unescape body))))) := by
  have hp := PredicateDerivation.compare name .eq i j (.quoted mark body k)
  exact parse_of_derivation ht (hp.disjunction n)

theorem composition_of_parse_title :
    ∃ (f g : Filter) (both : Predicate),
      parse 0 "id == 'a'" = .ok (some f) ∧ parse 0 "title == 'y'" = .ok (some g) ∧
      parse 1 (linkedText .and "id == 'a'" "title == 'y'") = .ok (some (.node .and [f, g])) ∧
      compile titleSchema none none (some (.node .and [f, g])) = .ok both ∧
      both.test [("id", .str "a"), ("title", .str "y")] = .ok true := by
  have hid : tokenize "id == 'a'" = .ok [⟨.name "id", 0⟩, ⟨.symbol (.compare .eq), 3⟩,
      ⟨.quoted '\x27' ['a'], 6⟩] := by cbv
  have htitle : tokenize "title == 'y'" = .ok [⟨.name "title", 0⟩, ⟨.symbol (.compare .eq), 6⟩,
      ⟨.quoted '\x27' ['y'], 9⟩] := by cbv
  have hs := parse_equality 0 hid
  have ht := parse_equality 0 htitle
  obtain ⟨hand, -, -, hcompile⟩ := composition_of_parse hs ht
  have hp : compile titleSchema none none (some (.leaf "id" (.compare .eq) (.str "a"))) =
    .ok (.live (.test "id" (.compare .eq (.str "a")))) := rfl
  have hq : compile titleSchema none none (some (.leaf "title" (.compare .eq) (.str "y"))) =
    .ok (.live (.test "title" (.compare .eq (.str "y")))) := rfl
  obtain ⟨both, either, opposite, hboth, -, -, hrecords⟩ := hcompile hp hq
  have hr : titleSchema.records none [.map [(.str "id", .str "a"), (.str "title", .str "y")]] =
      .ok [[("id", .str "a"), ("title", .str "y")]] := rfl
  have hconnects := ((hrecords hr).1 _ (List.mem_singleton_self _)).1
  exact ⟨_, _, both, hs, ht, hand, hboth, hconnects.both true true rfl rfl⟩

/-- Of a declared field that takes no value, neither a text nor its negation is answered, and so
neither is their disjunction, though the row is accepted and all of them compile. -/
theorem composition_settingsSchema_fails :
    settingsSchema.records none [.map [(.str "id", .str "a")]] = .ok [[("id", .str "a")]] ∧
    ∃ (f : Filter) (p opposite either : Predicate),
      parse 0 "model_config == 'x'" = .ok (some f) ∧
      parse 2 (negatedText "model_config == 'x'") = .ok (some (.node .not [f])) ∧
      parse 3 (linkedText .or "model_config == 'x'" (negatedText "model_config == 'x'")) =
        .ok (some (.node .or [f, .node .not [f]])) ∧
      compile settingsSchema none none (some f) = .ok p ∧
      compile settingsSchema none none (some (.node .not [f])) = .ok opposite ∧
      compile settingsSchema none none (some (.node .or [f, .node .not [f]])) = .ok either ∧
      either.test [("id", .str "a")] = .error (.missingKey settingsName) ∧
      ∀ row : StoredRow, row.record = [("id", .str "a")] → ¬Request.Splits p opposite [row] := by
  have htokens : tokenize "model_config == 'x'" = .ok [⟨.name settingsName, 0⟩,
      ⟨.symbol (.compare .eq), 13⟩, ⟨.quoted '\x27' ['x'], 16⟩] := by cbv
  have hs := parse_equality 0 htokens
  have hnot := parse_negation hs
  refine ⟨rfl, _, _, _, _, hs, hnot, parse_disjunction (parse_equality 2 htokens) hnot, rfl, rfl,
    rfl, rfl, ?_⟩
  rintro row hrow ⟨kept, others, hkept, -⟩
  rw [Request.matching_cons, hrow] at hkept
  cases hkept

end Filter

end ScalarStore
