import ScalarStore.Filter.Mention
import ScalarStore.Proofs.Predicate.Offence
import ScalarStore.Proofs.Table

/-! # The fields that a filter mentions

After every step of a scan, the names that are found and those of the leaves that are still to be
looked at come to the same list. So a scan, which looks once at every part of a filter, finds the
names of the leaves from left to right. A field that compilation misses is the first one of them
that the schema does not declare. -/

namespace ScalarStore

namespace Filter

theorem leafFieldsOf_append (fs gs : List Filter) :
    leafFieldsOf (fs ++ gs) = leafFieldsOf fs ++ leafFieldsOf gs := by
  induction fs with
  | nil => rfl
  | cons f fs ih => rw [List.cons_append, leafFieldsOf, leafFieldsOf, ih, List.append_assoc]

namespace NameScan

/-! ## One step -/

/-- The names of the leaves that are still to be looked at, in the order of the scan. -/
def pending (s : NameScan) : List String := leafFieldsOf s.stack.toList.reverse

/-- What the names found and the pending ones come to. -/
def outcome (s : NameScan) : List String := (s.names ++ s.pending).eraseDups

theorem outcome_visit (names : List String) (rest : Array Filter) (filter : Filter) :
    (visit names rest filter).outcome = (NameScan.mk names (rest.push filter)).outcome := by
  rw [outcome, outcome, pending, pending, Array.toList_push, List.reverse_append,
    List.reverse_singleton, List.singleton_append, leafFieldsOf]
  cases filter with
  | leaf field operator literal =>
      rw [leafFields, List.singleton_append, eraseDups_append_cons]
      rfl
  | node connective children =>
      -- put on the stack in reverse, the children come off it in their order
      rw [visit, Array.toList_appendList, List.reverse_append, List.reverse_reverse,
        leafFieldsOf_append, leafFields]
  | bare | absent => rfl

theorem nodup_visit {names : List String} (h : names.Nodup) (rest : Array Filter)
    (filter : Filter) : (visit names rest filter).names.Nodup := by
  cases filter with
  | leaf field operator literal =>
      rw [visit]
      split
      · exact h
      · next hfield => simpa using h.concat hfield
  | node | bare | absent => exact h

theorem outcome_of_step {s next : NameScan} (h : s.step? = some next) :
    next.outcome = s.outcome := by
  obtain ⟨rest, filter, hstack, rfl⟩ := step?_eq_some_iff.mp h
  rw [outcome_visit, ← hstack]

theorem nodup_of_step {s next : NameScan} (h : s.step? = some next) (hs : s.names.Nodup) :
    next.names.Nodup := by
  obtain ⟨rest, filter, -, rfl⟩ := step?_eq_some_iff.mp h
  exact nodup_visit hs rest filter

/-! ## Whole scans -/

/-- So many steps lead from one scan to another. -/
inductive Steps : ℕ → NameScan → NameScan → Prop where
  | done (s) : Steps 0 s s
  | step {n s next last} (h : s.step? = some next) (hrest : Steps n next last) :
      Steps (n + 1) s last

variable {n : ℕ} {s last : NameScan}

theorem Steps.outcome_eq (h : Steps n s last) : last.outcome = s.outcome := by
  induction h with
  | done s => rfl
  | step h _ ih => rw [ih, outcome_of_step h]

theorem Steps.nodup (h : Steps n s last) (hs : s.names.Nodup) : last.names.Nodup := by
  induction h with
  | done s => exact hs
  | step h _ ih => exact ih (nodup_of_step h hs)

/-- A scan ends with an empty stack, after as many steps as there are parts to look at. -/
theorem steps_run (s : NameScan) : Steps s.remaining s ⟨s.run, #[]⟩ := by
  fun_induction run s with
  | case1 s h =>
      obtain ⟨names, stack⟩ := s
      obtain rfl : stack = #[] := step?_eq_none_iff.mp h
      exact .done _
  | case2 s next h ih =>
      rw [← remaining_of_step h]
      exact .step h ih

theorem nodup_run (hs : s.names.Nodup) : s.run.Nodup := (steps_run s).nodup hs

theorem run_eq_outcome (hs : s.names.Nodup) : s.run = s.outcome :=
  calc s.run = s.run.eraseDups := (eraseDups_of_nodup (nodup_run hs)).symm
    _ = (NameScan.mk s.run #[]).outcome := by simp [outcome, pending, leafFieldsOf]
    _ = s.outcome := (steps_run s).outcome_eq

end NameScan

variable {filter : Filter} {name : String}

theorem fieldNames_eq (filter : Filter) : filter.fieldNames = filter.leafFields.eraseDups := by
  rw [fieldNames, NameScan.run_eq_outcome List.nodup_nil]
  simp [NameScan.outcome, NameScan.pending, leafFieldsOf]

theorem mem_fieldNames_iff : name ∈ filter.fieldNames ↔ name ∈ filter.leafFields := by
  rw [fieldNames_eq, List.mem_eraseDups]

end Filter

/-! ## Fields that a schema does not declare -/

/-- The field that a schema does not declare, if that is the fault. -/
def Fault.undeclared? : Fault → Option String
  | .unknownField name _ => some name
  | _ => none

namespace Filter

theorem undeclared?_leafOffences (f : Field) (operator : Operator) (literal : Value) :
    (leafOffences f operator literal).filterMap Fault.undeclared? = [] := by
  refine List.filterMap_eq_nil_iff.mpr fun fault hfault => ?_
  rcases mem_leafOffences hfault with ⟨reason, rfl⟩ | rfl <;> rfl

theorem undeclared?_connectiveOffences (count : ℕ) (connective : Connective) :
    (connectiveOffences count connective).filterMap Fault.undeclared? = [] := by
  refine List.filterMap_eq_nil_iff.mpr fun fault hfault => ?_
  obtain ⟨reason, rfl⟩ := mem_connectiveOffences hfault
  rfl

theorem undeclared?_depthOffences (limit : Option ℤ) (depth : ℕ) :
    (depthOffences limit depth).filterMap Fault.undeclared? = [] := by
  refine List.filterMap_eq_nil_iff.mpr fun fault hfault => ?_
  obtain ⟨n, -, rfl⟩ := mem_depthOffences hfault
  rfl

variable {schema : Schema} {collection place : Option String} {limit : Option ℤ}
  {filter : Filter} {name : String}

mutual

/-- Whatever else is wrong, the undeclared fields among the offences are those of the leaves, in
their order. -/
theorem undeclared?_offences (depth : ℕ) : (filter : Filter) →
    (offences schema collection limit depth filter).filterMap Fault.undeclared? =
      filter.leafFields.filter (· ∉ schema.fieldNames)
  | .leaf field operator literal => by
      rw [offences, leafFields]
      cases hfield : schema.field? field with
      | none =>
          have hmissing := Schema.field?_eq_none_iff.mp hfield
          simp [Fault.undeclared?, hmissing]
      | some f =>
          obtain ⟨hf, rfl⟩ := Schema.field?_eq_some_iff.mp hfield
          have hdeclared : f.name ∈ schema.fieldNames := List.mem_map_of_mem hf
          simp [undeclared?_leafOffences, hdeclared]
  | .node connective children => by
      rw [offences, leafFields, List.filterMap_append, List.filterMap_append,
        undeclared?_depthOffences, undeclared?_connectiveOffences, List.nil_append, List.append_nil,
        undeclared?_offencesOf (depth + 1) children]
  | .bare => rfl
  | .absent => rfl

theorem undeclared?_offencesOf (depth : ℕ) : (children : List Filter) →
    (offencesOf schema collection limit depth children).filterMap Fault.undeclared? =
      (leafFieldsOf children).filter (· ∉ schema.fieldNames)
  | [] => rfl
  | child :: rest => by
      rw [offencesOf, leafFieldsOf, List.filterMap_append, List.filter_append,
        undeclared?_offences depth child, undeclared?_offencesOf depth rest]

end

/-- A field that is missed is the first one mentioned that is not declared. -/
theorem find?_of_compile
    (h : compile schema collection limit (some filter) = .error (.unknownField name place)) :
    filter.fieldNames.find? (· ∉ schema.fieldNames) = some name := by
  obtain ⟨others, hoffences⟩ := List.head?_eq_some_iff.mp (compile_eq_error_iff.mp h)
  have hmissing : name :: others.filterMap Fault.undeclared? =
      filter.leafFields.filter (· ∉ schema.fieldNames) := by
    rw [← undeclared?_offences 0 filter, hoffences]
    rfl
  rw [fieldNames_eq, find?_eraseDups, ← List.head?_filter, ← hmissing, List.head?_cons]

/-- What compiles mentions declared fields only. -/
theorem fieldNames_subset_of_compile {p : Predicate}
    (h : compile schema collection limit (some filter) = .ok p) :
    filter.fieldNames ⊆ schema.fieldNames := by
  intro name hname
  have hoffences : offences schema collection limit 0 filter = [] :=
    (offences_eq_nil_iff 0 filter).mpr (compile_eq_ok_iff.mp ⟨p, h⟩)
  have hmissing : filter.leafFields.filter (· ∉ schema.fieldNames) = [] := by
    rw [← undeclared?_offences 0 filter, hoffences]
    rfl
  simpa using List.filter_eq_nil_iff.mp hmissing name (mem_fieldNames_iff.mp hname)

/-- A scan of a filter ends after as many steps as the filter has parts, with the names of the
leaves from left to right, each at its first place only. Compilation misses a field only if it is
one of these and not declared. -/
theorem mention_outcome (filter : Filter) :
    NameScan.Steps filter.parts ⟨[], #[filter]⟩ ⟨filter.fieldNames, #[]⟩ ∧
    filter.fieldNames = filter.leafFields.eraseDups ∧ filter.fieldNames.Nodup ∧
    ∀ (schema : Schema) (collection place : Option String) (limit : Option ℤ) (name : String),
      compile schema collection limit (some filter) = .error (.unknownField name place) →
        name ∈ filter.fieldNames ∧ name ∉ schema.fieldNames := by
  refine ⟨NameScan.steps_run ⟨[], #[filter]⟩, fieldNames_eq filter,
    NameScan.nodup_run List.nodup_nil, fun schema collection place limit name h => ?_⟩
  have hfirst := find?_of_compile h
  exact ⟨List.mem_of_find?_eq_some hfirst, by simpa using List.find?_some hfirst⟩

/-- Two fields that are not declared, the first one named twice. -/
def shelved : Filter :=
  .node .and [.leaf "title" .like (.str "x%"),
    .node .or [.leaf "shelf" (.compare .lt) (.int 2), .leaf "title" (.compare .eq) (.str "y")],
    .node .not [.leaf "row" .isIn (.list [.int 1])], .leaf "shelf" (.compare .gt) (.int 3)]

theorem mention_outcome_shelved :
    shelved.fieldNames = ["title", "shelf", "row"] ∧
      NameScan.Steps 8 ⟨[], #[shelved]⟩ ⟨["title", "shelf", "row"], #[]⟩ ∧
      compile titleSchema (some "books") none (some shelved) =
        .error (.unknownField "shelf" (some "books")) ∧
      "shelf" ∈ shelved.fieldNames ∧ "shelf" ∉ titleSchema.fieldNames := by
  obtain ⟨hsteps, hnames, -, hmissing⟩ := mention_outcome shelved
  have hlisted : shelved.fieldNames = ["title", "shelf", "row"] := hnames.trans (by decide)
  have hfault : compile titleSchema (some "books") none (some shelved) =
      .error (.unknownField "shelf" (some "books")) := rfl
  exact ⟨hlisted, hlisted ▸ hsteps, hfault, hmissing _ _ _ _ _ hfault⟩

end Filter

end ScalarStore
