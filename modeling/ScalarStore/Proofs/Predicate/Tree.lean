import ScalarStore.Proofs.Predicate.Leaf

/-! # Compiled filters

The predicate of a filter answers with the meaning of the filter on every record of its schema.
The one way to fail is to read a field that the record check keeps for itself. -/

namespace ScalarStore

open Schema (settingsName)

/-- A row that gives every field of a schema a value of its type, and the values of a record
where the record has them. -/
structure Schema.Completes (schema : Schema) (record : Record) (row : String → Value) : Prop where
  agrees : ∀ f ∈ schema.fields, ∀ v, record.lookup f.name = some v → row f.name = v
  admits : ∀ f ∈ schema.fields, f.type.Admits (row f.name)

theorem DataType.exists_admits (type : DataType) : ∃ v, type.Admits v := by
  cases type with
  | bool => exact ⟨.bool false, false, rfl⟩
  | float => exact ⟨.float (.zero false), .zero false, rfl⟩
  | double => exact ⟨.float (.zero false), .zero false, rfl⟩
  | varchar => exact ⟨.str "", "", rfl⟩
  | _ => exact ⟨.int 0, 0, _, _, rfl, rfl, by decide, by decide⟩

namespace Schema

variable {schema : Schema} {record : Record}

/-- A record is complete unless its schema declares the one field that takes no value. -/
theorem completes_valuesOf (hr : schema.Conforms record) (hs : settingsName ∉ schema.fieldNames) :
    schema.Completes record (Filter.valuesOf record) := by
  refine ⟨fun f _ v hv => by simp [Filter.valuesOf, hv], fun f hf => ?_⟩
  have hne : f.name ≠ settingsName := fun he => hs (he ▸ List.mem_map_of_mem hf)
  obtain ⟨v, hv, hadmits⟩ := hr.value f (mem_rowFields.mpr ⟨hf, hne⟩)
  simpa [Filter.valuesOf, hv] using hadmits

theorem exists_completes (hr : schema.Conforms record) :
    ∃ row, schema.Completes record row := by
  by_cases hs : settingsName ∈ schema.fieldNames
  · obtain ⟨g, hg, hname⟩ := List.mem_map.mp hs
    obtain ⟨w, hw⟩ := g.type.exists_admits
    refine ⟨fun name => (record.lookup name).getD w, fun f _ v hv => by simp [hv], fun f hf => ?_⟩
    by_cases hf' : f.name = settingsName
    · have hl : record.lookup f.name = none := hf' ▸ hr.noSettings
      obtain rfl := List.inj_on_of_nodup_map schema.distinct hf hg (hf'.trans hname.symm)
      simpa [hl] using hw
    · obtain ⟨v, hv, hadmits⟩ := hr.value f (mem_rowFields.mpr ⟨hf, hf'⟩)
      simpa [hv] using hadmits
  · exact ⟨_, completes_valuesOf hr hs⟩

end Schema

/-- A run reads fields of the schema only. It fails at the field that no record has, and else
answers a question. -/
structure Reads.Answers (schema : Schema) (r : Reads Bool) (question : Prop) : Prop where
  reads : ∀ name ∈ r.names, name ∈ schema.fieldNames
  fails : settingsName ∈ r.names → r.result = .error (.missingKey settingsName)
  answers : settingsName ∉ r.names → ∃ b, r.result = .ok b ∧ (b = true ↔ question)

namespace Reads.Answers

variable {schema : Schema} {r : Reads Bool} {p q : Prop}

theorem of_result {b : Bool} (h : b = true ↔ q) : Reads.Answers schema ⟨[], .ok b⟩ q :=
  ⟨by simp, by simp, fun _ => ⟨b, rfl, h⟩⟩

theorem congr (h : Reads.Answers schema r p) (hpq : p ↔ q) : Reads.Answers schema r q := by
  refine ⟨h.reads, h.fails, fun hn => ?_⟩
  obtain ⟨b, hb, hiff⟩ := h.answers hn
  exact ⟨b, hb, hiff.trans hpq⟩

theorem of_eq_ok {b : Bool} (h : Reads.Answers schema r q) (hb : r.result = .ok b) :
    b = true ↔ q := by
  have hn : settingsName ∉ r.names := by
    intro hn
    rw [h.fails hn] at hb
    cases hb
  obtain ⟨c, hc, hiff⟩ := h.answers hn
  cases hb.symm.trans hc
  exact hiff

theorem of_constant {b : Bool} (h : Reads.Answers schema ⟨[], .ok b⟩ q) : b = true ↔ q :=
  h.of_eq_ok rfl

theorem not (h : Reads.Answers schema r q) :
    Reads.Answers schema ⟨r.names, r.result.map Bool.not⟩ ¬q := by
  refine ⟨h.reads, fun hn => ?_, fun hn => ?_⟩
  · rw [h.fails hn]
    rfl
  · obtain ⟨b, hb, hiff⟩ := h.answers hn
    refine ⟨!b, by rw [hb]; rfl, ?_⟩
    rw [Bool.not_eq_true', ← Bool.not_eq_true, hiff]

end Reads.Answers

/-! ## Connectives on runs -/

namespace Circuit

variable {schema : Schema} {record : Record} {c : Circuit} {cs : List Circuit} {p q : Prop}

theorem answers_runAll_cons (hc : (run record c).Answers schema p)
    (hcs : (runAll record cs).Answers schema q) :
    (runAll record (c :: cs)).Answers schema (p ∧ q) := by
  by_cases hn : settingsName ∈ (run record c).names
  · simp only [runAll, hc.fails hn]
    exact ⟨hc.reads, fun _ => rfl, fun h => absurd hn h⟩
  · obtain ⟨b, hb, hiff⟩ := hc.answers hn
    cases b with
    | false =>
        simp only [runAll, hb]
        refine ⟨hc.reads, fun h => absurd h hn, fun _ => ⟨false, rfl, ?_⟩⟩
        simpa using fun hp => absurd (hiff.mpr hp) (by simp)
    | true =>
        simp only [runAll, hb]
        have hp : p := hiff.mp rfl
        refine ⟨?_, fun h => hcs.fails ?_, fun h => ?_⟩
        · exact fun name hm => (List.mem_append.mp hm).elim (hc.reads name) (hcs.reads name)
        · exact (List.mem_append.mp h).resolve_left hn
        · obtain ⟨b, hb, hiff⟩ := hcs.answers fun hm => h (List.mem_append_right _ hm)
          exact ⟨b, hb, by simpa [hp] using hiff⟩

theorem answers_runAny_cons (hc : (run record c).Answers schema p)
    (hcs : (runAny record cs).Answers schema q) :
    (runAny record (c :: cs)).Answers schema (p ∨ q) := by
  by_cases hn : settingsName ∈ (run record c).names
  · simp only [runAny, hc.fails hn]
    exact ⟨hc.reads, fun _ => rfl, fun h => absurd hn h⟩
  · obtain ⟨b, hb, hiff⟩ := hc.answers hn
    cases b with
    | true =>
        simp only [runAny, hb]
        refine ⟨hc.reads, fun h => absurd h hn, fun _ => ⟨true, rfl, ?_⟩⟩
        simpa using Or.inl (hiff.mp rfl)
    | false =>
        simp only [runAny, hb]
        have hp : ¬p := fun hp => absurd (hiff.mpr hp) (by simp)
        refine ⟨?_, fun h => hcs.fails ?_, fun h => ?_⟩
        · exact fun name hm => (List.mem_append.mp hm).elim (hc.reads name) (hcs.reads name)
        · exact (List.mem_append.mp h).resolve_left hn
        · obtain ⟨b, hb, hiff⟩ := hcs.answers fun hm => h (List.mem_append_right _ hm)
          exact ⟨b, hb, by simpa [hp] using hiff⟩

theorem runAll_singleton (record : Record) (c : Circuit) : runAll record [c] = run record c := by
  cases hc : run record c with
  | mk names result =>
      simp only [runAll, hc]
      split
      · next h => simp_all
      · rfl

theorem runAny_singleton (record : Record) (c : Circuit) : runAny record [c] = run record c := by
  cases hc : run record c with
  | mk names result =>
      simp only [runAny, hc]
      split
      · next h => simp_all
      · rfl

end Circuit

namespace Predicate

/-- Joining drops what is decided: what is left runs one after another. -/
theorem run_all (record : Record) (ps : List Predicate) :
    (all ps).run record =
      if ps.any (·.constant? == some false) then ⟨[], .ok false⟩
      else Circuit.runAll record (ps.filterMap live?) := by
  unfold all
  split
  · rfl
  · split
    · next h => rw [h]; rfl
    · next c h => rw [h, Circuit.runAll_singleton]; rfl
    · rfl

theorem run_any (record : Record) (ps : List Predicate) :
    (any ps).run record =
      if ps.any (·.constant? == some true) then ⟨[], .ok true⟩
      else Circuit.runAny record (ps.filterMap live?) := by
  unfold any
  split
  · rfl
  · split
    · next h => rw [h]; rfl
    · next c h => rw [h, Circuit.runAny_singleton]; rfl
    · rfl

theorem answers_negate {schema : Schema} {record : Record} {p : Predicate} {q : Prop}
    (h : (p.run record).Answers schema q) : (p.negate.run record).Answers schema ¬q := by
  cases p with
  | constant b => exact h.not
  | live c => exact h.not

end Predicate

namespace Filter

variable {schema : Schema} {record : Record} {meaning : String → Operator → Value → Prop}

/-- Predicates answer the children of a node one by one. -/
def AnswersEach (schema : Schema) (record : Record) (meaning : String → Operator → Value → Prop)
    (ps : List Predicate) (children : List Filter) : Prop :=
  List.Forall₂ (fun p child => (p.run record).Answers schema (HoldsBy meaning child)) ps children

/-- A predicate decided against a conjunction decides it. -/
theorem not_allHold_of_decided {ps : List Predicate} {children : List Filter}
    (h : AnswersEach schema record meaning ps children)
    (hd : ps.any (·.constant? == some false) = true) : ¬AllHoldBy meaning children := by
  induction h with
  | nil => simp at hd
  | @cons p child ps children hp _ ih =>
      rintro ⟨hchild, hrest⟩
      rw [List.any_cons, Bool.or_eq_true] at hd
      rcases hd with hd | hd
      · cases p with
        | live c => simp [Predicate.constant?] at hd
        | constant b =>
            have hb : b = false := by simpa [Predicate.constant?] using hd
            have hiff := hp.of_constant
            simp [hb, hchild] at hiff
      · exact ih hd hrest

theorem anyHolds_of_decided {ps : List Predicate} {children : List Filter}
    (h : AnswersEach schema record meaning ps children)
    (hd : ps.any (·.constant? == some true) = true) : AnyHoldsBy meaning children := by
  induction h with
  | nil => simp at hd
  | @cons p child ps children hp _ ih =>
      rw [List.any_cons, Bool.or_eq_true] at hd
      rcases hd with hd | hd
      · cases p with
        | live c => simp [Predicate.constant?] at hd
        | constant b =>
            have hb : b = true := by simpa [Predicate.constant?] using hd
            exact .inl (hp.of_constant.mp hb)
      · exact .inr (ih hd)

/-- Otherwise a decided predicate is true, and the live ones answer for all. -/
theorem answers_runAll_live {ps : List Predicate} {children : List Filter}
    (h : AnswersEach schema record meaning ps children)
    (hd : ps.any (·.constant? == some false) = false) :
    (Circuit.runAll record (ps.filterMap Predicate.live?)).Answers schema
      (AllHoldBy meaning children) := by
  induction h with
  | nil => exact .of_result (by simp [AllHoldBy])
  | @cons p child ps children hp _ ih =>
      rw [List.any_cons, Bool.or_eq_false_iff] at hd
      cases p with
      | live c => exact Circuit.answers_runAll_cons hp (ih hd.2)
      | constant b =>
          have hb : b = true := by simpa [Predicate.constant?] using hd.1
          have hchild : HoldsBy meaning child := hp.of_constant.mp hb
          exact (ih hd.2).congr (by simp [AllHoldBy, hchild])

theorem answers_runAny_live {ps : List Predicate} {children : List Filter}
    (h : AnswersEach schema record meaning ps children)
    (hd : ps.any (·.constant? == some true) = false) :
    (Circuit.runAny record (ps.filterMap Predicate.live?)).Answers schema
      (AnyHoldsBy meaning children) := by
  induction h with
  | nil => exact .of_result (by simp [AnyHoldsBy])
  | @cons p child ps children hp _ ih =>
      rw [List.any_cons, Bool.or_eq_false_iff] at hd
      cases p with
      | live c => exact Circuit.answers_runAny_cons hp (ih hd.2)
      | constant b =>
          have hb : b = false := by simpa [Predicate.constant?] using hd.1
          have hchild : ¬HoldsBy meaning child := fun hc => by
            simpa [hb] using hp.of_constant.mpr hc
          exact (ih hd.2).congr (by simp [AnyHoldsBy, hchild])

theorem answers_all {ps : List Predicate} {children : List Filter}
    (h : AnswersEach schema record meaning ps children) :
    ((Predicate.all ps).run record).Answers schema (AllHoldBy meaning children) := by
  rw [Predicate.run_all]
  split
  · next hd => exact .of_result (by simpa using not_allHold_of_decided h hd)
  · next hd => exact answers_runAll_live h (Bool.not_eq_true _ ▸ hd)

theorem answers_any {ps : List Predicate} {children : List Filter}
    (h : AnswersEach schema record meaning ps children) :
    ((Predicate.any ps).run record).Answers schema (AnyHoldsBy meaning children) := by
  rw [Predicate.run_any]
  split
  · next hd => exact .of_result (by simpa using anyHolds_of_decided h hd)
  · next hd => exact answers_runAny_live h (Bool.not_eq_true _ ▸ hd)

theorem answers_connect {connective : Connective} {ps : List Predicate} {p : Predicate}
    {children : List Filter} (h : AnswersEach schema record meaning ps children)
    (hc : connect connective ps = .ok p) :
    (p.run record).Answers schema (HoldsBy meaning (.node connective children)) := by
  cases connective with
  | and => cases hc; exact answers_all h
  | or => cases hc; exact answers_any h
  | other symbol unknown => cases hc
  | not =>
      cases h with
      | nil => cases hc
      | cons hp hrest =>
          cases hrest with
          | nil =>
              cases hc
              exact (Predicate.answers_negate hp).congr (by simp [HoldsBy, AllHoldBy])
          | cons _ _ => cases hc

/-! ## Trees -/

variable {row : String → Value}

/-- The one field without a value is that of the check's own settings. -/
theorem answers_of_asks {f : Field} {p : Predicate} {q : Prop} (hr : schema.Conforms record)
    (hrow : schema.Completes record row) (hf : f ∈ schema.fields)
    (h : p.Asks f (row f.name) q) : (p.run record).Answers schema q := by
  cases h with
  | decided h => exact .of_result h
  | @tested t b ht h =>
      have hreads : ∀ name ∈ [f.name], name ∈ schema.fieldNames := by
        intro name hn
        rw [List.mem_singleton.mp hn]
        exact List.mem_map_of_mem hf
      by_cases hs : f.name = settingsName
      · refine ⟨hreads, fun _ => ?_, fun hn => absurd (List.mem_singleton.mpr hs.symm) hn⟩
        simp [ask, Predicate.run, Circuit.run, hs, hr.noSettings]
      · obtain ⟨v, hv, -⟩ := hr.value f (Schema.mem_rowFields.mpr ⟨hf, hs⟩)
        have he := hrow.agrees f hf v hv
        refine ⟨hreads, fun hn => absurd (List.mem_singleton.mp hn).symm hs, fun _ => ⟨b, ?_, h⟩⟩
        simp only [ask, Predicate.run, Circuit.run, hv]
        rw [← he, ht]

theorem field_eq_ok {collection : Option String} {name : String} {f : Field}
    (h : schema.field collection name = .ok f) : f ∈ schema.fields ∧ f.name = name := by
  unfold Schema.field at h
  split at h
  · next g hg =>
      cases h
      exact ⟨List.mem_of_find?_eq_some hg, by simpa using List.find?_some hg⟩
  · contradiction

mutual

theorem answers_compileAt {collection : Option String} {limit : Option Int}
    (hr : schema.Conforms record) (hrow : schema.Completes record row) (depth : ℕ)
    (filter : Filter) (p : Predicate)
    (h : compileAt schema collection limit depth filter = .ok p) :
    (p.run record).Answers schema (Finds row filter) := by
  match filter with
  | .leaf field operator value =>
      simp only [compileAt] at h
      split at h
      · contradiction
      · next f hf =>
          obtain ⟨hmem, rfl⟩ := field_eq_ok hf
          exact answers_of_asks hr hrow hmem (asks_compileLeaf (hrow.admits f hmem) h)
  | .node connective children =>
      simp only [compileAt] at h
      split at h
      · contradiction
      · split at h
        · contradiction
        · next ps hps =>
            exact answers_connect (answers_compileAll hr hrow (depth + 1) children ps hps) h
  | .bare => cases h
  | .absent => cases h

theorem answers_compileAll {collection : Option String} {limit : Option Int}
    (hr : schema.Conforms record) (hrow : schema.Completes record row) (depth : ℕ)
    (children : List Filter) (ps : List Predicate)
    (h : compileAll schema collection limit depth children = .ok ps) :
    AnswersEach schema record (fun field operator literal => operator.Finds (row field) literal)
      ps children := by
  match children with
  | [] =>
      cases h
      exact .nil
  | child :: rest =>
      simp only [compileAll] at h
      split at h
      · contradiction
      · next p hp =>
          cases hrest : compileAll schema collection limit depth rest with
          | error fault => simp [hrest, Except.map] at h
          | ok others =>
              simp only [hrest, Except.map, Except.ok.injEq] at h
              subst h
              exact .cons (answers_compileAt hr hrow depth child p hp)
                (answers_compileAll hr hrow depth rest others hrest)

end

theorem answers_compile {collection : Option String} {limit : Option Int} {filter : Option Filter}
    {p : Predicate} (hr : schema.Conforms record) (hrow : schema.Completes record row)
    (h : compile schema collection limit filter = .ok p) :
    (p.run record).Answers schema (FindsIfAny row filter) := by
  cases filter with
  | none =>
      cases h
      exact .of_result (by simp [FindsIfAny])
  | some f => exact (answers_compileAt hr hrow 0 f p h).congr (by simp [FindsIfAny])

/-! ## Answers on checked rows -/

/-- On a record of checked rows the predicate of a filter fails exactly if it reads the field of
the check's own settings, which can be declared but takes no value. Every answer is what is found
of the filter, whatever value that field would have, and the meaning of the filter unless a list
in it has a `nan` of the row for an item; without that field the answer is that on the record, and
the predicate always gives it. -/
theorem test_compiled_iff {collection : Option String} {limit : Option Int}
    {filter : Option Filter} {p : Predicate} {defaultLength : Option Number} {rows : List Value}
    {records : List Record} (hc : compile schema collection limit filter = .ok p)
    (hr : schema.records defaultLength rows = .ok records) (hm : record ∈ records) :
    (∀ fault, p.test record = .error fault ↔
      fault = .missingKey settingsName ∧ settingsName ∈ (p.run record).names) ∧
    (∀ row b, schema.Completes record row → p.test record = .ok b → IsAnswer row filter b) ∧
    (settingsName ∉ schema.fieldNames →
      ∃ b, p.test record = .ok b ∧ IsAnswer (valuesOf record) filter b) := by
  have hconf := Schema.conforms_of_mem_records hr hm
  refine ⟨fun fault => ?_, fun row b hrow hb => ?_, fun hs => ?_⟩
  · obtain ⟨row, hrow⟩ := Schema.exists_completes hconf
    have ha := answers_compile hconf hrow hc
    by_cases hn : settingsName ∈ (p.run record).names
    · simp [Predicate.test, ha.fails hn, hn, eq_comm]
    · obtain ⟨b, hb, -⟩ := ha.answers hn
      simp [Predicate.test, hb, hn]
  · have ha := answers_compile hconf hrow hc
    have hn : settingsName ∉ (p.run record).names := by
      intro hn
      rw [Predicate.test, ha.fails hn] at hb
      contradiction
    obtain ⟨c, hc, hiff⟩ := ha.answers hn
    cases hb.symm.trans hc
    exact isAnswer_iff.mpr hiff
  · have ha := answers_compile hconf (Schema.completes_valuesOf hconf hs) hc
    obtain ⟨b, hb, hiff⟩ := ha.answers fun hn => hs (ha.reads _ hn)
    exact ⟨b, hb, isAnswer_iff.mpr hiff⟩

/-- One field has the name of the check's own settings. -/
def settingsSchema : Schema :=
  textSchema "model_config" (by decide) ((Filter.Keyword.ofWord?_eq_none_iff _).mpr (by decide))
    (by decide)

/-- The key is `a` or the other field is `x`, which is read first. -/
def eitherText (name : String) : Filter :=
  .node .or [.leaf name (.compare .eq) (.str "x"), .leaf "id" (.compare .eq) (.str "a")]

theorem test_compiled_iff_title :
    ∃ p b, compile titleSchema none (some 1) (some (eitherText "title")) = .ok p ∧
      titleSchema.records none [.map [(.str "id", .str "a"), (.str "title", .str "y")]] =
        .ok [[("id", .str "a"), ("title", .str "y")]] ∧
      p.test [("id", .str "a"), ("title", .str "y")] = .ok b ∧
      (b = true ↔ HoldsIfAny (valuesOf [("id", .str "a"), ("title", .str "y")])
        (some (eitherText "title"))) := by
  have hc : compile titleSchema none (some 1) (some (eitherText "title")) =
      .ok (.live (.any [.test "title" (.compare .eq (.str "x")),
        .test "id" (.compare .eq (.str "a"))])) := rfl
  have hr : titleSchema.records none [.map [(.str "id", .str "a"), (.str "title", .str "y")]] =
      .ok [[("id", .str "a"), ("title", .str "y")]] := rfl
  have hs : settingsName ∉ titleSchema.fieldNames := by decide
  have hlists : ∀ f ∈ some (eitherText "title"),
      ¬f.ListsOwnNan (valuesOf [("id", .str "a"), ("title", .str "y")]) := by
    rintro _ ⟨⟩ ⟨field, operator, literal, hleaf, ho, -⟩
    cases hleaf with
    | node hc hleaf =>
        rcases List.mem_pair.mp hc with rfl | rfl <;> cases hleaf <;> simp at ho
  obtain ⟨b, hb, hanswer⟩ := (test_compiled_iff hc hr (List.mem_singleton_self _)).2.2 hs
  exact ⟨_, b, hc, hr, hb, hanswer.holds hlists⟩

/-- The row is accepted and the filter compiles. The filter holds whatever the other field is,
but the predicate reads that field first and fails. -/
theorem test_settingsSchema_fails :
    settingsSchema.records none [.map [(.str "id", .str "a")]] = .ok [[("id", .str "a")]] ∧
    (∀ row, row "id" = .str "a" → Holds row (eitherText settingsName)) ∧
    ∃ p, compile settingsSchema none (some 128) (some (eitherText settingsName)) = .ok p ∧
      p.test [("id", .str "a")] = .error (.missingKey settingsName) := by
  refine ⟨rfl, fun row hid => ?_, _, rfl, rfl⟩
  have hkey : (Operator.compare .eq).Holds (row "id") (.str "a") := by
    rw [hid]
    rfl
  exact .inr (.inl hkey)

end Filter

end ScalarStore
