import ScalarStore.Proofs.Query.Selection

/-! # Failed queries

Whether a query fails, and how, does not depend on the rows: two runs of one request on two
contents of a collection go through the same checks, and nothing that is done with a row fails.
There is one exception. A field with the name of the check's own settings can be declared but
takes no value, and is only found missing when it is read in a row. -/

namespace ScalarStore

/-! ## Outcomes of two runs -/

section Outcomes

variable {α β γ δ : Type} {exempt : Fault → Prop}

/-- Two outcomes are alike if both are values or both are one fault. A fault that is exempt is
alike to everything. -/
inductive Alike (exempt : Fault → Prop) : Except Fault α → Except Fault β → Prop
  | ok (a : α) (b : β) : Alike exempt (.ok a) (.ok b)
  | error (fault : Fault) : Alike exempt (.error fault) (.error fault)
  | left {fault : Fault} {y : Except Fault β} (h : exempt fault) : Alike exempt (.error fault) y
  | right {x : Except Fault α} {fault : Fault} (h : exempt fault) : Alike exempt x (.error fault)

/-- An outcome that is a value or an exempt fault. -/
def FailsOnly (exempt : Fault → Prop) (x : Except Fault α) : Prop :=
  ∀ fault, x = .error fault → exempt fault

theorem FailsOnly.of_ok (a : α) : FailsOnly exempt (.ok a) := fun _ h => nomatch h

theorem FailsOnly.bind {x : Except Fault α} {f : α → Except Fault β} (hx : FailsOnly exempt x)
    (hf : ∀ a, x = .ok a → FailsOnly exempt (f a)) : FailsOnly exempt (x >>= f) := by
  intro fault h
  cases hout : x with
  | error first =>
      rw [hout] at h
      cases h
      exact hx _ hout
  | ok a =>
      rw [hout] at h
      exact hf a hout fault h

theorem FailsOnly.mapM {f : α → Except Fault β} {items : List α}
    (h : ∀ item ∈ items, FailsOnly exempt (f item)) : FailsOnly exempt (items.mapM f) := by
  induction items with
  | nil => exact .of_ok []
  | cons item rest ih =>
      obtain ⟨hitem, hrest⟩ := List.forall_mem_cons.mp h
      rw [List.mapM_cons]
      exact hitem.bind fun b _ => (ih hrest).bind fun bs _ => .of_ok (b :: bs)

namespace Alike

variable {x : Except Fault α} {y : Except Fault β}

theorem bind (h : Alike exempt x y) {f : α → Except Fault γ} {g : β → Except Fault δ}
    (hfg : ∀ a b, x = .ok a → y = .ok b → Alike exempt (f a) (g b)) :
    Alike exempt (x >>= f) (y >>= g) := by
  cases h with
  | ok a b => exact hfg a b rfl rfl
  | error fault => exact .error fault
  | left he => exact .left he
  | right he => exact .right he

/-- A check that both runs make. -/
theorem bind_same {f : α → Except Fault γ} {g : α → Except Fault δ}
    (hfg : ∀ a, x = .ok a → Alike exempt (f a) (g a)) : Alike exempt (x >>= f) (x >>= g) := by
  cases x with
  | error fault => exact .error fault
  | ok a => exact hfg a rfl

theorem of_failsOnly (hx : FailsOnly exempt x) (hy : FailsOnly exempt y) : Alike exempt x y := by
  cases x with
  | error fault => exact .left (hx fault rfl)
  | ok a =>
      cases y with
      | error fault => exact .right (hy fault rfl)
      | ok b => exact .ok a b

/-- Without exempt faults both runs fail alike. -/
theorem error_iff (h : Alike exempt x y) (hn : ∀ fault, ¬exempt fault) (fault : Fault) :
    x = .error fault ↔ y = .error fault := by
  cases h with
  | ok a b => exact ⟨nofun, nofun⟩
  | error other => rw [Except.error.injEq, Except.error.injEq]
  | left he => exact absurd he (hn _)
  | right he => exact absurd he (hn _)

theorem of_error {fault : Fault} (h : Alike exempt (.error fault : Except Fault α) y) :
    y = .error fault ∨ exempt fault ∨ ∃ other, exempt other ∧ y = .error other := by
  cases h with
  | error _ => exact .inl rfl
  | left he => exact .inr (.inl he)
  | right he => exact .inr (.inr ⟨_, he, rfl⟩)

end Alike

end Outcomes

/-! ## The field that takes no value -/

open Schema (settingsName)

/-- The fault of reading the field of the check's own settings, if the schema declares it. -/
def Schema.IsExempt (schema : Schema) (fault : Fault) : Prop :=
  settingsName ∈ schema.fieldNames ∧ fault = .missingKey settingsName

theorem Reads.Answers.failsOnly {schema : Schema} {reads : Reads Bool} {q : Prop}
    (h : reads.Answers schema q) : FailsOnly schema.IsExempt reads.result := by
  intro fault hf
  by_cases hn : settingsName ∈ reads.names
  · rw [h.fails hn] at hf
    exact ⟨h.reads _ hn, (Except.error.inj hf).symm⟩
  · obtain ⟨b, hb, -⟩ := h.answers hn
    rw [hb] at hf
    cases hf

namespace Collection

/-- Collections that differ in their rows and keys alone. -/
structure Agrees (c d : Collection) : Prop where
  name : d.name = c.name
  schema : d.schema = c.schema
  settings : d.settings = c.settings
  partitions : ∀ name, d.hasPartition name = c.hasPartition name
  properties : ∀ key, d.properties.get? key = c.properties.get? key

variable {c d : Collection}

theorem Agrees.partitionOf (h : c.Agrees d) : d.partitionOf = c.partitionOf := by
  funext v
  unfold Collection.partitionOf
  simp only [h.partitions, h.name]

theorem Agrees.ttl (h : c.Agrees d) : d.ttl = c.ttl := by
  unfold Collection.ttl Properties.ttl?
  rw [h.properties]

theorem Agrees.alike_snapshot (h : c.Agrees d) (exempt : Fault → Prop) (now : Binary64)
    (names : List Value) : Alike exempt (c.snapshot now names) (d.snapshot now names) := by
  unfold Collection.snapshot
  rw [h.partitionOf, h.ttl]
  refine Alike.bind_same fun texts _ => Alike.bind_same fun seconds _ => ?_
  by_cases hs : seconds ≤ 0
  · rw [if_pos hs, if_pos hs]
    exact .ok _ _
  · rw [if_neg hs, if_neg hs]
    cases Binary64.ofInt? seconds with
    | none => exact .error _
    | some age => exact .ok _ _

end Collection

namespace Request

variable {c d : Collection} {now : Binary64} {r : Request}

/-! ## Steps of an answer -/

theorem expand_of_agrees (h : c.Agrees d) (name : String) : expand d name = expand c name := by
  unfold expand
  rw [h.schema, h.name]

theorem outputFields_of_agrees (h : c.Agrees d) (output : List Value) :
    outputFields d output = outputFields c output := by
  unfold outputFields Collection.primaryName
  simp only [expand_of_agrees h, h.schema]

theorem alike_restrict (exempt : Fault → Prop) (ids : Option (Supplied (List Value)))
    (rows others : List StoredRow) :
    Alike exempt (restrict c ids rows) (restrict d ids others) := by
  cases ids with
  | none => exact .ok _ _
  | some given => exact Alike.bind_same fun items _ => Alike.bind_same fun allowed _ => .ok _ _

theorem alike_page {α β : Type} (exempt : Fault → Prop) (offset : Number) (limit : Option Number)
    (items : List α) (others : List β) :
    Alike exempt (page offset limit items) (page offset limit others) := by
  refine Alike.bind_same fun start _ => ?_
  cases limit with
  | none => exact .ok _ _
  | some limit => exact Alike.bind_same fun count _ => .ok _ _

/-- A compiled predicate fails on a row at most for the field that takes no value. -/
theorem failsOnly_matching {limit : Option ℤ} {filter : Option Filter} {p : Predicate}
    (hc : c.Invariant) (hp : Filter.compile c.schema (some c.name) limit filter = .ok p)
    {rows : List StoredRow} (hrows : rows ⊆ c.stored) :
    FailsOnly c.schema.IsExempt (matching p rows) := by
  refine FailsOnly.bind (FailsOnly.mapM fun row hm => ?_) fun answers _ => .of_ok _
  have hconforms := hc.conforms row (hrows hm)
  obtain ⟨values, hvalues⟩ := Schema.exists_completes hconforms
  exact (Filter.answers_compile hconforms hvalues hp).failsOnly.bind fun b _ => .of_ok _

/-- Stored rows have a value at every other field of the schema. -/
theorem failsOnly_project (hc : c.Invariant) {fields : List String}
    (hfields : fields ⊆ c.schema.fieldNames) {rows : List StoredRow} (hrows : rows ⊆ c.stored) :
    FailsOnly c.schema.IsExempt (rows.mapM (project fields)) := by
  refine FailsOnly.mapM fun row hrow => FailsOnly.mapM fun name hname => ?_
  obtain ⟨field, hfield, rfl⟩ := List.mem_map.mp (hfields hname)
  have hconforms := hc.conforms row (hrows hrow)
  by_cases hs : field.name = settingsName
  · rw [hs, hconforms.noSettings]
    rintro fault ⟨⟩
    exact ⟨hs ▸ hfields hname, rfl⟩
  · obtain ⟨v, hv, -⟩ := hconforms.value field (Schema.mem_rowFields.mpr ⟨hfield, hs⟩)
    rw [hv]
    exact .of_ok _

/-! ## Answers -/

/-- The part of an answer that reads rows. -/
def readRows (c : Collection) (now : Binary64) (r : Request) (isCount : Bool) (p : Predicate)
    (fields : List String) (names : List Value) : Except Fault (List Record) := do
  let live ← c.snapshot now names
  let candidates ← restrict c r.ids live
  let matched ← matching p candidates
  if isCount then return [[(countAll, .int matched.length)]]
  (← page r.offset r.limit matched).mapM (project fields)

theorem subset_stored_of_restrict {names : List Value} {live found : List StoredRow}
    (hlive : c.snapshot now names = .ok live) (hfound : restrict c r.ids live = .ok found) :
    found ⊆ c.stored := by
  intro row hm
  exact (Collection.snapshot_subperm hlive).subset ((restrict_sublist hfound).subset hm)

theorem alike_readRows (hc : c.Invariant) (hd : d.Invariant) (h : c.Agrees d)
    {limit : Option ℤ} {filter : Option Filter} {p : Predicate}
    (hp : Filter.compile c.schema (some c.name) limit filter = .ok p) (isCount : Bool)
    {fields : List String} (hfields : fields ⊆ c.schema.fieldNames) (names : List Value) :
    Alike c.schema.IsExempt (readRows c now r isCount p fields names)
      (readRows d now r isCount p fields names) := by
  have hp' : Filter.compile d.schema (some d.name) limit filter = .ok p := by
    rw [h.schema, h.name, hp]
  have hfields' : fields ⊆ d.schema.fieldNames := by rwa [h.schema]
  refine (h.alike_snapshot _ now names).bind fun live others hlive hothers => ?_
  refine (alike_restrict _ r.ids live others).bind fun found found' hfound hfound' => ?_
  have hsub : found ⊆ c.stored := subset_stored_of_restrict hlive hfound
  have hsub' : found' ⊆ d.stored := subset_stored_of_restrict hothers hfound'
  have hmatching := failsOnly_matching hc hp hsub
  have hmatching' := failsOnly_matching hd hp' hsub'
  rw [h.schema] at hmatching'
  refine (Alike.of_failsOnly hmatching hmatching').bind fun matched matched' hm hm' => ?_
  cases isCount with
  | true => exact .ok _ _
  | false =>
      refine (alike_page _ r.offset r.limit matched matched').bind fun rows rows' hpage hpage' => ?_
      have hrows : rows ⊆ c.stored :=
        List.Subset.trans ((page_sublist hpage).trans (matching_sublist hm)).subset hsub
      have hrows' : rows' ⊆ d.stored :=
        List.Subset.trans ((page_sublist hpage').trans (matching_sublist hm')).subset hsub'
      have hproject := failsOnly_project hc hfields hrows
      have hproject' := failsOnly_project hd hfields' hrows'
      rw [h.schema] at hproject'
      exact Alike.of_failsOnly hproject hproject'

/-- The checks before the first row are the same on two contents, and reading the rows does not
fail but for the field that takes no value. -/
theorem alike_answer (hc : c.Invariant) (hd : d.Invariant) (h : c.Agrees d)
    (filter : Option Filter) (limit : Option ℤ) :
    Alike c.schema.IsExempt (r.answer c now filter limit) (r.answer d now filter limit) := by
  unfold answer
  simp only [h.settings, h.schema, h.name, outputFields_of_agrees h]
  refine Alike.bind_same fun isCount _ => ?_
  by_cases hempty : filter.isNone ∧ r.ids.isNone ∧ r.limit.isNone ∧ !isCount
  · rw [if_pos hempty, if_pos hempty]
    exact .error _
  · rw [if_neg hempty, if_neg hempty]
    refine Alike.bind_same fun _ _ => Alike.bind_same fun p hp => ?_
    cases isCount with
    | true =>
        refine Alike.bind_same fun fields hfields => ?_
        cases hfields
        exact Alike.bind_same fun names _ =>
          alike_readRows hc hd h hp true (List.nil_subset _) names
    | false =>
        refine Alike.bind_same fun output _ => Alike.bind_same fun fields hfields => ?_
        obtain ⟨-, -, -, hsub⟩ := outputFields_eq_ok hfields
        exact Alike.bind_same fun names _ => alike_readRows hc hd h hp false hsub names

theorem alike_run (hc : c.Invariant) (hd : d.Invariant) (h : c.Agrees d)
    (parsed : Except Fault (Option Filter)) :
    Alike c.schema.IsExempt (r.run c now parsed) (r.run d now parsed) := by
  unfold run
  rw [h.settings]
  exact Alike.bind_same fun read _ => alike_answer hc hd h read.1 read.2

end Request

/-! ## Contents of one collection -/

namespace Collection

variable {settings : Settings} {name : String} {schema : Schema} {c d : Collection}
  {properties description properties' description' : Value} {start start' : Binary64}
  {actions actions' : List Action} {s t : Clocked}

/-- One request on two contents of a collection, with the same partitions and properties at the
same time, fails on both with one fault or on neither, unless the schema declares the field that
takes no value. If it does, a run may in addition fail because that field is missing. -/
theorem failed_run_iff (hc : new settings name schema properties description = .ok c)
    (hd : new settings name schema properties' description' = .ok d)
    (hs : Clocked.run ⟨c, start⟩ actions = s) (ht : Clocked.run ⟨d, start'⟩ actions' = t)
    (hpartitions : ∀ partition,
      t.collection.hasPartition partition = s.collection.hasPartition partition)
    (hproperties : ∀ key, t.collection.properties.get? key = s.collection.properties.get? key)
    (now : Binary64) (r : Request) (parsed : Except Fault (Option Filter)) :
    (settingsName ∉ schema.fieldNames → ∀ fault,
      r.run s.collection now parsed = .error fault ↔
        r.run t.collection now parsed = .error fault) ∧
    ∀ fault, r.run s.collection now parsed = .error fault →
      r.run t.collection now parsed = .error fault ∨
      settingsName ∈ schema.fieldNames ∧ (fault = .missingKey settingsName ∨
        r.run t.collection now parsed = .error (.missingKey settingsName)) := by
  obtain ⟨hname, hschema, hsettings⟩ := Clocked.frame_of_run hc hs
  obtain ⟨hname', hschema', hsettings'⟩ := Clocked.frame_of_run hd ht
  have hinv : s.collection.Invariant := by
    rw [← hs]
    exact Clocked.invariant_run (invariant_new hc) actions
  have hinv' : t.collection.Invariant := by
    rw [← ht]
    exact Clocked.invariant_run (invariant_new hd) actions'
  have hagrees : s.collection.Agrees t.collection :=
    ⟨hname'.trans hname.symm, hschema'.trans hschema.symm, hsettings'.trans hsettings.symm,
      hpartitions, hproperties⟩
  have halike : Alike schema.IsExempt (r.run s.collection now parsed)
      (r.run t.collection now parsed) := hschema ▸ Request.alike_run hinv hinv' hagrees parsed
  refine ⟨fun hn fault => halike.error_iff (fun _ he => hn he.1) fault, fun fault hfault => ?_⟩
  rw [hfault] at halike
  rcases halike.of_error with hsame | ⟨hm, rfl⟩ | ⟨_, ⟨hm, rfl⟩, hother⟩
  · exact .inl hsame
  · exact .inr ⟨hm, .inl rfl⟩
  · exact .inr ⟨hm, .inr hother⟩

/-- A request for the rows of a filter. -/
def rowsWith (filter : Filter) : Request where
  collection := "c"
  filter := .tree filter
  ids := none
  partitions := .ok []
  consistency := .bounded
  output := .ok []
  limit := none
  offset := .whole 0

/-- A row without the second field of its schema, or with it. -/
def oneRow (rest : List (Value × Value)) : List Action :=
  [.insert [.map ((.str "id", .str "a") :: rest)] none]

theorem failed_run_iff_title :
    ∃ c s t, new {} "c" titleSchema .null .null = .ok c ∧ Clocked.run ⟨c, .zero false⟩ [] = s ∧
      Clocked.run ⟨c, .zero false⟩ (oneRow [(.str "title", .str "x")]) = t ∧
      t.collection.keys = [.str "a"] ∧
      ∀ filter now fault, (rowsWith filter).run s.collection now (.ok none) = .error fault ↔
        (rowsWith filter).run t.collection now (.ok none) = .error fault := by
  obtain ⟨c, hc⟩ : ∃ c, new {} "c" titleSchema .null .null = .ok c := ⟨_, rfl⟩
  have hs : settingsName ∉ titleSchema.fieldNames := by decide
  refine ⟨c, _, _, hc, rfl, rfl, ?_, fun filter now => ?_⟩
  · cases hc
    rfl
  · refine (failed_run_iff hc hc rfl rfl ?_ ?_ now (rowsWith filter) (.ok none)).1 hs
    · cases hc
      intro partition
      rfl
    · cases hc
      intro key
      rfl

/-- One more row makes a request fail that succeeds without it, because the field that takes no
value is read first. -/
theorem run_settingsSchema_differs :
    ∃ c s t, new {} "c" Filter.settingsSchema .null .null = .ok c ∧
      Clocked.run ⟨c, .zero false⟩ [] = s ∧ Clocked.run ⟨c, .zero false⟩ (oneRow []) = t ∧
      (∀ partition, t.collection.hasPartition partition = s.collection.hasPartition partition) ∧
      (∀ key, t.collection.properties.get? key = s.collection.properties.get? key) ∧
      (rowsWith (Filter.eitherText settingsName)).run s.collection s.now (.ok none) = .ok [] ∧
      (rowsWith (Filter.eitherText settingsName)).run t.collection t.now (.ok none) =
        .error (.missingKey settingsName) := by
  obtain ⟨c, hc⟩ : ∃ c, new {} "c" Filter.settingsSchema .null .null = .ok c := ⟨_, rfl⟩
  refine ⟨c, _, _, hc, rfl, rfl, ?_⟩
  cases hc
  exact ⟨fun _ => rfl, fun _ => rfl, rfl, rfl⟩

end Collection

end ScalarStore
