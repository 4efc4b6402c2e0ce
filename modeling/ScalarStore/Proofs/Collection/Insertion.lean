import ScalarStore.Proofs.Collection.Loading
import ScalarStore.Proofs.Schema.Acceptance
import ScalarStore.Proofs.Session.Failure

/-! # What an insertion does with a batch

A batch is taken as a whole or refused as a whole. It is taken if its rows fit, its partition is
there and its keys are new, which is asked in this order; what is stored otherwise is what was
stored before. -/

namespace ScalarStore

namespace Collection

variable {c d : Collection} {target : String} {rows : List (List (Value × Value))}
  {records : List Record}

/-! ## Keys in batch order -/

/-- The first key that is taken has only free keys before it. -/
theorem firstTaken_eq_some_iff {taken keys : List Value} {key : Value}
    (ht : ∀ other ∈ taken, other.IsPlain) (hk : ∀ other ∈ keys, other.IsPlain) :
    firstTaken taken keys = some key ↔ ∃ before after, keys = before ++ key :: after ∧
      firstTaken taken before = none ∧ (key ∈ taken ∨ key ∈ before) := by
  induction keys generalizing taken with
  | nil => simp [firstTaken]
  | cons first rest ih =>
      obtain ⟨hfirst, hrest⟩ := List.forall_mem_cons.mp hk
      have hany := Value.any_same_iff hfirst ht
      rw [firstTaken]
      split
      · next htaken =>
          -- No front of the keys that holds this one is free, so the front is empty.
          have hm := hany.mp htaken
          rw [Option.some.injEq]
          constructor
          · rintro rfl
            exact ⟨[], rest, rfl, rfl, .inl hm⟩
          · rintro ⟨before, after, hsplit, hfree, -⟩
            cases before with
            | nil => exact (List.cons.inj hsplit).1
            | cons other before =>
                obtain ⟨rfl, -⟩ := List.cons.inj hsplit
                rw [firstTaken, if_pos htaken] at hfree
                cases hfree
      · next htaken =>
          have hm : first ∉ taken := fun hm => htaken (hany.mpr hm)
          rw [ih (List.forall_mem_cons.mpr ⟨hfirst, ht⟩) hrest]
          constructor
          · rintro ⟨before, after, rfl, hfree, hkey⟩
            refine ⟨first :: before, after, rfl, by rwa [firstTaken, if_neg htaken], ?_⟩
            simp only [List.mem_cons] at hkey ⊢
            tauto
          · rintro ⟨before, after, hsplit, hfree, hkey⟩
            cases before with
            | nil =>
                obtain ⟨rfl, -⟩ := List.cons.inj hsplit
                exact absurd (hkey.resolve_right List.not_mem_nil) hm
            | cons other before =>
                obtain ⟨rfl, rfl⟩ := List.cons.inj hsplit
                rw [firstTaken, if_neg htaken] at hfree
                refine ⟨before, after, rfl, hfree, ?_⟩
                simp only [List.mem_cons] at hkey ⊢
                tauto

/-! ## Batches -/

/-- Nothing speaks against a batch: its rows fit, its partition is there, and its keys differ from
each other and from those of all stored rows, hidden ones included. -/
structure Admits (c : Collection) (rows : List (List (Value × Value))) (target : String)
    (records : List Record) : Prop where
  fit : List.Forall₂ (c.schema.Fits c.settings.defaultLength) rows records
  present : target ∈ c.partitionNames
  distinct : (records.map c.keyOf).Nodup
  unused : ∀ key ∈ records.map c.keyOf, key ∉ c.keysOf c.stored

/-- Why a batch is refused, the first reason that applies. -/
inductive Refuses (c : Collection) (rows : List (List (Value × Value))) (target : String) :
    Fault → Prop
  | misfit {before : List (List (Value × Value))} {row : List (Value × Value)}
      (hfirst : c.schema.FirstMisfit c.settings.defaultLength rows before row) :
      Refuses c rows target (.row (some before.length)
        (.entries (c.schema.issues c.settings.defaultLength row)))
  | noPartition {records : List Record}
      (hfit : List.Forall₂ (c.schema.Fits c.settings.defaultLength) rows records)
      (hmissing : target ∉ c.partitionNames) :
      Refuses c rows target (.partitionNotFound target c.name)
  | keyTaken {records : List Record} {before after : List Value} {key : Value}
      (hfit : List.Forall₂ (c.schema.Fits c.settings.defaultLength) rows records)
      (hpresent : target ∈ c.partitionNames)
      (hkeys : records.map c.keyOf = before ++ key :: after)
      (hdistinct : before.Nodup) (hunused : ∀ other ∈ before, other ∉ c.keysOf c.stored)
      (htaken : key ∈ c.keysOf c.stored ∨ key ∈ before) :
      Refuses c rows target (.duplicateKey key c.name)

/-- A collection whose rows can be checked: no field has one of the two names that a check keeps
for itself. -/
structure Checkable (c : Collection) : Prop where
  invariant : c.Invariant
  possible : c.schema.rowFault? c.settings.defaultLength = none
  noSettings : Schema.settingsName ∉ c.schema.fieldNames
  noFinal : Schema.finalStep ∉ c.schema.fieldNames

namespace Checkable

theorem records_eq_ok_iff (h : c.Checkable) :
    c.schema.records c.settings.defaultLength (rows.map .map) = .ok records ↔
      List.Forall₂ (c.schema.Fits c.settings.defaultLength) rows records := by
  rw [Schema.records, h.possible]
  exact Schema.recordsFrom_eq_ok_iff h.noSettings h.noFinal

theorem records_eq_error_iff (h : c.Checkable) {fault : Fault} :
    c.schema.records c.settings.defaultLength (rows.map .map) = .error fault ↔
      ∃ before row, c.schema.FirstMisfit c.settings.defaultLength rows before row ∧
        fault = .row (some before.length)
          (.entries (c.schema.issues c.settings.defaultLength row)) := by
  rw [Schema.records, h.possible]
  dsimp only
  rw [Schema.recordsFrom_eq_error_iff h.noSettings h.noFinal]
  simp only [Nat.zero_add]

/-- Rows fit with one list of records at most. -/
theorem fit_unique (h : c.Checkable) {others : List Record}
    (hfit : List.Forall₂ (c.schema.Fits c.settings.defaultLength) rows records)
    (hother : List.Forall₂ (c.schema.Fits c.settings.defaultLength) rows others) :
    others = records :=
  Except.ok.inj ((h.records_eq_ok_iff.mpr hother).symm.trans (h.records_eq_ok_iff.mpr hfit))

/-- A record of a row that fits has a key, of a kind that keys can have. -/
theorem key_of_fit (h : c.Checkable)
    (hfit : List.Forall₂ (c.schema.Fits c.settings.defaultLength) rows records) :
    ∀ record ∈ records, record.lookup c.primaryName = some (c.keyOf record) ∧
      (c.keyOf record).IsPlain := by
  intro record hm
  have hconf := Schema.conforms_of_mem_records (h.records_eq_ok_iff.mpr hfit) hm
  obtain ⟨hprimary, -⟩ := c.schema.primary_mem
  have hfield : c.schema.primary ∈ c.schema.rowFields := by
    rwa [Schema.rowFields_of_not_mem h.noSettings]
  obtain ⟨key, hkey, -⟩ := hconf.value _ hfield
  have hof : c.keyOf record = key := by
    rw [keyOf, primaryName, hkey]
    rfl
  rw [hof]
  exact ⟨hkey, hconf.isPlain hkey⟩

theorem isPlain_of_fit (h : c.Checkable)
    (hfit : List.Forall₂ (c.schema.Fits c.settings.defaultLength) rows records) :
    ∀ key ∈ records.map c.keyOf, key.IsPlain :=
  List.forall_mem_map.mpr fun record hm => (h.key_of_fit hfit record hm).2

/-- Rows that fit are stored unless their partition is missing or a key is taken. -/
theorem insert_of_fit (h : c.Checkable) (now : Binary64) (partition : Option String)
    (hfit : List.Forall₂ (c.schema.Fits c.settings.defaultLength) rows records) :
    c.insert now (rows.map .map) partition =
      if c.targetPartition partition ∈ c.partitionNames then
        match firstTaken c.keys (records.map c.keyOf) with
        | some key => .error (.duplicateKey key c.name)
        | none =>
            .ok (records.map c.keyOf, c.withRecords now (c.targetPartition partition) records)
      else .error (.partitionNotFound (c.targetPartition partition) c.name) := by
  have hkeys := mapM_keyFrom_of_lookup fun record hm => (h.key_of_fit hfit record hm).1
  rw [insert, h.records_eq_ok_iff.mpr hfit]
  simp only [bind, Except.bind, hkeys]
  split
  · next hnone =>
      have hmissing : c.targetPartition partition ∉ c.partitionNames :=
        (c.partitions.get?_eq_none_iff _).mp hnone
      rw [if_neg hmissing]
      rfl
  · next held hheld =>
      rw [if_pos (show _ ∈ c.partitionNames from Table.mem_keys_of_get? hheld)]
      cases firstTaken c.keys (records.map c.keyOf) with
      | some key => rfl
      | none =>
          rw [withRecords, rowsIn_of_get? hheld]
          rfl

/-- The list of keys tells whether a key of the batch is stored. -/
theorem firstTaken_eq_none_iff_unused (h : c.Checkable) {keys : List Value}
    (hk : ∀ key ∈ keys, key.IsPlain) : firstTaken c.keys keys = none ↔
      keys.Nodup ∧ ∀ key ∈ keys, key ∉ c.keysOf c.stored := by
  rw [firstTaken_eq_none_iff (fun key hm => h.invariant.isPlain hm) hk]
  simp only [h.invariant.keys_perm.mem_iff]

theorem insert_eq_ok_iff (h : c.Checkable) (now : Binary64) (partition : Option String)
    {keys : List Value} : c.insert now (rows.map .map) partition = .ok (keys, d) ↔
      ∃ records, c.Admits rows (c.targetPartition partition) records ∧
        keys = records.map c.keyOf ∧
        d = c.withRecords now (c.targetPartition partition) records := by
  constructor
  · intro hd
    obtain ⟨records, hr, -, hfree, hpresent, rfl, rfl⟩ := insert_eq_ok hd
    have hfit := h.records_eq_ok_iff.mp hr
    obtain ⟨hdistinct, hunused⟩ :=
      (h.firstTaken_eq_none_iff_unused (h.isPlain_of_fit hfit)).mp hfree
    exact ⟨records, ⟨hfit, hpresent, hdistinct, hunused⟩, rfl, rfl⟩
  · rintro ⟨records, ⟨hfit, hpresent, hdistinct, hunused⟩, rfl, rfl⟩
    have hfree := (h.firstTaken_eq_none_iff_unused (h.isPlain_of_fit hfit)).mpr
      ⟨hdistinct, hunused⟩
    rw [h.insert_of_fit now partition hfit, if_pos hpresent, hfree]

/-- Rows that fit are refused for their partition or for the first of their keys that is taken. -/
theorem refuses_of_fit (h : c.Checkable)
    (hfit : List.Forall₂ (c.schema.Fits c.settings.defaultLength) rows records) {fault : Fault} :
    c.Refuses rows target fault ↔
      (target ∉ c.partitionNames ∧ fault = .partitionNotFound target c.name) ∨
        target ∈ c.partitionNames ∧ ∃ key,
          firstTaken c.keys (records.map c.keyOf) = some key ∧
            fault = .duplicateKey key c.name := by
  have hheld : ∀ key ∈ c.keys, key.IsPlain := fun key hm => h.invariant.isPlain hm
  have hplain := h.isPlain_of_fit hfit
  constructor
  · rintro (⟨hfirst⟩ | ⟨-, hmissing⟩ | ⟨hother, hpresent, hkeys, hdistinct, hunused, htaken⟩)
    · have herror := h.records_eq_error_iff.mpr ⟨_, _, hfirst, rfl⟩
      cases herror.symm.trans (h.records_eq_ok_iff.mpr hfit)
    · exact .inl ⟨hmissing, rfl⟩
    · rw [h.fit_unique hfit hother] at hkeys
      have hfront := (h.firstTaken_eq_none_iff_unused fun key hm =>
        hplain key (hkeys ▸ List.mem_append_left _ hm)).mpr ⟨hdistinct, hunused⟩
      rw [← h.invariant.keys_perm.mem_iff] at htaken
      exact .inr ⟨hpresent, _, (firstTaken_eq_some_iff hheld hplain).mpr
        ⟨_, _, hkeys, hfront, htaken⟩, rfl⟩
  · rintro (⟨hmissing, rfl⟩ | ⟨hpresent, key, hkey, rfl⟩)
    · exact .noPartition hfit hmissing
    · obtain ⟨before, after, hkeys, hfront, htaken⟩ :=
        (firstTaken_eq_some_iff hheld hplain).mp hkey
      obtain ⟨hdistinct, hunused⟩ := (h.firstTaken_eq_none_iff_unused fun key hm =>
        hplain key (hkeys ▸ List.mem_append_left _ hm)).mp hfront
      rw [h.invariant.keys_perm.mem_iff] at htaken
      exact .keyTaken hfit hpresent hkeys hdistinct hunused htaken

theorem insert_eq_error_iff (h : c.Checkable) (now : Binary64) (partition : Option String)
    {fault : Fault} : c.insert now (rows.map .map) partition = .error fault ↔
      c.Refuses rows (c.targetPartition partition) fault := by
  cases hr : c.schema.records c.settings.defaultLength (rows.map .map) with
  | error found =>
      have hinsert : c.insert now (rows.map .map) partition = .error found := by
        rw [insert, hr]
        rfl
      rw [hinsert, Except.error.injEq]
      constructor
      · rintro rfl
        obtain ⟨before, row, hfirst, rfl⟩ := h.records_eq_error_iff.mp hr
        exact .misfit hfirst
      · rintro (⟨hfirst⟩ | ⟨hfit, -⟩ | ⟨hfit, -⟩)
        · exact Except.error.inj
            (hr.symm.trans (h.records_eq_error_iff.mpr ⟨_, _, hfirst, rfl⟩))
        · cases hr.symm.trans (h.records_eq_ok_iff.mpr hfit)
        · cases hr.symm.trans (h.records_eq_ok_iff.mpr hfit)
  | ok records =>
      have hfit := h.records_eq_ok_iff.mp hr
      rw [h.insert_of_fit now partition hfit, h.refuses_of_fit hfit]
      by_cases hpresent : c.targetPartition partition ∈ c.partitionNames
      · cases firstTaken c.keys (records.map c.keyOf) <;> simp [hpresent, eq_comm]
      · simp [hpresent, eq_comm]

end Checkable

/-! ## Runs -/

theorem checkable_of_run {settings : Settings} {name : String} {schema : Schema}
    {properties description : Value} {made : Collection} {start : Binary64} {actions : List Action}
    (h : new settings name schema properties description = .ok made)
    (hc : (Clocked.run ⟨made, start⟩ actions).collection = c)
    (hsettings : Schema.settingsName ∉ schema.fieldNames)
    (hfinal : Schema.finalStep ∉ schema.fieldNames) : c.Checkable := by
  obtain ⟨-, hschema, hconfigured⟩ :=
    Clocked.frame_of_run (s := Clocked.run ⟨made, start⟩ actions) h rfl
  rw [hc] at hschema hconfigured
  exact {
    invariant := hc ▸ Clocked.invariant_run (invariant_new h) actions
    possible := by
      rw [hschema, hconfigured]
      exact rowFault?_of_newFault? (newFault?_of_new h)
    noSettings := hschema ▸ hsettings
    noFinal := hschema ▸ hfinal }

theorem ensure_maps (rows : List (List (Value × Value))) :
    Rows.ensure (.list (rows.map .map)) = .ok (rows.map .map) := by
  have hsame : (rows.map Value.map).mapM Rows.ofValue = .ok (rows.map .map) := by
    rw [mapM_eq_ok_iff, List.forall₂_same]
    refine List.forall_mem_map.mpr fun row _ => rfl
  simp [Rows.ensure, Value.items, bind, Except.bind, hsame]

/-- A batch of maps is inserted into a collection that a run has reached exactly if nothing speaks
against it. Its records then stand in input order behind the rows of its partition, all with one
reading of the clock, and nothing else has changed. Otherwise the first reason against it is its
fault, and nothing is written. -/
theorem insertion_of_run {settings : Settings} {name : String} {schema : Schema}
    {properties description : Value} {made : Collection} {start : Binary64} {actions : List Action}
    (h : new settings name schema properties description = .ok made)
    (hc : (Clocked.run ⟨made, start⟩ actions).collection = c)
    (hsettings : Schema.settingsName ∉ schema.fieldNames)
    (hfinal : Schema.finalStep ∉ schema.fieldNames) (now : Binary64)
    (rows : List (List (Value × Value))) (partition : Option String) :
    (∀ keys d, c.insert now (rows.map .map) partition = .ok (keys, d) ↔
      ∃ records, c.Admits rows (c.targetPartition partition) records ∧
        keys = records.map c.keyOf ∧
        d = c.withRecords now (c.targetPartition partition) records) ∧
    (∀ records, c.Admits rows (c.targetPartition partition) records →
      (c.withRecords now (c.targetPartition partition) records).partitionNames =
        c.partitionNames ∧
      ∀ other, (c.withRecords now (c.targetPartition partition) records).rowsIn other =
        if other = c.targetPartition partition
        then c.rowsIn other ++ newRows (c.targetPartition partition) now records
        else c.rowsIn other) ∧
    (∀ fault, c.insert now (rows.map .map) partition = .error fault ↔
      c.Refuses rows (c.targetPartition partition) fault) ∧
    ∀ fault, c.Refuses rows (c.targetPartition partition) fault →
      (InPlace.insert now (.list (rows.map .map)) partition).exec c = (.error fault, c) := by
  have hcheck := checkable_of_run h hc hsettings hfinal
  refine ⟨fun keys d => hcheck.insert_eq_ok_iff now partition, fun records hadmits => ⟨?_, ?_⟩,
    fun fault => hcheck.insert_eq_error_iff now partition, fun fault hrefuses => ?_⟩
  · rw [partitionNames_withRecords, if_pos hadmits.present]
  · exact rowsIn_withRecords c now _ records
  · rw [InPlace.exec_insert, ensure_maps]
    simp only [bind, Except.bind, (hcheck.insert_eq_error_iff now partition).mpr hrefuses]
    rfl

/-- A row with two texts. -/
def titleRow (id title : String) : List (Value × Value) :=
  [(.str "id", .str id), (.str "title", .str title)]

/-- The second row of the batch repeats the key of a row that is stored already. -/
theorem insertion_of_run_title :
    ∃ made c, new {} "c" titleSchema .null .null = .ok made ∧
      (Clocked.run ⟨made, .zero false⟩ [.insert [.map (titleRow "a" "x")] none]).collection = c ∧
      Schema.settingsName ∉ titleSchema.fieldNames ∧ Schema.finalStep ∉ titleSchema.fieldNames ∧
      c.Refuses [titleRow "b" "x", titleRow "a" "y"] "_default" (.duplicateKey (.str "a") "c") ∧
      (InPlace.insert (.zero false)
        (.list ([titleRow "b" "x", titleRow "a" "y"].map .map)) none).exec c =
          (.error (.duplicateKey (.str "a") "c"), c) := by
  obtain ⟨made, hmade⟩ : ∃ made, new {} "c" titleSchema .null .null = .ok made := ⟨_, rfl⟩
  have hsettings : Schema.settingsName ∉ titleSchema.fieldNames := by decide
  have hfinal : Schema.finalStep ∉ titleSchema.fieldNames := by decide
  obtain ⟨c, hc⟩ : ∃ c, (Clocked.run ⟨made, .zero false⟩
      [.insert [.map (titleRow "a" "x")] none]).collection = c := ⟨_, rfl⟩
  have hinsert : c.insert (.zero false) ([titleRow "b" "x", titleRow "a" "y"].map .map) none =
      .error (.duplicateKey (.str "a") "c") := by
    cases hmade
    cases hc
    rfl
  have htarget : c.targetPartition none = "_default" := by
    cases hmade
    cases hc
    rfl
  obtain ⟨-, -, hrefuses, hkept⟩ := insertion_of_run hmade hc hsettings hfinal (.zero false)
    [titleRow "b" "x", titleRow "a" "y"] none
  have hwhy := (hrefuses _).mp hinsert
  exact ⟨made, c, hmade, hc, hsettings, hfinal, htarget ▸ hwhy, hkept _ hwhy⟩

/-- The check does not know a field with the name of its settings. A row that has its value is
refused for it, and a row without it passes the check and fails later, for want of a key. -/
theorem insert_settingsKeySchema_fails :
    ∃ c, new {} "c" settingsKeySchema .null .null = .ok c ∧
      c.Admits [[(.str "model_config", .str "a")]] "_default" [[("model_config", .str "a")]] ∧
      c.insert (.zero false) ([[(.str "model_config", .str "a")]].map .map) none =
        .error (.row (some 0) (.entries [("model_config", .extra)])) ∧
      (¬∃ record, c.schema.Fits c.settings.defaultLength [] record) ∧
      c.insert (.zero false) [.map []] none = .error (.missingKey "model_config") := by
  obtain ⟨c, hc⟩ : ∃ c, new {} "c" settingsKeySchema .null .null = .ok c := ⟨_, rfl⟩
  refine ⟨c, hc, ?_⟩
  cases hc
  refine ⟨⟨.cons ⟨.cons ⟨rfl, rfl⟩ .nil, ?_⟩ .nil, List.mem_singleton_self _, ?_, ?_⟩, rfl, ?_, rfl⟩
  · intro entry hentry
    cases List.mem_singleton.mp hentry
    exact ⟨_, List.mem_singleton_self _, rfl⟩
  · exact List.nodup_singleton _
  · exact fun _ _ => List.not_mem_nil
  · rintro ⟨record, htaken, -⟩
    cases htaken with
    | cons hfirst _ => cases hfirst.2

end Collection

end ScalarStore
