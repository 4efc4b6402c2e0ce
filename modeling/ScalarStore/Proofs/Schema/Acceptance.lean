import ScalarStore.Proofs.Outcome
import ScalarStore.Proofs.Schema.Row

/-! # Rows that fit a schema

What the check of a row looks for, said field by field: each field takes its value from the row,
and the row has nothing else. A check takes exactly the rows that fit, if no field has one of the
two names that a check keeps for itself; a check of many rows stops at the first that does not. -/

namespace ScalarStore

namespace Schema

variable {schema : Schema} {defaultLength : Option Number} {row : List (Value × Value)}
  {record : Record}

/-- The record has, for each field in order, the value that the field takes from the row, and every
entry of the row is that of a field. -/
structure Fits (schema : Schema) (defaultLength : Option Number) (row : List (Value × Value))
    (record : Record) : Prop where
  taken : List.Forall₂ (fun f entry => entry.1 = f.name ∧
    f.acceptFrom defaultLength row = .ok entry.2) schema.fields record
  declared : ∀ entry ∈ row, ∃ f ∈ schema.fields, entry.1 = .str f.name

/-! ## One row -/

/-- Without a field under the name of the check's settings, all fields take a value. -/
theorem rowFields_of_not_mem (h : settingsName ∉ schema.fieldNames) :
    schema.rowFields = schema.fields := by
  refine List.filter_eq_self.mpr fun f hf => ?_
  have hne : f.name ≠ settingsName := fun he => h (he ▸ List.mem_map_of_mem hf)
  simpa using hne

theorem keyIssue?_eq_none_iff (h : settingsName ∉ schema.fieldNames) (key : Value) :
    schema.keyIssue? key = none ↔ ∃ f ∈ schema.fields, key = .str f.name := by
  cases key with
  | str name =>
      rw [keyIssue?, rowFields_of_not_mem h]
      simp [eq_comm]
  | _ => simp [keyIssue?]

/-- A list of fields takes its values one by one if none of them finds an issue. -/
theorem forall₂_acceptFrom_iff {fields : List Field} : List.Forall₂ (fun f entry =>
      entry.1 = f.name ∧ f.acceptFrom defaultLength row = .ok entry.2) fields record ↔
    (∀ f ∈ fields, ∃ v, f.acceptFrom defaultLength row = .ok v) ∧
      record = fields.filterMap fun f =>
        match f.acceptFrom defaultLength row with
        | .ok v => some (f.name, v)
        | .error _ => none := by
  induction fields generalizing record with
  | nil => simp [List.forall₂_nil_left_iff]
  | cons f fields ih =>
      rw [List.forall₂_cons_left_iff, List.forall_mem_cons]
      constructor
      · rintro ⟨⟨name, v⟩, rest, ⟨rfl, hv⟩, hrest, rfl⟩
        obtain ⟨hall, rfl⟩ := ih.mp hrest
        exact ⟨⟨⟨v, hv⟩, hall⟩, by simp [show f.acceptFrom defaultLength row = .ok v from hv]⟩
      · rintro ⟨⟨⟨v, hv⟩, hall⟩, rfl⟩
        exact ⟨(f.name, v), _, ⟨rfl, hv⟩, ih.mpr ⟨hall, rfl⟩, by simp [hv]⟩

theorem issues_eq_nil_iff (h : settingsName ∉ schema.fieldNames) :
    schema.issues defaultLength row = [] ↔
      (∀ f ∈ schema.fields, ∃ v, f.acceptFrom defaultLength row = .ok v) ∧
        ∀ entry ∈ row, ∃ f ∈ schema.fields, entry.1 = .str f.name := by
  rw [issues, rowFields_of_not_mem h, List.append_eq_nil_iff, List.filterMap_eq_nil_iff,
    List.filterMap_eq_nil_iff]
  refine and_congr (forall₂_congr fun f _ => ?_)
    (forall₂_congr fun entry _ => keyIssue?_eq_none_iff h entry.1)
  cases f.acceptFrom defaultLength row <;> simp

theorem record_eq_ok_iff (h : settingsName ∉ schema.fieldNames) :
    schema.record defaultLength row = .ok record ↔ schema.Fits defaultLength row record := by
  constructor
  · intro hr
    obtain ⟨hissues, hrecord⟩ := record_eq_ok hr
    obtain ⟨hall, hdeclared⟩ := (issues_eq_nil_iff h).mp hissues
    rw [rowFields_of_not_mem h] at hrecord
    exact ⟨forall₂_acceptFrom_iff.mpr ⟨hall, hrecord⟩, hdeclared⟩
  · rintro ⟨htaken, hdeclared⟩
    obtain ⟨hall, rfl⟩ := forall₂_acceptFrom_iff.mp htaken
    unfold Schema.record
    split
    · exact congrArg (fun fields => Except.ok (List.filterMap _ fields)) (rowFields_of_not_mem h)
    · next hissues => exact absurd ((issues_eq_nil_iff h).mpr ⟨hall, hdeclared⟩) hissues

/-- A row that fits in no way is told all that is wrong with it. -/
theorem record_eq_error_iff (h : settingsName ∉ schema.fieldNames)
    {found : List (String × EntryIssue)} : schema.record defaultLength row = .error found ↔
      (¬∃ record, schema.Fits defaultLength row record) ∧
        found = schema.issues defaultLength row := by
  constructor
  · intro hr
    refine ⟨?_, ?_⟩
    · rintro ⟨record, hfits⟩
      cases hr.symm.trans ((record_eq_ok_iff h).mpr hfits)
    · unfold Schema.record at hr
      split at hr
      · cases hr
      · exact (Except.error.inj hr).symm
  · rintro ⟨hnone, rfl⟩
    unfold Schema.record
    split
    · next hissues =>
        obtain ⟨hall, hdeclared⟩ := (issues_eq_nil_iff h).mp hissues
        exact absurd ⟨_, forall₂_acceptFrom_iff.mpr ⟨hall, rfl⟩, hdeclared⟩ hnone
    · rfl

/-! ## Many rows -/

/-- No value of a record is called when no field has the name of the final step. -/
theorem lookup_finalStep (h : finalStep ∉ schema.fieldNames)
    (hr : schema.record defaultLength row = .ok record) : record.lookup finalStep = none := by
  rw [lookup_eq_none_iff_not_mem, record_names hr]
  exact fun hname => h ((List.filter_sublist.map _).subset hname)

variable {rows : List (List (Value × Value))} {records : List Record} {index : Nat}

theorem recordsFrom_eq_ok_iff (hsettings : settingsName ∉ schema.fieldNames)
    (hfinal : finalStep ∉ schema.fieldNames) :
    schema.recordsFrom defaultLength index (rows.map .map) = .ok records ↔
      List.Forall₂ (schema.Fits defaultLength) rows records := by
  induction rows generalizing index records with
  | nil => simp [recordsFrom, eq_comm]
  | cons row rest ih =>
      rw [List.map_cons, recordsFrom, List.forall₂_cons_left_iff]
      cases hr : schema.record defaultLength row with
      | error found =>
          have hnone := ((record_eq_error_iff hsettings).mp hr).1
          simp only [reduceCtorEq, false_iff]
          rintro ⟨record, others, hfits, -⟩
          exact hnone ⟨record, hfits⟩
      | ok record =>
          dsimp only
          rw [lookup_finalStep hfinal hr]
          dsimp only
          rw [map_eq_ok_iff]
          constructor
          · rintro ⟨others, hothers, rfl⟩
            exact ⟨record, others, (record_eq_ok_iff hsettings).mp hr, ih.mp hothers, rfl⟩
          · rintro ⟨found, others, hfits, hothers, rfl⟩
            cases hr.symm.trans ((record_eq_ok_iff hsettings).mpr hfits)
            exact ⟨others, ih.mpr hothers, rfl⟩

/-- A row of a batch, and the rows before it, which all fit as it does not. -/
structure FirstMisfit (schema : Schema) (defaultLength : Option Number)
    (rows before : List (List (Value × Value))) (row : List (Value × Value)) : Prop where
  split : ∃ after, rows = before ++ row :: after
  fit : ∀ other ∈ before, ∃ record, schema.Fits defaultLength other record
  misfit : ¬∃ record, schema.Fits defaultLength row record

theorem not_firstMisfit_nil {before : List (List (Value × Value))} :
    ¬schema.FirstMisfit defaultLength [] before row := by
  rintro ⟨⟨after, hsplit⟩, -, -⟩
  simp at hsplit

theorem firstMisfit_cons_iff {first : List (Value × Value)}
    {before : List (List (Value × Value))} :
    schema.FirstMisfit defaultLength (first :: rows) before row ↔
      (before = [] ∧ row = first ∧ ¬∃ record, schema.Fits defaultLength first record) ∨
        ∃ others, before = first :: others ∧ (∃ record, schema.Fits defaultLength first record) ∧
          schema.FirstMisfit defaultLength rows others row := by
  constructor
  · rintro ⟨⟨after, hsplit⟩, hfit, hmisfit⟩
    cases before with
    | nil =>
        cases hsplit
        exact .inl ⟨rfl, rfl, hmisfit⟩
    | cons other others =>
        cases hsplit
        obtain ⟨hfirst, hothers⟩ := List.forall_mem_cons.mp hfit
        exact .inr ⟨others, rfl, hfirst, ⟨after, rfl⟩, hothers, hmisfit⟩
  · rintro (⟨rfl, rfl, hmisfit⟩ | ⟨others, rfl, hfirst, ⟨after, rfl⟩, hothers, hmisfit⟩)
    · exact ⟨⟨rows, rfl⟩, by simp, hmisfit⟩
    · exact ⟨⟨after, rfl⟩, List.forall_mem_cons.mpr ⟨hfirst, hothers⟩, hmisfit⟩

/-- A check of many rows fails with the place and the issues of the first that does not fit. -/
theorem recordsFrom_eq_error_iff (hsettings : settingsName ∉ schema.fieldNames)
    (hfinal : finalStep ∉ schema.fieldNames) {fault : Fault} :
    schema.recordsFrom defaultLength index (rows.map .map) = .error fault ↔
      ∃ before row, schema.FirstMisfit defaultLength rows before row ∧
        fault = .row (some (index + before.length))
          (.entries (schema.issues defaultLength row)) := by
  induction rows generalizing index with
  | nil => simp [recordsFrom, not_firstMisfit_nil]
  | cons first rest ih =>
      simp only [List.map_cons, recordsFrom, firstMisfit_cons_iff]
      cases hr : schema.record defaultLength first with
      | error found =>
          obtain ⟨hmisfit, rfl⟩ := (record_eq_error_iff hsettings).mp hr
          simp only [Except.error.injEq]
          constructor
          · rintro rfl
            exact ⟨[], first, .inl ⟨rfl, rfl, hmisfit⟩, rfl⟩
          · rintro ⟨before, row, ⟨rfl, rfl, -⟩ | ⟨others, -, hfirst, -⟩, rfl⟩
            · rfl
            · exact absurd hfirst hmisfit
      | ok record =>
          have hfirst : ∃ record, schema.Fits defaultLength first record :=
            ⟨record, (record_eq_ok_iff hsettings).mp hr⟩
          have hplace (others : List (List (Value × Value))) :
              index + (first :: others).length = index + 1 + others.length := by
            rw [List.length_cons, Nat.add_assoc, Nat.add_comm 1]
          dsimp only
          rw [lookup_finalStep hfinal hr]
          dsimp only
          rw [map_eq_error_iff, ih]
          constructor
          · rintro ⟨others, row, hrest, rfl⟩
            exact ⟨first :: others, row, .inr ⟨others, rfl, hfirst, hrest⟩, by rw [hplace]⟩
          · rintro ⟨before, row, ⟨-, -, hmisfit⟩ | ⟨others, rfl, -, hrest⟩, rfl⟩
            · exact absurd hfirst hmisfit
            · exact ⟨others, row, hrest, by rw [hplace]⟩

end Schema

end ScalarStore
