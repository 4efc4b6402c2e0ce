import ScalarStore.Proofs.Numeric.Range
import ScalarStore.Proofs.Schema.Acceptance
import ScalarStore.Proofs.Schema.Document

/-! # Which rows are taken

Said without the check: what values a field takes and how it stores them, which rows have all
fields and nothing else, and of what a refused row is told. -/

namespace ScalarStore

/-! ## Values -/

/-- The width of an integer type. -/
def DataType.bits? : DataType → Option ℕ
  | .int8 => some 8
  | .int16 => some 16
  | .int32 => some 32
  | .int64 => some 64
  | _ => none

/-- The bounds of an integer type are those of two's complement. -/
theorem DataType.integerBounds?_eq (type : DataType) :
    type.integerBounds? =
      type.bits?.map fun bits => (-2 ^ (bits - 1), 2 ^ (bits - 1) - 1) := by
  cases type <;> rfl

namespace Field

/-- The values that a field takes. A text is measured by its characters. -/
def Takes (defaultLength : Option Number) (f : Field) (v : Value) : Prop :=
  match f.type with
  | .bool => ∃ b, v = .bool b
  | .float | .double => (∃ x, v = .float x) ∨ ∃ n, v = .int n ∧ n.natAbs < Binary64.integerBound
  | .varchar =>
      ∃ s, v = .str s ∧ ∀ n ∈ (f.lengthLimit? defaultLength).bind Number.int?, s.length ≤ n
  | type => ∃ bits ∈ type.bits?, ∃ n, v = .int n ∧ -2 ^ (bits - 1) ≤ n ∧ n < 2 ^ (bits - 1)

/-- A value as a field stores it: an integer in a real field becomes the nearest real number. -/
def stored (f : Field) (v : Value) : Value :=
  match f.type, v with
  | .float, .int n | .double, .int n => ((Binary64.ofInt? n).map .float).getD v
  | _, _ => v

variable {defaultLength : Option Number} {f : Field} {v w : Value}

theorem accept_real_iff (ht : f.type = .float ∨ f.type = .double) :
    f.accept defaultLength v = .ok w ↔ f.Takes defaultLength v ∧ w = f.stored v := by
  cases v with
  | float x => rcases ht with ht | ht <;> simp [accept, Takes, stored, ht, eq_comm]
  | int n =>
      have hbound := Binary64.ofInt?_eq_none_iff n
      cases hn : Binary64.ofInt? n with
      | none =>
          have hbig : ¬ n.natAbs < Binary64.integerBound := Nat.not_lt.mpr (hbound.mp hn)
          rcases ht with ht | ht <;> simp [accept, Takes, ht, hn, hbig]
      | some x =>
          have hsmall : n.natAbs < Binary64.integerBound := by
            rw [← Nat.not_le, ← hbound, hn]
            exact Option.some_ne_none x
          rcases ht with ht | ht <;> simp [accept, Takes, stored, ht, hn, hsmall, eq_comm]
  | _ => rcases ht with ht | ht <;> simp [accept, Takes, ht]

theorem accept_integer_iff {bits : ℕ} (hbits : f.type.bits? = some bits) :
    f.accept defaultLength v = .ok w ↔ f.Takes defaultLength v ∧ w = f.stored v := by
  have htakes : f.Takes defaultLength v ↔
      ∃ n : ℤ, v = .int n ∧ -2 ^ (bits - 1) ≤ n ∧ n < 2 ^ (bits - 1) := by
    cases ht : f.type <;> rw [ht] at hbits <;> cases hbits <;> simp [Takes, ht, DataType.bits?]
  have hstored : f.stored v = v := by
    cases ht : f.type <;> rw [ht] at hbits <;> cases hbits <;> simp [stored, ht]
  rw [accept_of_integerBounds (by rw [DataType.integerBounds?_eq, hbits]; rfl), htakes, hstored]
  cases v with
  | int n =>
      by_cases hmost : (2 : ℤ) ^ (bits - 1) ≤ n
      · have hlt : (2 : ℤ) ^ (bits - 1) - 1 < n := by omega
        simp [hlt, Int.not_lt.mpr hmost]
      · have hlt : ¬ (2 : ℤ) ^ (bits - 1) - 1 < n := by omega
        by_cases hleast : n < -2 ^ (bits - 1)
        · simp [hlt, hleast, Int.not_le.mpr hleast]
        · simp [hlt, hleast, Int.not_lt.mp hleast, Int.not_le.mp hmost, eq_comm]
  | _ => simp

/-- A field accepts what it takes, as it stores it. -/
theorem accept_eq_ok_iff :
    f.accept defaultLength v = .ok w ↔ f.Takes defaultLength v ∧ w = f.stored v := by
  cases ht : f.type with
  | bool => cases v <;> simp [accept, Takes, stored, ht, eq_comm]
  | float => exact accept_real_iff (.inl ht)
  | double => exact accept_real_iff (.inr ht)
  | varchar =>
      cases v with
      | str s =>
          cases hn : (f.lengthLimit? defaultLength).bind Number.int? with
          | none => simp [accept, Takes, stored, ht, hn, eq_comm]
          | some n =>
              by_cases hle : (s.length : ℤ) ≤ n <;>
                simp [accept, Takes, stored, ht, hn, hle, eq_comm]
      | _ => simp [accept, Takes, ht]
  | int8 => exact accept_integer_iff (by rw [ht]; rfl)
  | int16 => exact accept_integer_iff (by rw [ht]; rfl)
  | int32 => exact accept_integer_iff (by rw [ht]; rfl)
  | int64 => exact accept_integer_iff (by rw [ht]; rfl)

instance (defaultLength : Option Number) (f : Field) (v : Value) :
    Decidable (f.Takes defaultLength v) :=
  decidable_of_iff (f.accept defaultLength v = .ok (f.stored v))
    (accept_eq_ok_iff.trans (and_iff_left rfl))

end Field

/-! ## Rows -/

namespace Schema

/-- A row has the fields of a schema and no other, each with a value that the field takes. -/
structure Accepts (schema : Schema) (defaultLength : Option Number) (row : Record) : Prop where
  names : ∀ name, name ∈ row.map (·.1) ↔ name ∈ schema.fieldNames
  values : ∀ f ∈ schema.fields, ∀ v ∈ row.lookup f.name, f.Takes defaultLength v

/-- The values of a row as the fields store them, in schema order. -/
def normal (schema : Schema) (row : Record) : Record :=
  schema.fields.filterMap fun f => (row.lookup f.name).map fun v => (f.name, f.stored v)

/-- The fields for which a row has no value that they take. -/
def offending (schema : Schema) (defaultLength : Option Number) (row : Record) : List Field :=
  schema.fields.filter fun f => !(row.lookup f.name).any fun v => f.Takes defaultLength v

/-- The names in a row that are no fields. -/
def undeclared (schema : Schema) (row : Record) : List String :=
  (row.map (·.1)).filter (· ∉ schema.fieldNames)

variable {schema : Schema} {defaultLength : Option Number} {row record : Record}

theorem acceptFrom_eq_ok_iff {f : Field} {w : Value} :
    f.acceptFrom defaultLength (asRow row) = .ok w ↔
      ∃ v, row.lookup f.name = some v ∧ f.Takes defaultLength v ∧ w = f.stored v := by
  rw [Field.acceptFrom, lookup_asRow]
  cases row.lookup f.name with
  | none => simp
  | some v => simp [Field.accept_eq_ok_iff]

theorem declared_asRow_iff :
    (∀ entry ∈ asRow row, ∃ f ∈ schema.fields, entry.1 = .str f.name) ↔
      ∀ name ∈ row.map (·.1), name ∈ schema.fieldNames := by
  rw [asRow, List.forall_mem_map, List.forall_mem_map]
  refine forall₂_congr fun entry _ => ?_
  simp [fieldNames, eq_comm]

theorem entry_of_acceptFrom {f : Field} {w : Value}
    (h : f.acceptFrom defaultLength (asRow row) = .ok w) :
    (row.lookup f.name).map (fun v => (f.name, f.stored v)) = some (f.name, w) := by
  obtain ⟨v, hv, -, rfl⟩ := acceptFrom_eq_ok_iff.mp h
  rw [hv]
  rfl

theorem forall₂_asRow_iff : List.Forall₂ (fun f entry => entry.1 = f.name ∧
      f.acceptFrom defaultLength (asRow row) = .ok entry.2) schema.fields record ↔
    (∀ f ∈ schema.fields, ∃ w, f.acceptFrom defaultLength (asRow row) = .ok w) ∧
      record = schema.normal row := by
  rw [forall₂_acceptFrom_iff]
  refine and_congr_right fun hall => Eq.congr_right (List.filterMap_congr fun f hf => ?_)
  obtain ⟨w, hw⟩ := hall f hf
  rw [entry_of_acceptFrom hw, hw]

theorem fits_asRow_iff : schema.Fits defaultLength (asRow row) record ↔
    schema.Accepts defaultLength row ∧ record = schema.normal row := by
  constructor
  · rintro ⟨htaken, hdeclared⟩
    obtain ⟨hall, rfl⟩ := forall₂_asRow_iff.mp htaken
    refine ⟨⟨fun name => ⟨declared_asRow_iff.mp hdeclared name, fun hname => ?_⟩,
      fun f hf v hv => ?_⟩, rfl⟩
    · obtain ⟨f, hf, rfl⟩ := List.mem_map.mp hname
      obtain ⟨w, hw⟩ := hall f hf
      obtain ⟨v, hv, -⟩ := acceptFrom_eq_ok_iff.mp hw
      exact exists_lookup_iff_mem.mp ⟨v, hv⟩
    · obtain ⟨w, hw⟩ := hall f hf
      obtain ⟨v', hv', htakes, -⟩ := acceptFrom_eq_ok_iff.mp hw
      cases hv.symm.trans hv'
      exact htakes
  · rintro ⟨⟨hnames, hvalues⟩, hrecord⟩
    refine ⟨forall₂_asRow_iff.mpr ⟨fun f hf => ?_, hrecord⟩,
      declared_asRow_iff.mpr fun name => (hnames name).mp⟩
    obtain ⟨v, hv⟩ := exists_lookup_iff_mem.mpr ((hnames f.name).mpr (List.mem_map_of_mem hf))
    exact ⟨_, acceptFrom_eq_ok_iff.mpr ⟨v, hv, hvalues f hf v hv, rfl⟩⟩

/-! ## Refused rows -/

theorem acceptFrom_eq_error_iff {f : Field} :
    (∃ issue, f.acceptFrom defaultLength (asRow row) = .error issue) ↔
      (!(row.lookup f.name).any fun v => f.Takes defaultLength v) = true := by
  have hok : (∃ w, f.acceptFrom defaultLength (asRow row) = .ok w) ↔
      (row.lookup f.name).any (fun v => f.Takes defaultLength v) = true := by
    cases hl : row.lookup f.name <;> simp [acceptFrom_eq_ok_iff, hl]
  rw [Bool.not_eq_true', ← Bool.not_eq_true, ← hok]
  cases f.acceptFrom defaultLength (asRow row) <;> simp

theorem issues_asRow_names (h : settingsName ∉ schema.fieldNames) :
    (schema.issues defaultLength (asRow row)).map (·.1) =
      (schema.offending defaultLength row).map (·.name) ++ schema.undeclared row := by
  rw [issues, rowFields_of_not_mem h, List.map_append]
  congr 1
  · rw [List.map_filterMap, offending, ← List.filterMap_eq_filter, List.map_filterMap]
    refine List.filterMap_congr fun f _ => ?_
    have hiff : (∃ issue, f.acceptFrom defaultLength (asRow row) = .error issue) ↔ _ :=
      acceptFrom_eq_error_iff
    cases ha : f.acceptFrom defaultLength (asRow row) <;> simpa [ha] using hiff
  · rw [asRow, undeclared, List.filterMap_map, List.map_filterMap, List.filter_map,
      ← List.filterMap_eq_filter, List.map_filterMap]
    refine List.filterMap_congr fun entry _ => ?_
    have hkey : schema.keyIssue? (.str entry.1) =
        if entry.1 ∈ schema.fieldNames then none else some (entry.1, .extra) := by
      rw [keyIssue?, rowFields_of_not_mem h]
      rfl
    by_cases hm : entry.1 ∈ schema.fieldNames <;> simp [hkey, hm]

theorem nodup_issues_names (hrow : (row.map (·.1)).Nodup) :
    ((schema.offending defaultLength row).map (·.name) ++ schema.undeclared row).Nodup := by
  refine List.nodup_append.mpr ⟨schema.distinct.sublist (List.filter_sublist.map _),
    hrow.filter _, ?_⟩
  rintro name hname other hother rfl
  obtain ⟨f, hf, rfl⟩ := List.mem_map.mp hname
  have hdeclared : f.name ∈ schema.fieldNames := List.mem_map_of_mem (List.mem_of_mem_filter hf)
  simpa [hdeclared] using (List.mem_filter.mp hother).2

/-- If there is a check at all, it takes exactly the rows with all fields and nothing else, and
makes of each what it would take as it is. Otherwise it tells once of each field without a value
that it takes, in schema order, and then of each other name, in row order. -/
theorem records_asRow (hsettings : settingsName ∉ schema.fieldNames)
    (hfinal : finalStep ∉ schema.fieldNames) (hfault : schema.rowFault? defaultLength = none)
    (hrow : (row.map (·.1)).Nodup) :
    (schema.Accepts defaultLength row →
      schema.records defaultLength [.map (asRow row)] = .ok [schema.normal row] ∧
        schema.records defaultLength [.map (asRow (schema.normal row))] =
          .ok [schema.normal row]) ∧
    (¬ schema.Accepts defaultLength row →
      ∃ issues, schema.records defaultLength [.map (asRow row)] =
          .error (.row (some 0) (.entries issues)) ∧
        issues.map (·.1) =
          (schema.offending defaultLength row).map (·.name) ++ schema.undeclared row ∧
        (issues.map (·.1)).Nodup) := by
  have hrecords : schema.records defaultLength [.map (asRow row)] =
      schema.recordsFrom defaultLength 0 ([asRow row].map .map) := by
    rw [records, hfault]
    rfl
  refine ⟨fun haccepts => ?_, fun hrefused => ?_⟩
  · have hok : schema.records defaultLength [.map (asRow row)] = .ok [schema.normal row] := by
      rw [hrecords, recordsFrom_eq_ok_iff hsettings hfinal]
      exact .cons (fits_asRow_iff.mpr ⟨haccepts, rfl⟩) .nil
    exact ⟨hok, records_of_settled hfault fun _ hm => settled_of_mem_records hok hm⟩
  · refine ⟨schema.issues defaultLength (asRow row), ?_, issues_asRow_names hsettings, ?_⟩
    · rw [hrecords, recordsFrom_eq_error_iff hsettings hfinal]
      have hmisfit : ¬∃ record, schema.Fits defaultLength (asRow row) record := by
        rintro ⟨record, hfits⟩
        exact hrefused (fits_asRow_iff.mp hfits).1
      exact ⟨[], asRow row, ⟨⟨[], rfl⟩, List.forall_mem_nil _, hmisfit⟩, rfl⟩
    · rw [issues_asRow_names hsettings]
      exact nodup_issues_names hrow

theorem records_asRow_score :
    scoreSchema.records none [.map [(.str "score", .int 2), (.str "id", .str "a")]] =
        .ok [[("id", .str "a"), ("score", .float (.finite false (pow2 52) (-51) (by decide)))]] ∧
      ∃ issues, scoreSchema.records none
          [.map [(.str "z", .null), (.str "score", .bool true), (.str "Id", .str "a")]] =
            .error (.row (some 0) (.entries issues)) ∧
        issues.map (·.1) = ["id", "score", "z", "Id"] := by
  have hsettings : settingsName ∉ scoreSchema.fieldNames := by decide
  have hfinal : finalStep ∉ scoreSchema.fieldNames := by decide
  have haccepts : scoreSchema.Accepts none [("score", .int 2), ("id", .str "a")] :=
    ⟨fun _ => (List.Perm.swap "id" "score" []).mem_iff, by decide +kernel⟩
  have hnormal : scoreSchema.normal [("score", .int 2), ("id", .str "a")] =
      [("id", .str "a"), ("score", .float (.finite false (pow2 52) (-51) (by decide)))] := by
    decide +kernel
  have hrefused : ¬ scoreSchema.Accepts none
      [("z", .null), ("score", .bool true), ("Id", .str "a")] := fun h =>
    absurd ((h.names "z").mp (by decide)) (by decide)
  refine ⟨?_, ?_⟩
  · rw [← hnormal]
    exact ((records_asRow hsettings hfinal rfl (by decide)).1 haccepts).1
  · obtain ⟨issues, hissues, hnames, -⟩ :=
      (records_asRow hsettings hfinal rfl (by decide)).2 hrefused
    exact ⟨issues, hissues, hnames.trans (by decide)⟩

/-- A text at the key fits, but the check has no field of that name: it takes the row without. -/
theorem records_settingsKeySchema :
    settingsKeySchema.Accepts none [(settingsName, .str "a")] ∧
      settingsKeySchema.records none [.map [(.str settingsName, .str "a")]] =
        .error (.row (some 0) (.entries [(settingsName, .extra)])) ∧
      ¬ settingsKeySchema.Accepts none [] ∧
      settingsKeySchema.records none [.map []] = .ok [[]] := by
  refine ⟨⟨fun _ => Iff.rfl, by decide⟩, rfl, fun h => ?_, rfl⟩
  cases (h.names settingsName).mpr (by decide)

end Schema

end ScalarStore
