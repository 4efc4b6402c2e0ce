import ScalarStore.Proofs.Table
import ScalarStore.Schema.Row

/-! # Records of checked rows

A record has a value of the declared type for every field of its schema but one: a field under
the name of the check's own settings takes no value. -/

namespace ScalarStore

/-- The values that a field of a type can hold. -/
def DataType.Admits (type : DataType) (v : Value) : Prop :=
  match type with
  | .bool => ∃ b, v = .bool b
  | .float => ∃ x, v = .float x
  | .double => ∃ x, v = .float x
  | .varchar => ∃ s, v = .str s
  | type => ∃ n low high, v = .int n ∧ type.integerBounds? = some (low, high) ∧ low ≤ n ∧ n ≤ high

namespace Field

variable {defaultLength : Option Number} {f : Field} {v w : Value}

theorem accept_of_integerBounds {least most : Int}
    (hb : f.type.integerBounds? = some (least, most)) :
    f.accept defaultLength v = match v with
      | .int n =>
          if most < n then .error (.aboveMost most)
          else if n < least then .error (.belowLeast least)
          else .ok (.int n)
      | _ => .error .notInteger := by
  unfold accept
  split
  · next ht => rw [ht] at hb; cases hb
  · next ht => rw [ht] at hb; cases hb
  · next ht => rw [ht] at hb; cases hb
  · next ht => rw [ht] at hb; cases hb
  · rw [hb]
    cases v <;> rfl

theorem accept_integer {least most : Int} (hb : f.type.integerBounds? = some (least, most))
    (h : f.accept defaultLength v = .ok w) : ∃ n, w = .int n ∧ least ≤ n ∧ n ≤ most := by
  rw [accept_of_integerBounds hb] at h
  cases v with
  | int n =>
      by_cases hm : most < n
      · simp [hm] at h
      · by_cases hl : n < least
        · simp [hm, hl] at h
        · simp only [if_neg hm, if_neg hl, Except.ok.injEq] at h
          exact ⟨n, h.symm, Int.not_lt.mp hl, Int.not_lt.mp hm⟩
  | _ => cases h

theorem accept_real (ht : f.type = .float ∨ f.type = .double)
    (h : f.accept defaultLength v = .ok w) : ∃ x, w = .float x := by
  rcases ht with ht | ht <;> simp only [accept, ht] at h <;> split at h
  · exact ⟨_, (Except.ok.inj h).symm⟩
  · split at h
    · exact ⟨_, (Except.ok.inj h).symm⟩
    · contradiction
  · contradiction
  · exact ⟨_, (Except.ok.inj h).symm⟩
  · split at h
    · exact ⟨_, (Except.ok.inj h).symm⟩
    · contradiction
  · contradiction

theorem accept_text (ht : f.type = .varchar) (h : f.accept defaultLength v = .ok w) :
    ∃ s, w = .str s := by
  simp only [accept, ht] at h
  split at h
  · split at h
    · split at h
      · exact ⟨_, (Except.ok.inj h).symm⟩
      · contradiction
    · exact ⟨_, (Except.ok.inj h).symm⟩
  · contradiction

theorem admits_of_accept (h : f.accept defaultLength v = .ok w) : f.type.Admits w := by
  cases ht : f.type with
  | bool =>
      simp only [accept, ht] at h
      split at h
      · exact ⟨_, (Except.ok.inj h).symm⟩
      · contradiction
  | float => exact accept_real (.inl ht) h
  | double => exact accept_real (.inr ht) h
  | varchar => exact accept_text ht h
  | _ =>
      obtain ⟨n, hw, hlow, hhigh⟩ := accept_integer (by rw [ht]; rfl) h
      exact ⟨n, _, _, hw, rfl, hlow, hhigh⟩

theorem admits_of_acceptFrom {row : List (Value × Value)}
    (h : f.acceptFrom defaultLength row = .ok w) : f.type.Admits w := by
  unfold acceptFrom at h
  split at h
  · exact admits_of_accept h
  · contradiction

end Field

namespace Schema

variable {schema : Schema} {defaultLength : Option Number}

theorem mem_rowFields {f : Field} :
    f ∈ schema.rowFields ↔ f ∈ schema.fields ∧ f.name ≠ settingsName := by
  simp [rowFields]

theorem nodup_rowFields : (schema.rowFields.map (·.name)).Nodup :=
  schema.distinct.sublist (List.filter_sublist.map _)

/-- Without an issue every field takes its value. -/
theorem acceptFrom_of_issues_eq_nil {row : List (Value × Value)}
    (h : schema.issues defaultLength row = []) {f : Field} (hf : f ∈ schema.rowFields) :
    ∃ v, f.acceptFrom defaultLength row = .ok v := by
  have hfields := (List.append_eq_nil_iff.mp h).1
  have hn := List.filterMap_eq_nil_iff.mp hfields f hf
  cases he : f.acceptFrom defaultLength row with
  | ok v => exact ⟨v, rfl⟩
  | error issue => simp [he] at hn

theorem record_eq_ok {row : List (Value × Value)} {record : Record}
    (h : schema.record defaultLength row = .ok record) :
    schema.issues defaultLength row = [] ∧
      record = schema.rowFields.filterMap fun f =>
        match f.acceptFrom defaultLength row with
        | .ok v => some (f.name, v)
        | .error _ => none := by
  unfold Schema.record at h
  split at h
  · next hi => exact ⟨hi, (Except.ok.inj h).symm⟩
  · contradiction

/-- The names of a record are those of the fields, in schema order. -/
theorem record_names {row : List (Value × Value)} {record : Record}
    (h : schema.record defaultLength row = .ok record) :
    record.map (·.1) = schema.rowFields.map (·.name) := by
  obtain ⟨hi, rfl⟩ := record_eq_ok h
  have ha := fun f hf => acceptFrom_of_issues_eq_nil (f := f) hi hf
  generalize schema.rowFields = fields at ha
  induction fields with
  | nil => rfl
  | cons f fields ih =>
      obtain ⟨v, hv⟩ := ha f List.mem_cons_self
      simp [hv, ih fun g hg => ha g (List.mem_cons_of_mem f hg)]

theorem record_lookup {row : List (Value × Value)} {record : Record}
    (h : schema.record defaultLength row = .ok record) {f : Field} (hf : f ∈ schema.rowFields) :
    ∃ v, record.lookup f.name = some v ∧ f.type.Admits v := by
  obtain ⟨hi, hr⟩ := record_eq_ok h
  obtain ⟨v, hv⟩ := acceptFrom_of_issues_eq_nil hi hf
  have hn : (record.map (·.1)).Nodup := by
    rw [record_names h]
    exact nodup_rowFields
  refine ⟨v, (lookup_eq_some_iff_mem hn f.name v).mpr ?_, Field.admits_of_acceptFrom hv⟩
  rw [hr]
  exact List.mem_filterMap.mpr ⟨f, hf, by rw [hv]⟩

theorem record_lookup_settingsName {row : List (Value × Value)} {record : Record}
    (h : schema.record defaultLength row = .ok record) : record.lookup settingsName = none := by
  rw [lookup_eq_none_iff_not_mem, record_names h]
  intro hm
  obtain ⟨f, hf, hname⟩ := List.mem_map.mp hm
  exact (mem_rowFields.mp hf).2 hname

/-- A record has a value of its type for every field that takes one. -/
structure Conforms (schema : Schema) (record : Record) : Prop where
  value : ∀ f ∈ schema.rowFields, ∃ v, record.lookup f.name = some v ∧ f.type.Admits v
  noSettings : record.lookup settingsName = none

theorem conforms_of_record {row : List (Value × Value)} {record : Record}
    (h : schema.record defaultLength row = .ok record) : schema.Conforms record :=
  ⟨fun _ hf => record_lookup h hf, record_lookup_settingsName h⟩

/-- Every record of checked rows is that of one row. -/
theorem record_of_mem_recordsFrom {index : Nat} {rows : List Value} {records : List Record}
    (h : schema.recordsFrom defaultLength index rows = .ok records) {record : Record}
    (hm : record ∈ records) : ∃ row, schema.record defaultLength row = .ok record := by
  fun_induction recordsFrom schema defaultLength index rows generalizing records with
  | case1 =>
      cases h
      cases hm
  | case2 => contradiction
  | case3 => contradiction
  | case4 index row rest first hfirst hfinal ih =>
      cases hrest : schema.recordsFrom defaultLength (index + 1) rest with
      | error fault => simp [hrest, Except.map] at h
      | ok others =>
          simp only [hrest, Except.map, Except.ok.injEq] at h
          subst h
          rcases List.mem_cons.mp hm with rfl | hm
          · exact ⟨row, hfirst⟩
          · exact ih hrest hm
  | case5 => contradiction

theorem record_of_mem_records {rows : List Value} {records : List Record}
    (h : schema.records defaultLength rows = .ok records) {record : Record}
    (hm : record ∈ records) : ∃ row, schema.record defaultLength row = .ok record := by
  unfold Schema.records at h
  split at h
  · contradiction
  · exact record_of_mem_recordsFrom h hm

theorem conforms_of_mem_records {rows : List Value} {records : List Record}
    (h : schema.records defaultLength rows = .ok records) {record : Record}
    (hm : record ∈ records) : schema.Conforms record := by
  obtain ⟨row, hr⟩ := record_of_mem_records h hm
  exact conforms_of_record hr

end Schema

/-! ## Schemas of texts -/

/-- A name is no keyword if no keyword has its letters, whatever their case. -/
theorem Filter.Keyword.ofWord?_eq_none_iff (name : String) : ofWord? name = none ↔
    name.toList.map Char.toLower ∉ all.map fun keyword => keyword.word.toList := by
  rw [ofWord?, List.find?_eq_none, List.mem_map]
  constructor
  · rintro h ⟨keyword, hk, he⟩
    refine h keyword hk (beq_iff_eq.mpr ?_)
    rw [← String.toList_inj, he, Text.lower, String.toList_map]
  · intro h keyword hk he
    refine h ⟨keyword, hk, ?_⟩
    rw [beq_iff_eq.mp he, Text.lower, String.toList_map]

theorem nodup_pair {first second : String} (h : first ≠ second) : [first, second].Nodup := by
  simpa using h

theorem positive_of_none (n : Number) (h : none = some n) : n.le (.whole 0) = false :=
  absurd h.symm (Option.some_ne_none n)

/-- A schema whose key and one more field are texts. -/
def textSchema (name : String) (named : isFieldName name = true)
    (notKeyword : Filter.Keyword.ofWord? name = none) (hne : "id" ≠ name) : Schema :=
  ⟨[⟨"id", .varchar, true, none, .null, by decide,
      (Filter.Keyword.ofWord?_eq_none_iff _).mpr (by decide), fun _ => rfl, fun _ => rfl,
      positive_of_none⟩,
    ⟨name, .varchar, false, none, .null, named, notKeyword,
      fun h => absurd h Bool.false_ne_true, fun _ => rfl, positive_of_none⟩],
    .null, nodup_pair hne, rfl⟩

def titleSchema : Schema :=
  textSchema "title" (by decide) ((Filter.Keyword.ofWord?_eq_none_iff _).mpr (by decide))
    (by decide)

/-- A schema of a key and a real number. -/
def scoreSchema : Schema :=
  ⟨[titleSchema.primary, ⟨"score", .double, false, none, .null, by decide,
      (Filter.Keyword.ofWord?_eq_none_iff _).mpr (by decide), fun h => absurd h Bool.false_ne_true,
      fun h => absurd rfl h, positive_of_none⟩],
    .null, nodup_pair (by decide), rfl⟩

/-- A schema of one text, the key, which has the name of the check's own settings. -/
def settingsKeySchema : Schema :=
  ⟨[⟨Schema.settingsName, .varchar, true, none, .null, by decide,
      (Filter.Keyword.ofWord?_eq_none_iff _).mpr (by decide), fun _ => rfl, fun _ => rfl,
      positive_of_none⟩],
    .null, List.nodup_singleton _, rfl⟩

end ScalarStore
