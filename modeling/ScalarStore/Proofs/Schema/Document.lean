import ScalarStore.Proofs.Outcome
import ScalarStore.Proofs.Schema.Row
import ScalarStore.Schema.Document

/-! # Schemas read back

A document is looked up by text keys, each of which is found where it was written. What a schema's
document does not tell is a description that counts as nothing: it is read back as the empty text.
So a schema whose descriptions are texts is read back from its document, and a record that a check
has made passes the check as it is. -/

namespace ScalarStore

/-! ## Looking up text keys -/

namespace Value

theorem lookup_cons_str (key name : String) (v : Value) (rest : List (Value × Value)) :
    lookup (.str key) ((.str name, v) :: rest) =
      if name = key then some v else lookup (.str key) rest := by
  by_cases h : name = key
  · simp [lookup, coincides, same, h]
  · simp [lookup, coincides, same, isOneNan, h]

theorem lookup_append (key : Value) (first second : List (Value × Value)) :
    lookup key (first ++ second) = (lookup key first).or (lookup key second) := by
  rw [lookup, List.find?_append]
  cases hf : first.find? fun entry => entry.1.coincides key <;> simp [lookup, hf]

/-- A value, or the empty text in place of one that counts as nothing. -/
def orEmpty (v : Value) : Value := if v.truthy then v else .str ""

theorem lookup_entryUnlessEmpty (key name : String) (v : Value) :
    lookup (.str key) (entryUnlessEmpty name v) =
      if name = key ∧ v.truthy = true then some v else none := by
  have hnil : lookup (.str key) [] = none := rfl
  by_cases ht : v.truthy = true
  · rw [entryUnlessEmpty, if_pos ht, lookup_cons_str, hnil]
    simp [ht]
  · rw [entryUnlessEmpty, if_neg ht, hnil, if_neg fun h => ht h.2]

/-- A value that is left out if it counts as nothing is read as the empty text then. -/
theorem getD_orEmpty (v : Value) :
    (if v.truthy = true then some v else none).getD (.str "") = v.orEmpty := by
  rw [orEmpty]
  split <;> rfl

/-- A value that writing and reading back keeps: it counts as something, or it is the empty text. -/
def Kept (v : Value) : Prop := v.truthy = true ∨ v = .str ""

theorem kept_str (text : String) : (str text).Kept := by
  by_cases ht : text = ""
  · exact .inr (ht ▸ rfl)
  · exact .inl (by simp [truthy, ht])

theorem orEmpty_eq_self_iff (v : Value) : v.orEmpty = v ↔ v.Kept := by
  rw [orEmpty, Kept]
  split
  · next ht => simp [ht]
  · next ht => simp [ht, eq_comm]

/-- The empty text is left out, too. -/
theorem entryUnlessEmpty_orEmpty (key : String) (v : Value) :
    entryUnlessEmpty key v.orEmpty = entryUnlessEmpty key v := by
  by_cases ht : v.truthy = true
  · rw [orEmpty, if_pos ht]
  · rw [orEmpty, if_neg ht, entryUnlessEmpty, entryUnlessEmpty, if_neg ht]
    rfl

end Value

/-! ## Fields and schemas -/

theorem DataType.ofValue_word (type : DataType) : ofValue (.str type.word) = .ok type := by
  have hword : ofWord? type.word = some type := by cases type <;> decide
  rw [ofValue, hword]

theorem DataType.upper_word (type : DataType) : Text.upper type.word = type.word := by
  cases type <;> decide +kernel

namespace Field

theorem lengthOf_toValue (f : Field) :
    lengthOf f.name f.type ((f.maxLength.map Number.toValue).getD .null) = .ok f.maxLength := by
  cases hn : f.maxLength with
  | none => rfl
  | some n =>
      have htype : f.type = .varchar := f.bounded (by simp [hn])
      have hpositive := f.positive n hn
      cases n <;> simp [lengthOf, Number.toValue, Value.number?, htype, hpositive]

theorem make_eq_ok (f : Field) {maxLength : Value}
    (h : lengthOf f.name f.type maxLength = .ok f.maxLength) :
    make (.str f.name) (.ok f.type) f.isPrimary maxLength f.description = .ok f := by
  simp only [make, f.named, f.notKeyword, dite_true]
  rw [dif_pos f.keyed]
  split
  · next fault he => cases h.symm.trans he
  · next he =>
      cases f
      cases h.symm.trans he
      rfl
  · next n he =>
      cases f
      cases h.symm.trans he
      rfl

/-- The field as its document tells it: the empty text stands for a description that counts as
nothing. -/
def reread (f : Field) : Field := { f with description := f.description.orEmpty }

/-- What the document of a field has at each key. -/
theorem lookup_document (f : Field) :
    ∃ entries, f.document = .map entries ∧ ∀ key, Value.lookup (.str key) entries =
      if "name" = key then some (.str f.name)
      else if "dtype" = key then some (.str f.type.word)
      else if "is_primary" = key then if f.isPrimary then some (.bool true) else none
      else if "max_length" = key then f.maxLength.map Number.toValue
      else if "description" = key ∧ f.description.truthy = true then some f.description
      else none := by
  refine ⟨_, rfl, fun key => ?_⟩
  simp only [Value.lookup_append, Value.lookup_entryUnlessEmpty, Value.lookup_cons_str]
  have hnil : Value.lookup (.str key) [] = none := rfl
  cases f.isPrimary <;> cases f.maxLength <;>
    simp only [Value.lookup_cons_str, hnil, Option.map_none, Option.map_some, if_true,
      Bool.false_eq_true, if_false] <;> grind

/-- A field is read back from its document, but for a description that counts as nothing. -/
theorem ofDocument_document_reread (f : Field) : ofDocument f.document = .ok f.reread := by
  obtain ⟨entries, hdocument, hlookup⟩ := f.lookup_document
  have hwritten : (Value.str f.type.word).written = .ok f.type.word := rfl
  have hprimary : ((if f.isPrimary then some (Value.bool true) else none).getD
      (.bool false)).truthy = f.isPrimary := by
    cases f.isPrimary <;> rfl
  have hmake := f.reread.make_eq_ok f.reread.lengthOf_toValue
  dsimp only [reread] at hmake
  rw [hdocument]
  simp [ofDocument, Value.required, Value.optional, hlookup, hwritten, DataType.upper_word,
    DataType.ofValue_word, bind, Except.bind, hprimary, Value.getD_orEmpty, hmake, reread]

theorem document_reread (f : Field) : f.reread.document = f.document := by
  rw [document, document, reread, Value.entryUnlessEmpty_orEmpty]

theorem reread_eq_self_iff (f : Field) : f.reread = f ↔ f.description.Kept := by
  rw [← Value.orEmpty_eq_self_iff]
  constructor
  · exact congrArg Field.description
  · intro h
    cases f
    simp only [reread, h]

end Field

namespace Schema

/-- The descriptions of a schema and of its fields are texts. -/
def Described (schema : Schema) : Prop :=
  (∃ text, schema.description = .str text) ∧
    ∀ f ∈ schema.fields, ∃ text, f.description = .str text

theorem make_eq_ok (schema : Schema) : make schema.fields schema.description = .ok schema := by
  have hnone := (firstRepeat_eq_none_iff [] _).mpr ⟨schema.distinct, by simp⟩
  unfold make
  split
  · next name he => cases hnone.symm.trans he
  · rw [dif_pos schema.oneKey]

/-- The schema as its document tells it. -/
def reread (schema : Schema) : Schema where
  fields := schema.fields.map Field.reread
  description := schema.description.orEmpty
  distinct := by
    rw [List.map_map]
    exact schema.distinct
  oneKey := by
    rw [List.filter_map, List.length_map]
    exact schema.oneKey

/-- A schema is read back from its document, but for descriptions that count as nothing. -/
theorem ofDocument_document_reread (schema : Schema) :
    ofDocument schema.document = .ok schema.reread := by
  have hall : (schema.fields.map Field.document).mapM Field.ofDocument =
      .ok (schema.fields.map Field.reread) := by
    rw [mapM_eq_ok_iff, List.forall₂_map_left_iff, List.forall₂_map_right_iff, List.forall₂_same]
    exact fun f _ => f.ofDocument_document_reread
  have hmake := schema.reread.make_eq_ok
  dsimp only [reread] at hmake
  simp [ofDocument, document, Value.optional, Value.lookup_cons_str,
    Value.lookup_entryUnlessEmpty, Value.items, bind, Except.bind, hall, Value.getD_orEmpty, hmake,
    reread]

/-- A schema is read back as it is exactly if no description but the empty text counts as
nothing. -/
theorem reread_eq_self_iff (schema : Schema) : schema.reread = schema ↔
    schema.description.Kept ∧ ∀ f ∈ schema.fields, f.description.Kept := by
  have hfields : schema.fields.map Field.reread = schema.fields ↔
      ∀ f ∈ schema.fields, f.reread = f := by
    rw [← List.map_eq_map_iff, List.map_id']
  simp only [← Value.orEmpty_eq_self_iff schema.description, ← Field.reread_eq_self_iff, ← hfields]
  constructor
  · intro h
    exact ⟨congrArg Schema.description h, congrArg Schema.fields h⟩
  · rintro ⟨hdescription, hall⟩
    cases schema
    simp only [reread, hdescription, hall]

theorem Described.reread_eq {schema : Schema} (h : schema.Described) : schema.reread = schema := by
  have htext (v : Value) : (∃ text, v = .str text) → v.Kept := by
    rintro ⟨text, rfl⟩
    exact Value.kept_str text
  exact schema.reread_eq_self_iff.mpr ⟨htext _ h.1, fun f hf => htext _ (h.2 f hf)⟩

theorem ofDocument_document {schema : Schema} (h : schema.Described) :
    ofDocument schema.document = .ok schema := by
  rw [ofDocument_document_reread, h.reread_eq]

end Schema

/-- A schema of two texts, with texts for all descriptions. -/
def bookSchema : Schema where
  fields := titleSchema.fields.map fun f => { f with description := .str "" }
  description := .str ""
  distinct := nodup_pair (show "id" ≠ "title" by decide)
  oneKey := rfl

theorem Schema.described_bookSchema : bookSchema.Described := by
  refine ⟨⟨"", rfl⟩, fun f hf => ?_⟩
  obtain ⟨_, -, rfl⟩ := List.mem_map.mp hf
  exact ⟨"", rfl⟩

/-! ## Records -/

/-- The value that a field has made of another one is taken as it is. -/
theorem Field.accept_of_accept {f : Field} {defaultLength : Option Number} {v w : Value}
    (h : f.accept defaultLength v = .ok w) : f.accept defaultLength w = .ok w := by
  have hadmits := admits_of_accept h
  cases ht : f.type with
  | bool =>
      rw [ht] at hadmits
      obtain ⟨b, rfl⟩ := hadmits
      simp only [accept, ht]
  | float =>
      rw [ht] at hadmits
      obtain ⟨x, rfl⟩ := hadmits
      simp only [accept, ht]
  | double =>
      rw [ht] at hadmits
      obtain ⟨x, rfl⟩ := hadmits
      simp only [accept, ht]
  | varchar =>
      -- A text is stored as it came, so it is within the same length.
      have hsame : w = v := by
        simp only [accept, ht] at h
        split at h
        · split at h
          · split at h
            · exact (Except.ok.inj h).symm
            · cases h
          · exact (Except.ok.inj h).symm
        · cases h
      exact hsame ▸ h
  | _ =>
      rw [ht] at hadmits
      obtain ⟨n, low, high, rfl, hbounds, hlow, hhigh⟩ := hadmits
      rw [accept_of_integerBounds (ht ▸ hbounds)]
      simp only [if_neg (Int.not_lt.mpr hlow), if_neg (Int.not_lt.mpr hhigh)]

namespace Schema

variable {schema : Schema} {defaultLength : Option Number} {record : Record}

/-- A record as the entries of a row. -/
def asRow (record : Record) : List (Value × Value) := record.map fun (name, v) => (.str name, v)

theorem lookup_asRow (name : String) (record : Record) :
    Value.lookup (.str name) (asRow record) = record.lookup name := by
  induction record with
  | nil => rfl
  | cons entry rest ih =>
      obtain ⟨k, v⟩ := entry
      have hcons : asRow ((k, v) :: rest) = (.str k, v) :: asRow rest := rfl
      rw [hcons, Value.lookup_cons_str, lookup_cons_eq_ite, ih]
      simp only [eq_comm]

/-- A record that the check of its own schema takes as it is. -/
structure Settled (schema : Schema) (defaultLength : Option Number) (record : Record) : Prop where
  same : schema.record defaultLength (asRow record) = .ok record
  finished : record.lookup finalStep = none

theorem acceptFrom_asRow {row : List (Value × Value)}
    (h : schema.record defaultLength row = .ok record) {f : Field} (hf : f ∈ schema.rowFields) :
    f.acceptFrom defaultLength (asRow record) = f.acceptFrom defaultLength row := by
  obtain ⟨hissues, hrecord⟩ := record_eq_ok h
  obtain ⟨v, hv⟩ := acceptFrom_of_issues_eq_nil hissues hf
  have hnodup : (record.map (·.1)).Nodup := by
    rw [record_names h]
    exact nodup_rowFields
  have hlookup : record.lookup f.name = some v := by
    refine (lookup_eq_some_iff_mem hnodup f.name v).mpr ?_
    rw [hrecord]
    exact List.mem_filterMap.mpr ⟨f, hf, by rw [hv]⟩
  rw [hv, Field.acceptFrom, lookup_asRow, hlookup]
  unfold Field.acceptFrom at hv
  split at hv
  · exact Field.accept_of_accept hv
  · cases hv

/-- A record has an entry for each field and no other, with a value that is taken as it is. -/
theorem record_asRow {row : List (Value × Value)}
    (h : schema.record defaultLength row = .ok record) :
    schema.record defaultLength (asRow record) = .ok record := by
  obtain ⟨hissues, hrecord⟩ := record_eq_ok h
  have hnone : schema.issues defaultLength (asRow record) = [] := by
    refine List.append_eq_nil_iff.mpr ⟨?_, ?_⟩
    · refine List.filterMap_eq_nil_iff.mpr fun f hf => ?_
      obtain ⟨v, hv⟩ := acceptFrom_of_issues_eq_nil hissues hf
      rw [acceptFrom_asRow h hf, hv]
    · refine List.filterMap_eq_nil_iff.mpr fun entry hentry => ?_
      obtain ⟨⟨name, v⟩, hm, rfl⟩ := List.mem_map.mp hentry
      have hname : name ∈ schema.rowFields.map (·.name) :=
        record_names h ▸ List.mem_map_of_mem hm
      simp only [keyIssue?, if_pos hname]
  unfold Schema.record
  rw [hnone, hrecord]
  dsimp only
  refine congrArg Except.ok (List.filterMap_congr fun f hf => ?_)
  rw [← hrecord]
  cases hv : Field.acceptFrom defaultLength row f <;>
    simp only [acceptFrom_asRow h hf, hv]

theorem settled_of_mem_recordsFrom {index : ℕ} {rows : List Value} {records : List Record}
    (h : schema.recordsFrom defaultLength index rows = .ok records) (hm : record ∈ records) :
    schema.Settled defaultLength record := by
  fun_induction recordsFrom schema defaultLength index rows generalizing records with
  | case1 =>
      cases h
      cases hm
  | case2 => cases h
  | case3 => cases h
  | case4 index row rest first hfirst hfinal ih =>
      obtain ⟨others, hothers, rfl⟩ := map_eq_ok_iff.mp h
      rcases List.mem_cons.mp hm with rfl | hm
      · exact ⟨record_asRow hfirst, hfinal⟩
      · exact ih hothers hm
  | case5 => cases h

/-- What a check has made of rows it takes as it is. -/
theorem settled_of_mem_records {rows : List Value} {records : List Record}
    (h : schema.records defaultLength rows = .ok records) (hm : record ∈ records) :
    schema.Settled defaultLength record := by
  unfold Schema.records at h
  split at h
  · cases h
  · exact settled_of_mem_recordsFrom h hm

theorem recordsFrom_of_settled {records : List Record} (index : ℕ)
    (h : ∀ record ∈ records, schema.Settled defaultLength record) :
    schema.recordsFrom defaultLength index (records.map fun record => .map (asRow record)) =
      .ok records := by
  induction records generalizing index with
  | nil => rfl
  | cons record rest ih =>
      obtain ⟨⟨hsame, hfinished⟩, hrest⟩ := List.forall_mem_cons.mp h
      rw [List.map_cons, recordsFrom, hsame]
      dsimp only
      rw [hfinished]
      dsimp only
      rw [ih (index + 1) hrest]
      rfl

theorem records_of_settled {records : List Record} (hf : schema.rowFault? defaultLength = none)
    (h : ∀ record ∈ records, schema.Settled defaultLength record) :
    schema.records defaultLength (records.map fun record => .map (asRow record)) = .ok records := by
  rw [Schema.records, hf]
  exact recordsFrom_of_settled 0 h

end Schema

end ScalarStore
