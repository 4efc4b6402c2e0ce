import ScalarStore.Proofs.Schema.Document

/-! # Schemas written and read again

A schema has what its document tells, with defaults for the keys that are left out. Its own document
leaves out what counts as nothing, and that document is read as the same schema again, written as
the same document again, but for descriptions that count as nothing and are not the empty text. -/

namespace ScalarStore

variable {entries : List (Value × Value)}

/-! ## Keys of documents -/

theorem Value.required_eq_ok {d v : Value} {key : String} (h : d.required key = .ok v) :
    ∃ entries, d = .map entries ∧ lookup (.str key) entries = some v := by
  unfold required at h
  split at h
  · next entries =>
      split at h
      · next found hfound =>
          cases h
          exact ⟨entries, rfl, hfound⟩
      · cases h
  all_goals cases h

theorem Value.required_map {v : Value} {key : String} (h : lookup (.str key) entries = some v) :
    (Value.map entries).required key = .ok v := by
  rw [required]
  simp only [h]

theorem Value.optional_map (key : String) (default : Value) :
    (Value.map entries).optional key default =
      .ok ((lookup (.str key) entries).getD default) :=
  rfl

theorem Value.optional_eq_ok {d v default : Value} {key : String}
    (h : d.optional key default = .ok v) :
    ∃ entries, d = .map entries ∧ v = (lookup (.str key) entries).getD default := by
  unfold optional at h
  split at h
  · next entries =>
      cases h
      exact ⟨entries, rfl, rfl⟩
  · cases h

/-! ## Fields -/

theorem Value.eq_toValue_of_number? {v : Value} {n : Number} (h : v.number? = some n) :
    v = n.toValue := by
  cases v with
  | bool b => cases h; rfl
  | int k => cases h; rfl
  | float x => cases h; rfl
  | _ => cases h

/-- Reading a type turns its letters into capitals first. -/
theorem DataType.ofValue_eq_ok {v : Value} {type : DataType} (h : ofValue v = .ok type) :
    v = .str type.word := by
  unfold ofValue at h
  split at h
  · next s =>
      split at h
      · next found hfound =>
          cases h
          have hword := List.find?_some hfound
          rw [beq_iff_eq.mp hword]
      · cases h
  · cases h

namespace Field

variable {f : Field}

theorem lengthOf_eq_ok {name : String} {type : DataType} {v : Value} {limit : Option Number}
    (h : lengthOf name type v = .ok limit) : v = (limit.map Number.toValue).getD .null := by
  unfold lengthOf at h
  split at h
  · cases h
    rfl
  · split at h
    · cases h
    · split at h
      · cases h
      · next n hn =>
          split at h
          · cases h
          · cases h
            exact Value.eq_toValue_of_number? hn

/-- A field is made of what it is then known to be made of. -/
theorem eq_of_make {name : Value} {type : Except Fault DataType} {isPrimary : Bool}
    {maxLength description : Value} (h : make name type isPrimary maxLength description = .ok f) :
    name = .str f.name ∧ type = .ok f.type ∧ f.isPrimary = isPrimary ∧
      maxLength = (f.maxLength.map Number.toValue).getD .null ∧ f.description = description := by
  unfold make at h
  split at h
  · next text =>
      split at h
      · split at h
        · cases type with
          | error fault => cases h
          | ok type =>
              dsimp only at h
              split at h
              · split at h
                · cases h
                · next hlength =>
                    cases h
                    exact ⟨rfl, rfl, rfl, lengthOf_eq_ok hlength, rfl⟩
                · next n hlength =>
                    cases h
                    exact ⟨rfl, rfl, rfl, lengthOf_eq_ok hlength, rfl⟩
              · cases h
        · cases h
      · cases h
  · cases h

/-- What a document tells of a field. A key that is left out stands for a default, a greatest length
of `null` for none. -/
structure ToldBy (f : Field) (entries : List (Value × Value)) : Prop where
  name : Value.lookup (.str "name") entries = some (.str f.name)
  type : ∃ v word, Value.lookup (.str "dtype") entries = some v ∧ v.written = .ok word ∧
    Text.upper word = f.type.word
  isPrimary : f.isPrimary =
    ((Value.lookup (.str "is_primary") entries).getD (.bool false)).truthy
  maxLength : (Value.lookup (.str "max_length") entries).getD .null =
    (f.maxLength.map Number.toValue).getD .null
  description : f.description = (Value.lookup (.str "description") entries).getD (.str "")

/-- A field is read from exactly the documents that tell it. -/
theorem ofDocument_eq_ok_iff {d : Value} :
    ofDocument d = .ok f ↔ ∃ entries, d = .map entries ∧ f.ToldBy entries := by
  constructor
  · intro h
    obtain ⟨name, hname, h⟩ := bind_eq_ok_iff.mp h
    obtain ⟨entries, rfl, hnamed⟩ := Value.required_eq_ok hname
    obtain ⟨v, hv, h⟩ := bind_eq_ok_iff.mp h
    obtain ⟨_, hentries, htyped⟩ := Value.required_eq_ok hv
    cases hentries
    obtain ⟨word, hword, h⟩ := bind_eq_ok_iff.mp h
    obtain ⟨type, htype, h⟩ := bind_eq_ok_iff.mp h
    simp only [Value.optional_map, ok_bind] at h
    obtain ⟨rfl, hsame, hprimary, hlength, hdescription⟩ := eq_of_make h
    cases hsame
    have hupper := Value.str.inj (DataType.ofValue_eq_ok htype)
    exact ⟨entries, rfl, hnamed, ⟨v, word, htyped, hword, hupper⟩, hprimary, hlength, hdescription⟩
  · rintro ⟨entries, rfl, hnamed, ⟨v, word, htyped, hword, hupper⟩, hprimary, hlength, hdescription⟩
    have htype : DataType.ofValue (.str (Text.upper word)) = .ok f.type := by
      rw [hupper, DataType.ofValue_word]
    simp only [ofDocument, Value.required_map hnamed, Value.required_map htyped, hword, htype,
      Value.optional_map, ok_bind]
    rw [← hprimary, hlength, ← hdescription]
    exact f.make_eq_ok f.lengthOf_toValue

end Field

/-! ## Schemas -/

namespace Schema

variable {schema : Schema}

theorem eq_of_make {fields : List Field} {description : Value}
    (h : make fields description = .ok schema) :
    schema.fields = fields ∧ schema.description = description := by
  unfold make at h
  split at h
  · cases h
  · split at h
    · cases h
      exact ⟨rfl, rfl⟩
    · cases h

/-- What a document tells of a schema: its fields in order, and a description, which may be left
out. -/
structure ToldBy (schema : Schema) (entries : List (Value × Value)) : Prop where
  fields : ∃ items, ((Value.lookup (.str "fields") entries).getD (.list [])).items = .ok items ∧
    List.Forall₂ (fun item f => ∃ told, item = .map told ∧ Field.ToldBy f told) items schema.fields
  description : schema.description =
    (Value.lookup (.str "description") entries).getD (.str "")

theorem ofDocument_eq_ok_iff {d : Value} :
    ofDocument d = .ok schema ↔ ∃ entries, d = .map entries ∧ schema.ToldBy entries := by
  constructor
  · intro h
    obtain ⟨listed, hlisted, h⟩ := bind_eq_ok_iff.mp h
    obtain ⟨entries, rfl, rfl⟩ := Value.optional_eq_ok hlisted
    obtain ⟨items, hitems, h⟩ := bind_eq_ok_iff.mp h
    obtain ⟨fields, hfields, h⟩ := bind_eq_ok_iff.mp h
    rw [Value.optional_map, ok_bind] at h
    obtain ⟨rfl, hdescription⟩ := eq_of_make h
    refine ⟨entries, rfl, ⟨items, hitems, ?_⟩, hdescription⟩
    exact (mapM_eq_ok_iff.mp hfields).imp fun _ _ => Field.ofDocument_eq_ok_iff.mp
  · rintro ⟨entries, rfl, ⟨items, hitems, hall⟩, hdescription⟩
    have hfields : items.mapM Field.ofDocument = .ok schema.fields :=
      mapM_eq_ok_iff.mpr (hall.imp fun _ _ => Field.ofDocument_eq_ok_iff.mpr)
    simp only [ofDocument, Value.optional_map, ok_bind, hitems, hfields]
    rw [← hdescription]
    exact schema.make_eq_ok

theorem fieldNames_reread (schema : Schema) : schema.reread.fieldNames = schema.fieldNames := by
  simp only [fieldNames, reread, List.map_map]
  rfl

/-- The key stays the key. -/
theorem primary_reread (schema : Schema) : schema.reread.primary = schema.primary.reread := by
  have hfilter : schema.reread.fields.filter (·.isPrimary) =
      (schema.fields.filter (·.isPrimary)).map Field.reread := by
    simp only [reread, List.filter_map]
    rfl
  simp only [primary, hfilter, List.head_map]

theorem document_reread (schema : Schema) : schema.reread.document = schema.document := by
  have hfields : schema.reread.fields.map Field.document = schema.fields.map Field.document := by
    rw [reread, List.map_map]
    exact List.map_congr_left fun f _ => f.document_reread
  rw [document, document, hfields, reread, Value.entryUnlessEmpty_orEmpty]

/-- A schema that was read from a document has what the document tells. Its own document is always
read again, as a schema with the same fields in the same order, the same key and the same greatest
lengths, which is written as the same document again. The two schemas are one exactly if every
description that the document tells counts as something or is the empty text. -/
theorem reread_of_ofDocument {d : Value} (h : ofDocument d = .ok schema) :
    ∃ entries again, d = .map entries ∧ schema.ToldBy entries ∧
      ofDocument schema.document = .ok again ∧ again.document = schema.document ∧
      again.fieldNames = schema.fieldNames ∧ again.primary.name = schema.primary.name ∧
      List.Forall₂ (fun f g => g.name = f.name ∧ g.type = f.type ∧ g.isPrimary = f.isPrimary ∧
        g.maxLength = f.maxLength ∧ (f.description.Kept → g.description = f.description))
        schema.fields again.fields ∧
      (schema.description.Kept → again.description = schema.description) ∧
      (again = schema ↔
        schema.description.Kept ∧ ∀ f ∈ schema.fields, f.description.Kept) := by
  obtain ⟨entries, rfl, htold⟩ := ofDocument_eq_ok_iff.mp h
  refine ⟨entries, schema.reread, rfl, htold, schema.ofDocument_document_reread,
    schema.document_reread, schema.fieldNames_reread, ?_, ?_, ?_, schema.reread_eq_self_iff⟩
  · rw [primary_reread]
    rfl
  · rw [reread, List.forall₂_map_right_iff, List.forall₂_same]
    exact fun f _ => ⟨rfl, rfl, rfl, rfl, (Value.orEmpty_eq_self_iff _).mpr⟩
  · exact (Value.orEmpty_eq_self_iff _).mpr

/-- A document of one field with a type in small letters and `null` for its greatest length. -/
def cardDocument (description : Value) : Value :=
  .map [(.str "fields", .list [.map [(.str "name", .str "id"), (.str "dtype", .str "varchar"),
    (.str "is_primary", .bool true), (.str "max_length", .null),
    (.str "description", description)]])]

/-- A schema of one text, the key. -/
def cardSchema (description : Value) : Schema :=
  ⟨[{ titleSchema.primary with description }], .str "", List.nodup_singleton _, rfl⟩

theorem ofDocument_cardDocument (description : Value) :
    ofDocument (cardDocument description) = .ok (cardSchema description) := by
  have hupper : Text.upper "varchar" = "VARCHAR" := by decide +kernel
  have htold : Field.ToldBy { titleSchema.primary with description } [(.str "name", .str "id"),
      (.str "dtype", .str "varchar"), (.str "is_primary", .bool true), (.str "max_length", .null),
      (.str "description", description)] :=
    ⟨rfl, ⟨_, "varchar", rfl, rfl, hupper⟩, rfl, rfl, rfl⟩
  exact ofDocument_eq_ok_iff.mpr
    ⟨_, rfl, ⟨_, rfl, .cons ⟨_, rfl, htold⟩ .nil⟩, rfl⟩

theorem reread_of_ofDocument_card :
    ∃ again, ofDocument (cardSchema (.str "the key")).document = .ok again ∧
      again = cardSchema (.str "the key") := by
  obtain ⟨_, again, -, -, hagain, -, -, -, -, -, hsame⟩ :=
    reread_of_ofDocument (ofDocument_cardDocument (.str "the key"))
  refine ⟨again, hagain, hsame.mpr ⟨Value.kept_str "", fun f hf => ?_⟩⟩
  rw [List.mem_singleton.mp hf]
  exact Value.kept_str "the key"

/-- A description of `null` is read, left out, and read as the empty text. -/
theorem reread_null_differs : ∃ d schema again, ofDocument d = .ok schema ∧
    ofDocument schema.document = .ok again ∧ again ≠ schema := by
  refine ⟨cardDocument .null, cardSchema .null, _, ofDocument_cardDocument .null,
    ofDocument_document_reread _, fun h => ?_⟩
  obtain ⟨-, hkept⟩ := (cardSchema .null).reread_eq_self_iff.mp h
  rcases hkept _ (List.mem_singleton_self _) with ht | ht <;> cases ht

end Schema

end ScalarStore
