import ScalarStore.Proofs.Document.Dump

/-! # Altering a document

A document is altered by loading it, altering the properties of its collection and writing it.
What is written then has what the document told, with the properties overlaid, and of the rows
those that are still live. -/

namespace ScalarStore

/-! ## Sorted values -/

namespace Sorting

variable {α : Type} (before : α → α → Bool)

theorem run_append (goesOn : α → α → Bool) (x : α) (values : List α) :
    (run goesOn x values).1 ++ (run goesOn x values).2 = values := by
  induction values generalizing x with
  | nil => rfl
  | cons y rest ih =>
      rw [run]
      split
      · exact congrArg (y :: ·) (ih y)
      · rfl

theorem place_le (x : α) (sorted : Array α) (low high : ℕ) (h : low ≤ high) :
    place before x sorted low high ≤ high := by
  fun_induction place before x sorted low high with
  | case1 low high hlt hnone => exact h
  | case2 low high hlt y hy hbefore ih => exact (ih (by omega)).trans (by omega)
  | case3 low high hlt y hy hbefore ih => exact ih (by omega)
  | case4 low high hlt => exact h

theorem insert_perm (sorted : Array α) (x : α) :
    (insert before sorted x).toList.Perm (x :: sorted.toList) := by
  have hplace := place_le before x sorted 0 sorted.size (Nat.zero_le _)
  rw [insert, Array.insertIdxIfInBounds, dif_pos hplace, Array.toList_insertIdx]
  exact List.perm_insertIdx x sorted.toList hplace

theorem foldl_insert_perm (values : List α) (start : Array α) :
    (values.foldl (insert before) start).toList.Perm (start.toList ++ values) := by
  induction values generalizing start with
  | nil => simp
  | cons x rest ih =>
      refine (ih (insert before start x)).trans ?_
      exact ((insert_perm before start x).append_right rest).trans List.perm_middle.symm

theorem sorted_perm (values : List α) : (sorted before values).Perm values := by
  match values with
  | [] => exact .refl _
  | [x] => exact .refl _
  | x :: y :: rest =>
      have htaken (goesOn : α → α → Bool) (start : List α)
          (hstart : start.Perm (x :: y :: (run goesOn y rest).1)) :
          ((run goesOn y rest).2.foldl (insert before) start.toArray).toList.Perm
            (x :: y :: rest) := by
        refine (foldl_insert_perm before _ _).trans ?_
        refine (hstart.append_right _).trans ?_
        rw [List.cons_append, List.cons_append, run_append]
      by_cases hdown : before y x = true
      · simp only [sorted, if_pos hdown]
        exact htaken _ _ (List.reverse_perm _)
      · simp only [sorted, if_neg hdown]
        exact htaken _ _ (.refl _)

end Sorting

theorem Value.ascending?_perm {values names : List Value} (h : ascending? values = some names) :
    names.Perm values := by
  unfold ascending? at h
  split at h
  · cases h
    exact .refl _
  · cases h
    exact .refl _
  · split at h
    · cases h
      exact Sorting.sorted_perm _ _
    · cases h

/-! ## What a document tells -/

/-- What the parts of a document tell: a name, a schema, properties, partitions with the records
of their rows, and aliases. -/
structure Document.Tells (d : Document) (settings : Settings) (name : String) (schema : Schema)
    (properties : Properties) (parts : List (String × List Record)) (aliases : List Value) :
    Prop where
  name_eq : d.name = .str name
  schema_eq : Schema.ofDocument d.schema = .ok schema
  properties_eq : d.properties.entriesOrNone >>= Property.ofEntries = .ok properties
  partitions_eq : ∃ entries, d.partitions.entriesOrNone = .ok entries ∧
    Collection.Told schema settings.defaultLength entries parts
  aliases_eq : d.aliases.itemsOrNone = .ok aliases

namespace Collection

variable {settings : Settings} {name : String} {schema : Schema} {c : Collection}

/-- A new collection has the properties that it is given. -/
theorem new_eq_ok_properties {given description : Value}
    (h : new settings name schema given description = .ok c) : ∃ properties : Properties,
      given.entriesOrNone >>= Property.ofEntries = .ok properties ∧ properties.Checked ∧
      c = ⟨name, schema, description, settings, Table.empty.put settings.defaultPartition [], [],
        properties⟩ := by
  unfold new at h
  split at h
  · cases h
  · obtain ⟨entries, hentries, h⟩ := bind_eq_ok_iff.mp h
    obtain ⟨updates, hupdates, h⟩ := bind_eq_ok_iff.mp h
    obtain ⟨⟨⟩, hcheck, h⟩ := bind_eq_ok_iff.mp h
    cases h
    refine ⟨updates, bind_eq_ok_iff.mpr ⟨entries, hentries, hupdates⟩, hcheck, ?_⟩
    rw [show Table.putAll .empty updates.entries = updates from updates.ofList_entries]

end Collection

namespace Loaded

variable {settings : Settings} {t₀ t₁ : Binary64} {d : Document} {l : Loaded} {c : Collection}
  {texts : List String} {others : List Value} {seconds : ℤ}

/-- The collection of a document, with its aliases. -/
theorem single_of_ofDocument (hl : ofDocument settings t₀ d = .ok l) :
    ∃ name schema properties parts aliases c texts others,
      d.Tells settings name schema properties parts aliases ∧ properties.Checked ∧
      c = (Collection.mk name schema d.description settings
        (Table.empty.put settings.defaultPartition []) [] properties).withAll t₀ parts ∧
      (c.name :: texts).Nodup ∧ (texts.map Value.str ++ others).Perm aliases ∧
      l = single settings c texts others := by
  obtain ⟨schema, name, e, c, entries, items, hschema, hname, hnew, hentries, hfilled, hitems,
    hl⟩ := ofDocument_eq_ok_iff.mp hl
  obtain ⟨parts, htold, -, rfl⟩ :=
    Collection.foldlM_addPartition_eq_ok (headed_new hnew) hfilled
  obtain ⟨texts, others, rfl, hnodup, hperm⟩ :=
    foldlM_addAlias_eq_ok (List.nodup_singleton _) hl
  obtain ⟨properties, hproperties, hchecked, rfl⟩ := Collection.new_eq_ok_properties hnew
  exact ⟨name, schema, properties, parts, items, _, texts, others,
    ⟨(nameOf_eq_ok_iff.mp hname).1, hschema, hproperties, ⟨entries, hentries, htold⟩, hitems⟩,
    hchecked, rfl, hnodup, hperm, rfl⟩

/-- The aliases that are told are those that were loaded. -/
theorem aliases_perm (h : (c.name :: texts).Nodup) {names : List Value}
    (hn : (single settings c texts others).aliases = .ok names) :
    names.Perm (texts.map .str ++ others) := by
  have hsorted : (Database.sorted texts).Perm texts := List.mergeSort_perm _ _
  obtain ⟨found, hfound, hn⟩ := bind_eq_ok_iff.mp hn
  cases hfound.symm.trans (Store.aliasNames_single h)
  dsimp only [single] at hn
  split at hn
  · cases hn
    rw [List.append_nil]
    exact hsorted.map _
  · next v rest =>
      split at hn
      · next hempty =>
          have hnone : texts = [] := by
            rw [List.isEmpty_iff, List.map_eq_nil_iff] at hempty
            exact List.perm_nil.mp (hempty ▸ hsorted.symm)
          rw [hnone]
          unfold ascending at hn
          split at hn
          · next sorted hascending =>
              cases hn
              exact Value.ascending?_perm hascending
          · cases hn
          · cases hn
            exact .refl _
      · cases hn

/-- The aliases that are told depend on the name of the collection alone. -/
theorem aliases_single_congr {e : Collection} (h : (c.name :: texts).Nodup)
    (he : e.name = c.name) :
    (single settings e texts others).aliases = (single settings c texts others).aliases := by
  have hc : (single settings c texts others).store.aliasNames
      (some (single settings c texts others).name) = .ok (Database.sorted texts) :=
    Store.aliasNames_single h
  have he : (single settings e texts others).store.aliasNames
      (some (single settings e texts others).name) = .ok (Database.sorted texts) :=
    Store.aliasNames_single (he ▸ h)
  rw [aliases, aliases, hc, he]
  rfl

/-! ## Altering -/

theorem alterProperties_single (h : (c.name :: texts).Nodup) {e : Collection}
    {entries : List (Value × Value)} (he : c.alterProperties entries = .ok e)
    (hname : e.name = c.name) :
    (Store.single settings c texts).alterProperties c.name none entries =
      .ok (.single settings e texts) := by
  have hnamed : ∀ x d, (do return ((), ← c.alterProperties entries) :
      Except Fault (Unit × Collection)) = .ok (x, d) → d.name = c.name := by
    intro x d hd
    obtain ⟨_, he', hd⟩ := bind_eq_ok_iff.mp hd
    cases hd
    cases he.symm.trans he'
    exact hname
  rw [Store.alterProperties, Store.updateCollection_single h hnamed, he]
  rfl

/-- An alteration puts its properties over those of the collection. -/
theorem alter_single (h : (c.name :: texts).Nodup) {a : Alteration}
    (hname : a.collection = c.name) (hdatabase : a.database = .null)
    (ha : a.properties.Checked) : (single settings c texts others).alter a =
      .ok (single settings { c with properties := c.properties.putAll a.properties.entries }
        texts others) := by
  have halter : (Store.single settings c texts).alter a = .ok (.single settings
      { c with properties := c.properties.putAll a.properties.entries } texts) := by
    rw [Store.alter, hdatabase, hname]
    refine bind_eq_ok_iff.mpr ⟨none, rfl, ?_⟩
    exact alterProperties_single h (c.alterProperties_of_checked ha) rfl
  exact bind_eq_ok_iff.mpr ⟨_, halter, rfl⟩

/-- The records of the partitions that a document tells, as far as they are live. The default
partition comes first, also if the document does not name it. -/
def keptRecords (first : String) (loadedAt now : Binary64) (seconds : ℤ)
    (parts : List (String × List Record)) : List (String × List Record) :=
  (first :: parts.map (·.1)).eraseDups.map fun name =>
    (name, (Collection.recordsFor name parts).filter fun record =>
      StoredRow.live now seconds ⟨name, loadedAt, record⟩)

theorem liveRecords_withAll (name : String) (schema : Schema) (description : Value)
    (settings : Settings) (properties : Properties) (t₀ t₁ : Binary64) (seconds : ℤ)
    (parts : List (String × List Record)) :
    ((Collection.mk name schema description settings
      (Table.empty.put settings.defaultPartition []) [] properties).withAll t₀ parts).liveRecords
        t₁ seconds = keptRecords settings.defaultPartition t₀ t₁ seconds parts := by
  rw [Collection.liveRecords, Collection.partitionNames_withAll, keptRecords]
  refine List.map_congr_left fun other _ => ?_
  have hempty : (Collection.mk name schema description settings
      (Table.empty.put settings.defaultPartition []) [] properties).rowsIn other = [] := by
    rw [Collection.rowsIn, Table.get?_put]
    split <;> rfl
  rw [Collection.rowsIn_withAll, hempty, List.nil_append, Collection.newRows, List.filter_map,
    List.map_map]
  exact congrArg (Prod.mk other) (List.map_id _)

/-- A document that is loaded, altered and written again has the name, the description, the schema
and the aliases that it told, the properties that it told with those of the alteration put over
them, and in every partition the rows that it told, as far as they are live. -/
theorem dump_of_alter (hl : ofDocument settings t₀ d = .ok l) :
    ∃ name schema properties parts items,
      d.Tells settings name schema properties parts items ∧ l.name = name ∧
      ∀ a : Alteration, a.collection = l.name → a.database = .null → a.properties.Checked →
        ∃ altered c seconds, l.alter a = .ok altered ∧ altered.collection = .ok c ∧
          c.properties = properties.putAll a.properties.entries ∧ c.ttl = .ok seconds ∧
          ∀ t₁ aliases, seconds < Binary64.integerBound → l.aliases = .ok aliases →
            aliases.Perm items ∧ altered.dump t₁ = .ok
              ⟨.str name, schema.document, d.description,
                Properties.document (properties.putAll a.properties.entries),
                partitionsDocument
                  (keptRecords settings.defaultPartition t₀ t₁ seconds parts),
                .list aliases⟩ := by
  obtain ⟨name, schema, properties, parts, items, c, texts, others, htells, hchecked, hc, hnodup,
    hperm, rfl⟩ := single_of_ofDocument hl
  obtain ⟨partitions, keys, hframe⟩ := (Collection.mk name schema d.description settings
    (Table.empty.put settings.defaultPartition []) [] properties).frame_withAll t₀ parts
  have hrecords (t₁ : Binary64) (seconds : ℤ) := liveRecords_withAll name schema d.description
    settings properties t₀ t₁ seconds parts
  rw [← hc] at hrecords hframe
  subst hframe
  refine ⟨name, schema, properties, parts, items, htells, rfl, fun a hname hdatabase ha => ?_⟩
  obtain ⟨e, he⟩ : ∃ e : Collection, e = ⟨name, schema, d.description, settings, partitions, keys,
    properties.putAll a.properties.entries⟩ := ⟨_, rfl⟩
  have halter : (single settings _ texts others).alter a = .ok (single settings e texts others) :=
    he ▸ alter_single hnodup hname hdatabase ha
  have hproperties : e.properties = properties.putAll a.properties.entries := he ▸ rfl
  have hnames : (e.name :: texts).Nodup := he ▸ hnodup
  have hcollection : (single settings e texts others).collection = .ok e :=
    Store.collection_single hnames
  have hdocument (t₁ : Binary64) (seconds : ℤ) (aliases : List Value) :
      documentOf e (e.liveRecords t₁ seconds) aliases =
        ⟨.str name, schema.document, d.description,
          Properties.document (properties.putAll a.properties.entries),
          partitionsDocument (keptRecords settings.defaultPartition t₀ t₁ seconds parts),
          .list aliases⟩ := by
    rw [← hrecords, he]
    rfl
  obtain ⟨seconds, -, httl⟩ := Collection.ttl_of_timed
    (Properties.timed_of_check (hproperties ▸ hchecked.putAll ha))
  refine ⟨_, e, seconds, halter, hcollection, hproperties, httl, fun t₁ aliases hlt haliases =>
    ⟨(aliases_perm hnodup haliases).trans hperm, ?_⟩⟩
  rw [← hdocument]
  refine dump_of_lt hcollection httl hlt ?_
  rw [← haliases]
  exact aliases_single_congr hnodup (he ▸ rfl)

end Loaded

end ScalarStore
