import ScalarStore.Document
import ScalarStore.Proofs.Collection.Expiry
import ScalarStore.Proofs.Collection.Loading
import ScalarStore.Proofs.Session.Alias

/-! # Loading a document

A document that is loaded gives a store with one collection, and aliases for it. Each step of
loading keeps a store of this form, so the outcome is told by the collection and the aliases. -/

namespace ScalarStore

/-! ## Stores with one collection -/

/-- A database with one collection and aliases for it. -/
def Database.single (c : Collection) (aliases : List String) : Database :=
  ⟨Table.empty.put c.name c, Table.ofList (aliases.map fun other => (other, c.name))⟩

/-- A store with one collection, and aliases for it, in the default database. -/
def Store.single (settings : Settings) (c : Collection) (aliases : List String) : Store :=
  { Store.new settings with
    databases := Table.empty.put settings.defaultDatabase (.single c aliases) }

namespace Database

variable {c d : Collection} {aliases : List String}

theorem aliases_single (h : (c.name :: aliases).Nodup) :
    (single c aliases).aliases.entries = aliases.map fun other => (other, c.name) := by
  refine Table.entries_ofList ?_
  rw [List.map_map]
  exact (List.map_id aliases).symm ▸ h.of_cons

theorem aliases_keys_single (h : (c.name :: aliases).Nodup) :
    (single c aliases).aliases.keys = aliases := by
  rw [Table.keys, aliases_single h, List.map_map]
  exact List.map_id aliases

theorem target_single (h : (c.name :: aliases).Nodup) :
    (single c aliases).target c.name = c.name := by
  refine target_of_not_mem ?_
  rw [aliases_keys_single h]
  exact (List.nodup_cons.mp h).1

theorem resolve_single (h : (c.name :: aliases).Nodup) :
    (single c aliases).resolve c.name = .ok c := by
  rw [resolve_eq_ok_iff, target_single h, single, Table.get?_put, if_pos rfl]

theorem replace_single (h : (c.name :: aliases).Nodup) (hd : d.name = c.name) :
    (single c aliases).replace c.name d = single d aliases := by
  rw [replace, target_single h]
  simp only [single, Table.put_put, hd]

theorem aliasNames_single (h : (c.name :: aliases).Nodup) :
    (single c aliases).aliasNames (some c.name) = sorted aliases := by
  rw [aliasNames, aliases_single h]
  simp [List.filter_map, Function.comp_def]

/-- An alias is put behind the others if it is a name of its own. -/
theorem createAlias_single (h : (c.name :: aliases).Nodup) {other : String} {after : Database} :
    (single c aliases).createAlias c.name other = .ok after ↔
      (c.name :: (aliases ++ [other])).Nodup ∧ after = single c (aliases ++ [other]) := by
  have hkeys := aliases_keys_single h
  have hcollections : (single c aliases).collections.keys = [c.name] := rfl
  have hafter : { single c aliases with
      aliases := (single c aliases).aliases.put other c.name } =
        single c (aliases ++ [other]) := by
    simp [single, Table.ofList, Table.putAll, List.foldl_append]
  have hnodup : (c.name :: (aliases ++ [other])).Nodup ↔ other ∉ aliases ∧ other ≠ c.name := by
    have hperm : (c.name :: (aliases ++ [other])).Perm (other :: c.name :: aliases) :=
      List.perm_append_singleton other (c.name :: aliases)
    rw [hperm.nodup_iff, List.nodup_cons, List.mem_cons, not_or]
    tauto
  rw [hnodup]
  constructor
  · intro hc
    obtain ⟨-, ha, ho, rfl⟩ := createAlias_eq_ok hc
    rw [hkeys] at ha
    rw [hcollections, List.mem_singleton] at ho
    exact ⟨⟨ha, ho⟩, hafter⟩
  · rintro ⟨⟨ha, ho⟩, rfl⟩
    have hfree : ¬((single c aliases).aliases.contains other = true ∨
        (single c aliases).collections.contains other = true) := by
      rw [Table.contains_iff, Table.contains_iff, hkeys, hcollections, List.mem_singleton]
      tauto
    have hpresent : (single c aliases).collections.contains c.name = true :=
      (Table.contains_iff _ _).mpr (by simp [hcollections])
    rw [createAlias, if_neg (by simp [hpresent]), if_neg hfree, hafter]

end Database

namespace Store

variable {settings : Settings} {c : Collection} {aliases : List String} {name other : String}

theorem database_single (settings : Settings) (c : Collection) (aliases : List String) :
    (single settings c aliases).database none = .ok (.single c aliases) := by
  rw [database_eq_ok_iff]
  exact (Table.get?_put _ _ _ _).trans (if_pos rfl)

theorem collection_single (h : (c.name :: aliases).Nodup) :
    (single settings c aliases).collection c.name none = .ok c := by
  rw [collection, database_single]
  exact Database.resolve_single h

theorem aliasNames_single (h : (c.name :: aliases).Nodup) :
    (single settings c aliases).aliasNames (some c.name) = .ok (Database.sorted aliases) := by
  rw [aliasNames, database_single]
  exact congrArg Except.ok (Database.aliasNames_single h)

theorem putDatabase_single (settings : Settings) (c d : Collection)
    (aliases others : List String) : { single settings c aliases with
      databases := (single settings c aliases).databases.put settings.defaultDatabase
        (.single d others) } = single settings d others := by
  simp only [single, Table.put_put]

/-- Changing the collection leaves a store of the same form if it keeps its name. -/
theorem updateCollection_single {α : Type} {change : Collection → Except Fault (α × Collection)}
    (h : (c.name :: aliases).Nodup)
    (hname : ∀ a d, change c = .ok (a, d) → d.name = c.name) :
    (single settings c aliases).updateCollection c.name none change =
      (change c).map fun done => (done.1, single settings done.2 aliases) := by
  rw [updateCollection, database_single]
  simp only [bind, Except.bind, Database.resolve_single h]
  cases hc : change c with
  | error fault => rfl
  | ok done =>
      simp only [Database.replace_single h (hname _ _ hc)]
      exact congrArg (fun store => Except.ok (done.1, store)) (putDatabase_single _ _ _ _ _)

theorem createAlias_single (h : (c.name :: aliases).Nodup) {t : Store} :
    (single settings c aliases).createAlias c.name other = .ok t ↔
      (c.name :: (aliases ++ [other])).Nodup ∧ t = single settings c (aliases ++ [other]) := by
  rw [createAlias, updateDatabase, database_single]
  refine (bind_eq_ok_iff (r := (Database.single c aliases).createAlias c.name other)).trans
    ⟨?_, ?_⟩
  · rintro ⟨after, hafter, ht⟩
    cases ht
    obtain ⟨hnodup, rfl⟩ := (Database.createAlias_single h).mp hafter
    exact ⟨hnodup, putDatabase_single _ _ _ _ _⟩
  · rintro ⟨hnodup, rfl⟩
    refine ⟨_, (Database.createAlias_single h).mpr ⟨hnodup, rfl⟩, ?_⟩
    exact congrArg Except.ok (putDatabase_single _ _ _ _ _)

theorem createCollection_new {schema : Schema} {properties description : Value} {t : Store}
    (hblank : Text.isBlankText name = false) :
    (Store.new settings).createCollection name schema properties description none = .ok (c, t) ↔
      Collection.new settings name schema properties description = .ok c ∧
        t = single settings c [] := by
  have hdatabase : (Store.new settings).database none = .ok .empty := by
    rw [database_eq_ok_iff]
    exact (Table.get?_put _ _ _ _).trans (if_pos rfl)
  have hafter (c : Collection) (hc : c.name = name) : { Store.new settings with
      databases := (Store.new settings).databases.put settings.defaultDatabase
        { Database.empty with collections := Database.empty.collections.put name c } } =
      single settings c [] := by
    subst hc
    simp only [Store.new, single, Table.put_put]
    rfl
  rw [createCollection, if_neg (by simp [hblank]), hdatabase]
  simp only [bind, Except.bind]
  refine bind_eq_ok_iff.trans ⟨?_, ?_⟩
  · rintro ⟨⟨made, after⟩, hmade, ht⟩
    cases ht
    obtain ⟨-, -, hnew, rfl⟩ := Database.createCollection_eq_ok hmade
    have hname : made.name = name := by
      obtain ⟨updated, rfl⟩ := Collection.new_eq_ok hnew
      rfl
    exact ⟨hnew, hafter _ hname⟩
  · rintro ⟨hnew, rfl⟩
    have hname : c.name = name := by
      obtain ⟨updated, rfl⟩ := Collection.new_eq_ok hnew
      rfl
    refine ⟨(c, { Database.empty with
      collections := Database.empty.collections.put name c }), ?_, ?_⟩
    · rw [Database.createCollection, if_neg (by simp [Database.empty, Table.contains, Table.keys,
        Table.empty])]
      exact bind_eq_ok_iff.mpr ⟨c, hnew, rfl⟩
    · exact congrArg (fun store => Except.ok (c, store)) (hafter c hname)

end Store

/-! ## The steps of loading -/

/-- A collection with its aliases, and those that are no texts. -/
def Loaded.single (settings : Settings) (c : Collection) (texts : List String)
    (others : List Value) : Loaded :=
  ⟨.single settings c texts, c.name, others⟩

namespace Loaded

variable {settings : Settings} {now : Binary64} {d : Document} {l : Loaded} {c : Collection}
  {texts : List String} {others : List Value}

theorem nameOf_eq_ok_iff {v : Value} {name : String} :
    nameOf v = .ok name ↔ v = .str name ∧ Text.isBlankText name = false := by
  unfold nameOf
  split
  · next s =>
      split
      · next hs => exact ⟨nofun, fun ⟨he, hn⟩ => absurd (Value.str.inj he ▸ hs) (by simp [hn])⟩
      · next hs =>
          simp only [Except.ok.injEq, Value.str.injEq]
          exact ⟨fun he => ⟨he, he ▸ Bool.not_eq_true _ ▸ hs⟩, fun he => he.1⟩
  · next hs =>
      refine ⟨fun h => ?_, fun ⟨he, _⟩ => absurd he (hs name)⟩
      split at h <;> cases h

theorem headed_new {name : String} {schema : Schema} {properties description : Value}
    (h : Collection.new settings name schema properties description = .ok c) : c.Headed := by
  obtain ⟨updated, rfl⟩ := Collection.new_eq_ok h
  exact ⟨[], rfl, by simp⟩

theorem name_of_foldlM_addPartition {entries : List (Value × Value)} {e : Collection}
    (h : c.Headed)
    (he : entries.foldlM (fun c (key, rows) => addPartition now c key rows) c = .ok e) :
    e.name = c.name := by
  obtain ⟨parts, -, -, rfl⟩ := Collection.foldlM_addPartition_eq_ok h he
  obtain ⟨partitions, keys, hframe⟩ := c.frame_withAll now parts
  rw [hframe]

/-- A collection is made from a document in three steps, and then gets its aliases. -/
theorem ofDocument_eq_ok_iff : ofDocument settings now d = .ok l ↔
    ∃ schema name c e entries items, Schema.ofDocument d.schema = .ok schema ∧
      nameOf d.name = .ok name ∧
      Collection.new settings name schema d.properties d.description = .ok c ∧
      d.partitions.entriesOrNone = .ok entries ∧
      entries.foldlM (fun c (key, rows) => addPartition now c key rows) c = .ok e ∧
      d.aliases.itemsOrNone = .ok items ∧
      items.foldlM addAlias (single settings e [] []) = .ok l := by
  have hupdate {name : String} {schema : Schema} {c : Collection}
      (hnew : Collection.new settings name schema d.properties d.description = .ok c) :
      (Store.single settings c []).updateCollection name none (fun c => do
        let entries ← d.partitions.entriesOrNone
        return ((), ← entries.foldlM (fun c (key, rows) => addPartition now c key rows) c)) =
      (do
        let entries ← d.partitions.entriesOrNone
        return ((), ← entries.foldlM (fun c (key, rows) => addPartition now c key rows) c)
          : Except Fault (Unit × Collection)).map
          fun done => (done.1, Store.single settings done.2 []) := by
    have hnamed : c.name = name := by
      obtain ⟨updated, rfl⟩ := Collection.new_eq_ok hnew
      rfl
    subst hnamed
    refine Store.updateCollection_single (List.nodup_singleton _) fun _ e he => ?_
    obtain ⟨entries, -, he⟩ := bind_eq_ok_iff.mp he
    obtain ⟨filled, hfilled, he⟩ := bind_eq_ok_iff.mp he
    cases he
    exact name_of_foldlM_addPartition (headed_new hnew) hfilled
  constructor
  · intro h
    obtain ⟨schema, hschema, h⟩ := bind_eq_ok_iff.mp h
    obtain ⟨name, hnamed, h⟩ := bind_eq_ok_iff.mp h
    obtain ⟨⟨c, store⟩, hcreated, h⟩ := bind_eq_ok_iff.mp h
    obtain ⟨⟨_, after⟩, hafter, h⟩ := bind_eq_ok_iff.mp h
    obtain ⟨hnew, rfl⟩ := (Store.createCollection_new (nameOf_eq_ok_iff.mp hnamed).2).mp hcreated
    obtain ⟨⟨_, e⟩, hfilled, hstore⟩ := map_eq_ok_iff.mp ((hupdate hnew).symm.trans hafter)
    cases hstore
    obtain ⟨items, hitems, h⟩ := bind_eq_ok_iff.mp h
    obtain ⟨entries, hentries, hfilled⟩ := bind_eq_ok_iff.mp hfilled
    obtain ⟨filled, he, hfilled⟩ := bind_eq_ok_iff.mp hfilled
    cases hfilled
    have hname : e.name = name := by
      rw [name_of_foldlM_addPartition (headed_new hnew) he]
      obtain ⟨updated, rfl⟩ := Collection.new_eq_ok hnew
      rfl
    subst hname
    exact ⟨schema, _, c, e, entries, items, hschema, hnamed, hnew, hentries, he, hitems, h⟩
  · rintro ⟨schema, name, c, e, entries, items, hschema, hnamed, hnew, hentries, he, hitems, hl⟩
    have hname : e.name = name := by
      rw [name_of_foldlM_addPartition (headed_new hnew) he]
      obtain ⟨updated, rfl⟩ := Collection.new_eq_ok hnew
      rfl
    subst hname
    refine bind_eq_ok_iff.mpr ⟨schema, hschema, bind_eq_ok_iff.mpr ⟨_, hnamed,
      bind_eq_ok_iff.mpr ⟨(c, .single settings c []),
        (Store.createCollection_new (nameOf_eq_ok_iff.mp hnamed).2).mpr ⟨hnew, rfl⟩,
        bind_eq_ok_iff.mpr ⟨((), .single settings e []), (hupdate hnew).trans ?_,
          bind_eq_ok_iff.mpr ⟨items, hitems, hl⟩⟩⟩⟩⟩
    refine map_eq_ok_iff.mpr ⟨((), e), ?_, rfl⟩
    exact bind_eq_ok_iff.mpr ⟨entries, hentries, bind_eq_ok_iff.mpr ⟨e, he, rfl⟩⟩

/-! ## Aliases -/

theorem addAlias_text (h : (c.name :: texts).Nodup) {text : String} :
    addAlias (single settings c texts others) (.str text) = .ok l ↔
      (c.name :: (texts ++ [text])).Nodup ∧ l = single settings c (texts ++ [text]) others := by
  refine bind_eq_ok_iff.trans ⟨?_, ?_⟩
  · rintro ⟨store, hstore, hl⟩
    cases hl
    obtain ⟨hnodup, rfl⟩ := (Store.createAlias_single h).mp hstore
    exact ⟨hnodup, rfl⟩
  · rintro ⟨hnodup, rfl⟩
    exact ⟨_, (Store.createAlias_single h).mpr ⟨hnodup, rfl⟩, rfl⟩

theorem addAlias_other {v : Value} (hv : ∀ text, v ≠ .str text)
    (hl : addAlias (single settings c texts others) v = .ok l) :
    l = single settings c texts (others ++ [v]) := by
  unfold addAlias at hl
  split at hl
  · next text => exact absurd rfl (hv text)
  · obtain ⟨key, hkey, hadded⟩ := bind_eq_ok_iff.mp hl
    have hsame : key = v := by
      unfold Value.asKey at hkey
      split at hkey <;> cases hkey
      rfl
    subst hsame
    split at hadded
    · obtain ⟨_, -, hadded⟩ := bind_eq_ok_iff.mp hadded
      cases hadded
    · cases hadded
      rfl

/-- The aliases are the items of the document, texts apart from other values. -/
theorem foldlM_addAlias_eq_ok {items : List Value} (h : (c.name :: texts).Nodup)
    (hl : items.foldlM addAlias (single settings c texts others) = .ok l) :
    ∃ more rest, l = single settings c (texts ++ more) (others ++ rest) ∧
      (c.name :: (texts ++ more)).Nodup ∧ (more.map Value.str ++ rest).Perm items := by
  induction items generalizing texts others with
  | nil =>
      cases hl
      exact ⟨[], [], by simp, by simpa using h, .refl _⟩
  | cons v items ih =>
      obtain ⟨next, hnext, hl⟩ := bind_eq_ok_iff.mp hl
      by_cases hv : ∃ text, v = .str text
      · obtain ⟨text, rfl⟩ := hv
        obtain ⟨hnodup, rfl⟩ := (addAlias_text h).mp hnext
        obtain ⟨more, rest, rfl, hall, hperm⟩ := ih hnodup hl
        refine ⟨text :: more, rest, ?_, ?_, hperm.cons _⟩
        · rw [List.append_assoc, List.singleton_append]
        · rwa [List.append_assoc, List.singleton_append] at hall
      · cases addAlias_other (fun text he => hv ⟨text, he⟩) hnext
        obtain ⟨more, rest, rfl, hall, hperm⟩ := ih h hl
        refine ⟨more, v :: rest, by simp, hall, ?_⟩
        exact List.perm_middle.trans (hperm.cons v)

theorem foldlM_addAlias_of_nodup {more : List String}
    (h : (c.name :: (texts ++ more)).Nodup) :
    (more.map Value.str).foldlM addAlias (single settings c texts others) =
      .ok (single settings c (texts ++ more) others) := by
  induction more generalizing texts with
  | nil => simp [pure, Except.pure]
  | cons text more ih =>
      have hsplit : texts ++ text :: more = texts ++ [text] ++ more := by simp
      rw [hsplit] at h ⊢
      have hfirst : (c.name :: (texts ++ [text])).Nodup :=
        h.sublist ((List.sublist_append_left _ _).cons_cons _)
      have htexts : (c.name :: texts).Nodup :=
        hfirst.sublist ((List.sublist_append_left _ _).cons_cons _)
      exact bind_eq_ok_iff.mpr ⟨_, (addAlias_text htexts).mpr ⟨hfirst, rfl⟩, ih h⟩

/-- Aliases that all are texts are told in order. -/
theorem aliases_single (h : (c.name :: texts).Nodup) :
    (single settings c texts []).aliases = .ok ((Database.sorted texts).map .str) := by
  have hnames : (Store.single settings c texts).aliasNames (some c.name) =
      .ok (Database.sorted texts) := Store.aliasNames_single h
  simp only [aliases, single, hnames, bind, Except.bind, pure, Except.pure]

end Loaded

/-! ## What is true of loaded collections -/

theorem Collection.Invariant.addPartition {c d : Collection} {now : Binary64} {key rows : Value}
    (h : c.Invariant) (hd : Loaded.addPartition now c key rows = .ok d) : d.Invariant := by
  obtain ⟨name, -, hd⟩ := bind_eq_ok_iff.mp hd
  have hrows {e : Collection} (he : e.Invariant) (hd : (if rows.truthy then do
      return (← e.insert now (← rows.items) (some name)).2 else pure e) = .ok d) :
      d.Invariant := by
    split at hd
    · obtain ⟨items, -, hd⟩ := bind_eq_ok_iff.mp hd
      obtain ⟨⟨keys, f⟩, hinsert, hd⟩ := bind_eq_ok_iff.mp hd
      cases hd
      exact he.insert hinsert
    · cases hd
      exact he
  dsimp only at hd
  split at hd
  · exact hrows h hd
  · obtain ⟨e, he, hd⟩ := bind_eq_ok_iff.mp hd
    exact hrows (h.createPartition he) hd

theorem Collection.Invariant.foldlM_addPartition {c d : Collection} {now : Binary64}
    {entries : List (Value × Value)} (h : c.Invariant)
    (hd : entries.foldlM (fun c (key, rows) => Loaded.addPartition now c key rows) c = .ok d) :
    d.Invariant := by
  induction entries generalizing c with
  | nil =>
      cases hd
      exact h
  | cons entry rest ih =>
      obtain ⟨next, hnext, hd⟩ := bind_eq_ok_iff.mp hd
      exact ih (h.addPartition hnext) hd

/-- The collection of a document keeps what is true of all collections. -/
theorem Loaded.invariant_of_ofDocument {settings : Settings} {now : Binary64} {d : Document}
    {l : Loaded} (hl : ofDocument settings now d = .ok l) :
    ∃ c texts others, l = single settings c texts others ∧ (c.name :: texts).Nodup ∧
      c.settings = settings ∧ c.Invariant ∧ c.properties.Timed := by
  obtain ⟨schema, name, e, c, entries, items, -, -, hnew, -, hfilled, -, hl⟩ :=
    ofDocument_eq_ok_iff.mp hl
  obtain ⟨texts, others, rfl, hnodup, -⟩ := foldlM_addAlias_eq_ok (List.nodup_singleton _) hl
  have hinvariant := (Collection.invariant_new hnew).foldlM_addPartition hfilled
  have htimed := Collection.timed_of_new hnew
  obtain ⟨updated, rfl⟩ := Collection.new_eq_ok hnew
  obtain ⟨parts, -, -, rfl⟩ := Collection.foldlM_addPartition_eq_ok (headed_new hnew) hfilled
  obtain ⟨partitions, keys, hframe⟩ := Collection.frame_withAll _ now parts
  refine ⟨_, texts, others, rfl, hnodup, ?_, hinvariant, ?_⟩
  · rw [hframe]
  · rw [hframe]
    exact htimed

end ScalarStore
