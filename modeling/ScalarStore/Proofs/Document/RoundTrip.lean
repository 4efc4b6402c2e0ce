import ScalarStore.Proofs.Collection.Restorable
import ScalarStore.Proofs.Document.Dump
import ScalarStore.Proofs.Session.Readable

/-! # Loading what was written

A collection is made again from its document, with its rows and its aliases, and then gives the
same document. What is written of a row is the record that the checks have made of it, and they
take such a record as it is. -/

namespace ScalarStore

namespace Collection

variable {c d : Collection} {settings : Settings} {now : Binary64} {seconds : ℤ}

/-- Collections have the same partitions if these have the same names and rows. -/
theorem partitions_ext (hnames : c.partitionNames = d.partitionNames)
    (hrows : ∀ name, c.rowsIn name = d.rowsIn name) : c.partitions = d.partitions := by
  refine Table.ext_get? hnames fun name => ?_
  by_cases hm : name ∈ c.partitionNames
  · obtain ⟨rows, hc⟩ := Table.exists_get?_of_mem_keys hm
    obtain ⟨others, hd⟩ :=
      Table.exists_get?_of_mem_keys (show name ∈ d.partitionNames from hnames ▸ hm)
    have heq := hrows name
    rw [rowsIn_of_get? hc, rowsIn_of_get? hd] at heq
    rw [hc, hd, heq]
  · rw [(c.partitions.get?_eq_none_iff name).mpr hm,
      (d.partitions.get?_eq_none_iff name).mpr (show name ∉ d.partitionNames from hnames ▸ hm)]

/-- The records of each partition. -/
def heldRecords (c : Collection) : List (String × List Record) :=
  c.partitionNames.map fun name => (name, (c.rowsIn name).map (·.record))

theorem liveRecords_of_live (h : ∀ row ∈ c.stored, row.live now seconds = true) :
    c.liveRecords now seconds = c.heldRecords := by
  refine List.map_congr_left fun name hm => ?_
  rw [List.filter_eq_self.mpr fun row hr => h row (List.mem_flatMap.mpr ⟨name, hm, hr⟩)]

theorem map_fst_heldRecords (c : Collection) : c.heldRecords.map (·.1) = c.partitionNames := by
  rw [heldRecords, List.map_map]
  exact List.map_id c.partitionNames

theorem mem_heldRecords {part : String × List Record} (h : part ∈ c.heldRecords) {record : Record}
    (hr : record ∈ part.2) : ∃ row ∈ c.stored, row.record = record := by
  obtain ⟨name, hm, rfl⟩ := List.mem_map.mp h
  obtain ⟨row, hrow, rfl⟩ := List.mem_map.mp hr
  exact ⟨row, List.mem_flatMap.mpr ⟨name, hm, hrow⟩, rfl⟩

theorem recordsFor_heldRecords (c : Collection) (name : String) :
    recordsFor name c.heldRecords = (c.rowsIn name).map (·.record) := by
  have hnames (names : List String) (hn : names.Nodup) (f : String → List Record) :
      recordsFor name (names.map fun other => (other, f other)) =
        if name ∈ names then f name else [] := by
    induction names with
    | nil => rfl
    | cons other rest ih =>
        obtain ⟨hother, hrest⟩ := List.nodup_cons.mp hn
        have ih := ih hrest
        by_cases he : other = name
        · subst he
          rw [if_neg hother] at ih
          rw [recordsFor] at ih ⊢
          simp [ih]
        · rw [recordsFor] at ih ⊢
          simp [he, ih, Ne.symm he]
  rw [heldRecords, hnames _ c.nodup_partitionNames]
  split
  · rfl
  · next hm => rw [rowsIn_of_not_mem hm, List.map_nil]

theorem keysOf_stored_eq (c : Collection) :
    c.keysOf c.stored = c.heldRecords.flatMap fun part => part.2.map c.keyOf := by
  rw [keysOf, stored, heldRecords, List.map_flatMap, List.flatMap_map]
  simp [Function.comp_def]

theorem keys_withAll (c : Collection) (now : Binary64) (parts : List (String × List Record)) :
    (c.withAll now parts).keys = c.keys ++ parts.flatMap fun part => part.2.map c.keyOf := by
  induction parts generalizing c with
  | nil => exact (List.append_nil _).symm
  | cons part rest ih =>
      rw [withAll_cons, ih, List.flatMap_cons, ← List.append_assoc]
      rfl

/-- The collection without its rows and partitions. -/
def emptied (c : Collection) : Collection :=
  { c with partitions := Table.empty.put c.settings.defaultPartition [], keys := [] }

/-- The collection with its keys in the order of its rows. -/
def rekeyed (c : Collection) : Collection := { c with keys := c.keysOf c.stored }

/-- The records of all partitions, put in again, give back the partitions. -/
theorem emptied_withAll (hinv : c.Invariant) (h : c.Restorable settings now) :
    c.emptied.withAll now c.heldRecords = c.rekeyed := by
  have hnames : (c.emptied.withAll now c.heldRecords).partitionNames = c.partitionNames := by
    obtain ⟨others, hfirst, -⟩ := h.headed
    have hempty : c.emptied.partitionNames = [c.settings.defaultPartition] := rfl
    have hdistinct := eraseDups_of_nodup c.nodup_partitionNames
    rw [partitionNames_withAll, map_fst_heldRecords, hempty, hfirst, List.singleton_append,
      List.eraseDups_cons, List.filter_cons_of_neg (by simp), ← List.eraseDups_cons, ← hfirst,
      hdistinct]
  have hrows (name : String) :
      (c.emptied.withAll now c.heldRecords).rowsIn name = c.rowsIn name := by
    have hempty : c.emptied.rowsIn name = [] := by
      rw [rowsIn, emptied, Table.get?_put]
      split <;> rfl
    rw [rowsIn_withAll, hempty, List.nil_append, recordsFor_heldRecords, newRows, List.map_map]
    refine (List.map_congr_left fun row hr => ?_).trans (List.map_id _)
    have hm : name ∈ c.partitionNames := by
      by_contra hm
      rw [rowsIn_of_not_mem hm] at hr
      cases hr
    have htag := hinv.tagged name hm row hr
    have htime := h.timed row (List.mem_flatMap.mpr ⟨name, hm, hr⟩)
    cases row
    cases htag
    cases htime
    rfl
  have hpartitions := partitions_ext hnames hrows
  have hkeys := c.emptied.keys_withAll now c.heldRecords
  obtain ⟨partitions, keys, hframe⟩ := c.emptied.frame_withAll now c.heldRecords
  rw [hframe] at hpartitions hkeys ⊢
  cases hpartitions
  cases hkeys
  rw [rekeyed, keysOf_stored_eq]
  rfl

/-- What the partitions of a document tell is read again. -/
theorem told_of_settled {schema : Schema} {defaultLength : Option Number}
    {parts : List (String × List Record)} (hf : schema.rowFault? defaultLength = none)
    (h : ∀ part ∈ parts, ∀ record ∈ part.2, schema.Settled defaultLength record) :
    Told schema defaultLength (parts.map fun (name, records) =>
      (.str name, .list (records.map Loaded.recordDocument))) parts := by
  rw [Told, List.forall₂_map_left_iff, List.forall₂_same]
  rintro ⟨name, records⟩ hpart
  refine ⟨rfl, ?_⟩
  cases hrecords : records with
  | nil => rfl
  | cons record rest =>
      subst hrecords
      exact Schema.records_of_settled hf (h _ hpart)

theorem new_of_checked {name : String} {schema : Schema} {p : Properties} {description : Value}
    (hf : newFault? settings name schema = none) (hp : p.Checked) :
    new settings name schema p.document description = .ok ⟨name, schema, description, settings,
      Table.empty.put settings.defaultPartition [], [], p⟩ := by
  have hentries : p.document.entriesOrNone =
      .ok (p.entries.map fun entry => (.str entry.1, .str entry.2)) := by
    rw [Value.entriesOrNone, Properties.document]
    cases p.entries <;> rfl
  have hall : Table.putAll .empty p.entries = p := p.ofList_entries
  rw [new, hf]
  dsimp only
  rw [hentries]
  refine (alterProperties_of_checked _ hp).trans ?_
  dsimp only
  rw [hall]

end Collection

/-! ## Documents of collections -/

namespace Database

theorem sorted_sorted (names : List String) : sorted (sorted names) = sorted names := by
  refine List.mergeSort_of_pairwise (List.pairwise_mergeSort ?_ ?_ names)
  · intro a b c hab hbc
    rw [decide_eq_true_eq] at hab hbc ⊢
    exact String.le_trans hab hbc
  · intro a b
    rw [Bool.or_eq_true, decide_eq_true_eq, decide_eq_true_eq]
    exact String.le_total a b

end Database

namespace Loaded

variable {settings : Settings} {now : Binary64} {c : Collection} {texts : List String}

/-- The partitions of a collection are filled again from its document. -/
theorem foldlM_addPartition_heldRecords (hinv : c.Invariant) (h : c.Restorable settings now) :
    (c.heldRecords.map fun (name, records) => (Value.str name,
      Value.list (records.map recordDocument))).foldlM
        (fun c (key, rows) => addPartition now c key rows) c.emptied = .ok c.rekeyed := by
  have hfault : c.schema.rowFault? c.settings.defaultLength = none :=
    h.configured ▸ Collection.rowFault?_of_newFault? h.possible
  have hsettled : ∀ part ∈ c.heldRecords, ∀ record ∈ part.2,
      c.schema.Settled c.settings.defaultLength record := by
    intro part hpart record hrecord
    obtain ⟨row, hrow, rfl⟩ := Collection.mem_heldRecords hpart hrecord
    exact h.configured ▸ h.settled row hrow
  have hnames : ∀ part ∈ c.heldRecords, part.1 = c.settings.defaultPartition ∨
      Text.isBlankText part.1 = false := by
    intro part hpart
    refine h.headed.default_or_nonblank ?_
    rw [← c.map_fst_heldRecords]
    exact List.mem_map_of_mem hpart
  have hkeyed : ∀ part ∈ c.heldRecords, ∀ record ∈ part.2,
      record.lookup c.primaryName = some (c.keyOf record) := by
    intro part hpart record hrecord
    obtain ⟨row, hrow, rfl⟩ := Collection.mem_heldRecords hpart hrecord
    exact hinv.keyed row hrow
  have hplain : ∀ key ∈ c.keysOf c.stored, key.IsPlain :=
    fun key hk => hinv.isPlain (hinv.keys_perm.mem_iff.mpr hk)
  have hdistinct := hinv.distinct
  rw [Collection.keysOf_stored_eq] at hplain hdistinct
  have htold := Collection.told_of_settled hfault hsettled
  have hheaded : c.emptied.Headed := ⟨[], rfl, by simp⟩
  rw [← Collection.emptied_withAll hinv h]
  exact Collection.foldlM_addPartition_of_told hheaded htold hnames hkeyed hplain hdistinct

/-- The document of a collection, read back and loaded, gives the collection with its aliases. -/
theorem ofDocument_documentOf (hinv : c.Invariant) (h : c.Restorable settings now)
    (hschema : c.schema.Described) {description : String}
    (hdescription : c.description = .str description) (hnodup : (c.name :: texts).Nodup) :
    ∃ d, Document.ofEntries (documentOf c c.heldRecords (texts.map .str)).entries = .ok d ∧
      ofDocument settings now d = .ok (single settings c.rekeyed texts []) := by
  have htold : (documentOf c c.heldRecords (texts.map .str)).description = .str description :=
    hdescription
  refine ⟨_, Document.ofEntries_entries htold, ?_⟩
  have hnew : Collection.new settings c.name c.schema c.properties.document c.description =
      .ok c.emptied := by
    rw [Collection.new_of_checked h.possible h.checked, ← h.configured]
    rfl
  have hentries : (partitionsDocument c.heldRecords).entriesOrNone =
      .ok (c.heldRecords.map fun (name, records) => (Value.str name,
        Value.list (records.map recordDocument))) := by
    rw [Value.entriesOrNone, partitionsDocument]
    cases c.heldRecords <;> rfl
  have hitems : (if (Value.list (texts.map .str)).truthy then Value.list (texts.map .str)
      else .null).itemsOrNone = .ok (texts.map .str) := by
    cases texts <;> rfl
  have haliases : (texts.map Value.str).foldlM addAlias (single settings c.rekeyed [] []) =
      .ok (single settings c.rekeyed ([] ++ texts) []) := foldlM_addAlias_of_nodup hnodup
  exact ofDocument_eq_ok_iff.mpr ⟨c.schema, c.name, c.emptied, _, _, _,
    Schema.ofDocument_document hschema, nameOf_eq_ok_iff.mpr ⟨rfl, h.named⟩, hnew, hentries,
    foldlM_addPartition_heldRecords hinv h, hitems, haliases⟩

end Loaded

/-! ## After any run -/

namespace Session

variable {settings : Settings} {start : Binary64} {commands : List Command} {s : Session}
  {name description : String} {c : Collection}

theorem restorable_of_run (hclock : ∀ command ∈ commands, command.movesClock = false)
    (hs : ((new settings start).run commands).2 = s)
    (hc : s.store.collection name none = .ok c) : c.Restorable settings start := by
  obtain ⟨a, hat⟩ := Store.at?_of_collection hc
  exact forall_collections_of_clock (P := fun c => c.Restorable settings start) hclock hs
    (fun _ _ _ _ _ hblank hnew => Collection.restorable_new start hblank hnew)
    (fun _ _ _ h hstep => Clocked.restorable_step h hstep) hat

/-- While the clock stands, a collection with texts for descriptions and with all its rows live is
written and loaded again: it has all that it had, its rows in their order among it, the same
aliases, and the same document once more. Only a time to live beyond the finite numbers makes
the writing a fault, and always does. -/
theorem roundTrip_of_run (hclock : ∀ command ∈ commands, command.movesClock = false)
    (hs : ((new settings start).run commands).2 = s)
    (hc : s.store.collection name none = .ok c)
    (hdescription : c.description = .str description) (hschema : c.schema.Described) :
    ∃ seconds, c.ttl = .ok seconds ∧
      (seconds < Binary64.integerBound →
        (∀ row ∈ c.stored, row.live start seconds = true) →
        ∃ document parsed l keys aliases,
          (Loaded.mk s.store c.name []).dump start = .ok document ∧
          Document.ofEntries document.entries = .ok parsed ∧
          Loaded.ofDocument settings start parsed = .ok l ∧
          l.collection = .ok { c with keys := keys } ∧ keys.Perm c.keys ∧
          (Loaded.mk s.store c.name []).aliases = .ok aliases ∧ l.aliases = .ok aliases ∧
          l.dump start = .ok document) ∧
      (Binary64.integerBound ≤ seconds →
        (Loaded.mk s.store c.name []).dump start = .error (.overflow .integerBeyondReals)) := by
  have h : s.store.Invariant settings := by
    rw [← hs]
    exact invariant_run settings start commands
  have hrestorable := restorable_of_run hclock hs hc
  have hinv := h.of_collection hc
  obtain ⟨db, hdb, hr⟩ := Store.collection_eq_ok hc
  have hsound := h.sound _ db (Store.database_eq_ok_iff.mp hdb)
  have hget := (hsound.of_resolve hr).2.1
  have hcollection : (Loaded.mk s.store c.name []).collection = .ok c :=
    bind_eq_ok_iff.mpr ⟨db, hdb, (hsound.resolve_iff hget).mpr (.inl rfl)⟩
  have haliases : (Loaded.mk s.store c.name []).aliases =
      .ok ((db.aliasNames (some c.name)).map .str) := by
    simp only [Loaded.aliases, Store.aliasNames, hdb, bind, Except.bind, pure, Except.pure]
  have hnodup : (c.name :: db.aliasNames (some c.name)).Nodup := by
    refine List.nodup_cons.mpr ⟨fun hm => ?_, Database.nodup_aliasNames _⟩
    have hm := Table.mem_keys_of_get? (Database.mem_aliasNames_iff.mp hm)
    exact hsound.apart _ hm (Table.mem_keys_of_get? hget)
  obtain ⟨seconds, -, httl⟩ := Collection.ttl_of_timed (timed_of_run hs hc)
  refine ⟨seconds, httl, fun hlt hlive => ?_, fun hle => ?_⟩
  · obtain ⟨parsed, hparsed, hload⟩ :=
      Loaded.ofDocument_documentOf hinv hrestorable hschema hdescription hnodup
    have hrecords := Collection.liveRecords_of_live hlive
    have hdump : (Loaded.mk s.store c.name []).dump start = .ok _ :=
      Loaded.dump_of_lt hcollection httl hlt haliases
    have hloaded : (Loaded.single settings c.rekeyed (db.aliasNames (some c.name)) []).collection =
        .ok c.rekeyed := Store.collection_single (c := c.rekeyed) hnodup
    have hagain : (Loaded.single settings c.rekeyed (db.aliasNames (some c.name)) []).aliases =
        .ok ((db.aliasNames (some c.name)).map .str) := by
      refine (Loaded.aliases_single (c := c.rekeyed) hnodup).trans ?_
      rw [Database.aliasNames, Database.sorted_sorted]
    refine ⟨_, parsed, _, c.keysOf c.stored, _, hdump, ?_, hload, hloaded, hinv.keys_perm.symm,
      haliases, hagain, Loaded.dump_of_lt (c := c.rekeyed) hloaded httl hlt hagain⟩
    rw [hrecords]
    exact hparsed
  · refine Loaded.dump_of_le hcollection httl hle ?_
    exact List.ne_nil_of_mem hinv.hasDefault

/-- A collection with a row in a partition of its own, and with an alias. -/
def described : List Command :=
  [.createCollection "c" bookSchema .null (.str "books") none, .createPartition "c" "p",
    .insert "c" (.map [(.str "id", .str "a"), (.str "title", .str "x")]) (some "p"),
    .createAlias "c" "b"]

theorem roundTrip_of_run_described : ∃ s c parsed l keys aliases,
    ((new {} (.zero false)).run described).2 = s ∧ s.store.collection "b" none = .ok c ∧
    Loaded.ofDocument {} (.zero false) parsed = .ok l ∧
    l.collection = .ok { c with keys := keys } ∧ l.aliases = .ok aliases := by
  obtain ⟨s, hs⟩ : ∃ s, ((new {} (.zero false)).run described).2 = s := ⟨_, rfl⟩
  obtain ⟨c, hc⟩ : ∃ c, s.store.collection "b" none = .ok c := by
    subst hs
    exact ⟨_, rfl⟩
  have hclock : ∀ command ∈ described, command.movesClock = false := by
    simp [described, Command.movesClock]
  have hdescription : c.description = .str "books" := by
    subst hs
    cases hc
    rfl
  have hschema : c.schema.Described := by
    subst hs
    cases hc
    exact Schema.described_bookSchema
  have hzero : c.ttl = .ok 0 := by
    subst hs
    cases hc
    rfl
  obtain ⟨seconds, httl, hround, -⟩ := roundTrip_of_run hclock hs hc hdescription hschema
  cases hzero.symm.trans httl
  obtain ⟨document, parsed, l, keys, aliases, -, -, hl, hcollection, -, -, haliases, -⟩ :=
    hround (by decide +kernel) (fun _ _ => rfl)
  exact ⟨s, c, parsed, l, keys, aliases, hs, hc, hl, hcollection, haliases⟩

/-- Properties with a time to live beyond the finite numbers. -/
def endless : Properties :=
  Table.ofList [(Property.ttlKey, String.ofList ('1' :: List.replicate 309 '0'))]

theorem readTtl_endless :
    Property.readTtl (.str (String.ofList ('1' :: List.replicate 309 '0'))) = .ok (10 ^ 309) := by
  have hdigits : Text.readInteger (String.ofList ('1' :: List.replicate 309 '0')) =
      .ok (10 ^ 309) := by
    rw [Text.readInteger, String.toList_ofList]
    decide +kernel
  exact Property.readTtl_of_readInteger hdigits (by decide +kernel)

/-- A collection that is accepted, with texts for descriptions and without rows, and of which no
document can be made. -/
theorem endless_unwritable : ∃ s c,
    ((new {} (.zero false)).run
      [.createCollection "c" bookSchema endless.document (.str "books") none]).2 = s ∧
    s.store.collection "c" none = .ok c ∧ c.description = .str "books" ∧ c.schema.Described ∧
    c.stored = [] ∧
    (Loaded.mk s.store c.name []).dump (.zero false) =
      .error (.overflow .integerBeyondReals) := by
  have hchecked : endless.Checked := by
    refine Property.check_eq_ok_iff.mpr ⟨fun v hv => ?_, nofun⟩
    cases hv
    exact ⟨_, readTtl_endless⟩
  obtain ⟨c, hc⟩ : ∃ c, c = (⟨"c", bookSchema, .str "books", {},
    Table.empty.put "_default" [], [], endless⟩ : Collection) := ⟨_, rfl⟩
  have hnew : Collection.new {} "c" bookSchema endless.document (.str "books") = .ok c :=
    hc ▸ Collection.new_of_checked rfl hchecked
  have hcreated : (new {} (.zero false)).store.createCollection "c" bookSchema endless.document
      (.str "books") none = .ok (c, .single {} c []) :=
    (Store.createCollection_new (by decide)).mpr ⟨hnew, rfl⟩
  have hstep : ((new {} (.zero false)).step
      (.createCollection "c" bookSchema endless.document (.str "books") none)).2 =
        ⟨.single {} c [], .zero false⟩ := by
    rw [step, hcreated]
    rfl
  have hname : c.name = "c" := hc ▸ rfl
  have hcollection : (Store.single {} c []).collection c.name none = .ok c :=
    Store.collection_single (List.nodup_singleton _)
  have httl : c.ttl = .ok (10 ^ 309) := by
    have hget : c.properties.get? Property.ttlKey =
        some (String.ofList ('1' :: List.replicate 309 '0')) := hc ▸ rfl
    rw [Collection.ttl, Properties.ttl?, hget]
    simp only [readTtl_endless]
    rfl
  have hrun (s : Session) (command : Command) : (s.run [command]).2 = (s.step command).2 := rfl
  refine ⟨⟨.single {} c [], .zero false⟩, c, (hrun _ _).trans hstep, hname ▸ hcollection,
    hc ▸ rfl, hc ▸ Schema.described_bookSchema, hc ▸ rfl, ?_⟩
  have hnames : c.partitionNames = ["_default"] := hc ▸ rfl
  have hle : (Binary64.integerBound : ℤ) ≤ 10 ^ 309 := by decide +kernel
  exact Loaded.dump_of_le hcollection httl hle (by simp [hnames])

end Session

end ScalarStore
