import ScalarStore.CommandLine.Run
import ScalarStore.Proofs.Document.Alter
import ScalarStore.Proofs.Schema.Row

/-! # Altering a data file

An order to alter a data file writes it at most once, after all steps have succeeded, and what it
writes differs from what the file told in the properties alone, as long as no row expires. -/

namespace ScalarStore

namespace Alteration.Draft

variable {d e : Draft} {name : String}

/-- The steps of a draft leave its names as they are. -/
structure Named (name : String) (d : Draft) : Prop where
  collection : d.collection = .str name
  database : d.database = .null

theorem Named.withProperty {key value : Value} (hd : d.Named name)
    (h : d.withProperty key value = .ok e) : e.Named name := by
  unfold Draft.withProperty at h
  split at h
  · cases h
  · split at h
    · split at h
      · cases h
      · obtain ⟨text, -, h⟩ := bind_eq_ok_iff.mp h
        cases h
        exact ⟨hd.collection, hd.database⟩
    · cases h

theorem Named.withTtl {seconds : Value} (hd : d.Named name) (h : d.withTtl seconds = .ok e) :
    e.Named name := by
  unfold Draft.withTtl at h
  split at h
  · split at h
    · cases h
    · exact hd.withProperty h
  · cases h

theorem Named.withMmap {enabled : Value} (hd : d.Named name) (h : d.withMmap enabled = .ok e) :
    e.Named name := by
  unfold Draft.withMmap at h
  split at h
  · exact hd.withProperty h
  · cases h

theorem Named.build {a : Alteration} (hd : d.Named name) (h : d.build = .ok a) :
    a.collection = name ∧ a.database = .null := by
  unfold Draft.build at h
  rw [hd.collection] at h
  dsimp only at h
  split at h
  · cases h
  · cases h
    exact ⟨rfl, hd.database⟩

end Alteration.Draft

namespace CommandLine

variable {a : AlterOrder} {s : Surroundings} {globals : Globals} {name : String}

theorem orElse_eq_ok_iff {α : Type} {outcome : Fault → Outcome} {r : Except Fault α} {x : α} :
    orElse outcome r = .ok x ↔ r = .ok x :=
  mapError_eq_ok_iff

/-! ## Orders as alterations -/

namespace AlterOrder

/-- A step of a draft that is left out if nothing is asked for. -/
def optional {α : Type} (step : Alteration.Draft → α → Except Fault Alteration.Draft)
    (asked : Option α) (d : Alteration.Draft) : Except Outcome Alteration.Draft :=
  match asked with
  | none => .ok d
  | some x => orElse (.ofFault .misused) (step d x)

/-- A step of a draft that puts a property in. -/
def putProperty (d : Alteration.Draft) (text : String) : Except Outcome Alteration.Draft := do
  let (key, value) ← readProperty text
  orElse (.ofFault .misused) (d.withProperty key value)

theorem alteration_eq (a : AlterOrder) (name : String) : a.alteration name = (do
    let d ← orElse (.ofFault .misused) (Alteration.Draft.new.withCollection (.str name))
    let d ← optional (fun d seconds => d.withTtl (.int seconds)) a.ttl d
    let d ← optional (fun d enabled => d.withMmap (.bool enabled)) a.mmap d
    let d ← a.properties.foldlM putProperty d
    orElse (.ofFault .misused) d.build) := by
  rw [alteration]
  cases a.ttl <;> cases a.mmap <;> rfl

theorem named_of_optional {α : Type}
    {step : Alteration.Draft → α → Except Fault Alteration.Draft} {asked : Option α}
    {d e : Alteration.Draft} (hd : d.Named name)
    (hstep : ∀ x e, step d x = .ok e → e.Named name) (h : optional step asked d = .ok e) :
    e.Named name := by
  unfold optional at h
  split at h
  · cases h
    exact hd
  · exact hstep _ _ (orElse_eq_ok_iff.mp h)

theorem named_of_foldlM {texts : List String} {d e : Alteration.Draft} (hd : d.Named name)
    (h : texts.foldlM putProperty d = .ok e) : e.Named name := by
  induction texts generalizing d with
  | nil =>
      cases h
      exact hd
  | cons text rest ih =>
      obtain ⟨next, hnext, h⟩ := bind_eq_ok_iff.mp h
      obtain ⟨⟨key, value⟩, -, hput⟩ := bind_eq_ok_iff.mp hnext
      exact ih (hd.withProperty (orElse_eq_ok_iff.mp hput)) h

/-- An order is made an alteration of the collection of the data file, in the current database. -/
theorem alteration_eq_ok {alteration : Alteration} (h : a.alteration name = .ok alteration) :
    alteration.collection = name ∧ alteration.database = .null := by
  rw [alteration_eq] at h
  obtain ⟨d, hd, h⟩ := bind_eq_ok_iff.mp h
  obtain ⟨timed, htimed, h⟩ := bind_eq_ok_iff.mp h
  obtain ⟨mapped, hmapped, h⟩ := bind_eq_ok_iff.mp h
  obtain ⟨last, hlast, h⟩ := bind_eq_ok_iff.mp h
  have hd : d.Named name := by
    cases orElse_eq_ok_iff.mp hd
    exact ⟨rfl, rfl⟩
  have htimed : timed.Named name := by
    refine named_of_optional hd ?_ htimed
    exact fun _ _ he => hd.withTtl he
  have hmapped : mapped.Named name := by
    refine named_of_optional htimed ?_ hmapped
    exact fun _ _ he => htimed.withMmap he
  exact (named_of_foldlM hmapped hlast).build (orElse_eq_ok_iff.mp h)

end AlterOrder

/-! ## Outcomes that write nothing -/

/-- If an outcome stands in the place of a value, it writes nothing. -/
def Quiet {α : Type} (r : Except Outcome α) : Prop := ∀ o, r = .error o → o.written = none

namespace Quiet

variable {α β : Type} {r : Except Outcome α}

theorem ok (x : α) : Quiet (.ok x) := by
  intro o ho
  cases ho

theorem error {o : Outcome} (h : o.written = none) : Quiet (.error o : Except Outcome α) := by
  rintro _ ⟨⟩
  exact h

theorem bind {f : α → Except Outcome β} (h : Quiet r) (hf : ∀ x, Quiet (f x)) :
    Quiet (r >>= f) := by
  intro o ho
  rcases bind_eq_error_iff.mp ho with hr | ⟨x, -, hx⟩
  · exact h o hr
  · exact hf x o hx

theorem foldlM {f : β → α → Except Outcome β} (hf : ∀ y x, Quiet (f y x)) (xs : List α) (y : β) :
    Quiet (xs.foldlM f y) := by
  induction xs generalizing y with
  | nil => exact ok y
  | cons x rest ih => exact bind (hf y x) fun z => ih z

theorem orElse {outcome : Fault → Outcome} (h : ∀ fault, (outcome fault).written = none)
    (r : Except Fault α) : Quiet (CommandLine.orElse outcome r) := by
  cases r with
  | ok x => exact ok x
  | error fault => exact error (h fault)

end Quiet

theorem Outcome.written_ofFault (status : Status) (fault : Fault) :
    (ofFault status fault).written = none := by
  unfold ofFault
  split <;> rfl

theorem written_told (globals : Globals) (json : Value) (report : Report.Printed) :
    (told globals json report).written = none := by
  unfold told toldAsJson
  split
  · split <;> rfl
  · rfl

theorem Surroundings.quiet_openData (s : Surroundings) (globals : Globals) :
    Quiet (s.openData globals) := by
  unfold openData
  split
  · exact .error rfl
  · split
    · exact .ok _
    · exact .error rfl

theorem AlterOrder.quiet_alteration (a : AlterOrder) (name : String) :
    Quiet (a.alteration name) := by
  have hrefused := Outcome.written_ofFault .misused
  have hoptional {α : Type} (step : Alteration.Draft → α → Except Fault Alteration.Draft)
      (asked : Option α) (d : Alteration.Draft) : Quiet (optional step asked d) := by
    unfold optional
    split
    · exact .ok _
    · exact .orElse hrefused _
  have hput (d : Alteration.Draft) (text : String) : Quiet (putProperty d text) := by
    refine .bind ?_ fun entry => .orElse hrefused _
    unfold readProperty
    split
    · exact .error rfl
    · exact .ok _
  rw [alteration_eq]
  exact .bind (.orElse hrefused _) fun d => .bind (hoptional _ _ _) fun d =>
    .bind (hoptional _ _ _) fun d => .bind (.foldlM hput _ _) fun d => .orElse hrefused _

/-! ## Writing the file -/

theorem AlterOrder.quiet_run (a : AlterOrder) (s : Surroundings) (globals : Globals) :
    Quiet (a.run s globals) := by
  unfold run
  split
  · exact .error rfl
  · refine .bind (s.quiet_openData globals) fun data => .bind (a.quiet_alteration _) fun _ =>
      .bind (.orElse (Outcome.written_ofFault _) _) fun _ => .bind (.orElse (fun _ => rfl) _)
        fun c => ?_
    dsimp only
    split
    · exact .ok _
    · refine .bind (.orElse (fun _ => rfl) _) fun document => ?_
      split
      · exact .error rfl
      · exact .ok _

/-- A file is written exactly if the order asks for something, is no dry run and has passed every
step; then it is the data file, with the altered collection in it. -/
theorem AlterOrder.written_iff {path text : String} :
    (Order.run (.alter a) s globals).written = some (path, text) ↔
      a.isEmpty = false ∧ a.dryRun = false ∧ ∃ file l alteration altered document,
        s.openData globals = .ok (file, l) ∧ a.alteration l.name = .ok alteration ∧
        l.alter alteration = .ok altered ∧ altered.dump s.now = .ok document ∧
        DataFile.obstacle? file document = none ∧ path = DataFile.normal file ∧
        text = DataFile.write file document := by
  have hsettle (r : Except Outcome Outcome) (h : Quiet r) :
      (Outcome.settle r).written = some (path, text) ↔
        ∃ o, r = .ok o ∧ o.written = some (path, text) := by
    cases hr : r with
    | error o => simp [Outcome.settle, h o hr]
    | ok o => simp [Outcome.settle]
  rw [Order.run, hsettle _ (a.quiet_run s globals)]
  constructor
  · rintro ⟨o, ho, hwritten⟩
    unfold run at ho
    split at ho
    · cases ho
    · next hempty =>
        obtain ⟨⟨file, l⟩, hopen, ho⟩ := bind_eq_ok_iff.mp ho
        obtain ⟨alteration, halteration, ho⟩ := bind_eq_ok_iff.mp ho
        obtain ⟨altered, haltered, ho⟩ := bind_eq_ok_iff.mp ho
        obtain ⟨c, -, ho⟩ := bind_eq_ok_iff.mp ho
        dsimp only at ho
        split at ho
        · cases ho
          exact absurd ((written_told _ _ _).symm.trans hwritten) nofun
        · next hdry =>
            obtain ⟨document, hdocument, ho⟩ := bind_eq_ok_iff.mp ho
            split at ho
            · cases ho
            · next hnone =>
                cases ho
                cases hwritten
                exact ⟨Bool.not_eq_true _ ▸ hempty, Bool.not_eq_true _ ▸ hdry, file, l, alteration,
                  altered, document, hopen, halteration, orElse_eq_ok_iff.mp haltered,
                  orElse_eq_ok_iff.mp hdocument, hnone, rfl, rfl⟩
  · rintro ⟨hempty, hdry, file, l, alteration, altered, document, hopen, halteration, haltered,
      hdocument, hnone, rfl, rfl⟩
    obtain ⟨c, hc, -⟩ := bind_eq_ok_iff.mp hdocument
    refine ⟨{ toldAlteration globals c !a.dryRun with
      written := some (DataFile.normal file, DataFile.write file document) }, ?_, rfl⟩
    rw [run, if_neg (by simp [hempty])]
    refine bind_eq_ok_iff.mpr ⟨(file, l), hopen, bind_eq_ok_iff.mpr ⟨alteration, halteration,
      bind_eq_ok_iff.mpr ⟨altered, orElse_eq_ok_iff.mpr haltered, bind_eq_ok_iff.mpr ⟨c,
        orElse_eq_ok_iff.mpr hc, ?_⟩⟩⟩⟩
    dsimp only
    rw [if_neg (by simp [hdry])]
    refine bind_eq_ok_iff.mpr ⟨document, orElse_eq_ok_iff.mpr hdocument, ?_⟩
    rw [hnone]
    rfl

/-! ## What an alteration leaves -/

/-- An order to alter writes the data file exactly if it asks for something, is no dry run and has
passed every step. What it makes of a document has the name, the description, the schema and the
aliases that the document told, the properties that it told with those of the order put over
them, and in every partition the rows that it told, in their order, as far as they are live. -/
theorem AlterOrder.run_of_document (a : AlterOrder) (s : Surroundings) (globals : Globals) :
    (∀ path text, (Order.run (.alter a) s globals).written = some (path, text) ↔
      a.isEmpty = false ∧ a.dryRun = false ∧ ∃ file l alteration altered document,
        s.openData globals = .ok (file, l) ∧ a.alteration l.name = .ok alteration ∧
        l.alter alteration = .ok altered ∧ altered.dump s.now = .ok document ∧
        DataFile.obstacle? file document = none ∧ path = DataFile.normal file ∧
        text = DataFile.write file document) ∧
    ∀ settings t₀ d l alteration, Loaded.ofDocument settings t₀ d = .ok l →
      a.alteration l.name = .ok alteration → alteration.properties.Checked →
      ∃ name schema properties parts items altered c seconds,
        d.Tells settings name schema properties parts items ∧
        l.alter alteration = .ok altered ∧ altered.collection = .ok c ∧
        c.properties = properties.putAll alteration.properties.entries ∧ c.ttl = .ok seconds ∧
        ∀ t₁ aliases, seconds < Binary64.integerBound → l.aliases = .ok aliases →
          aliases.Perm items ∧ altered.dump t₁ = .ok
            ⟨.str name, schema.document, d.description,
              Properties.document (properties.putAll alteration.properties.entries),
              Loaded.partitionsDocument
                (Loaded.keptRecords settings.defaultPartition t₀ t₁ seconds parts),
              .list aliases⟩ := by
  refine ⟨fun _ _ => written_iff, fun settings t₀ d l alteration hl halteration hchecked => ?_⟩
  obtain ⟨hname, hdatabase⟩ := alteration_eq_ok halteration
  obtain ⟨name, schema, properties, parts, items, htells, -, halter⟩ := Loaded.dump_of_alter hl
  obtain ⟨altered, c, seconds, hrest⟩ := halter alteration hname hdatabase hchecked
  exact ⟨name, schema, properties, parts, items, altered, c, seconds, htells, hrest⟩

/-- A document with one row in the default partition. -/
def library : Document where
  name := .str "c"
  schema := bookSchema.document
  description := .str ""
  properties := .null
  partitions := .map [(.str "_default",
    .list [.map [(.str "id", .str "a"), (.str "title", .str "x")]])]
  aliases := .null

/-- An order that sets the time to live. -/
def lasting (seconds : ℤ) : AlterOrder := ⟨some seconds, none, [], false⟩

/-- The collection of that document. -/
def libraryCollection : Collection :=
  Collection.withRecords
    ⟨"c", bookSchema, .str "", {}, Table.empty.put "_default" [], [], .empty⟩
    (.zero false) "_default" [[("id", .str "a"), ("title", .str "x")]]

theorem ofDocument_library : Loaded.ofDocument {} (.zero false) library =
    .ok (.single {} libraryCollection [] []) :=
  Loaded.ofDocument_eq_ok_iff.mpr ⟨bookSchema, "c", _, libraryCollection, _, [],
    Schema.ofDocument_document Schema.described_bookSchema, rfl, rfl, rfl, rfl, rfl, rfl⟩

theorem alteration_lasting {seconds : ℤ} {text : String} (hpositive : 0 ≤ seconds)
    (hwritten : (Value.int seconds).written = .ok text) : (lasting seconds).alteration "c" =
      .ok ⟨"c", .null, Table.ofList [(Property.ttlKey, text)]⟩ := by
  have hput : Alteration.Draft.withTtl ⟨.str "c", .null, .empty⟩ (.int seconds) =
      .ok ⟨.str "c", .null, Table.ofList [(Property.ttlKey, text)]⟩ := by
    simp only [Alteration.Draft.withTtl, if_neg (Int.not_lt.mpr hpositive),
      Alteration.Draft.withProperty, hwritten]
    rfl
  rw [AlterOrder.alteration_eq]
  refine bind_eq_ok_iff.mpr ⟨_, rfl, bind_eq_ok_iff.mpr ⟨_, orElse_eq_ok_iff.mpr hput, ?_⟩⟩
  rfl

theorem written_one : (Value.int 1).written = .ok "1" := by
  rw [Value.written, if_neg (by decide +kernel)]
  rfl

theorem run_of_document_library : ∃ alteration altered document,
    (lasting 1).alteration "c" = .ok alteration ∧
    (Loaded.single {} libraryCollection [] []).alter alteration = .ok altered ∧
    altered.dump (.zero false) = .ok document ∧ document.aliases = .list [] := by
  have ha := alteration_lasting zero_le_one written_one
  have hchecked : Properties.Checked (Table.ofList [(Property.ttlKey, "1")]) := rfl
  obtain ⟨name, schema, properties, parts, items, altered, c, seconds, -, haltered, hc, -, httl,
    hdump⟩ := (AlterOrder.run_of_document (lasting 1)
      ⟨fun _ => none, fun _ => none, .zero false, .zero false⟩ ⟨none, false, ""⟩).2
      _ _ _ _ _ ofDocument_library ha hchecked
  have hone : seconds = 1 := by
    cases haltered
    cases hc
    cases httl
    rfl
  subst hone
  have haliases : (Loaded.single {} libraryCollection [] []).aliases =
      .ok ((Database.sorted []).map .str) := Loaded.aliases_single (List.nodup_singleton _)
  obtain ⟨-, hdocument⟩ := hdump (.zero false) _ (by decide +kernel) haliases
  refine ⟨_, altered, _, ha, haltered, hdocument, ?_⟩
  rw [Database.sorted, List.mergeSort_nil, List.map_nil]

/-- Two seconds after zero. -/
def twoSeconds : Binary64 := .finite false (2 ^ 52) (-51) (by decide +kernel)

/-- A row that expires between the two readings of the clock is lost. -/
theorem library_expires : ∃ altered document,
    Loaded.ofDocument {} (.zero false) library = .ok (.single {} libraryCollection [] []) ∧
    (lasting 1).alteration "c" = .ok ⟨"c", .null, Table.ofList [(Property.ttlKey, "1")]⟩ ∧
    (Loaded.single {} libraryCollection [] []).alter
      ⟨"c", .null, Table.ofList [(Property.ttlKey, "1")]⟩ = .ok altered ∧
    altered.dump twoSeconds = .ok document ∧
    document.partitions = .map [(.str "_default", .list [])] := by
  have hexpired : StoredRow.live twoSeconds 1
      ⟨"_default", .zero false, [("id", .str "a"), ("title", .str "x")]⟩ = false := by
    decide +kernel
  have hchecked : Properties.Checked (Table.ofList [(Property.ttlKey, "1")]) := rfl
  obtain ⟨c, hc⟩ : ∃ c : Collection, c = { libraryCollection with
      properties := Table.ofList [(Property.ttlKey, "1")] } := ⟨_, rfl⟩
  have haltered : (Loaded.single {} libraryCollection [] []).alter
      ⟨"c", .null, Table.ofList [(Property.ttlKey, "1")]⟩ = .ok (.single {} c [] []) :=
    hc ▸ Loaded.alter_single (List.nodup_singleton _) rfl rfl hchecked
  have hnames : c.partitionNames = ["_default"] := hc ▸ rfl
  have hrows : c.rowsIn "_default" =
      [⟨"_default", .zero false, [("id", .str "a"), ("title", .str "x")]⟩] := hc ▸ rfl
  have hlive : c.liveRecords twoSeconds 1 = [("_default", [])] := by
    simp [Collection.liveRecords, hnames, hrows, hexpired]
  have hname : c.name = "c" := hc ▸ rfl
  have httl : c.ttl = .ok 1 := hc ▸ rfl
  have hcollection : (Loaded.single {} c [] []).collection = .ok c :=
    Store.collection_single (List.nodup_singleton _)
  have hdump : (Loaded.single {} c [] []).dump twoSeconds = .ok _ :=
    Loaded.dump_of_lt hcollection httl (by decide +kernel)
      (Loaded.aliases_single (List.nodup_singleton _))
  rw [hlive] at hdump
  exact ⟨.single {} c [] [], _, ofDocument_library, alteration_lasting zero_le_one written_one,
    haltered, hdump, rfl⟩

end CommandLine

end ScalarStore
