import ScalarStore.Proofs.Property
import ScalarStore.Proofs.Session.Alias
import ScalarStore.Proofs.Session.Standing

/-! # Aliases in place of names

A command that looks its collection up in the way in which aliases are resolved does the same by an
alias as by the collection's own name. Four commands look among the collections' own names alone,
and an alteration by any values refuses a blank name, which an alias may be. -/

namespace ScalarStore

namespace Alteration

theorem Draft.withProperty_withCollection (d : Draft) (v key value : Value) :
    ({ d with collection := v } : Draft).withProperty key value =
      (d.withProperty key value).map fun e => { e with collection := v } := by
  unfold Draft.withProperty
  split
  · rfl
  · split
    · split
      · rfl
      · cases value.written <;> rfl
    · rfl

/-- The properties that a draft is given do not depend on its collection. -/
theorem Draft.withProperties_withCollection (d : Draft) (v : Value)
    (properties : List (Value × Value)) :
    ({ d with collection := v } : Draft).withProperties properties =
      (d.withProperties properties).map fun e => { e with collection := v } := by
  induction properties generalizing d with
  | nil => rfl
  | cons entry rest ih =>
      simp only [withProperties, List.foldlM_cons, withProperty_withCollection] at ih ⊢
      cases Property.storedText entry.2 with
      | error fault => rfl
      | ok text =>
          simp only [bind, Except.bind]
          cases d.withProperty entry.1 (.str text) with
          | error fault => rfl
          | ok next => exact ih next

/-- The properties are put together first, and only then the name must not be blank. -/
theorem ofValues_eq (name : String) (properties : List (Value × Value)) :
    ofValues name properties = (do
      let draft ← Draft.new.withProperties properties
      if Text.isBlankText name then refuse .nameBlank
      else return ⟨name, .null, draft.properties⟩) := by
  have hput := Draft.new.withProperties_withCollection (.str name) properties
  have hof : ofValues name properties = (do
      let draft ← ({ Draft.new with collection := .str name } : Draft).withProperties properties
      draft.build) := rfl
  rw [hof, hput]
  cases h : Draft.new.withProperties properties with
  | error fault => rfl
  | ok draft =>
      have hdatabase : draft.database = .null := (Draft.withProperties_eq_ok h).2
      simp only [Except.map, bind, Except.bind, Draft.build, hdatabase]
      rfl

end Alteration

namespace Collection

/-- Texts as properties are refused for what they are, not for a name. -/
theorem alterProperties_ne_nameBlank (c : Collection) (a : Alteration) :
    c.alterProperties a.entries ≠ .error (.parameter .nameBlank) := by
  intro h
  have htexts : Property.ofEntries a.entries = .ok (Table.ofList a.properties.entries) :=
    Property.ofEntries_texts _
  rw [alterProperties, htexts] at h
  rcases bind_eq_error_iff.mp h with he | ⟨updates, -, h⟩
  · cases he
  · rcases bind_eq_error_iff.mp h with hcheck | ⟨_, -, h⟩
    · rcases Property.check_eq_error hcheck with ⟨v, hv, hread⟩ | ⟨v, hv, hread⟩
      · obtain ⟨s, -, rfl⟩ := Option.map_eq_some_iff.mp hv
        rcases Property.readTtl_text_eq_error hread with he | he <;> cases he
      · obtain ⟨s, -, rfl⟩ := Option.map_eq_some_iff.mp hv
        cases Property.readMmap_text_eq_error hread
    · cases h

end Collection

/-! ## Names looked up among those of collections alone -/

namespace Database

variable {name other : String} {fault : String}

theorem createAlias_of_not_contains (db : Database) (h : db.collections.contains name = false) :
    db.createAlias name other = .error (.collectionNotFound name) := by
  simp [createAlias, h]

theorem createAlias_ne (db : Database) (h : db.collections.contains name = true) :
    db.createAlias name other ≠ .error (.collectionNotFound fault) := by
  unfold createAlias
  rw [h]
  intro he
  split at he
  · next hn => cases hn
  · split at he <;> cases he

theorem alterAlias_of_not_contains (db : Database) (h : db.collections.contains name = false) :
    db.alterAlias name other = .error (.collectionNotFound name) := by
  simp [alterAlias, h]

theorem alterAlias_ne (db : Database) (h : db.collections.contains name = true) :
    db.alterAlias name other ≠ .error (.collectionNotFound fault) := by
  unfold alterAlias
  rw [h]
  intro he
  split at he
  · next hn => cases hn
  · split at he <;> cases he

end Database

/-! ## Commands with another name -/

namespace Command

/-- The same command with another name in the place of its collection's. -/
def withName (other : String) : Command → Command
  | .hasCollection _ database => .hasCollection other database
  | .dropCollection _ database => .dropCollection other database
  | .describe _ database => .describe other database
  | .rowCount _ database => .rowCount other database
  | .createPartition _ partition => .createPartition other partition
  | .hasPartition _ partition => .hasPartition other partition
  | .dropPartition _ partition => .dropPartition other partition
  | .partitions _ => .partitions other
  | .createAlias _ newAlias => .createAlias other newAlias
  | .alterAlias _ oldAlias => .alterAlias other oldAlias
  | .aliases name => .aliases (name.map fun _ => other)
  | .insert _ data partition => .insert other data partition
  | .query request => .query { request with collection := other }
  | .alter a => .alter { a with collection := other }
  | .alterByValues _ properties => .alterByValues other properties
  | .dropProperties _ keys => .dropProperties other keys
  | .ttl _ database => .ttl other database
  | .snapshot _ selected database => .snapshot other selected database
  | command => command

/-- Whether a command does the same by an alias as by the name of its collection. -/
def TakesAlias (other : String) : Command → Prop
  | .dropCollection _ _ | .createAlias _ _ | .alterAlias _ _ | .aliases _ => False
  | .alterByValues name properties =>
      Text.isBlankText other = false ∨ ∃ fault, Alteration.ofValues name properties = .error fault
  | _ => True

variable {command : Command} {other name : String} {database : Option String}

theorem isContent_withName : (command.withName other).isContent = command.isContent := by
  cases command <;> rfl

theorem named?_withName (h : command.named? = some (name, database)) :
    (command.withName other).named? = some (other, database) := by
  cases command with
  | alter a =>
      obtain ⟨hdatabase, -⟩ := named?_alter h
      simp only [withName, named?, hdatabase]
  | aliases given =>
      obtain ⟨found, rfl, hfound⟩ := Option.map_eq_some_iff.mp h
      cases hfound
      rfl
  | hasCollection _ _ | dropCollection _ _ | describe _ _ | rowCount _ _ | ttl _ _
  | snapshot _ _ _ | createPartition _ _ | hasPartition _ _ | dropPartition _ _ | partitions _
  | createAlias _ _ | alterAlias _ _ | insert _ _ _ | alterByValues _ _ | dropProperties _ _
  | query _ =>
      cases h
      rfl
  | _ => cases h

/-- What a command does with its collection depends on the name in an alteration by values only,
which must not be blank. -/
theorem act_withName (h : command.TakesAlias other)
    (hname : command.named? = some (name, database)) (hn : Text.isBlankText name = false)
    (around : Surroundings) (c : Collection) :
    (command.withName other).act around c = command.act around c := by
  cases command with
  | alterByValues given properties =>
      cases hname
      have hsame : (Alteration.ofValues other properties).map Alteration.entries =
          (Alteration.ofValues name properties).map Alteration.entries := by
        simp only [Alteration.ofValues_eq, TakesAlias, hn] at h ⊢
        cases hput : Alteration.Draft.new.withProperties properties with
        | error fault => rfl
        | ok draft =>
            rw [hput] at h
            rcases h with hother | ⟨fault, hfault⟩
            · rw [hother]
              rfl
            · cases hfault
      have hact (name : String) :
          (Command.alterByValues name properties).act around c =
            ((Alteration.ofValues name properties).map Alteration.entries >>= fun entries => do
              return (.done, ← c.alterProperties entries)) := by
        rw [act]
        cases Alteration.ofValues name properties <;> rfl
      rw [withName, hact, hact, hsame]
  | _ => rfl

end Command

namespace Store

variable {settings : Settings} {s : Store} {name other : String} {database : Option String}
  {db : Database}

theorem cacheAfter_withName (s : Store) (c : Collection) (command : Command) (other : String) :
    s.cacheAfter c (command.withName other) = s.cacheAfter c command := by
  cases command <;> rfl

/-- A collection is found at one address by its own name and by an alias. -/
theorem Invariant.address_of_alias (h : s.Invariant settings)
    (hdb : s.database database = .ok db) (ha : db.aliases.get? other = some name) :
    s.address name database = .ok ⟨s.databaseName database, name⟩ ∧
      s.address other database = .ok ⟨s.databaseName database, name⟩ := by
  have hinv := h.sound _ db (database_eq_ok_iff.mp hdb)
  have hmem := hinv.aimed other name ha
  obtain ⟨c, hc⟩ := Table.exists_get?_of_mem_keys hmem
  have hname := Database.target_of_not_mem (hinv.not_mem_aliases hmem)
  have hother := Database.target_of_alias ha
  have hresolve : ∀ given, db.target given = name → db.resolve given = .ok c :=
    fun given hg => Database.resolve_eq_ok_iff.mpr (hg ▸ hc)
  simp only [address, hdb, bind, Except.bind, hresolve name hname, hresolve other hother, hname,
    hother]
  exact ⟨rfl, rfl⟩

end Store

namespace Session

variable {settings : Settings} {s : Session} {command : Command} {name other : String}
  {database : Option String} {db : Database} {a : Address} {c : Collection}

/-- Two commands that are addressed to one collection and do the same there are the same. -/
theorem step_congr {second : Command} (h : s.store.Invariant settings)
    (hc : command.isContent = true) (hc' : second.isContent = true)
    (ha : s.store.addressee command = some a) (ha' : s.store.addressee second = some a)
    (hact : ∀ c, s.store.at? a = some c →
      second.act (s.around a) c = command.act (s.around a) c ∧
        s.store.cacheAfter c second = s.store.cacheAfter c command) :
    s.step second = s.step command := by
  obtain ⟨c, hat⟩ := Store.at?_of_addressee ha
  obtain ⟨hact, hcache⟩ := hact c hat
  rw [step_of_addressee h hc ha hat, step_of_addressee h hc' ha' hat]
  simp only [afterContent, Command.left, hact, hcache]

/-- The answer of a command that changes a database and has nothing to tell. -/
theorem answer_updateDatabase {change : Database → Except Fault Database}
    (hdb : s.store.database database = .ok db) :
    (s.change (quietly (s.store.updateDatabase database change))).1 =
      (change db).map fun _ => .done := by
  rw [Store.updateDatabase, hdb]
  simp only [bind, Except.bind]
  cases change db <;> rfl

/-- No collection is kept under a blank name. -/
theorem nonblank_of_run {start : Binary64} {commands : List Command}
    (hs : ((new settings start).run commands).2 = s) (hat : s.store.at? a = some c) :
    Text.isBlankText a.collection = false := by
  have h : s.store.Invariant settings := hs ▸ invariant_run settings start commands
  obtain ⟨db, hdb, hc⟩ := Store.at?_eq_some_iff.mp hat
  rw [← (h.sound _ db hdb).named _ c hc]
  refine forall_collections_of_run (P := fun c => Text.isBlankText c.name = false) hs ?_ ?_ hat
  · intro name schema properties description c hname hnew
    obtain ⟨updated, rfl⟩ := Collection.new_eq_ok hnew
    exact hname
  · intro t u action ht hu
    rw [(Clocked.frame_step hu).1]
    exact ht

/-- An alteration by values that could be put together is not made through a blank alias. -/
theorem step_alterByValues_ne {properties : List (Value × Value)} (h : s.store.Invariant settings)
    (hname : s.store.addressee (.alterByValues name properties) = some a)
    (hother : s.store.addressee (.alterByValues other properties) = some a)
    (hn : Text.isBlankText name = false) (ho : Text.isBlankText other = true)
    (hmade : ∀ fault, Alteration.ofValues name properties ≠ .error fault) :
    (s.step (.alterByValues other properties)).1 ≠ (s.step (.alterByValues name properties)).1 := by
  obtain ⟨c, hat⟩ := Store.at?_of_addressee hname
  rw [step_of_addressee h rfl hother hat, step_of_addressee h rfl hname hat]
  cases hput : Alteration.Draft.new.withProperties properties with
  | error fault => exact absurd (by rw [Alteration.ofValues_eq, hput]; rfl) (hmade fault)
  | ok draft =>
      have hrefused : (Command.alterByValues other properties).act (s.around a) c =
          .error (.parameter .nameBlank) := by
        rw [Command.act, Alteration.ofValues_eq, hput, ho]
        rfl
      have halters : (Command.alterByValues name properties).act (s.around a) c =
          (c.alterProperties (Alteration.entries ⟨name, .null, draft.properties⟩)).map
            (Answer.done, ·) := by
        rw [Command.act, Alteration.ofValues_eq, hput, hn]
        rfl
      rw [hrefused, halters]
      intro he
      exact c.alterProperties_ne_nameBlank _ (map_eq_error_iff.mp (map_eq_error_iff.mp he.symm))

/-- The commands that do not take an alias answer otherwise by it. -/
theorem step_withName_ne (h : s.store.Invariant settings)
    (hname : command.named? = some (name, database))
    (hdb : s.store.database database = .ok db) (ha : db.aliases.get? other = some name)
    (hn : Text.isBlankText name = false) (hf : ¬ command.TakesAlias other) :
    (s.step (command.withName other)).1 ≠ (s.step command).1 := by
  have hinv := h.sound _ db (Store.database_eq_ok_iff.mp hdb)
  have hother := Table.mem_keys_of_get? ha
  have hunnamed := hinv.apart other hother
  have hnamed := hinv.aimed other name ha
  rw [← Table.contains_iff] at hother hnamed
  rw [← Table.contains_iff, Bool.not_eq_true] at hunnamed
  cases command with
  | dropCollection given database =>
      cases hname
      have hunaliased : db.aliases.contains name = false := by
        rw [← Bool.not_eq_true, Table.contains_iff]
        exact hinv.not_mem_aliases ((Table.contains_iff _ _).mp hnamed)
      rw [Command.withName, step, step, Store.dropCollection, Store.dropCollection,
        answer_updateDatabase hdb, answer_updateDatabase hdb]
      simp [Database.dropCollection, hother, hnamed, hunaliased, Except.map, refuse]
  | createAlias given newAlias =>
      cases hname
      rw [Command.withName, step, step, Store.createAlias, Store.createAlias,
        answer_updateDatabase hdb, answer_updateDatabase hdb]
      rw [db.createAlias_of_not_contains hunnamed]
      exact fun he => db.createAlias_ne hnamed (map_eq_error_iff.mp he.symm)
  | alterAlias given oldAlias =>
      cases hname
      rw [Command.withName, step, step, Store.alterAlias, Store.alterAlias,
        answer_updateDatabase hdb, answer_updateDatabase hdb]
      rw [db.alterAlias_of_not_contains hunnamed]
      exact fun he => db.alterAlias_ne hnamed (map_eq_error_iff.mp he.symm)
  | aliases given =>
      -- An alias is among those of its collection, and no alias stands for another alias.
      obtain ⟨found, rfl, hfound⟩ := Option.map_eq_some_iff.mp hname
      cases hfound
      have hlisted : other ∈ db.aliasNames (some name) := Database.mem_aliasNames_iff.mpr ha
      have hunlisted : other ∉ db.aliasNames (some other) := by
        intro hm
        have hself := Database.mem_aliasNames_iff.mp hm
        rw [(Table.contains_iff _ _).mpr (hinv.aimed other other hself)] at hunnamed
        cases hunnamed
      intro he
      have hsame : db.aliasNames (some other) = db.aliasNames (some name) := by
        simpa [Command.withName, step, look, Store.aliasNames, hdb, bind, Except.bind, pure,
          Except.pure, Except.map] using he
      exact hunlisted (hsame ▸ hlisted)
  | alterByValues given properties =>
      cases hname
      obtain ⟨haddress, halias⟩ := h.address_of_alias hdb ha
      obtain ⟨ho, hmade⟩ := not_or.mp hf
      exact step_alterByValues_ne h (Store.addressee_eq_some_iff.mpr ⟨_, _, rfl, haddress⟩)
        (Store.addressee_eq_some_iff.mpr ⟨_, _, rfl, halias⟩) hn (Bool.not_eq_false _ ▸ ho)
        fun fault hfault => hmade ⟨fault, hfault⟩
  | _ => exact absurd trivial hf

/-- The commands that take an alias do the same by it. -/
theorem step_withName_of_takesAlias (h : s.store.Invariant settings)
    (hname : command.named? = some (name, database))
    (hdb : s.store.database database = .ok db) (ha : db.aliases.get? other = some name)
    (hn : Text.isBlankText name = false) (ht : command.TakesAlias other) :
    s.step (command.withName other) = s.step command := by
  obtain ⟨haddress, halias⟩ := h.address_of_alias hdb ha
  have hfound := Store.addressee_eq_some_iff.mpr ⟨_, _, hname, haddress⟩
  have hfound' := Store.addressee_eq_some_iff.mpr ⟨_, _, Command.named?_withName hname, halias⟩
  by_cases hc : command.isContent = true
  · exact step_congr h hc (Command.isContent_withName.trans hc) hfound hfound' fun c _ =>
      ⟨Command.act_withName ht hname hn _ c, s.store.cacheAfter_withName c command other⟩
  · obtain ⟨c, hat⟩ := Store.at?_of_addressee hfound
    cases command with
    | hasCollection given database =>
        cases hname
        simp only [Command.withName, step, Store.hasCollection,
          Store.collection_of_address haddress hat, Store.collection_of_address halias hat]
    | dropCollection _ _ | createAlias _ _ | alterAlias _ _ | aliases _ => cases ht
    | describe _ _ | rowCount _ _ | createPartition _ _ | hasPartition _ _ | dropPartition _ _
    | partitions _ | insert _ _ _ | query _ | alter _ | alterByValues _ _ | dropProperties _ _
    | ttl _ _ | snapshot _ _ _ => exact absurd rfl hc
    | _ => cases hname

/-- After any run, a command does the same by an alias as by the name of its collection, unless it
is one of four that do not resolve aliases, or alters properties by values through a blank alias. -/
theorem step_withName_iff {start : Binary64} {commands : List Command}
    (hs : ((new settings start).run commands).2 = s)
    (hname : command.named? = some (name, database))
    (hdb : s.store.database database = .ok db) (ha : db.aliases.get? other = some name) :
    s.step (command.withName other) = s.step command ↔ command.TakesAlias other := by
  have h : s.store.Invariant settings := hs ▸ invariant_run settings start commands
  have hn : Text.isBlankText name = false := by
    obtain ⟨c, hat⟩ := Store.at?_of_addressee
      (Store.addressee_eq_some_iff.mpr ⟨_, _, hname, (h.address_of_alias hdb ha).1⟩)
    exact nonblank_of_run hs hat
  refine ⟨fun hsame => ?_, step_withName_of_takesAlias h hname hdb ha hn⟩
  by_contra hf
  exact step_withName_ne h hname hdb ha hn hf (congrArg Prod.fst hsame)

/-- A collection with two aliases, one of which is blank. -/
def aliased : List Command :=
  [.createCollection "c" titleSchema .null .null none, .createAlias "c" "a", .createAlias "c" " "]

theorem step_withName_iff_aliased : ∃ s db, ((new {} (.zero false)).run aliased).2 = s ∧
    s.store.database none = .ok db ∧ db.aliases.get? "a" = some "c" ∧
    db.aliases.get? " " = some "c" ∧
    s.step (.insert "a" (.list []) none) = s.step (.insert "c" (.list []) none) ∧
    s.step (.alterByValues " " []) ≠ s.step (.alterByValues "c" []) := by
  obtain ⟨s, hs⟩ : ∃ s, ((new {} (.zero false)).run aliased).2 = s := ⟨_, rfl⟩
  obtain ⟨db, hdb⟩ : ∃ db, s.store.database none = .ok db := by
    subst hs
    exact ⟨_, rfl⟩
  have ha : db.aliases.get? "a" = some "c" ∧ db.aliases.get? " " = some "c" := by
    subst hs
    cases hdb
    exact ⟨rfl, rfl⟩
  have hinsert : (Command.insert "c" (.list []) none).named? = some ("c", none) := rfl
  have halter : (Command.alterByValues "c" []).named? = some ("c", none) := rfl
  refine ⟨s, db, hs, hdb, ha.1, ha.2, ?_, ?_⟩
  · exact (step_withName_iff hs hinsert hdb ha.1).mpr trivial
  · intro hsame
    rcases (step_withName_iff hs halter hdb ha.2).mp hsame with hblank | ⟨fault, hfault⟩
    · exact absurd hblank (by decide)
    · cases hfault

/-- By an alias no further alias is put and none is listed, and by a blank one no property is
altered. -/
theorem step_aliased_differs : ∃ s db names others, ((new {} (.zero false)).run aliased).2 = s ∧
    s.store.database none = .ok db ∧ db.aliases.get? "a" = some "c" ∧
    db.aliases.get? " " = some "c" ∧
    (s.step ((Command.createAlias "c" "b").withName "a")).1 = .error (.collectionNotFound "a") ∧
    (s.step (.createAlias "c" "b")).1 = .ok .done ∧
    (s.step ((Command.aliases (some "c")).withName "a")).1 = .ok (.names names) ∧ "a" ∉ names ∧
    (s.step (.aliases (some "c"))).1 = .ok (.names others) ∧ "a" ∈ others ∧
    (s.step ((Command.alterByValues "c" []).withName " ")).1 = .error (.parameter .nameBlank) ∧
    (s.step (.alterByValues "c" [])).1 = .ok .done := by
  refine ⟨_, _, _, _, rfl, rfl, rfl, rfl, rfl, rfl, rfl, ?_, rfl, ?_, rfl, rfl⟩
  · intro hm
    exact absurd (Database.mem_aliasNames_iff.mp hm) (by decide)
  · exact Database.mem_aliasNames_iff.mpr rfl

end Session

end ScalarStore
