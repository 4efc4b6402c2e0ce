import ScalarStore.Proofs.Database.Invariant
import ScalarStore.Proofs.ParseCache
import ScalarStore.Session

/-! # What holds in every session

Every operation of a store keeps the invariants of its databases, a current and a default
database, and a sound parse cache. So every run of a session from its start does. -/

namespace ScalarStore

namespace Store

variable {settings : Settings} {s t : Store} {name : String} {database : Option String}
  {db : Database}

/-- The settings are those of the start, the default and the current database are there, every
database holds what every database holds, and the parse cache is sound. -/
structure Invariant (settings : Settings) (s : Store) : Prop where
  configured : s.settings = settings
  hasDefault : settings.defaultDatabase ∈ s.databases.keys
  hasCurrent : s.current ∈ s.databases.keys
  sound : ∀ name db, s.databases.get? name = some db → db.Invariant
  cached : s.cache.Sound settings.maxDepth

theorem invariant_new (settings : Settings) : (Store.new settings).Invariant settings where
  configured := rfl
  hasDefault := (Table.mem_keys_put _ _ _ _).mpr (.inl rfl)
  hasCurrent := (Table.mem_keys_put _ _ _ _).mpr (.inl rfl)
  sound name db h := by
    rw [Store.new, Table.get?_put] at h
    split at h
    · exact Option.some.inj h ▸ Database.invariant_empty
    · cases h
  cached := ParseCache.sound_new _ _

/-! ## Databases -/

theorem Invariant.putDatabase (h : s.Invariant settings) (hd : db.Invariant) :
    { s with databases := s.databases.put name db }.Invariant settings where
  configured := h.configured
  hasDefault := (Table.mem_keys_put _ _ _ _).mpr (.inr h.hasDefault)
  hasCurrent := (Table.mem_keys_put _ _ _ _).mpr (.inr h.hasCurrent)
  sound other found hf := by
    dsimp only at hf
    rw [Table.get?_put] at hf
    split at hf
    · exact Option.some.inj hf ▸ hd
    · exact h.sound other found hf
  cached := h.cached

theorem createDatabase_eq_ok (h : s.createDatabase name = .ok t) :
    name ∉ s.databases.keys ∧ t = { s with databases := s.databases.put name .empty } := by
  unfold createDatabase at h
  split at h
  · cases h
  · split at h
    · cases h
    · next hn =>
        cases h
        rw [Table.contains_iff] at hn
        exact ⟨hn, rfl⟩

theorem Invariant.createDatabase (h : s.Invariant settings) (ht : s.createDatabase name = .ok t) :
    t.Invariant settings := by
  obtain ⟨-, rfl⟩ := createDatabase_eq_ok ht
  exact h.putDatabase Database.invariant_empty

theorem Invariant.useDatabase (h : s.Invariant settings) (ht : s.useDatabase name = .ok t) :
    t.Invariant settings := by
  unfold Store.useDatabase at ht
  split at ht
  · next hn =>
      cases ht
      exact ⟨h.configured, h.hasDefault, (Table.contains_iff _ _).mp hn, h.sound, h.cached⟩
  · cases ht

theorem dropDatabase_eq_ok (h : s.dropDatabase name = .ok t) :
    name ≠ s.settings.defaultDatabase ∧
      (∃ db, s.databases.get? name = some db ∧ db.collections.keys = []) ∧
      t = { s with
        databases := s.databases.erase name
        current := if s.current = name then s.settings.defaultDatabase else s.current } := by
  unfold dropDatabase at h
  split at h
  · cases h
  · next hne =>
      split at h
      · cases h
      · next db hdb =>
          split at h
          · next hempty =>
              cases h
              refine ⟨hne, ⟨db, hdb, ?_⟩, rfl⟩
              rw [Table.keys, List.isEmpty_iff.mp hempty, List.map_nil]
          · cases h

theorem Invariant.dropDatabase (h : s.Invariant settings) (ht : s.dropDatabase name = .ok t) :
    t.Invariant settings := by
  obtain ⟨hne, -, rfl⟩ := dropDatabase_eq_ok ht
  rw [h.configured] at hne
  exact {
    configured := h.configured
    hasDefault := (Table.mem_keys_erase _ _ _).mpr ⟨h.hasDefault, Ne.symm hne⟩
    hasCurrent := by
      refine (Table.mem_keys_erase _ _ _).mpr ?_
      dsimp only
      rw [h.configured]
      split
      · exact ⟨h.hasDefault, Ne.symm hne⟩
      · next hc => exact ⟨h.hasCurrent, hc⟩
    sound := by
      intro other found hf
      dsimp only at hf
      rw [Table.get?_erase] at hf
      split at hf
      · cases hf
      · exact h.sound other found hf
    cached := h.cached }

theorem database_eq_ok_iff :
    s.database database = .ok db ↔ s.databases.get? (s.databaseName database) = some db := by
  unfold Store.database
  split
  · next found h => rw [h, Except.ok.injEq, Option.some.injEq]
  · next h => simp [h]

theorem updateDatabase_eq_ok {change : Database → Except Fault Database}
    (h : s.updateDatabase database change = .ok t) :
    ∃ db after, s.database database = .ok db ∧ change db = .ok after ∧
      t = { s with databases := s.databases.put (s.databaseName database) after } := by
  unfold updateDatabase at h
  obtain ⟨db, hdb, h⟩ := bind_eq_ok_iff.mp h
  obtain ⟨after, hafter, h⟩ := bind_eq_ok_iff.mp h
  cases h
  exact ⟨db, after, hdb, hafter, rfl⟩

theorem Invariant.updateDatabase {change : Database → Except Fault Database}
    (h : s.Invariant settings)
    (hc : ∀ db after, db.Invariant → change db = .ok after → after.Invariant)
    (ht : s.updateDatabase database change = .ok t) : t.Invariant settings := by
  obtain ⟨db, after, hdb, hafter, rfl⟩ := updateDatabase_eq_ok ht
  exact h.putDatabase (hc db after (h.sound _ db (database_eq_ok_iff.mp hdb)) hafter)

/-! ## Collections -/

theorem createCollection_eq_ok {schema : Schema} {properties description : Value} {c : Collection}
    (h : s.createCollection name schema properties description database = .ok (c, t)) :
    ∃ db after, s.database database = .ok db ∧
      db.createCollection s.settings name schema properties description = .ok (c, after) ∧
      t = { s with databases := s.databases.put (s.databaseName database) after } := by
  unfold createCollection at h
  split at h
  · cases h
  · obtain ⟨db, hdb, h⟩ := bind_eq_ok_iff.mp h
    obtain ⟨⟨created, after⟩, hafter, h⟩ := bind_eq_ok_iff.mp h
    cases h
    exact ⟨db, after, hdb, hafter, rfl⟩

theorem Invariant.createCollection {schema : Schema} {properties description : Value}
    {c : Collection} (h : s.Invariant settings)
    (ht : s.createCollection name schema properties description database = .ok (c, t)) :
    t.Invariant settings := by
  obtain ⟨db, after, hdb, hafter, rfl⟩ := createCollection_eq_ok ht
  exact h.putDatabase ((h.sound _ db (database_eq_ok_iff.mp hdb)).createCollection hafter)

theorem collection_eq_ok {c : Collection} (h : s.collection name database = .ok c) :
    ∃ db, s.database database = .ok db ∧ db.resolve name = .ok c :=
  bind_eq_ok_iff.mp h

theorem Invariant.of_collection {c : Collection} (h : s.Invariant settings)
    (hc : s.collection name database = .ok c) : c.Invariant := by
  obtain ⟨db, hdb, hr⟩ := collection_eq_ok hc
  exact ((h.sound _ db (database_eq_ok_iff.mp hdb)).of_resolve hr).2.2

section Update

variable {α : Type} {change : Collection → Except Fault (α × Collection)} {a : α}

theorem updateCollection_eq_ok (h : s.updateCollection name database change = .ok (a, t)) :
    ∃ db c d, s.database database = .ok db ∧ db.resolve name = .ok c ∧ change c = .ok (a, d) ∧
      t = { s with
        databases := s.databases.put (s.databaseName database) (db.replace name d) } := by
  unfold updateCollection at h
  obtain ⟨db, hdb, h⟩ := bind_eq_ok_iff.mp h
  obtain ⟨c, hc, h⟩ := bind_eq_ok_iff.mp h
  obtain ⟨⟨result, d⟩, hd, h⟩ := bind_eq_ok_iff.mp h
  cases h
  exact ⟨db, c, d, hdb, hc, hd, rfl⟩

/-- A change of a collection must keep its name and what holds of every collection. -/
theorem Invariant.updateCollection (h : s.Invariant settings)
    (hc : ∀ c d a, c.Invariant → change c = .ok (a, d) → d.name = c.name ∧ d.Invariant)
    (ht : s.updateCollection name database change = .ok (a, t)) : t.Invariant settings := by
  obtain ⟨db, c, d, hdb, hr, hd, rfl⟩ := updateCollection_eq_ok ht
  have hinv := h.sound _ db (database_eq_ok_iff.mp hdb)
  obtain ⟨hname, hsound⟩ := hc c d a (hinv.of_resolve hr).2.2 hd
  exact h.putDatabase (hinv.replace hr hname hsound)

end Update

/-- A change that has nothing to tell. -/
theorem Invariant.updateQuietly {change : Collection → Except Fault Collection}
    (h : s.Invariant settings)
    (hc : ∀ c d, c.Invariant → change c = .ok d → d.name = c.name ∧ d.Invariant)
    (ht : (do return (← s.updateCollection name database fun c => do
      return ((), ← change c)).2) = Except.ok t) : t.Invariant settings := by
  obtain ⟨⟨_, store⟩, hu, he⟩ := bind_eq_ok_iff.mp ht
  cases he
  refine h.updateCollection (fun c d _ hinv hd => ?_) hu
  obtain ⟨after, hafter, he⟩ := bind_eq_ok_iff.mp hd
  cases he
  exact hc c d hinv hafter

theorem Invariant.createPartition {partition : String} (h : s.Invariant settings)
    (ht : s.createPartition name partition = .ok t) : t.Invariant settings :=
  h.updateQuietly (fun c d hc hd => ⟨by rw [(Collection.createPartition_eq_ok hd).2],
    hc.createPartition hd⟩) ht

theorem Invariant.dropPartition {partition : String} (h : s.Invariant settings)
    (ht : s.dropPartition name partition = .ok t) : t.Invariant settings :=
  h.updateQuietly (fun c d hc hd => ⟨by rw [(Collection.dropPartition_eq_ok hd).2.2],
    hc.dropPartition hd⟩) ht

theorem Invariant.alterProperties {properties : List (Value × Value)} (h : s.Invariant settings)
    (ht : s.alterProperties name database properties = .ok t) : t.Invariant settings := by
  refine h.updateQuietly (fun c d hc hd => ?_) ht
  obtain ⟨updated, rfl⟩ := Collection.alterProperties_eq_ok hd
  exact ⟨rfl, hc.withProperties updated⟩

theorem Invariant.dropProperties {keys : List String} (h : s.Invariant settings)
    (ht : s.dropProperties name keys = .ok t) : t.Invariant settings := by
  obtain ⟨⟨_, store⟩, hu, he⟩ := bind_eq_ok_iff.mp ht
  cases he
  refine h.updateCollection (fun c d _ hc hd => ?_) hu
  cases hd
  exact ⟨rfl, hc.withProperties _⟩

theorem Invariant.insert {now : Binary64} {data : Value} {partition : Option String}
    {keys : List Value} (h : s.Invariant settings)
    (ht : s.insert now name data partition = .ok (keys, t)) : t.Invariant settings := by
  refine h.updateCollection (fun c d keys hc hd => ?_) ht
  obtain ⟨rows, -, hd⟩ := bind_eq_ok_iff.mp hd
  refine ⟨?_, hc.insert hd⟩
  obtain ⟨records, -, -, -, -, -, rfl⟩ := Collection.insert_eq_ok hd
  rfl

/-! ## Alterations and queries -/

theorem Invariant.alter {a : Alteration} (h : s.Invariant settings) (ht : s.alter a = .ok t) :
    t.Invariant settings := by
  obtain ⟨database, -, ht⟩ := bind_eq_ok_iff.mp ht
  exact h.alterProperties ht

theorem Invariant.alterByValues {properties : List (Value × Value)} (h : s.Invariant settings)
    (ht : s.alterByValues name properties = .ok t) : t.Invariant settings := by
  obtain ⟨started, -, ht⟩ := bind_eq_ok_iff.mp ht
  obtain ⟨draft, -, ht⟩ := bind_eq_ok_iff.mp ht
  obtain ⟨a, -, ht⟩ := bind_eq_ok_iff.mp ht
  exact h.alter ht

theorem Invariant.withCache {cache : ParseCache} (h : s.Invariant settings)
    (hc : cache.Sound settings.maxDepth) : { s with cache := cache }.Invariant settings :=
  ⟨h.configured, h.hasDefault, h.hasCurrent, h.sound, hc⟩

/-- Parsing changes a store's parse cache and nothing else. -/
theorem parseFilter_snd (s : Store) (limit : Int) (filter : FilterArgument) :
    (s.parseFilter limit filter).2 =
      { s with cache := (s.parseFilter limit filter).2.cache } := by
  unfold Store.parseFilter
  split
  · split <;> rfl
  · rfl

theorem Invariant.parseFilter (h : s.Invariant settings) (limit : Int) (filter : FilterArgument) :
    (s.parseFilter limit filter).2.Invariant settings := by
  have hcached : s.cache.Sound s.settings.maxDepth := h.configured ▸ h.cached
  unfold Store.parseFilter
  split
  · next text =>
      split
      · exact h
      · exact h.withCache (h.configured ▸ (hcached.parse text).2)
  · exact h

theorem Invariant.query (h : s.Invariant settings) (now : Binary64) (r : Request) :
    (s.query now r).2.Invariant settings := by
  unfold Store.query
  split
  · exact h
  · exact h.parseFilter _ _

end Store

/-! ## Sessions -/

namespace Session

variable {settings : Settings} {s : Session}

theorem quietly_eq_ok {outcome : Except Fault Store} {answer : Answer} {store : Store}
    (h : quietly outcome = .ok (answer, store)) : outcome = .ok store := by
  obtain ⟨found, hf, he⟩ := map_eq_ok_iff.mp h
  cases he
  exact hf

/-- What an outcome keeps, the session keeps, because a fault changes nothing. -/
theorem change_induction {P : Store → Prop} (h : P s.store)
    {outcome : Except Fault (Answer × Store)}
    (hc : ∀ answer store, outcome = .ok (answer, store) → P store) :
    P (s.change outcome).2.store := by
  unfold change
  split
  · exact h
  · exact hc _ _ rfl

theorem invariant_step (h : s.store.Invariant settings) (command : Command) :
    (s.step command).2.store.Invariant settings := by
  cases command with
  | createDatabase name =>
      exact change_induction h fun _ _ ht => h.createDatabase (quietly_eq_ok ht)
  | useDatabase name => exact change_induction h fun _ _ ht => h.useDatabase (quietly_eq_ok ht)
  | dropDatabase name => exact change_induction h fun _ _ ht => h.dropDatabase (quietly_eq_ok ht)
  | createCollection name schema properties description database =>
      refine change_induction h fun _ _ ht => ?_
      obtain ⟨⟨c, store⟩, hc, he⟩ := map_eq_ok_iff.mp ht
      cases he
      exact h.createCollection hc
  | dropCollection name database =>
      exact change_induction h fun _ _ ht =>
        h.updateDatabase (fun _ _ hd => hd.dropCollection) (quietly_eq_ok ht)
  | createPartition name partition =>
      exact change_induction h fun _ _ ht => h.createPartition (quietly_eq_ok ht)
  | dropPartition name partition =>
      exact change_induction h fun _ _ ht => h.dropPartition (quietly_eq_ok ht)
  | createAlias name newAlias =>
      exact change_induction h fun _ _ ht =>
        h.updateDatabase (fun _ _ hd => hd.createAlias) (quietly_eq_ok ht)
  | alterAlias name oldAlias =>
      exact change_induction h fun _ _ ht =>
        h.updateDatabase (fun _ _ hd => hd.alterAlias) (quietly_eq_ok ht)
  | dropAlias oldAlias =>
      exact change_induction h fun _ _ ht =>
        h.updateDatabase (fun _ _ hd => hd.dropAlias) (quietly_eq_ok ht)
  | insert name data partition =>
      refine change_induction h fun _ _ ht => ?_
      obtain ⟨⟨keys, store⟩, hk, he⟩ := map_eq_ok_iff.mp ht
      cases he
      exact h.insert hk
  | query request => exact h.query s.clock request
  | alter alteration => exact change_induction h fun _ _ ht => h.alter (quietly_eq_ok ht)
  | alterByValues name properties =>
      exact change_induction h fun _ _ ht => h.alterByValues (quietly_eq_ok ht)
  | dropProperties name keys =>
      exact change_induction h fun _ _ ht => h.dropProperties (quietly_eq_ok ht)
  | _ => exact h

/-- What each step keeps, a run keeps. -/
theorem run_induction {P : Session → Prop} (hs : ∀ s command, P s → P (s.step command).2)
    {s : Session} (h : P s) (commands : List Command) : P (s.run commands).2 := by
  induction commands generalizing s with
  | nil => exact h
  | cons command rest ih => exact ih (hs s command h)

theorem invariant_run (settings : Settings) (start : Binary64) (commands : List Command) :
    ((Session.new settings start).run commands).2.store.Invariant settings :=
  run_induction (P := fun s => s.store.Invariant settings)
    (fun _ command h => invariant_step h command) (Store.invariant_new settings) commands

end Session

end ScalarStore
