import ScalarStore.Proofs.Session.Address

/-! # Commands on the content of a collection

A command on the content of a collection looks a name up and then works on the collection that it
has found. It reads nothing else but the clock, the limit on levels and the collection's aliases,
and it changes nothing else but the parse cache. -/

namespace ScalarStore

/-! ## Alterations put together from values -/

namespace Alteration

namespace Draft

/-- Puts properties given as any values one by one. -/
def withProperties (d : Draft) (properties : List (Value × Value)) : Except Fault Draft :=
  properties.foldlM (fun draft (key, value) => do
    draft.withProperty key (.str (← Property.storedText value))) d

/-- A property is put at a key that is no blank text, with a value that can be written. -/
theorem withProperty_eq_ok_iff {d e : Draft} {key value : Value} :
    d.withProperty key value = .ok e ↔ ∃ k, key = .str k ∧ Text.isBlankText k = false ∧
      value ≠ .null ∧ value.hasLongInteger Text.digitLimit = false ∧
      e = { d with properties := d.properties.put k value.plain } := by
  unfold withProperty Value.written
  constructor
  · intro h
    split at h
    · cases h
    · next hmissing =>
        split at h
        · next k =>
            split at h
            · cases h
            · next hblank =>
                split at h
                · cases h
                · next hlong =>
                    cases h
                    exact ⟨k, rfl, Bool.not_eq_true _ ▸ hblank, fun hv => hmissing (.inr hv),
                      Bool.not_eq_true _ ▸ hlong, rfl⟩
        · cases h
  · rintro ⟨k, rfl, hblank, hvalue, hlong, rfl⟩
    rw [if_neg (by simp [hvalue])]
    simp only [hblank, hlong, Bool.false_eq_true, if_false]
    rfl

theorem withProperty_eq_ok {d e : Draft} {key value : Value}
    (h : d.withProperty key value = .ok e) :
    e.collection = d.collection ∧ e.database = d.database := by
  obtain ⟨k, -, -, -, -, rfl⟩ := withProperty_eq_ok_iff.mp h
  exact ⟨rfl, rfl⟩

/-- Putting properties changes neither name. -/
theorem withProperties_eq_ok {d e : Draft} {properties : List (Value × Value)}
    (h : d.withProperties properties = .ok e) :
    e.collection = d.collection ∧ e.database = d.database := by
  induction properties generalizing d with
  | nil =>
      cases h
      exact ⟨rfl, rfl⟩
  | cons entry rest ih =>
      rw [withProperties, List.foldlM_cons] at h
      obtain ⟨next, hnext, h⟩ := bind_eq_ok_iff.mp h
      obtain ⟨text, -, hnext⟩ := bind_eq_ok_iff.mp hnext
      obtain ⟨hcollection, hdatabase⟩ := withProperty_eq_ok hnext
      exact hcollection ▸ hdatabase ▸ ih h

end Draft

/-- The alteration of a collection by properties given as any values. -/
def ofValues (name : String) (properties : List (Value × Value)) : Except Fault Alteration := do
  let started ← Draft.new.withCollection (.str name)
  let draft ← started.withProperties properties
  draft.build

theorem ofValues_eq_ok {name : String} {properties : List (Value × Value)} {a : Alteration}
    (h : ofValues name properties = .ok a) : a.collection = name ∧ a.database = .null := by
  obtain ⟨started, hstarted, h⟩ := bind_eq_ok_iff.mp h
  obtain ⟨draft, hdraft, hbuild⟩ := bind_eq_ok_iff.mp h
  cases hstarted
  obtain ⟨hcollection, hdatabase⟩ := Draft.withProperties_eq_ok hdraft
  rw [Draft.build, hcollection] at hbuild
  dsimp only at hbuild
  split at hbuild
  · cases hbuild
  · cases hbuild
    exact ⟨rfl, hdatabase⟩

/-- The properties of an alteration, as they are given to a collection. -/
def entries (a : Alteration) : List (Value × Value) :=
  a.properties.entries.map fun (key, value) => (.str key, .str value)

end Alteration

/-! ## What a command does with a collection -/

/-- What a command may read apart from the collection that it works on. -/
structure Surroundings where
  now : Binary64
  depth : Int
  aliases : List String

/-- What the filter of a request parses to, if it is a text. -/
def FilterArgument.parsed (depth : Int) : FilterArgument → Except Fault (Option Filter)
  | .text words => Filter.parse depth words
  | _ => .ok none

namespace Command

/-- The commands that work on the content of one collection. -/
def isContent : Command → Bool
  | .describe _ _ | .rowCount _ _ | .createPartition _ _ | .hasPartition _ _
  | .dropPartition _ _ | .partitions _ | .insert _ _ _ | .query _ | .alter _
  | .alterByValues _ _ | .dropProperties _ _ | .ttl _ _ | .snapshot _ _ _ => true
  | _ => false

/-- The name by which a command takes a collection, and the database in which it looks for it. An
alteration may hold a value that names no database. -/
def named? : Command → Option (String × Option String)
  | .hasCollection name database | .dropCollection name database | .describe name database
  | .rowCount name database | .ttl name database | .snapshot name _ database =>
      some (name, database)
  | .createPartition name _ | .hasPartition name _ | .dropPartition name _ | .partitions name
  | .createAlias name _ | .alterAlias name _ | .insert name _ _ | .alterByValues name _
  | .dropProperties name _ => some (name, none)
  | .aliases name => name.map (·, none)
  | .query request => some (request.collection, none)
  | .alter a =>
      match Store.alteredDatabase a.database with
      | .ok database => some (a.collection, database)
      | .error _ => none
  | _ => none

/-- What a command on content answers and makes of the collection that it has found. -/
def act (around : Surroundings) (c : Collection) : Command → Except Fault (Answer × Collection)
  | .describe _ _ => (c.describe around.now around.aliases).map (.described ·, c)
  | .rowCount _ _ => (c.size around.now).map (.rowCount ·, c)
  | .createPartition _ partition => (c.createPartition partition).map (.done, ·)
  | .hasPartition _ partition => .ok (.flag (c.hasPartition partition), c)
  | .dropPartition _ partition => (c.dropPartition partition).map (.done, ·)
  | .partitions _ => .ok (.names c.partitionNames, c)
  | .insert _ data partition => do
      let (keys, d) ← c.insert around.now (← Rows.ensure data) partition
      return (.inserted keys, d)
  | .query request =>
      (request.run c around.now (request.filter.parsed around.depth)).map (.records ·, c)
  | .alter a => (c.alterProperties a.entries).map (.done, ·)
  | .alterByValues name properties => do
      let a ← Alteration.ofValues name properties
      return (.done, ← c.alterProperties a.entries)
  | .dropProperties _ keys => .ok (.done, c.dropProperties keys)
  | .ttl _ _ => c.ttl.map (.ttl ·, c)
  | .snapshot _ selected _ => (c.snapshot around.now selected).map (.rows ·, c)
  | _ => .ok (.done, c)

/-- The collection that a command leaves, which a failed one leaves as it was. -/
def left (around : Surroundings) (c : Collection) (command : Command) : Collection :=
  match command.act around c with
  | .ok done => done.2
  | .error _ => c

/-- What a command checks before it looks for its collection. -/
def precheck : Command → Except Fault Unit
  | .alter a => (Store.alteredDatabase a.database).map fun _ => ()
  | .alterByValues name properties => (Alteration.ofValues name properties).map fun _ => ()
  | _ => .ok ()

theorem named?_alter {a : Alteration} {name : String} {database : Option String}
    (h : (Command.alter a).named? = some (name, database)) :
    Store.alteredDatabase a.database = .ok database ∧ a.collection = name := by
  simp only [named?] at h
  split at h
  · next hd =>
      cases h
      exact ⟨hd, rfl⟩
  · cases h

end Command

namespace Store

/-- The address at which a command finds its collection, if it looks for one. -/
def search (s : Store) (command : Command) : Except Fault (Option Address) := do
  command.precheck
  match command.named? with
  | none => return none
  | some (name, database) => return some (← s.address name database)

/-- The address of the collection to which a command is addressed, if there is one. -/
def addressee (s : Store) (command : Command) : Option Address := do
  let (name, database) ← command.named?
  (s.address name database).toOption

/-- The parse cache after a command on the content of a collection. -/
def cacheAfter (s : Store) (c : Collection) : Command → ParseCache
  | .query request => (s.parseFilter c.settings.maxFilterLength request.filter).2.cache
  | _ => s.cache

end Store

/-- What surrounds the collection at an address. -/
def Session.around (s : Session) (a : Address) : Surroundings :=
  ⟨s.clock, s.store.settings.maxDepth, s.store.aliasesAt a⟩

/-! ## Steps on content -/

namespace Store

variable {s : Store} {command : Command} {a : Address} {c : Collection}

theorem addressee_eq_some_iff : s.addressee command = some a ↔
    ∃ name database, command.named? = some (name, database) ∧
      s.address name database = .ok a := by
  simp [addressee, toOption_eq_some_iff, Option.bind_eq_some_iff]

theorem at?_of_addressee (h : s.addressee command = some a) : ∃ c, s.at? a = some c := by
  obtain ⟨name, database, -, ha⟩ := addressee_eq_some_iff.mp h
  obtain ⟨db, c, -, -, -, -, -, hc⟩ := address_eq_ok ha
  exact ⟨c, hc⟩

theorem describe_of_address {settings : Settings} {now : Binary64} {name : String}
    {database : Option String} (h : s.Invariant settings)
    (ha : s.address name database = .ok a) (hat : s.at? a = some c) :
    s.describe now name database = c.describe now (s.aliasesAt a) := by
  obtain ⟨db, found, hdb, hr, hget, hcollection, -, hfound⟩ := address_eq_ok ha
  cases hfound.symm.trans hat
  have hname : c.name = a.collection :=
    hcollection ▸ ((h.sound _ db (database_eq_ok_iff.mp hdb)).of_resolve hr).1
  simp only [describe, hdb, bind, Except.bind, Database.describe, hr, aliasesAt, hget, hname]

theorem describe_of_address_error {now : Binary64} {name : String} {database : Option String}
    {fault : Fault} (ha : s.address name database = .error fault) :
    s.describe now name database = .error fault := by
  rcases bind_eq_error_iff.mp (collection_of_address_error ha) with hdb | ⟨db, hdb, hr⟩
  · exact bind_eq_error_iff.mpr (.inl hdb)
  · exact bind_eq_error_iff.mpr (.inr ⟨db, hdb, bind_eq_error_iff.mpr (.inl hr)⟩)

/-- A change by any values is made by the alteration put together from them. -/
theorem alterByValues_eq (s : Store) (name : String) (properties : List (Value × Value)) :
    s.alterByValues name properties = (do s.alter (← Alteration.ofValues name properties)) := by
  simp only [alterByValues, Alteration.ofValues, bind_assoc]
  rfl

/-- A query is answered as if its filter had been parsed anew. -/
theorem Invariant.query_of_collection {settings : Settings} (h : s.Invariant settings)
    (now : Binary64) {r : Request} (hc : s.collection r.collection none = .ok c) :
    s.query now r = (r.run c now (r.filter.parsed s.settings.maxDepth),
      { s with cache := s.cacheAfter c (.query r) }) := by
  have hrun : r.run c now (s.parseFilter c.settings.maxFilterLength r.filter).1 =
      r.run c now (r.filter.parsed s.settings.maxDepth) := by
    unfold Request.run Store.parseFilter
    cases r.filter with
    | tree filter => rfl
    | other kind => rfl
    | text text =>
        dsimp only [Request.readFilter, FilterArgument.parsed]
        split
        · rfl
        · rw [((h.configured ▸ h.cached : s.cache.Sound s.settings.maxDepth).parse text).1]
  have hstore := s.parseFilter_snd c.settings.maxFilterLength r.filter
  simp only [Store.query, hc, hrun, cacheAfter]
  exact congrArg (Prod.mk _) hstore

theorem alter_of_database {alteration : Alteration} {database : Option String}
    (h : alteredDatabase alteration.database = .ok database) :
    s.alter alteration =
      s.alterProperties alteration.collection database alteration.entries := by
  rw [alter, h]
  rfl

theorem cache_putAt (s : Store) (a : Address) (c : Collection) : (s.putAt a c).cache = s.cache := by
  unfold putAt
  split <;> rfl

end Store

namespace Session

variable {settings : Settings} {s : Session} {command : Command} {a : Address} {c : Collection}

/-- The session after a command on the content of the collection at an address. -/
def afterContent (s : Session) (a : Address) (c : Collection) (command : Command) : Session :=
  { s with store := { s.store.putAt a (command.left (s.around a) c) with
    cache := s.store.cacheAfter c command } }

/-- A command that only reads its collection. -/
theorem afterContent_of_read {α : Type} {r : Except Fault α} {f : α → Answer}
    (hat : s.store.at? a = some c)
    (hact : command.act (s.around a) c = r.map fun x => (f x, c)) :
    (r.map f, { s with store := { s.store with cache := s.store.cacheAfter c command } }) =
      ((command.act (s.around a) c).map (·.1), s.afterContent a c command) := by
  have hleft : command.left (s.around a) c = c := by
    unfold Command.left
    rw [hact]
    cases r <;> rfl
  rw [afterContent, hleft, Store.putAt_self hat, hact]
  cases r <;> rfl

/-- A command that changes its collection. -/
theorem afterContent_of_change {outcome : Except Fault (Answer × Store)}
    (hat : s.store.at? a = some c) (hcache : s.store.cacheAfter c command = s.store.cache)
    (ho : outcome = (command.act (s.around a) c).map fun done =>
      (done.1, s.store.putAt a done.2)) :
    s.change outcome = ((command.act (s.around a) c).map (·.1), s.afterContent a c command) := by
  rw [afterContent, hcache, ho, Command.left]
  cases command.act (s.around a) c with
  | error fault =>
      dsimp only
      rw [Store.putAt_self hat]
      rfl
  | ok done =>
      dsimp only
      rw [← Store.cache_putAt s.store a done.2]
      rfl

/-- A command that changes its collection and has nothing to tell. -/
theorem afterContent_of_quiet {name : String} {database : Option String}
    (change : Collection → Except Fault Collection)
    (ha : s.store.address name database = .ok a) (hat : s.store.at? a = some c)
    (hcache : s.store.cacheAfter c command = s.store.cache)
    (hact : command.act (s.around a) c = (change c).map (Answer.done, ·)) :
    s.change (quietly (do return (← s.store.updateCollection name database fun c => do
      return ((), ← change c)).2)) =
      ((command.act (s.around a) c).map (·.1), s.afterContent a c command) := by
  refine afterContent_of_change hat hcache ?_
  rw [Store.updateCollection_of_address ha hat, hact]
  cases change c <;> rfl

/-- A command addressed to a collection answers with what it does there, and changes that collection
and the parse cache only. -/
theorem step_of_addressee (h : s.store.Invariant settings) (hc : command.isContent = true)
    (ha : s.store.addressee command = some a) (hat : s.store.at? a = some c) :
    s.step command =
      ((command.act (s.around a) c).map (·.1), s.afterContent a c command) := by
  obtain ⟨name, database, hname, haddress⟩ := Store.addressee_eq_some_iff.mp ha
  have hcollection := Store.collection_of_address haddress hat
  cases command with
  | describe given inDatabase =>
      cases hname
      rw [← afterContent_of_read hat rfl, step, Store.describe_of_address h haddress hat]
      rfl
  | rowCount given _ | ttl given _ | snapshot given _ _ =>
      cases hname
      rw [← afterContent_of_read hat rfl]
      simp only [step, Store.rowCount, hcollection]
      rfl
  | hasPartition given partition =>
      cases hname
      rw [← afterContent_of_read (r := .ok (c.hasPartition partition)) hat rfl, step, hcollection]
      rfl
  | partitions given =>
      cases hname
      rw [← afterContent_of_read (r := .ok c.partitionNames) hat rfl, step, hcollection]
      rfl
  | createPartition given partition =>
      cases hname
      exact afterContent_of_quiet (·.createPartition partition) haddress hat rfl rfl
  | dropPartition given partition =>
      cases hname
      exact afterContent_of_quiet (·.dropPartition partition) haddress hat rfl rfl
  | dropProperties given keys =>
      cases hname
      exact afterContent_of_quiet (fun c => .ok (c.dropProperties keys)) haddress hat rfl rfl
  | insert given data partition =>
      cases hname
      refine afterContent_of_change hat rfl ?_
      rw [Store.insert, Store.updateCollection_of_address haddress hat, Command.act]
      cases Rows.ensure data with
      | error fault => rfl
      | ok rows =>
          simp only [bind, Except.bind, around]
          cases c.insert s.clock rows partition <;> rfl
  | alter alteration =>
      obtain ⟨hdatabase, rfl⟩ := Command.named?_alter hname
      rw [step, Store.alter_of_database hdatabase]
      exact afterContent_of_quiet (·.alterProperties alteration.entries) haddress hat rfl rfl
  | alterByValues given properties =>
      cases hname
      rw [step, Store.alterByValues_eq]
      cases hvalues : Alteration.ofValues name properties with
      | error fault =>
          have hact : (Command.alterByValues name properties).act (s.around a) c =
              (Except.error fault : Except Fault Unit).map fun _ => (.done, c) := by
            rw [Command.act, hvalues]
            rfl
          exact afterContent_of_read hat hact
      | ok alteration =>
          obtain ⟨rfl, hdatabase⟩ := Alteration.ofValues_eq_ok hvalues
          rw [← afterContent_of_quiet (·.alterProperties alteration.entries) haddress hat rfl]
          · simp only [bind, Except.bind, Store.alter, hdatabase]
            rfl
          · rw [Command.act, hvalues]
            simp only [bind, Except.bind]
            cases c.alterProperties alteration.entries <;> rfl
  | query request =>
      cases hname
      rw [← afterContent_of_read hat rfl, step, h.query_of_collection s.clock hcollection]
      rfl
  | _ => cases hc

/-- A command on content that finds no collection fails and changes nothing. -/
theorem step_of_search_error {fault : Fault} (hc : command.isContent = true)
    (hs : s.store.search command = .error fault) : s.step command = (.error fault, s) := by
  rcases bind_eq_error_iff.mp hs with hcheck | ⟨_, hcheck, hs⟩
  · cases command with
    | alter alteration =>
        rw [step, Store.alter, map_eq_error_iff.mp hcheck]
        rfl
    | alterByValues name properties =>
        rw [step, Store.alterByValues_eq, map_eq_error_iff.mp hcheck]
        rfl
    | _ => cases hcheck
  · split at hs
    · cases hs
    · next name database hname =>
        have haddress : s.store.address name database = .error fault := by
          rcases bind_eq_error_iff.mp hs with haddress | ⟨_, -, hs⟩
          · exact haddress
          · cases hs
        have hcollection := Store.collection_of_address_error haddress
        have hupdate {α : Type} (change : Collection → Except Fault (α × Collection)) :
            s.store.updateCollection name database change = .error fault :=
          Store.updateCollection_of_address_error haddress
        cases command with
        | describe given inDatabase =>
            cases hname
            rw [step, Store.describe_of_address_error haddress]
            rfl
        | rowCount given _ | hasPartition given _ | partitions given | ttl given _
        | snapshot given _ _ | query _ =>
            cases hname
            simp only [step, Store.rowCount, Store.query, hcollection]
            rfl
        | createPartition given _ | dropPartition given _ | dropProperties given _
        | insert given _ _ =>
            cases hname
            simp only [step, Store.createPartition, Store.dropPartition, Store.dropProperties,
              Store.insert, hupdate]
            rfl
        | alter alteration =>
            obtain ⟨hdatabase, rfl⟩ := Command.named?_alter hname
            rw [step, Store.alter_of_database hdatabase, Store.alterProperties, hupdate]
            rfl
        | alterByValues given properties =>
            cases hname
            obtain ⟨alteration, hvalues, -⟩ := map_eq_ok_iff.mp hcheck
            obtain ⟨rfl, hdatabase⟩ := Alteration.ofValues_eq_ok hvalues
            have hnone : Store.alteredDatabase alteration.database = .ok none := by
              rw [hdatabase]
              rfl
            rw [step, Store.alterByValues_eq, hvalues]
            simp only [bind, Except.bind]
            rw [Store.alter_of_database hnone, Store.alterProperties, hupdate]
            rfl
        | _ => cases hc

end Session

/-! ## What no command on content changes -/

namespace Store

/-- A command on content that is addressed to no collection does not find any. -/
theorem search_of_no_addressee {s : Store} {command : Command} (hc : command.isContent = true)
    (ha : s.addressee command = none) : ∃ fault, s.search command = .error fault := by
  have hnamed : ∀ done, command.precheck = .ok done → ∃ name database,
      command.named? = some (name, database) := by
    intro done hcheck
    cases command with
    | alter alteration =>
        obtain ⟨database, hdatabase, -⟩ := map_eq_ok_iff.mp hcheck
        exact ⟨alteration.collection, database, by simp only [Command.named?, hdatabase]⟩
    | describe _ _ | rowCount _ _ | createPartition _ _ | hasPartition _ _ | dropPartition _ _
    | partitions _ | insert _ _ _ | query _ | alterByValues _ _ | dropProperties _ _ | ttl _ _
    | snapshot _ _ _ => exact ⟨_, _, rfl⟩
    | _ => cases hc
  cases hcheck : command.precheck with
  | error fault => exact ⟨fault, by rw [search, hcheck]; rfl⟩
  | ok done =>
      obtain ⟨name, database, hname⟩ := hnamed done hcheck
      cases haddress : s.address name database with
      | error fault =>
          refine ⟨fault, ?_⟩
          simp only [search, hcheck, hname, haddress, bind, Except.bind]
      | ok a =>
          rw [addressee_eq_some_iff.mpr ⟨name, database, hname, haddress⟩] at ha
          cases ha

end Store

namespace Command

variable {around : Surroundings} {c d : Collection} {command : Command} {answer : Answer}

/-- What a command on content changes, an action on the collection changes. -/
theorem act_eq_ok (h : command.act around c = .ok (answer, d)) :
    d = c ∨ ∃ action, (Clocked.mk c around.now).step action = .ok ⟨d, around.now⟩ := by
  cases command with
  | createPartition name partition =>
      obtain ⟨after, hafter, he⟩ := map_eq_ok_iff.mp h
      cases he
      exact .inr ⟨.createPartition partition, map_eq_ok_iff.mpr ⟨d, hafter, rfl⟩⟩
  | dropPartition name partition =>
      obtain ⟨after, hafter, he⟩ := map_eq_ok_iff.mp h
      cases he
      exact .inr ⟨.dropPartition partition, map_eq_ok_iff.mpr ⟨d, hafter, rfl⟩⟩
  | insert name data partition =>
      obtain ⟨rows, -, h⟩ := bind_eq_ok_iff.mp h
      obtain ⟨⟨keys, after⟩, hafter, he⟩ := bind_eq_ok_iff.mp h
      cases he
      exact .inr ⟨.insert rows partition, map_eq_ok_iff.mpr ⟨(keys, d), hafter, rfl⟩⟩
  | alter alteration =>
      obtain ⟨after, hafter, he⟩ := map_eq_ok_iff.mp h
      cases he
      exact .inr ⟨.alterProperties alteration.entries, map_eq_ok_iff.mpr ⟨d, hafter, rfl⟩⟩
  | alterByValues name properties =>
      obtain ⟨alteration, -, h⟩ := bind_eq_ok_iff.mp h
      obtain ⟨after, hafter, he⟩ := bind_eq_ok_iff.mp h
      cases he
      exact .inr ⟨.alterProperties alteration.entries, map_eq_ok_iff.mpr ⟨d, hafter, rfl⟩⟩
  | dropProperties name keys =>
      cases h
      exact .inr ⟨.dropProperties keys, rfl⟩
  | describe _ _ | rowCount _ _ | query _ | ttl _ _ | snapshot _ _ _ =>
      obtain ⟨_, -, he⟩ := map_eq_ok_iff.mp h
      cases he
      exact .inl rfl
  | _ =>
      cases h
      exact .inl rfl

/-- What actions keep, a command on content keeps. -/
theorem left_induction {P : Collection → Prop} (h : P c)
    (hstep : ∀ action d, (Clocked.mk c around.now).step action = .ok ⟨d, around.now⟩ → P d) :
    P (command.left around c) := by
  unfold left
  split
  · next done hdone =>
      rcases act_eq_ok hdone with hsame | ⟨action, haction⟩
      · exact hsame ▸ h
      · exact hstep action _ haction
  · exact h

end Command

end ScalarStore
