import ScalarStore.Proofs.Session.InPlace

/-! # Failed commands

A command that fails leaves everything but the parse cache as it was. The programs that write in
place end as the operations of the store do, which give a fault and no store; in a session that
was run from its start, no check fails after a write. -/

namespace ScalarStore

open MonadExcept (ofExcept)

namespace InPlace

variable {σ τ α β : Type}

/-- The end of an operation that is done as a whole or not at all. -/
def settle (s : σ) : Except Fault (α × σ) → Except Fault α × σ
  | .ok (a, t) => (.ok a, t)
  | .error fault => (.error fault, s)

/-- A check that comes before any write fails without a trace. -/
theorem exec_check {r : Except Fault τ} {f : τ → InPlace σ α} {op : τ → Except Fault (α × σ)}
    {s : σ} (h : ∀ a, r = .ok a → exec (f a) s = settle s (op a)) :
    exec (ofExcept r >>= f) s = settle s (r >>= op) := by
  rw [exec_bind, exec_ofExcept]
  cases hr : r with
  | error fault => rfl
  | ok a => exact h a hr

/-- A refusal that comes before any write leaves no trace either. -/
theorem exec_guard {q : Prop} [Decidable q] {fault : Fault} {f : β → InPlace σ α}
    {p : InPlace σ α} {op : Except Fault τ} {g : τ → Except Fault (α × σ)} {s : σ}
    (h : ¬q → exec p s = settle s (op >>= g)) :
    exec (if q then throw fault >>= f else p) s =
      settle s ((if q then .error fault else op) >>= g) := by
  by_cases hq : q
  · rw [if_pos hq, if_pos hq]
    rfl
  · rw [if_neg hq, if_neg hq]
    exact h hq

/-! ## Collections -/

theorem exec_createPartition (name : String) (c : Collection) :
    exec (createPartition name) c = settle c (do return ((), ← c.createPartition name)) := by
  refine exec_guard fun _ => ?_
  rw [exec_get_bind]
  exact exec_guard fun _ => rfl

/-- Keys that are freed one by one are all freed. -/
theorem foldl_free (freed : List Value) (c : Collection) :
    freed.foldl (fun c one => { c with keys := c.keys.filter fun key => !key.same one }) c =
      { c with keys := c.keys.filter fun key => !freed.any key.same } := by
  induction freed generalizing c with
  | nil => simp
  | cons one rest ih =>
      rw [List.foldl_cons, ih, List.filter_filter]
      simp [Bool.and_comm]

/-- Every row that goes has a key to free. -/
theorem exec_dropPartition {c : Collection} (h : c.Invariant) (name : String) :
    exec (dropPartition name) c = settle c (do return ((), ← c.dropPartition name)) := by
  rw [dropPartition, exec_get_bind]
  refine exec_guard fun _ => ?_
  rw [exec_modify_bind]
  cases hp : c.partitions.get? name with
  | none =>
      have hsame := Table.erase_of_not_mem ((c.partitions.get?_eq_none_iff name).mp hp)
      dsimp only
      rw [exec_throw, hsame]
      rfl
  | some rows =>
      have hkey : ∀ row ∈ rows, c.keyFrom row.record = .ok (c.keyOf row.record) := by
        intro row hm
        have hstored : row ∈ c.stored :=
          List.mem_flatMap.mpr ⟨name, Table.mem_keys_of_get? hp, by rwa [c.rowsIn_of_get? hp]⟩
        rw [Collection.keyFrom, h.keyed row hstored]
      have hfree := foldl_free (rows.map fun row => c.keyOf row.record)
        { c with partitions := c.partitions.erase name }
      rw [List.foldl_map] at hfree
      dsimp only
      rw [exec_forM fun row hm t => by rw [hkey row hm]; rfl]
      exact congrArg (Prod.mk (Except.ok ())) hfree

theorem exec_insert (now : Binary64) (data : Value) (partition : Option String) (c : Collection) :
    exec (insert now data partition) c =
      settle c (do c.insert now (← Rows.ensure data) partition) := by
  refine exec_check fun rows _ => ?_
  rw [exec_get_bind]
  refine exec_check fun records _ => exec_check fun keys _ => ?_
  dsimp only
  cases c.partitions.get? (c.targetPartition partition) with
  | none => rfl
  | some held =>
      dsimp only
      cases Collection.firstTaken c.keys keys <;> rfl

/-- Entries that are put one by one are all put. -/
theorem exec_alterProperties (entries : List (Value × Value)) (c : Collection) :
    exec (alterProperties entries) c =
      settle c (do return ((), ← c.alterProperties entries)) := by
  rw [Collection.alterProperties, bind_assoc]
  refine exec_check fun updates _ => ?_
  rw [bind_assoc]
  refine exec_check fun _ _ => ?_
  have hput : updates.entries.foldl
      (fun c entry => { c with properties := c.properties.put entry.1 entry.2 }) c =
        { c with properties := c.properties.putAll updates.entries } :=
    List.foldl_hom (fun properties => { c with properties := properties }) fun _ _ => rfl
  rw [exec_forM fun entry _ c => exec_modify _ c, hput]
  rfl

theorem exec_dropProperties (keys : List String) (c : Collection) :
    exec (dropProperties keys) c =
      settle c (do return ((), ← Except.ok (c.dropProperties keys))) := by
  have herase : keys.foldl (fun c key => { c with properties := c.properties.erase key }) c =
      c.dropProperties keys :=
    List.foldl_hom (fun properties => { c with properties := properties }) fun _ _ => rfl
  rw [dropProperties, exec_forM fun key _ c => exec_modify _ c, herase]
  rfl

/-! ## Databases -/

/-- A program on a collection that is done as a whole or not at all is so on its database. -/
theorem exec_onCollection {name : String} {p : InPlace Collection α} {db : Database}
    {op : Collection → Except Fault (α × Collection)}
    (h : ∀ c, db.resolve name = .ok c → exec p c = settle c (op c)) :
    exec (onCollection name p) db = settle db (do
      let (a, c) ← op (← db.resolve name)
      return (a, db.replace name c)) := by
  rw [onCollection, exec_get_bind]
  refine exec_check fun c hc => ?_
  rw [exec_within, h c hc]
  cases op c with
  | error fault =>
      have hsame : db.replace name c = db := by
        rw [Database.replace, Table.put_of_get? (Database.resolve_eq_ok_iff.mp hc)]
      exact congrArg (Prod.mk (Except.error fault)) hsame
  | ok done => rfl

theorem exec_createCollection (settings : Settings) (name : String) (schema : Schema)
    (properties description : Value) (db : Database) :
    exec (createCollection settings name schema properties description) db =
      settle db (db.createCollection settings name schema properties description) := by
  rw [createCollection, exec_get_bind, Database.createCollection]
  split
  · rfl
  · exact exec_check fun c _ => rfl

theorem exec_dropCollection (name : String) (db : Database) :
    exec (dropCollection name) db = settle db (do return ((), ← db.dropCollection name)) := by
  rw [dropCollection, exec_get_bind]
  refine exec_guard fun _ => exec_guard fun _ => ?_
  have herase : (db.aliases.filter (·.2 = name)).keys.foldl
      (fun db other => { db with aliases := db.aliases.erase other })
        { db with collections := db.collections.erase name } =
      ⟨db.collections.erase name,
        (db.aliases.filter (·.2 = name)).keys.foldl Table.erase db.aliases⟩ :=
    List.foldl_hom
      (fun standing : Table String => Database.mk (db.collections.erase name) standing)
      fun _ _ => rfl
  rw [exec_modify_bind, exec_forM fun other _ db => exec_modify _ db, herase,
    Table.foldl_erase_keys_filter]
  simp only [decide_not]
  rfl

theorem exec_createAlias (name newAlias : String) (db : Database) :
    exec (createAlias name newAlias) db =
      settle db (do return ((), ← db.createAlias name newAlias)) := by
  rw [createAlias, exec_get_bind]
  exact exec_guard fun _ => exec_guard fun _ => rfl

theorem exec_alterAlias (name oldAlias : String) (db : Database) :
    exec (alterAlias name oldAlias) db =
      settle db (do return ((), ← db.alterAlias name oldAlias)) := by
  rw [alterAlias, exec_get_bind]
  exact exec_guard fun _ => exec_guard fun _ => rfl

/-- An alias that is not there is taken out without a trace. -/
theorem exec_dropAlias (oldAlias : String) (db : Database) :
    exec (dropAlias oldAlias) db = settle db (do return ((), ← db.dropAlias oldAlias)) := by
  simp only [dropAlias, exec_get_bind, exec_modify_bind, exec_ite, exec_throw, exec_pure,
    Database.dropAlias]
  split
  · next h =>
      have hmissing : oldAlias ∉ db.aliases.keys := by
        rw [← Table.contains_iff]
        simpa using h
      rw [Table.erase_of_not_mem hmissing]
      rfl
  · rfl

/-! ## Stores -/

/-- A program on a database that is done as a whole or not at all is so on its store. -/
theorem exec_onDatabase {name : Option String} {p : InPlace Database α} {s : Store}
    {op : Database → Except Fault (α × Database)}
    (h : ∀ db, s.database name = .ok db → exec p db = settle db (op db)) :
    exec (onDatabase name p) s = settle s (do
      let done ← op (← s.database name)
      return (done.1, { s with
        databases := s.databases.put (s.databaseName name) done.2 })) := by
  rw [onDatabase, exec_get_bind]
  refine exec_check fun db hdb => ?_
  rw [exec_within, h db hdb]
  cases op db with
  | error fault =>
      have hsame : s.databases.put (s.databaseName name) db = s.databases :=
        Table.put_of_get? (Store.database_eq_ok_iff.mp hdb)
      dsimp only [settle]
      rw [hsame]
      rfl
  | ok done => rfl

theorem exec_updateDatabase {name : Option String} {p : InPlace Database Unit} {s : Store}
    {change : Database → Except Fault Database}
    (h : ∀ db, s.database name = .ok db →
      exec p db = settle db (do return ((), ← change db))) :
    exec (onDatabase name p) s = settle s (do return ((), ← s.updateDatabase name change)) := by
  rw [exec_onDatabase h, Store.updateDatabase]
  simp only [bind_assoc, pure_bind]

theorem exec_updateCollection {name : String} {database : Option String}
    {p : InPlace Collection α} {s : Store} {change : Collection → Except Fault (α × Collection)}
    (h : ∀ c, s.collection name database = .ok c → exec p c = settle c (change c)) :
    exec (onDatabase database (onCollection name p)) s =
      settle s (s.updateCollection name database change) := by
  have hdatabase : ∀ db, s.database database = .ok db → exec (onCollection name p) db =
      settle db (do
        let (a, c) ← change (← db.resolve name)
        return (a, db.replace name c)) := by
    intro db hdb
    refine exec_onCollection fun c hc => h c ?_
    rw [Store.collection, hdb]
    exact hc
  rw [exec_onDatabase hdatabase, Store.updateCollection]
  simp only [bind_assoc, pure_bind]

theorem exec_createDatabase (name : String) (s : Store) :
    exec (createDatabase name) s = settle s (do return ((), ← s.createDatabase name)) := by
  refine exec_guard fun _ => ?_
  rw [exec_get_bind]
  exact exec_guard fun _ => rfl

theorem exec_useDatabase (name : String) (s : Store) :
    exec (useDatabase name) s = settle s (do return ((), ← s.useDatabase name)) := by
  simp only [useDatabase, exec_ite, exec_throw_bind, exec_get_bind, exec_modify,
    Store.useDatabase]
  cases s.databases.contains name <;> rfl

theorem exec_dropDatabase (name : String) (s : Store) :
    exec (dropDatabase name) s = settle s (do return ((), ← s.dropDatabase name)) := by
  rw [dropDatabase, exec_get_bind]
  refine exec_guard fun _ => ?_
  cases s.databases.get? name with
  | none => rfl
  | some db =>
      dsimp only
      cases db.collections.isEmpty with
      | false => rfl
      | true =>
          by_cases hc : s.current = name
          · simp only [if_pos hc]
            rfl
          · simp only [if_neg hc]
            rfl

theorem exec_addCollection (name : String) (schema : Schema) (properties description : Value)
    (database : Option String) (s : Store) :
    exec (addCollection name schema properties description database) s =
      settle s (s.createCollection name schema properties description database) := by
  rw [← bind_pure (s.createCollection name schema properties description database)]
  refine exec_guard fun _ => ?_
  rw [exec_get_bind, bind_pure, exec_onDatabase fun db _ =>
    exec_createCollection s.settings name schema properties description db]

/-- A change of a collection that has nothing to tell. -/
theorem exec_changeCollection {name : String} {database : Option String}
    {p : InPlace Collection Unit} {s : Store} {change : Collection → Except Fault Collection}
    {outcome : Except Fault Store}
    (ho : outcome = do return (← s.updateCollection name database fun c => do
      return ((), ← change c)).2)
    (h : ∀ c, s.collection name database = .ok c →
      exec p c = settle c (do return ((), ← change c))) :
    exec (onDatabase database (onCollection name p)) s =
      settle s (do return ((), ← outcome)) := by
  rw [exec_updateCollection h, ho]
  cases s.updateCollection name database fun c => do return ((), ← change c) <;> rfl

theorem exec_alter (a : Alteration) (s : Store) :
    exec (alter a) s = settle s (do return ((), ← s.alter a)) := by
  rw [Store.alter, bind_assoc]
  refine exec_check fun database _ => ?_
  exact exec_changeCollection rfl fun c _ => exec_alterProperties _ c

/-- The alteration is put together before anything is written. -/
theorem exec_alterByValues (name : String) (properties : List (Value × Value)) (s : Store) :
    exec (alterByValues name properties) s =
      settle s (do return ((), ← s.alterByValues name properties)) := by
  rw [Store.alterByValues, bind_assoc]
  refine exec_check fun started _ => ?_
  rw [bind_assoc]
  refine exec_check fun draft _ => ?_
  rw [bind_assoc]
  exact exec_check fun a _ => exec_alter a s

theorem exec_readFilter (settings : Settings) (filter : FilterArgument) (s : Store) :
    exec (readFilter settings filter) s =
      (Request.readFilter settings (s.parseFilter settings.maxFilterLength filter).1 filter,
        (s.parseFilter settings.maxFilterLength filter).2) := by
  cases filter with
  | tree f => rfl
  | other kind => rfl
  | text text =>
      simp only [readFilter, exec_ite, exec_throw_bind, exec_get_bind, Request.readFilter,
        Store.parseFilter]
      split
      · rfl
      · rw [exec_modify_bind, exec_bind, exec_ofExcept]
        cases (s.cache.parse s.settings.maxDepth text).1 <;> rfl

theorem exec_query (now : Binary64) (r : Request) (s : Store) :
    exec (query now r) s = s.query now r := by
  rw [query, exec_get_bind, exec_bind, exec_ofExcept, Store.query]
  cases s.collection r.collection none with
  | error fault => rfl
  | ok c =>
      dsimp only
      rw [exec_bind, exec_readFilter, Request.run]
      cases Request.readFilter c.settings
        (s.parseFilter c.settings.maxFilterLength r.filter).1 r.filter with
      | error fault => rfl
      | ok read => exact exec_ofExcept _ _

/-! ## Sessions -/

variable {p : InPlace Store Answer} {q : InPlace Store Unit} {s : Session}

theorem exec_onStore {outcome : Except Fault (Answer × Store)}
    (h : exec p s.store = settle s.store outcome) : exec (onStore p) s = s.change outcome := by
  rw [onStore, exec_within, h]
  cases outcome <;> rfl

theorem exec_quietly {outcome : Except Fault Store}
    (h : exec q s.store = settle s.store (do return ((), ← outcome))) :
    exec (quietly q) s = s.change (Session.quietly outcome) := by
  refine exec_onStore ?_
  rw [exec_bind, h]
  cases outcome <;> rfl

/-- What is told of a result does not change what is written. -/
theorem exec_telling {result : InPlace Store α} {f : α → Answer}
    {outcome : Except Fault (α × Store)} (h : exec result s.store = settle s.store outcome) :
    exec (onStore do return f (← result)) s = s.change (outcome.map fun (a, t) => (f a, t)) := by
  refine exec_onStore ?_
  rw [exec_bind, h]
  cases outcome <;> rfl

theorem exec_look {command : Command} (h : (s.step command).2 = s) :
    exec (do ofExcept ((← get).step command).1) s = s.step command := by
  rw [exec_get_bind, exec_ofExcept]
  exact congrArg (Prod.mk (s.step command).1) h.symm

/-- A command that writes in place ends as the step of the session does: what it wrote before it
failed is what was there. -/
theorem exec_ofCommand {settings : Settings} (h : s.store.Invariant settings)
    (command : Command) : exec (ofCommand command) s = s.step command := by
  cases command with
  | createDatabase name => exact exec_quietly (exec_createDatabase name s.store)
  | useDatabase name => exact exec_quietly (exec_useDatabase name s.store)
  | dropDatabase name => exact exec_quietly (exec_dropDatabase name s.store)
  | createCollection name schema properties description database =>
      exact exec_telling (exec_addCollection name schema properties description database s.store)
  | dropCollection name database =>
      exact exec_quietly (exec_updateDatabase fun db _ => exec_dropCollection name db)
  | createPartition name partition =>
      exact exec_quietly (exec_changeCollection rfl fun c _ => exec_createPartition partition c)
  | dropPartition name partition =>
      exact exec_quietly (exec_changeCollection rfl fun c hc =>
        exec_dropPartition (h.of_collection hc) partition)
  | createAlias name newAlias =>
      exact exec_quietly (exec_updateDatabase fun db _ => exec_createAlias name newAlias db)
  | alterAlias name oldAlias =>
      exact exec_quietly (exec_updateDatabase fun db _ => exec_alterAlias name oldAlias db)
  | dropAlias oldAlias =>
      exact exec_quietly (exec_updateDatabase fun db _ => exec_dropAlias oldAlias db)
  | insert name data partition =>
      rw [ofCommand, exec_get_bind, Session.step]
      refine exec_telling ?_
      rw [Store.insert]
      exact exec_updateCollection fun c _ => exec_insert s.clock data partition c
  | query request =>
      rw [ofCommand, exec_get_bind, onStore, exec_within, exec_bind, exec_query, Session.step]
      rcases s.store.query s.clock request with ⟨records, store⟩
      cases records <;> rfl
  | alter alteration => exact exec_quietly (exec_alter alteration s.store)
  | alterByValues name properties => exact exec_quietly (exec_alterByValues name properties s.store)
  | dropProperties name keys =>
      exact exec_quietly (exec_changeCollection rfl fun c _ => exec_dropProperties keys c)
  | setClock now => rfl
  | advanceClock elapsed => rfl
  | _ => exact exec_look rfl

end InPlace

/-- A query changes the store's parse cache and nothing else. -/
theorem Store.query_snd (s : Store) (now : Binary64) (r : Request) :
    (s.query now r).2 = { s with cache := (s.query now r).2.cache } := by
  unfold Store.query
  split
  · rfl
  · exact s.parseFilter_snd _ _

namespace Session

variable {settings : Settings} {start : Binary64} {commands : List Command} {s t : Session}
  {fault : Fault}

theorem change_eq_error {outcome : Except Fault (Answer × Store)}
    (h : s.change outcome = (.error fault, t)) : t = s := by
  cases outcome with
  | error _ => exact (congrArg Prod.snd h).symm
  | ok done => cases congrArg Prod.fst h

/-- A step that fails leaves all but the parse cache, and the cache too unless it is a query. -/
theorem step_eq_error {command : Command} (h : s.step command = (.error fault, t)) :
    t = { s with store := { s.store with cache := t.store.cache } } ∧
      ((∀ request, command ≠ .query request) → t = s) := by
  by_cases hq : ∃ request, command = .query request
  · obtain ⟨request, rfl⟩ := hq
    have ht : t = (s.step (.query request)).2 := (congrArg Prod.snd h).symm
    subst ht
    refine ⟨?_, fun hne => absurd rfl (hne request)⟩
    have hkept := s.store.query_snd s.clock request
    exact congrArg (Session.mk · s.clock) hkept
  · have hsame : t = s := by
      cases command with
      | setClock now => cases congrArg Prod.fst h
      | advanceClock elapsed => cases congrArg Prod.fst h
      | query request => exact absurd ⟨request, rfl⟩ hq
      | createDatabase _ | useDatabase _ | dropDatabase _ | createCollection _ _ _ _ _
      | dropCollection _ _ | createPartition _ _ | dropPartition _ _ | createAlias _ _
      | alterAlias _ _ | dropAlias _ | insert _ _ _ | alter _ | alterByValues _ _
      | dropProperties _ _ => exact change_eq_error h
      | _ => exact (congrArg Prod.snd h).symm
    subst hsame
    exact ⟨rfl, fun _ => rfl⟩

/-- After any run, a command that fails while it writes in place leaves the databases, the current
one and the clock as they were. A failed query may leave its mark in the parse cache, and no other
command leaves any. -/
theorem failed_command_of_run (hs : ((new settings start).run commands).2 = s)
    (command : Command) :
    InPlace.exec (InPlace.ofCommand command) s = s.step command ∧
    ∀ fault t, InPlace.exec (InPlace.ofCommand command) s = (.error fault, t) →
      t = { s with store := { s.store with cache := t.store.cache } } ∧
      ((∀ request, command ≠ .query request) → t = s) := by
  have h : s.store.Invariant settings := by
    rw [← hs]
    exact invariant_run settings start commands
  have hstep := InPlace.exec_ofCommand h command
  refine ⟨hstep, fun fault t ht => ?_⟩
  rw [hstep] at ht
  exact step_eq_error ht

/-- A collection with an alias and a row. -/
def prepared : List Command :=
  [.createCollection "c" titleSchema .null .null none, .createAlias "c" "a",
    .insert "a" (.map [(.str "id", .str "x"), (.str "title", .str "t")]) none]

/-- The last row of a batch has the key of an earlier one. -/
def lateDuplicate : Command :=
  .insert "a" (.list [.map [(.str "id", .str "y"), (.str "title", .str "t")],
    .map [(.str "id", .str "x"), (.str "title", .str "t")]]) none

theorem failed_command_of_run_batch :
    ∃ s t, ((new {} (.zero false)).run prepared).2 = s ∧
      InPlace.exec (InPlace.ofCommand lateDuplicate) s =
        (.error (.duplicateKey (.str "x") "c"), t) ∧ t = s := by
  obtain ⟨s, hs⟩ : ∃ s, ((new {} (.zero false)).run prepared).2 = s := ⟨_, rfl⟩
  obtain ⟨hstep, hfailed⟩ := failed_command_of_run hs lateDuplicate
  have ht : InPlace.exec (InPlace.ofCommand lateDuplicate) s =
      (.error (.duplicateKey (.str "x") "c"), (s.step lateDuplicate).2) := by
    rw [hstep]
    subst hs
    rfl
  refine ⟨s, _, hs, ht, (hfailed _ _ ht).2 fun request hq => ?_⟩
  cases hq

end Session

end ScalarStore
