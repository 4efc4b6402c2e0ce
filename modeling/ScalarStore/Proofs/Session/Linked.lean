import ScalarStore.Proofs.Session.Content

/-! # Two sessions side by side

Two stores are linked if they have the same databases, names and aliases, and related collections
at every address. A command on databases, names or aliases does the same in both. A command on
content is addressed to the same collection in both; what it makes of the two must be related. -/

namespace ScalarStore

/-! ## Linked databases -/

/-- Databases with the same aliases and with related collections under the same names. -/
structure Database.Linked (R : String → Collection → Collection → Prop) (db eb : Database) :
    Prop where
  aliases : eb.aliases = db.aliases
  collections : db.collections.Linked R eb.collections

namespace Database.Linked

variable {R S : String → Collection → Collection → Prop} {db eb : Database} {name other : String}
  {c d : Collection}

theorem empty : Database.empty.Linked R Database.empty := ⟨rfl, .empty⟩

theorem mono (h : db.Linked R eb)
    (hs : ∀ name c d, db.collections.get? name = some c → eb.collections.get? name = some d →
      R name c d → S name c d) : db.Linked S eb :=
  ⟨h.aliases, h.collections.mono hs⟩

theorem target (h : db.Linked R eb) (name : String) : eb.target name = db.target name := by
  rw [Database.target, h.aliases]
  rfl

theorem aliasNames (h : db.Linked R eb) (name : Option String) :
    eb.aliasNames name = db.aliasNames name := by
  rw [Database.aliasNames, h.aliases]
  rfl

theorem resolve (h : db.Linked R eb) (name : String) :
    Matched (R (db.target name)) (db.resolve name) (eb.resolve name) := by
  unfold Database.resolve
  rw [h.target]
  rcases h.collections.get? (db.target name) with ⟨hc, hd⟩ | ⟨c, d, hc, hd, hcd⟩
  · rw [hc, hd]
    exact .error _
  · rw [hc, hd]
    exact .ok hcd

theorem put (h : db.Linked R eb) (hcd : R name c d) :
    Database.Linked R { db with collections := db.collections.put name c }
      { eb with collections := eb.collections.put name d } :=
  ⟨h.aliases, h.collections.put hcd⟩

theorem createCollection (h : db.Linked R eb) {f : Collection → Collection}
    {settings settings' : Settings} {schema : Schema} {properties description : Value}
    (hnew : Collection.new settings' name schema properties description =
      (Collection.new settings name schema properties description).map f)
    (hR : ∀ c, R name c (f c)) :
    Matched (fun p q => q.1 = f p.1 ∧ p.2.Linked R q.2)
      (db.createCollection settings name schema properties description)
      (eb.createCollection settings' name schema properties description) := by
  unfold Database.createCollection
  rw [h.collections.contains, h.aliases, hnew]
  split
  · exact .error _
  · cases Collection.new settings name schema properties description with
    | error fault => exact .error _
    | ok c => exact .ok ⟨rfl, rfl, h.collections.put (hR c)⟩

theorem dropCollection (h : db.Linked R eb) (name : String) :
    Matched (Database.Linked R) (db.dropCollection name) (eb.dropCollection name) := by
  unfold Database.dropCollection
  rw [h.collections.contains, h.aliases]
  split
  · exact .error _
  · split
    · exact .error _
    · exact .ok ⟨rfl, h.collections.erase name⟩

theorem createAlias (h : db.Linked R eb) (name other : String) :
    Matched (Database.Linked R) (db.createAlias name other) (eb.createAlias name other) := by
  unfold Database.createAlias
  rw [h.collections.contains, h.collections.contains, h.aliases]
  split
  · exact .error _
  · split
    · exact .error _
    · exact .ok ⟨rfl, h.collections⟩

theorem alterAlias (h : db.Linked R eb) (name other : String) :
    Matched (Database.Linked R) (db.alterAlias name other) (eb.alterAlias name other) := by
  unfold Database.alterAlias
  rw [h.collections.contains, h.aliases]
  split
  · exact .error _
  · split
    · exact .error _
    · exact .ok ⟨rfl, h.collections⟩

theorem dropAlias (h : db.Linked R eb) (other : String) :
    Matched (Database.Linked R) (db.dropAlias other) (eb.dropAlias other) := by
  unfold Database.dropAlias
  rw [h.aliases]
  split
  · exact .error _
  · exact .ok ⟨rfl, h.collections⟩

end Database.Linked

/-! ## Linked stores -/

/-- Stores with the same names and related collections. Their parse caches and the other settings
may differ. -/
structure Store.Linked (R : Address → Collection → Collection → Prop) (s t : Store) : Prop where
  defaultDatabase : t.settings.defaultDatabase = s.settings.defaultDatabase
  maxDepth : t.settings.maxDepth = s.settings.maxDepth
  current : t.current = s.current
  databases : s.databases.Linked
    (fun database => Database.Linked fun collection => R ⟨database, collection⟩) t.databases

namespace Store.Linked

variable {R S : Address → Collection → Collection → Prop} {s t : Store} {name : String}
  {a : Address} {c d : Collection}

theorem mono (h : s.Linked R t)
    (hs : ∀ a c d, s.at? a = some c → t.at? a = some d → R a c d → S a c d) : s.Linked S t where
  defaultDatabase := h.defaultDatabase
  maxDepth := h.maxDepth
  current := h.current
  databases := h.databases.mono fun database db eb hdb heb hlinked =>
    hlinked.mono fun collection c d hc hd => hs ⟨database, collection⟩ c d
      (Store.at?_eq_some_iff.mpr ⟨db, hdb, hc⟩) (Store.at?_eq_some_iff.mpr ⟨eb, heb, hd⟩)

theorem at? (h : s.Linked R t) (a : Address) :
    (s.at? a = none ∧ t.at? a = none) ∨
      ∃ c d, s.at? a = some c ∧ t.at? a = some d ∧ R a c d := by
  unfold Store.at?
  rcases h.databases.get? a.database with ⟨hs, ht⟩ | ⟨db, eb, hs, ht, hlinked⟩
  · rw [hs, ht]
    exact .inl ⟨rfl, rfl⟩
  · rw [hs, ht]
    exact hlinked.collections.get? a.collection

theorem at?_eq_none_iff (h : s.Linked R t) (a : Address) : t.at? a = none ↔ s.at? a = none := by
  rcases h.at? a with ⟨hs, ht⟩ | ⟨c, d, hs, ht, -⟩
  · rw [hs, ht]
  · rw [hs, ht]
    exact ⟨nofun, nofun⟩

theorem databaseName (h : s.Linked R t) (database : Option String) :
    t.databaseName database = s.databaseName database := by
  cases database with
  | none => exact h.current
  | some name =>
      rw [Store.databaseName, Store.databaseName, h.current]

theorem database (h : s.Linked R t) (database : Option String) :
    Matched (Database.Linked fun collection => R ⟨s.databaseName database, collection⟩)
      (s.database database) (t.database database) := by
  unfold Store.database
  rw [h.databaseName]
  rcases h.databases.get? (s.databaseName database) with ⟨hs, ht⟩ | ⟨db, eb, hs, ht, hlinked⟩
  · rw [hs, ht]
    exact .error _
  · rw [hs, ht]
    exact .ok hlinked

theorem putDatabase (h : s.Linked R t) {db eb : Database}
    (hlinked : db.Linked (fun collection => R ⟨name, collection⟩) eb) :
    Store.Linked R { s with databases := s.databases.put name db }
      { t with databases := t.databases.put name eb } :=
  ⟨h.defaultDatabase, h.maxDepth, h.current, h.databases.put hlinked⟩

/-! ### Databases, names and aliases -/

theorem createDatabase (h : s.Linked R t) (name : String) :
    Matched (Store.Linked R) (s.createDatabase name) (t.createDatabase name) := by
  unfold Store.createDatabase
  rw [h.databases.contains]
  split
  · exact .error _
  · split
    · exact .error _
    · exact .ok (h.putDatabase .empty)

theorem useDatabase (h : s.Linked R t) (name : String) :
    Matched (Store.Linked R) (s.useDatabase name) (t.useDatabase name) := by
  unfold Store.useDatabase
  rw [h.databases.contains]
  split
  · exact .ok ⟨h.defaultDatabase, h.maxDepth, rfl, h.databases⟩
  · exact .error _

theorem dropDatabase (h : s.Linked R t) (name : String) :
    Matched (Store.Linked R) (s.dropDatabase name) (t.dropDatabase name) := by
  unfold Store.dropDatabase
  rw [h.defaultDatabase, h.current]
  split
  · exact .error _
  · rcases h.databases.get? name with ⟨hs, ht⟩ | ⟨db, eb, hs, ht, hlinked⟩
    · rw [hs, ht]
      exact .error _
    · rw [hs, ht]
      dsimp only
      rw [hlinked.collections.isEmpty, hlinked.collections.size]
      split
      · exact .ok ⟨h.defaultDatabase, h.maxDepth, rfl, h.databases.erase name⟩
      · exact .error _

theorem updateDatabase (h : s.Linked R t) (database : Option String)
    {change : Database → Except Fault Database}
    (hchange : ∀ R db eb, Database.Linked R db eb →
      Matched (Database.Linked R) (change db) (change eb)) :
    Matched (Store.Linked R) (s.updateDatabase database change)
      (t.updateDatabase database change) := by
  unfold Store.updateDatabase
  rw [h.databaseName]
  exact (h.database database).bind fun db eb hlinked =>
    (hchange _ db eb hlinked).bind fun after after' hafter => .ok (h.putDatabase hafter)

theorem createCollection (h : s.Linked R t) {f : Collection → Collection} {schema : Schema}
    {properties description : Value} (database : Option String)
    (hnew : Collection.new t.settings name schema properties description =
      (Collection.new s.settings name schema properties description).map f)
    (hR : ∀ a c, R a c (f c)) :
    Matched (fun p q => q.1 = f p.1 ∧ p.2.Linked R q.2)
      (s.createCollection name schema properties description database)
      (t.createCollection name schema properties description database) := by
  unfold Store.createCollection
  rw [h.databaseName]
  split
  · exact .error _
  · exact (h.database database).bind fun db eb hlinked =>
      (hlinked.createCollection hnew fun c => hR _ c).bind fun p q hpq =>
        .ok ⟨hpq.1, h.putDatabase hpq.2⟩

theorem collection (h : s.Linked R t) (name : String) (database : Option String) :
    Matched (fun c d => ∃ a, R a c d) (s.collection name database) (t.collection name database) :=
  (h.database database).bind fun db eb hlinked => by
    rcases (hlinked.resolve name).eq_or_eq with ⟨c, d, hc, hd, hcd⟩ | ⟨fault, hc, hd⟩
    · rw [hc, hd]
      exact .ok ⟨_, hcd⟩
    · rw [hc, hd]
      exact .error fault

theorem hasCollection (h : s.Linked R t) (name : String) (database : Option String) :
    t.hasCollection name database = s.hasCollection name database := by
  unfold Store.hasCollection
  rcases (h.collection name database).eq_or_eq with ⟨c, d, hc, hd, -⟩ | ⟨fault, hc, hd⟩
  · rw [hc, hd]
  · rw [hc, hd]

theorem collectionNames (h : s.Linked R t) (database : Option String) :
    t.collectionNames database = s.collectionNames database :=
  (h.database database).bind_eq fun _ _ hlinked => congrArg Except.ok hlinked.collections.keys

theorem aliasNames (h : s.Linked R t) (name : Option String) :
    t.aliasNames name = s.aliasNames name :=
  (h.database none).bind_eq fun _ _ hlinked => congrArg Except.ok (hlinked.aliasNames name)

/-! ### Addresses -/

theorem address (h : s.Linked R t) (name : String) (database : Option String) :
    t.address name database = s.address name database :=
  (h.database database).bind_eq fun db eb hlinked =>
    (hlinked.resolve name).bind_eq fun _ _ _ => by rw [h.databaseName, hlinked.target]

theorem addressee (h : s.Linked R t) (command : Command) :
    t.addressee command = s.addressee command := by
  simp only [Store.addressee, h.address]

/-- A command is addressed to related collections. -/
theorem at?_of_addressee (h : s.Linked R t) {command : Command}
    (ha : s.addressee command = some a) :
    ∃ c d, s.at? a = some c ∧ t.at? a = some d ∧ R a c d := by
  obtain ⟨c, hat⟩ := Store.at?_of_addressee ha
  rcases h.at? a with ⟨hnone, -⟩ | hboth
  · cases hat.symm.trans hnone
  · exact hboth

theorem search (h : s.Linked R t) (command : Command) : t.search command = s.search command := by
  simp only [Store.search, h.address]

theorem aliasesAt (h : s.Linked R t) (a : Address) : t.aliasesAt a = s.aliasesAt a := by
  unfold Store.aliasesAt
  rcases h.databases.get? a.database with ⟨hs, ht⟩ | ⟨db, eb, hs, ht, hlinked⟩
  · rw [hs, ht]
  · rw [hs, ht]
    exact hlinked.aliasNames _

theorem putAt (h : s.Linked R t) (hcd : R a c d) : (s.putAt a c).Linked R (t.putAt a d) := by
  unfold Store.putAt
  rcases h.databases.get? a.database with ⟨hs, ht⟩ | ⟨db, eb, hs, ht, hlinked⟩
  · rw [hs, ht]
    exact h
  · rw [hs, ht]
    exact h.putDatabase (hlinked.put hcd)

/-- The parse caches need not agree. -/
theorem withCache (h : s.Linked R t) (cache cache' : ParseCache) :
    Store.Linked R { s with cache := cache } { t with cache := cache' } :=
  ⟨h.defaultDatabase, h.maxDepth, h.current, h.databases⟩

end Store.Linked

/-! ## Linked sessions -/

/-- Collections in an answer, changed one by one. -/
def Description.map (f : Collection → Collection) (d : Description) : Description :=
  { d with collection := f d.collection }

def Answer.map (f : Collection → Collection) : Answer → Answer
  | .created c => .created (f c)
  | .described d => .described (d.map f)
  | .state databases =>
      .state (databases.map fun entry => (entry.1, entry.2.map (Description.map f)))
  | answer => answer

theorem Answer.map_id (answer : Answer) : answer.map id = answer := by
  have hdescription : Description.map id = id := rfl
  cases answer with
  | state databases => simp [map, hdescription]
  | _ => rfl

/-- The commands on databases, on the names and aliases of collections, and on the clock. -/
def Command.isRegistry : Command → Bool
  | .setClock _ | .advanceClock _ | .currentDatabase | .databases | .createDatabase _
  | .useDatabase _ | .dropDatabase _ | .createCollection _ _ _ _ _ | .hasCollection _ _
  | .dropCollection _ _ | .collections _ | .createAlias _ _ | .alterAlias _ _ | .dropAlias _
  | .aliases _ => true
  | _ => false

/-- Only two commands look at a session as a whole. -/
theorem Command.content_or_registry (command : Command) : command.isContent = true ∨
    command.isRegistry = true ∨ command = .cacheInfo ∨ command = .state := by
  cases command <;> simp [isContent, isRegistry]

namespace Session

/-- Sessions with the same clock and linked stores. -/
structure Linked (R : Address → Collection → Collection → Prop) (s t : Session) : Prop where
  clock : t.clock = s.clock
  store : s.store.Linked R t.store

namespace Linked

variable {R S : Address → Collection → Collection → Prop} {s t : Session}
  {f : Collection → Collection} {command : Command}

theorem mono (h : s.Linked R t)
    (hs : ∀ a c d, s.store.at? a = some c → t.store.at? a = some d → R a c d → S a c d) :
    s.Linked S t :=
  ⟨h.clock, h.store.mono hs⟩

/-- What two steps of linked sessions must give. -/
def Steps (R : Address → Collection → Collection → Prop) (f : Collection → Collection)
    (p q : Except Fault Answer × Session) : Prop :=
  q.1 = p.1.map (Answer.map f) ∧ p.2.Linked R q.2

theorem change (h : s.Linked R t) {outcome outcome' : Except Fault (Answer × Store)}
    (ho : Matched (fun p q => q.1 = p.1.map f ∧ p.2.Linked R q.2) outcome outcome') :
    Steps R f (s.change outcome) (t.change outcome') := by
  cases ho with
  | ok hpq => exact ⟨congrArg Except.ok hpq.1, h.clock, hpq.2⟩
  | error fault => exact ⟨rfl, h⟩

theorem change_quietly (h : s.Linked R t) {outcome outcome' : Except Fault Store}
    (ho : Matched (Store.Linked R) outcome outcome') :
    Steps R f (s.change (quietly outcome)) (t.change (quietly outcome')) :=
  h.change (ho.map fun _ _ hlinked => ⟨rfl, hlinked⟩)

theorem look (h : s.Linked R t) {answer answer' : Except Fault Answer}
    (ha : answer' = answer.map (Answer.map f)) : Steps R f (s.look answer) (t.look answer') :=
  ⟨ha, h⟩

/-- A command on databases, names, aliases or the clock does the same in linked sessions. -/
theorem step_registry (h : s.Linked R t)
    (hnew : ∀ name schema properties description,
      Collection.new t.store.settings name schema properties description =
        (Collection.new s.store.settings name schema properties description).map f)
    (hR : ∀ a c, R a c (f c)) (hc : command.isRegistry = true) :
    Steps R f (s.step command) (t.step command) := by
  cases command with
  | setClock now => exact ⟨rfl, rfl, h.store⟩
  | advanceClock elapsed =>
      simp only [step, h.clock]
      exact ⟨rfl, rfl, h.store⟩
  | currentDatabase =>
      simp only [step, h.store.current]
      exact h.look rfl
  | databases =>
      simp only [step, Store.databaseNames, h.store.databases.keys]
      exact h.look rfl
  | createDatabase name => exact h.change_quietly (h.store.createDatabase name)
  | useDatabase name => exact h.change_quietly (h.store.useDatabase name)
  | dropDatabase name => exact h.change_quietly (h.store.dropDatabase name)
  | createCollection name schema properties description database =>
      refine h.change ((h.store.createCollection database
        (hnew name schema properties description) hR).map ?_)
      intro p q hpq
      exact ⟨congrArg Answer.created hpq.1, hpq.2⟩
  | hasCollection name database =>
      simp only [step, h.store.hasCollection]
      refine h.look ?_
      cases s.store.hasCollection name database <;> rfl
  | dropCollection name database =>
      exact h.change_quietly
        (h.store.updateDatabase database fun _ _ _ hlinked => hlinked.dropCollection name)
  | collections database =>
      simp only [step, h.store.collectionNames]
      refine h.look ?_
      cases s.store.collectionNames database <;> rfl
  | createAlias name other =>
      exact h.change_quietly
        (h.store.updateDatabase none fun _ _ _ hlinked => hlinked.createAlias name other)
  | alterAlias name other =>
      exact h.change_quietly
        (h.store.updateDatabase none fun _ _ _ hlinked => hlinked.alterAlias name other)
  | dropAlias other =>
      exact h.change_quietly
        (h.store.updateDatabase none fun _ _ _ hlinked => hlinked.dropAlias other)
  | aliases name =>
      simp only [step, h.store.aliasNames]
      refine h.look ?_
      cases s.store.aliasNames name <;> rfl
  | _ => cases hc

/-! ### Commands on content -/

theorem around (h : s.Linked R t) (a : Address) : t.around a = s.around a := by
  rw [Session.around, Session.around, h.clock, h.store.maxDepth, h.store.aliasesAt]

section Content

variable {settings settings' : Settings}

/-- A command on content answers in linked sessions as it does with the two collections at its
address. -/
theorem answer_content (h : s.Linked R t) (hs : s.store.Invariant settings)
    (ht : t.store.Invariant settings') (hc : command.isContent = true)
    (hact : ∀ a c d, s.store.addressee command = some a → s.store.at? a = some c →
      t.store.at? a = some d → R a c d → (command.act (s.around a) d).map (·.1) =
        ((command.act (s.around a) c).map (·.1)).map (Answer.map f)) :
    (t.step command).1 = (s.step command).1.map (Answer.map f) := by
  cases ha : s.store.addressee command with
  | none =>
      obtain ⟨fault, hsearch⟩ := Store.search_of_no_addressee hc ha
      rw [step_of_search_error hc hsearch,
        step_of_search_error hc ((h.store.search command).trans hsearch)]
      rfl
  | some a =>
      obtain ⟨c, d, hat, hat', hcd⟩ := h.store.at?_of_addressee ha
      rw [step_of_addressee hs hc ha hat,
        step_of_addressee ht hc ((h.store.addressee command).trans ha) hat', h.around]
      exact hact a c d ha hat hat' hcd

/-- Sessions stay linked if what a command makes of the two collections at its address is
related. -/
theorem after_content (h : s.Linked R t) (hs : s.store.Invariant settings)
    (ht : t.store.Invariant settings') (hc : command.isContent = true)
    (hleft : ∀ a c d, s.store.addressee command = some a → s.store.at? a = some c →
      t.store.at? a = some d → R a c d →
        R a (command.left (s.around a) c) (command.left (s.around a) d)) :
    (s.step command).2.Linked R (t.step command).2 := by
  cases ha : s.store.addressee command with
  | none =>
      obtain ⟨fault, hsearch⟩ := Store.search_of_no_addressee hc ha
      rw [step_of_search_error hc hsearch,
        step_of_search_error hc ((h.store.search command).trans hsearch)]
      exact h
  | some a =>
      obtain ⟨c, d, hat, hat', hcd⟩ := h.store.at?_of_addressee ha
      rw [step_of_addressee hs hc ha hat,
        step_of_addressee ht hc ((h.store.addressee command).trans ha) hat']
      dsimp only [afterContent]
      rw [h.around]
      exact ⟨h.clock, (h.store.putAt (hleft a c d ha hat hat' hcd)).withCache _ _⟩

/-- The same if only one of the two sessions runs the command. -/
theorem after_content_left (h : s.Linked R t) (hs : s.store.Invariant settings)
    (hc : command.isContent = true)
    (hleft : ∀ a c d, s.store.addressee command = some a → s.store.at? a = some c →
      t.store.at? a = some d → R a c d → R a (command.left (s.around a) c) d) :
    (s.step command).2.Linked R t := by
  cases ha : s.store.addressee command with
  | none =>
      obtain ⟨fault, hsearch⟩ := Store.search_of_no_addressee hc ha
      rw [step_of_search_error hc hsearch]
      exact h
  | some a =>
      obtain ⟨c, d, hat, hat', hcd⟩ := h.store.at?_of_addressee ha
      rw [step_of_addressee hs hc ha hat]
      -- The other session puts nothing, which is to put its own collection again.
      have hput := h.store.putAt (hleft a c d ha hat hat' hcd)
      rw [Store.putAt_self hat'] at hput
      exact ⟨h.clock, hput.withCache _ _⟩

end Content

end Linked

end Session

end ScalarStore
