import ScalarStore.Proofs.Session.Invariant

/-! # Commands that write in place

The commands of a session again, as programs that write to the session step by step, in the order
in which checks and writes come: a partition is taken out before its keys are, an alias before it
is known to be there. Nothing is put back when a program fails, so that a check which comes after
a write would leave its trace. -/

namespace ScalarStore

open MonadExcept (ofExcept)

/-- A program that may stop with a fault. What it wrote before that stays written. -/
abbrev InPlace (σ α : Type) := ExceptT Fault (StateM σ) α

namespace InPlace

variable {σ τ α β : Type}

/-- What a program gives on a state, and the state it leaves. -/
def exec (p : InPlace σ α) (s : σ) : Except Fault α × σ := p.run.run s

/-- Runs a program on a part of the state. The part is written back however the program ends. -/
def within (view : σ → τ) (write : τ → σ → σ) (p : InPlace τ α) : InPlace σ α := do
  let (outcome, part) := p.exec (view (← get))
  modify (write part)
  ofExcept outcome

theorem exec_bind (p : InPlace σ α) (f : α → InPlace σ β) (s : σ) :
    exec (p >>= f) s = match exec p s with
      | (.ok a, t) => exec (f a) t
      | (.error fault, t) => (.error fault, t) := by
  rcases h : exec p s with ⟨r, t⟩
  rw [exec, ExceptT.run_bind, StateT.run_bind, show p.run.run s = (r, t) from h]
  cases r <;> rfl

@[simp] theorem exec_pure (a : α) (s : σ) : exec (pure a) s = (.ok a, s) := rfl

@[simp] theorem exec_get_bind (f : σ → InPlace σ α) (s : σ) :
    exec (get >>= f) s = exec (f s) s := rfl

@[simp] theorem exec_modify (f : σ → σ) (s : σ) : exec (modify f) s = (.ok (), f s) := rfl

@[simp] theorem exec_modify_bind (f : σ → σ) (p : Unit → InPlace σ α) (s : σ) :
    exec (modify f >>= p) s = exec (p ()) (f s) := rfl

@[simp] theorem exec_throw (fault : Fault) (s : σ) :
    exec (throw fault : InPlace σ α) s = (.error fault, s) := rfl

@[simp] theorem exec_throw_bind (fault : Fault) (f : α → InPlace σ β) (s : σ) :
    exec ((throw fault : InPlace σ α) >>= f) s = (.error fault, s) := rfl

@[simp] theorem exec_ofExcept (r : Except Fault α) (s : σ) :
    exec (ofExcept r) s = (r, s) := by cases r <;> rfl

@[simp] theorem exec_ite (q : Prop) [Decidable q] (p r : InPlace σ α) (s : σ) :
    exec (if q then p else r) s = if q then exec p s else exec r s := by split <;> rfl

@[simp] theorem exec_within (view : σ → τ) (write : τ → σ → σ) (p : InPlace τ α) (s : σ) :
    exec (within view write p) s =
      ((exec p (view s)).1, write (exec p (view s)).2 s) := by
  simp [within]

/-- A loop whose rounds do not fail writes what they write one after another. -/
theorem exec_forM {p : τ → InPlace σ Unit} {write : σ → τ → σ} {items : List τ}
    (h : ∀ item ∈ items, ∀ s, exec (p item) s = (.ok (), write s item)) (s : σ) :
    exec (forM items p) s = (.ok (), items.foldl write s) := by
  induction items generalizing s with
  | nil => rfl
  | cons item rest ih =>
      obtain ⟨hitem, hrest⟩ := List.forall_mem_cons.mp h
      rw [List.forM_cons, exec_bind, hitem s]
      exact ih hrest (write s item)

/-! ## Collections -/

def createPartition (name : String) : InPlace Collection Unit := do
  if Text.isBlankText name then throw (.parameter .partitionNameBlank)
  let c ← get
  if c.hasPartition name then throw (.parameter (.partitionExists name c.name))
  modify fun c => { c with partitions := c.partitions.put name [] }

/-- The partition is gone before its keys are freed one by one. -/
def dropPartition (name : String) : InPlace Collection Unit := do
  let c ← get
  if name = c.settings.defaultPartition then throw (.parameter .partitionDefault)
  modify fun c => { c with partitions := c.partitions.erase name }
  match c.partitions.get? name with
  | none => throw (.partitionNotFound name c.name)
  | some rows =>
      forM rows fun row => do
        let freed ← ofExcept (c.keyFrom row.record)
        modify fun c => { c with keys := c.keys.filter fun key => !key.same freed }

/-- The rows are stored before their keys are taken. -/
def insert (now : Binary64) (data : Value) (partition : Option String) :
    InPlace Collection (List Value) := do
  let rows ← ofExcept (Rows.ensure data)
  let c ← get
  let records ← ofExcept (c.schema.records c.settings.defaultLength rows)
  let keys ← ofExcept (records.mapM c.keyFrom)
  let name := c.targetPartition partition
  match c.partitions.get? name with
  | none => throw (.partitionNotFound name c.name)
  | some held =>
      match Collection.firstTaken c.keys keys with
      | some key => throw (.duplicateKey key c.name)
      | none =>
          let added := Collection.newRows name now records
          modify fun c => { c with partitions := c.partitions.put name (held ++ added) }
          modify fun c => { c with keys := c.keys ++ keys }
          return keys

/-- All values are checked before the first one is put. -/
def alterProperties (entries : List (Value × Value)) : InPlace Collection Unit := do
  let updates ← ofExcept (Property.ofEntries entries)
  ofExcept (Property.check updates.find)
  forM updates.entries fun entry =>
    modify fun c => { c with properties := c.properties.put entry.1 entry.2 }

def dropProperties (keys : List String) : InPlace Collection Unit :=
  forM keys fun key => modify fun c => { c with properties := c.properties.erase key }

/-! ## Databases -/

/-- Runs a program on the collection that a name or an alias stands for. -/
def onCollection (name : String) (p : InPlace Collection α) : InPlace Database α := do
  let c ← ofExcept ((← get).resolve name)
  within (fun _ => c) (fun c db => db.replace name c) p

def createCollection (settings : Settings) (name : String) (schema : Schema)
    (properties description : Value) : InPlace Database Collection := do
  let db ← get
  if db.collections.contains name ∨ db.aliases.contains name then throw (.collectionExists name)
  let c ← ofExcept (Collection.new settings name schema properties description)
  modify fun db => { db with collections := db.collections.put name c }
  return c

/-- The collection is gone before its aliases are, one by one. -/
def dropCollection (name : String) : InPlace Database Unit := do
  let db ← get
  if db.aliases.contains name then throw (.parameter (.dropThroughAlias name))
  if !db.collections.contains name then throw (.collectionNotFound name)
  modify fun db => { db with collections := db.collections.erase name }
  forM ((db.aliases.filter (·.2 = name)).keys) fun other =>
    modify fun db => { db with aliases := db.aliases.erase other }

def createAlias (name newAlias : String) : InPlace Database Unit := do
  let db ← get
  if !db.collections.contains name then throw (.collectionNotFound name)
  if db.aliases.contains newAlias ∨ db.collections.contains newAlias then
    throw (.parameter (.aliasInUse newAlias))
  modify fun db => { db with aliases := db.aliases.put newAlias name }

def alterAlias (name oldAlias : String) : InPlace Database Unit := do
  let db ← get
  if !db.collections.contains name then throw (.collectionNotFound name)
  if !db.aliases.contains oldAlias then throw (.parameter (.aliasUnknown oldAlias))
  modify fun db => { db with aliases := db.aliases.put oldAlias name }

/-- The alias is taken out before it is known whether there was one. -/
def dropAlias (oldAlias : String) : InPlace Database Unit := do
  let db ← get
  modify fun db => { db with aliases := db.aliases.erase oldAlias }
  if !db.aliases.contains oldAlias then throw (.parameter (.aliasUnknown oldAlias))

/-! ## Stores -/

/-- Runs a program on the database that an argument means. -/
def onDatabase (name : Option String) (p : InPlace Database α) : InPlace Store α := do
  let db ← ofExcept ((← get).database name)
  within (fun _ => db)
    (fun db s => { s with databases := s.databases.put (s.databaseName name) db }) p

def createDatabase (name : String) : InPlace Store Unit := do
  if Text.isBlankText name then throw (.parameter .databaseNameBlank)
  if (← get).databases.contains name then throw (.parameter (.databaseExists name))
  modify fun s => { s with databases := s.databases.put name .empty }

def useDatabase (name : String) : InPlace Store Unit := do
  if !(← get).databases.contains name then throw (.databaseNotFound name)
  modify fun s => { s with current := name }

/-- The database is gone before the default one becomes the current one. -/
def dropDatabase (name : String) : InPlace Store Unit := do
  let s ← get
  if name = s.settings.defaultDatabase then throw (.parameter .databaseDefault)
  match s.databases.get? name with
  | none => throw (.databaseNotFound name)
  | some db =>
      if !db.collections.isEmpty then
        throw (.parameter (.databaseInUse name db.collections.size))
      modify fun s => { s with databases := s.databases.erase name }
      if s.current = name then modify fun s => { s with current := s.settings.defaultDatabase }

def addCollection (name : String) (schema : Schema) (properties description : Value)
    (database : Option String) : InPlace Store Collection := do
  if Text.isBlankText name then throw (.parameter .collectionNameBlank)
  let s ← get
  onDatabase database (createCollection s.settings name schema properties description)

def alter (a : Alteration) : InPlace Store Unit := do
  let database ← ofExcept (Store.alteredDatabase a.database)
  onDatabase database (onCollection a.collection (alterProperties
    (a.properties.entries.map fun entry => (.str entry.1, .str entry.2))))

/-- The alteration is complete before it is applied. -/
def alterByValues (name : String) (properties : List (Value × Value)) : InPlace Store Unit := do
  let draft ← ofExcept (Alteration.Draft.new.withCollection (.str name))
  let draft ← ofExcept (properties.foldlM (fun draft (key, value) => do
    draft.withProperty key (.str (← Property.storedText value))) draft)
  alter (← ofExcept draft.build)

/-- A text is looked up in the parse cache, which notes it whatever the text parses to. -/
def readFilter (settings : Settings) :
    FilterArgument → InPlace Store (Option Filter × Option Int)
  | .tree f => return (some f, some settings.maxDepth)
  | .other kind => throw (.kind (.noLength kind))
  | .text text => do
      if settings.maxFilterLength < text.length then
        throw (.parameter (.filterTooLong text.length settings.maxFilterLength))
      let s ← get
      let (parsed, cache) := s.cache.parse s.settings.maxDepth text
      modify fun s => { s with cache := cache }
      return (← ofExcept parsed, none)

def query (now : Binary64) (r : Request) : InPlace Store (List Record) := do
  let c ← ofExcept ((← get).collection r.collection none)
  let (filter, depthLimit) ← readFilter c.settings r.filter
  ofExcept (r.answer c now filter depthLimit)

/-! ## Sessions -/

/-- Runs a program on the store. -/
def onStore (p : InPlace Store Answer) : InPlace Session Answer :=
  within Session.store (fun store s => { s with store := store }) p

/-- A program on the store that has nothing to tell. -/
def quietly (p : InPlace Store Unit) : InPlace Session Answer :=
  onStore do
    p
    return .done

/-- The program of a command. Those that are not named here only read the session. -/
def ofCommand : Command → InPlace Session Answer
  | .setClock now => do
      modify fun s => { s with clock := now }
      return .clock now
  | .advanceClock elapsed => do
      modify fun s => { s with clock := s.clock.add elapsed }
      return .clock (← get).clock
  | .createDatabase name => quietly (createDatabase name)
  | .useDatabase name => quietly (useDatabase name)
  | .dropDatabase name => quietly (dropDatabase name)
  | .createCollection name schema properties description database =>
      onStore do return .created (← addCollection name schema properties description database)
  | .dropCollection name database => quietly (onDatabase database (dropCollection name))
  | .createPartition name partition =>
      quietly (onDatabase none (onCollection name (createPartition partition)))
  | .dropPartition name partition =>
      quietly (onDatabase none (onCollection name (dropPartition partition)))
  | .createAlias name newAlias => quietly (onDatabase none (createAlias name newAlias))
  | .alterAlias name oldAlias => quietly (onDatabase none (alterAlias name oldAlias))
  | .dropAlias oldAlias => quietly (onDatabase none (dropAlias oldAlias))
  | .insert name data partition => do
      let now := (← get).clock
      onStore do
        return .inserted (← onDatabase none (onCollection name (insert now data partition)))
  | .query request => do
      let now := (← get).clock
      onStore do return .records (← query now request)
  | .alter alteration => quietly (alter alteration)
  | .alterByValues name properties => quietly (alterByValues name properties)
  | .dropProperties name keys => quietly (onDatabase none (onCollection name (dropProperties keys)))
  | command => do ofExcept ((← get).step command).1

end InPlace

end ScalarStore
