import ScalarStore.Store

/-! # Sessions

A session is a store and a clock that is set by hand. Commands run one after another; each gives
an answer or a fault, and a command that fails leaves the session as it was, but for what the
parse cache has seen. -/

namespace ScalarStore

structure Session where
  store : Store
  clock : Binary64

inductive Command
  | setClock (now : Binary64)
  | advanceClock (elapsed : Binary64)
  | currentDatabase
  | databases
  | createDatabase (name : String)
  | useDatabase (name : String)
  | dropDatabase (name : String)
  | createCollection (name : String) (schema : Schema) (properties description : Value)
      (database : Option String)
  | hasCollection (name : String) (database : Option String)
  | dropCollection (name : String) (database : Option String)
  | collections (database : Option String)
  | describe (name : String) (database : Option String)
  | rowCount (name : String) (database : Option String)
  | createPartition (name partition : String)
  | hasPartition (name partition : String)
  | dropPartition (name partition : String)
  | partitions (name : String)
  | createAlias (name newAlias : String)
  | alterAlias (name oldAlias : String)
  | dropAlias (oldAlias : String)
  | aliases (name : Option String)
  | insert (name : String) (data : Value) (partition : Option String)
  | query (request : Request)
  | alter (alteration : Alteration)
  | alterByValues (name : String) (properties : List (Value × Value))
  | dropProperties (name : String) (keys : List String)
  | ttl (name : String) (database : Option String)
  | snapshot (name : String) (partitions : List Value) (database : Option String)
  | cacheInfo
  | state

inductive Answer
  | done
  | flag (b : Bool)
  | name (s : String)
  | names (names : List String)
  | clock (now : Binary64)
  | created (c : Collection)
  | described (d : Description)
  | rowCount (n : Nat)
  | inserted (keys : List Value)
  | records (records : List Record)
  | ttl (seconds : Int)
  | rows (rows : List StoredRow)
  | cacheInfo (hits misses : Nat) (capacity : Option Nat) (size : Nat)
  | state (databases : List (String × List Description))

namespace Store

/-- The descriptions of all collections, database by database. -/
def state (s : Store) (now : Binary64) : Except Fault (List (String × List Description)) :=
  s.databases.entries.mapM fun (name, db) => do
    return (name, ← db.collections.keys.mapM (db.describe now))

end Store

namespace Session

def new (settings : Settings) (now : Binary64) : Session := ⟨.new settings, now⟩

/-- The answer of a command that changes nothing. -/
def look (s : Session) (answer : Except Fault Answer) : Except Fault Answer × Session :=
  (answer, s)

/-- The answer of a command that changes the store if it succeeds. -/
def change (s : Session) (outcome : Except Fault (Answer × Store)) :
    Except Fault Answer × Session :=
  match outcome with
  | .error fault => (.error fault, s)
  | .ok (answer, store) => (.ok answer, { s with store := store })

/-- The outcome of a change that has nothing to tell. -/
def quietly (outcome : Except Fault Store) : Except Fault (Answer × Store) :=
  outcome.map (.done, ·)

def step (s : Session) : Command → Except Fault Answer × Session
  | .setClock now => (.ok (.clock now), { s with clock := now })
  | .advanceClock elapsed =>
      let now := s.clock.add elapsed
      (.ok (.clock now), { s with clock := now })
  | .currentDatabase => s.look (.ok (.name s.store.current))
  | .databases => s.look (.ok (.names s.store.databaseNames))
  | .createDatabase name => s.change (quietly (s.store.createDatabase name))
  | .useDatabase name => s.change (quietly (s.store.useDatabase name))
  | .dropDatabase name => s.change (quietly (s.store.dropDatabase name))
  | .createCollection name schema properties description database =>
      s.change ((s.store.createCollection name schema properties description database).map
        fun (c, store) => (.created c, store))
  | .hasCollection name database => s.look ((s.store.hasCollection name database).map .flag)
  | .dropCollection name database => s.change (quietly (s.store.dropCollection name database))
  | .collections database => s.look ((s.store.collectionNames database).map .names)
  | .describe name database => s.look ((s.store.describe s.clock name database).map .described)
  | .rowCount name database => s.look ((s.store.rowCount s.clock name database).map .rowCount)
  | .createPartition name partition => s.change (quietly (s.store.createPartition name partition))
  | .hasPartition name partition =>
      s.look ((s.store.collection name none).map fun c => .flag (c.hasPartition partition))
  | .dropPartition name partition => s.change (quietly (s.store.dropPartition name partition))
  | .partitions name =>
      s.look ((s.store.collection name none).map fun c => .names c.partitionNames)
  | .createAlias name newAlias => s.change (quietly (s.store.createAlias name newAlias))
  | .alterAlias name oldAlias => s.change (quietly (s.store.alterAlias name oldAlias))
  | .dropAlias oldAlias => s.change (quietly (s.store.dropAlias oldAlias))
  | .aliases name => s.look ((s.store.aliasNames name).map .names)
  | .insert name data partition =>
      s.change ((s.store.insert s.clock name data partition).map
        fun (keys, store) => (.inserted keys, store))
  | .query request =>
      let (result, store) := s.store.query s.clock request
      (result.map .records, { s with store := store })
  | .alter alteration => s.change (quietly (s.store.alter alteration))
  | .alterByValues name properties => s.change (quietly (s.store.alterByValues name properties))
  | .dropProperties name keys => s.change (quietly (s.store.dropProperties name keys))
  | .ttl name database =>
      s.look (do return .ttl (← (← s.store.collection name database).ttl))
  | .snapshot name partitions database =>
      s.look (do return .rows (← (← s.store.collection name database).snapshot s.clock partitions))
  | .cacheInfo =>
      let cache := s.store.cache
      s.look (.ok (.cacheInfo cache.hits cache.misses cache.capacity cache.entries.length))
  | .state => s.look ((s.store.state s.clock).map .state)

/-- Runs commands one after another. -/
def run (s : Session) : List Command → List (Except Fault Answer) × Session
  | [] => ([], s)
  | command :: rest =>
      let (answer, s) := s.step command
      let (answers, s) := run s rest
      (answer :: answers, s)

end Session

end ScalarStore
