import ScalarStore.Collection
import ScalarStore.Proofs.Outcome
import ScalarStore.Proofs.Schema.Row

/-! # Steps and runs of a collection

A collection and its clock change by actions, one after another. An action that fails leaves both
as they were. One lemma for each operation says all that it does when it succeeds. -/

namespace ScalarStore

namespace Collection

variable {c d : Collection} {name : String}

/-- The rows of a partition; there are none where there is no partition. -/
def rowsIn (c : Collection) (name : String) : List StoredRow := (c.partitions.get? name).getD []

/-- All rows, hidden ones included, partition by partition. -/
def stored (c : Collection) : List StoredRow := c.partitionNames.flatMap c.rowsIn

/-- The primary keys of rows. -/
def keysOf (c : Collection) (rows : List StoredRow) : List Value :=
  rows.map fun row => c.keyOf row.record

/-- The rows that records become in a partition. -/
def newRows (partition : String) (now : Binary64) (records : List Record) : List StoredRow :=
  records.map fun record => ⟨partition, now, record⟩

theorem rowsIn_of_get? {rows : List StoredRow} (h : c.partitions.get? name = some rows) :
    c.rowsIn name = rows := by
  rw [rowsIn, h]
  rfl

theorem rowsIn_of_not_mem (h : name ∉ c.partitionNames) : c.rowsIn name = [] := by
  rw [rowsIn, (c.partitions.get?_eq_none_iff name).mpr h]
  rfl

theorem keysOf_newRows (partition : String) (now : Binary64) (records : List Record) :
    c.keysOf (newRows partition now records) = records.map c.keyOf := by
  simp [keysOf, newRows]

theorem mem_newRows {partition : String} {now : Binary64} {records : List Record}
    {row : StoredRow} (h : row ∈ newRows partition now records) :
    row.partition = partition ∧ row.record ∈ records := by
  obtain ⟨record, hrecord, rfl⟩ := List.mem_map.mp h
  exact ⟨rfl, hrecord⟩

/-! ## Partitions put and erased -/

theorem rowsIn_of_put {rows : List StoredRow} (h : d.partitions = c.partitions.put name rows)
    (other : String) : d.rowsIn other = if other = name then rows else c.rowsIn other := by
  rw [rowsIn, h, Table.get?_put]
  split <;> rfl

theorem partitionNames_of_put {rows : List StoredRow}
    (h : d.partitions = c.partitions.put name rows) :
    d.partitionNames =
      if name ∈ c.partitionNames then c.partitionNames else c.partitionNames ++ [name] := by
  rw [partitionNames, h, Table.keys_put]
  rfl

theorem rowsIn_of_erase (h : d.partitions = c.partitions.erase name) (other : String) :
    d.rowsIn other = if other = name then [] else c.rowsIn other := by
  rw [rowsIn, h, Table.get?_erase]
  split <;> rfl

theorem partitionNames_of_erase (h : d.partitions = c.partitions.erase name) :
    d.partitionNames = c.partitionNames.filter (· ≠ name) := by
  rw [partitionNames, h, Table.keys_erase]
  rfl

/-! ## Operations that succeed -/

theorem createPartition_eq_ok (h : c.createPartition name = .ok d) :
    name ∉ c.partitionNames ∧ d = { c with partitions := c.partitions.put name [] } := by
  unfold createPartition at h
  split at h
  · cases h
  · split at h
    · cases h
    · next hp =>
        cases h
        refine ⟨?_, rfl⟩
        simpa [hasPartition, partitionNames, Table.contains_iff] using hp

theorem dropPartition_eq_ok (h : c.dropPartition name = .ok d) :
    name ≠ c.settings.defaultPartition ∧ name ∈ c.partitionNames ∧
      d = { c with
        partitions := c.partitions.erase name
        keys := c.keys.filter fun key => !(c.keysOf (c.rowsIn name)).any key.same } := by
  unfold dropPartition at h
  split at h
  · cases h
  · next hd =>
      split at h
      · cases h
      · next rows hrows =>
          cases h
          rw [rowsIn_of_get? hrows]
          exact ⟨hd, Table.mem_keys_of_get? hrows, rfl⟩

theorem alterProperties_eq_ok {entries : List (Value × Value)}
    (h : c.alterProperties entries = .ok d) : ∃ updated, d = { c with properties := updated } := by
  unfold alterProperties at h
  obtain ⟨updates, -, h⟩ := bind_eq_ok_iff.mp h
  obtain ⟨_, -, h⟩ := bind_eq_ok_iff.mp h
  cases h
  exact ⟨_, rfl⟩

theorem new_eq_ok {settings : Settings} {schema : Schema} {properties description : Value}
    (h : new settings name schema properties description = .ok c) :
    ∃ updated, c = ⟨name, schema, description, settings,
      Table.empty.put settings.defaultPartition [], [], updated⟩ := by
  unfold new at h
  split at h
  · cases h
  · obtain ⟨entries, -, h⟩ := bind_eq_ok_iff.mp h
    obtain ⟨updated, rfl⟩ := alterProperties_eq_ok h
    exact ⟨updated, rfl⟩

theorem newFault?_of_new {settings : Settings} {schema : Schema} {properties description : Value}
    (h : new settings name schema properties description = .ok c) :
    newFault? settings name schema = none := by
  unfold new at h
  split at h
  · cases h
  · next hnone => exact hnone

/-- Rows of a possible collection can be checked. -/
theorem rowFault?_of_newFault? {settings : Settings} {schema : Schema}
    (h : newFault? settings name schema = none) :
    schema.rowFault? settings.defaultLength = none := by
  unfold newFault? at h
  split at h
  · cases h
  · exact h

theorem partitionNames_of_new {settings : Settings} {schema : Schema}
    {properties description : Value} (h : new settings name schema properties description = .ok c) :
    c.partitionNames = [settings.defaultPartition] := by
  obtain ⟨updated, rfl⟩ := new_eq_ok h
  rfl

theorem rowsIn_of_new {settings : Settings} {schema : Schema} {properties description : Value}
    (h : new settings name schema properties description = .ok c) (other : String) :
    c.rowsIn other = [] := by
  obtain ⟨updated, rfl⟩ := new_eq_ok h
  rw [rowsIn, Table.get?_put]
  split <;> rfl

theorem keyFrom_eq_ok {record : Record} {key : Value} (h : c.keyFrom record = .ok key) :
    record.lookup c.primaryName = some key ∧ c.keyOf record = key := by
  unfold keyFrom at h
  split at h
  · next k hk =>
      cases h
      exact ⟨hk, by rw [keyOf, hk]; rfl⟩
  · cases h

theorem mapM_keyFrom_eq_ok {records : List Record} {keys : List Value}
    (h : records.mapM c.keyFrom = .ok keys) :
    keys = records.map c.keyOf ∧
      ∀ record ∈ records, record.lookup c.primaryName = some (c.keyOf record) := by
  have hf := mapM_eq_ok_iff.mp h
  clear h
  induction hf with
  | nil => simp
  | cons hk _ ih =>
      obtain ⟨hlookup, rfl⟩ := keyFrom_eq_ok hk
      obtain ⟨rfl, hrest⟩ := ih
      exact ⟨rfl, List.forall_mem_cons.mpr ⟨hlookup, hrest⟩⟩

/-- Records that have a key give their keys. -/
theorem mapM_keyFrom_of_lookup {records : List Record}
    (h : ∀ record ∈ records, record.lookup c.primaryName = some (c.keyOf record)) :
    records.mapM c.keyFrom = .ok (records.map c.keyOf) := by
  rw [mapM_eq_ok_iff, List.forall₂_map_right_iff, List.forall₂_same]
  intro record hrecord
  rw [keyFrom, h record hrecord]

theorem insert_eq_ok {now : Binary64} {rows keys : List Value} {partition : Option String}
    (h : c.insert now rows partition = .ok (keys, d)) :
    ∃ records, c.schema.records c.settings.defaultLength rows = .ok records ∧
      (∀ record ∈ records, record.lookup c.primaryName = some (c.keyOf record)) ∧
      firstTaken c.keys (records.map c.keyOf) = none ∧
      c.targetPartition partition ∈ c.partitionNames ∧ keys = records.map c.keyOf ∧
      d = { c with
        partitions := c.partitions.put (c.targetPartition partition)
          (c.rowsIn (c.targetPartition partition) ++
            newRows (c.targetPartition partition) now records)
        keys := c.keys ++ keys } := by
  unfold insert at h
  obtain ⟨records, hr, h⟩ := bind_eq_ok_iff.mp h
  obtain ⟨ks, hk, h⟩ := bind_eq_ok_iff.mp h
  obtain ⟨rfl, hlookup⟩ := mapM_keyFrom_eq_ok hk
  dsimp only at h
  split at h
  · cases h
  · next held hheld =>
      split at h
      · cases h
      · next hfree =>
          cases h
          rw [rowsIn_of_get? hheld]
          exact ⟨records, hr, hlookup, hfree, Table.mem_keys_of_get? hheld, rfl, rfl⟩

end Collection

/-! ## Actions -/

/-- What is done to a collection or to its clock. -/
inductive Action
  | createPartition (name : String)
  | dropPartition (name : String)
  | insert (rows : List Value) (partition : Option String)
  | alterProperties (entries : List (Value × Value))
  | dropProperties (keys : List String)
  | setClock (now : Binary64)

/-- A collection and the reading of its clock. -/
structure Clocked where
  collection : Collection
  now : Binary64

namespace Clocked

def step (s : Clocked) : Action → Except Fault Clocked
  | .createPartition name =>
      (s.collection.createPartition name).map fun c => { s with collection := c }
  | .dropPartition name =>
      (s.collection.dropPartition name).map fun c => { s with collection := c }
  | .insert rows partition =>
      (s.collection.insert s.now rows partition).map fun (_, c) => { s with collection := c }
  | .alterProperties entries =>
      (s.collection.alterProperties entries).map fun c => { s with collection := c }
  | .dropProperties keys => .ok { s with collection := s.collection.dropProperties keys }
  | .setClock now => .ok { s with now := now }

/-- The state after an action, which a failed one leaves as it was. -/
def next (s : Clocked) (action : Action) : Clocked :=
  match s.step action with
  | .ok after => after
  | .error _ => s

def run (s : Clocked) (actions : List Action) : Clocked := actions.foldl next s

/-- What each step keeps, a run keeps. -/
theorem run_induction {P : Clocked → Prop} (hs : ∀ s action t, P s → s.step action = .ok t → P t)
    {s : Clocked} (h : P s) (actions : List Action) : P (s.run actions) := by
  induction actions generalizing s with
  | nil => exact h
  | cons action rest ih =>
      refine ih ?_
      unfold next
      split
      · next after he => exact hs s action after h he
      · exact h

/-- No action changes the name, the schema or the settings of the collection. -/
theorem frame_step {s t : Clocked} {action : Action} (h : s.step action = .ok t) :
    t.collection.name = s.collection.name ∧ t.collection.schema = s.collection.schema ∧
      t.collection.settings = s.collection.settings := by
  cases action with
  | createPartition name =>
      obtain ⟨d, hd, rfl⟩ := map_eq_ok_iff.mp h
      obtain ⟨-, rfl⟩ := Collection.createPartition_eq_ok hd
      exact ⟨rfl, rfl, rfl⟩
  | dropPartition name =>
      obtain ⟨d, hd, rfl⟩ := map_eq_ok_iff.mp h
      obtain ⟨-, -, rfl⟩ := Collection.dropPartition_eq_ok hd
      exact ⟨rfl, rfl, rfl⟩
  | insert rows partition =>
      obtain ⟨⟨keys, d⟩, hd, rfl⟩ := map_eq_ok_iff.mp h
      obtain ⟨records, -, -, -, -, -, rfl⟩ := Collection.insert_eq_ok hd
      exact ⟨rfl, rfl, rfl⟩
  | alterProperties entries =>
      obtain ⟨d, hd, rfl⟩ := map_eq_ok_iff.mp h
      obtain ⟨updated, rfl⟩ := Collection.alterProperties_eq_ok hd
      exact ⟨rfl, rfl, rfl⟩
  | dropProperties keys =>
      cases h
      exact ⟨rfl, rfl, rfl⟩
  | setClock now =>
      cases h
      exact ⟨rfl, rfl, rfl⟩

/-- After a run the collection has the name, the schema and the settings that it was made with. -/
theorem frame_of_run {settings : Settings} {name : String} {schema : Schema}
    {properties description : Value} {c : Collection} {start : Binary64} {actions : List Action}
    {s : Clocked} (h : Collection.new settings name schema properties description = .ok c)
    (hs : run ⟨c, start⟩ actions = s) :
    s.collection.name = name ∧ s.collection.schema = schema ∧
      s.collection.settings = settings := by
  obtain ⟨updated, rfl⟩ := Collection.new_eq_ok h
  rw [← hs]
  refine run_induction (P := fun t => t.collection.name = name ∧
    t.collection.schema = schema ∧ t.collection.settings = settings) ?_ ⟨rfl, rfl, rfl⟩ actions
  intro u action t hu ht
  obtain ⟨hname, hschema, hsettings⟩ := frame_step ht
  exact ⟨hname.trans hu.1, hschema.trans hu.2.1, hsettings.trans hu.2.2⟩

end Clocked

end ScalarStore
