import Mathlib.Data.List.DropRight
import ScalarStore.Proofs.Collection.Invariant

/-! # Snapshots and the log of a run

The log keeps what the successful actions did to the rows, in order. The partitions and the rows
they hold can be read off it, so a snapshot depends on the log, the clock and the time to live
alone. -/

namespace ScalarStore

/-- What a successful action does to the rows. -/
inductive Entry
  | created (name : String)
  | dropped (name : String)
  | added (name : String) (rows : List StoredRow)

abbrev Log := List Entry

namespace Entry

def creates (name : String) : Entry → Bool
  | created other => other == name
  | _ => false

def drops (name : String) : Entry → Bool
  | dropped other => other == name
  | _ => false

/-- The rows that an entry adds to a partition. -/
def rowsFor (name : String) : Entry → List StoredRow
  | added other rows => if other = name then rows else []
  | _ => []

end Entry

namespace Log

/-- The rows added to a partition since it was last created. -/
def held (log : Log) (name : String) : List StoredRow :=
  (log.rtakeWhile fun entry => !entry.creates name).flatMap (Entry.rowsFor name)

/-- The partitions created and not dropped afterwards, in the order of their creation. -/
def standing : Log → List String
  | [] => []
  | .created name :: rest =>
      if rest.any (Entry.drops name) then standing rest else name :: standing rest
  | _ :: rest => standing rest

/-- The rows of the named partitions, each partition once and in the order of first mention;
without names, of the first partition and of those standing. -/
def selected (log : Log) (first : String) (names : List String) : List StoredRow :=
  (if names = [] then first :: log.standing else names.eraseDups).flatMap log.held

theorem held_append (log : Log) (entry : Entry) (name : String) :
    held (log ++ [entry]) name =
      if entry.creates name then [] else log.held name ++ entry.rowsFor name := by
  rw [held, List.rtakeWhile_concat]
  cases entry.creates name <;> simp [held]

theorem standing_append_created (log : Log) (name : String) :
    standing (log ++ [.created name]) = log.standing ++ [name] := by
  induction log with
  | nil => rfl
  | cons entry rest ih =>
      cases entry with
      | created other =>
          have hd : ([Entry.created name]).any (Entry.drops other) = false := rfl
          rw [List.cons_append, standing, standing, List.any_append, hd, Bool.or_false, ih]
          split <;> rfl
      | dropped other => exact ih
      | added other rows => exact ih

theorem standing_append_dropped (log : Log) (name : String) :
    standing (log ++ [.dropped name]) = log.standing.filter (· ≠ name) := by
  induction log with
  | nil => rfl
  | cons entry rest ih =>
      cases entry with
      | created other =>
          rw [List.cons_append, standing, standing, List.any_append, ih]
          by_cases hr : rest.any (Entry.drops other) = true
          · simp [hr]
          · by_cases ho : name = other
            · simp [hr, Entry.drops, ho]
            · simp [hr, Entry.drops, ho, Ne.symm ho]
      | dropped other => exact ih
      | added other rows => exact ih

theorem standing_append_added (log : Log) (name : String) (rows : List StoredRow) :
    standing (log ++ [.added name rows]) = log.standing := by
  induction log with
  | nil => rfl
  | cons entry rest ih =>
      cases entry with
      | created other =>
          have hd : ([Entry.added name rows]).any (Entry.drops other) = false := rfl
          rw [List.cons_append, standing, standing, List.any_append, hd, Bool.or_false, ih]
      | dropped other => exact ih
      | added other more => exact ih

end Log

/-! ## The log of a run -/

/-- Whether an action is about partitions and rows, not about properties or the clock. -/
def Action.onRows : Action → Bool
  | .createPartition _ => true
  | .dropPartition _ => true
  | .insert _ _ => true
  | _ => false

namespace Clocked

/-- What an action does to the rows if it succeeds. -/
def entries (s : Clocked) : Action → Log
  | .createPartition name => [.created name]
  | .dropPartition name => [.dropped name]
  | .insert rows partition =>
      let name := s.collection.targetPartition partition
      match s.collection.schema.records s.collection.settings.defaultLength rows with
      | .ok records => [.added name (Collection.newRows name s.now records)]
      | .error _ => []
  | .alterProperties _ => []
  | .dropProperties _ => []
  | .setClock _ => []

def log (s : Clocked) : List Action → Log
  | [] => []
  | action :: rest =>
      match s.step action with
      | .ok after => s.entries action ++ after.log rest
      | .error _ => s.log rest

/-- Every action fails or is about properties or the clock. -/
def Quiet (s : Clocked) : List Action → Prop
  | [] => True
  | action :: rest =>
      (action.onRows = false ∨ ∃ fault, s.step action = .error fault) ∧ (s.next action).Quiet rest

theorem log_append (s : Clocked) (first second : List Action) :
    s.log (first ++ second) = s.log first ++ (s.run first).log second := by
  induction first generalizing s with
  | nil => rfl
  | cons action rest ih =>
      simp only [List.cons_append, log, run, List.foldl_cons, next]
      cases s.step action with
      | ok after => simp [ih, run]
      | error fault => exact ih s

theorem log_of_quiet {s : Clocked} {actions : List Action} (h : s.Quiet actions) :
    s.log actions = [] := by
  induction actions generalizing s with
  | nil => rfl
  | cons action rest ih =>
      obtain ⟨haction, hrest⟩ := h
      rw [log]
      cases hs : s.step action with
      | error fault =>
          rw [next, hs] at hrest
          exact ih hrest
      | ok after =>
          rw [next, hs] at hrest
          rcases haction with hp | ⟨fault, hf⟩
          · cases action with
            | createPartition | dropPartition | insert => cases hp
            | alterProperties | dropProperties | setClock => exact ih hrest
          · cases hs.symm.trans hf

end Clocked

/-- The partitions of a collection and their rows are those of a log, after the default one. -/
structure Collection.Recorded (c : Collection) (first : String) (log : Log) : Prop where
  default : c.settings.defaultPartition = first
  names : c.partitionNames = first :: log.standing
  rows : ∀ name ∈ c.partitionNames, c.rowsIn name = log.held name

namespace Collection

variable {c d : Collection} {name first : String} {log : Log}

theorem recorded_new {settings : Settings} {schema : Schema} {properties description : Value}
    (h : new settings name schema properties description = .ok c) :
    c.Recorded settings.defaultPartition [] := by
  have hnames := partitionNames_of_new h
  have hrows := rowsIn_of_new h
  obtain ⟨updated, rfl⟩ := new_eq_ok h
  exact ⟨rfl, hnames, fun other _ => hrows other⟩

/-- Nothing but the properties has changed. -/
theorem Recorded.withProperties (h : c.Recorded first log) (properties : Properties) :
    { c with properties := properties }.Recorded first log :=
  ⟨h.default, h.names, h.rows⟩

theorem Recorded.createPartition (h : c.Recorded first log) (hd : c.createPartition name = .ok d) :
    d.Recorded first (log ++ [.created name]) := by
  have hnames := partitionNames_createPartition hd
  have hrows := rowsIn_createPartition hd
  obtain ⟨hn, rfl⟩ := createPartition_eq_ok hd
  refine ⟨h.default, ?_, ?_⟩
  · rw [hnames, h.names, Log.standing_append_created]
    rfl
  · intro other ho
    rw [hnames] at ho
    rw [hrows, Log.held_append]
    by_cases he : name = other
    · rw [← he, rowsIn_of_not_mem hn]
      simp [Entry.creates]
    · rcases List.mem_append.mp ho with ho | ho
      · simp [Entry.creates, he, Entry.rowsFor, h.rows other ho]
      · exact absurd (List.mem_singleton.mp ho).symm he

theorem Recorded.dropPartition (h : c.Recorded first log) (hd : c.dropPartition name = .ok d) :
    d.Recorded first (log ++ [.dropped name]) := by
  have hnames := partitionNames_dropPartition hd
  have hrows := rowsIn_dropPartition hd
  obtain ⟨hne, -, rfl⟩ := dropPartition_eq_ok hd
  refine ⟨h.default, ?_, ?_⟩
  · rw [hnames, h.names, Log.standing_append_dropped, List.filter_cons_of_pos]
    rw [h.default] at hne
    simpa using Ne.symm hne
  · intro other ho
    rw [hnames] at ho
    obtain ⟨ho, hother⟩ := List.mem_filter.mp ho
    rw [hrows other (by simpa using hother), h.rows other ho, Log.held_append]
    simp [Entry.creates, Entry.rowsFor]

theorem Recorded.insert {now : Binary64} {rows keys : List Value} {partition : Option String}
    {records : List Record} (h : c.Recorded first log)
    (hr : c.schema.records c.settings.defaultLength rows = .ok records)
    (hd : c.insert now rows partition = .ok (keys, d)) :
    d.Recorded first (log ++ [.added (c.targetPartition partition)
      (newRows (c.targetPartition partition) now records)]) := by
  have hnames := partitionNames_insert hd
  have hrows := rowsIn_insert hr hd
  obtain ⟨found, -, -, -, -, -, rfl⟩ := insert_eq_ok hd
  refine ⟨h.default, ?_, ?_⟩
  · rw [hnames, h.names, Log.standing_append_added]
  · intro other ho
    rw [hnames] at ho
    rw [hrows, h.rows other ho, Log.held_append]
    by_cases he : other = c.targetPartition partition
    · simp [Entry.creates, Entry.rowsFor, he]
    · simp [Entry.creates, Entry.rowsFor, he, Ne.symm he]

end Collection

namespace Clocked

theorem recorded_step {s t : Clocked} {action : Action} {first : String} {log : Log}
    (h : s.collection.Recorded first log) (hs : s.step action = .ok t) :
    t.collection.Recorded first (log ++ s.entries action) := by
  cases action with
  | createPartition name =>
      obtain ⟨d, hd, rfl⟩ := map_eq_ok_iff.mp hs
      exact h.createPartition hd
  | dropPartition name =>
      obtain ⟨d, hd, rfl⟩ := map_eq_ok_iff.mp hs
      exact h.dropPartition hd
  | insert rows partition =>
      obtain ⟨⟨keys, d⟩, hd, rfl⟩ := map_eq_ok_iff.mp hs
      obtain ⟨records, hr, -⟩ := Collection.insert_eq_ok hd
      simpa only [entries, hr] using h.insert hr hd
  | alterProperties action =>
      obtain ⟨d, hd, rfl⟩ := map_eq_ok_iff.mp hs
      obtain ⟨updated, rfl⟩ := Collection.alterProperties_eq_ok hd
      rw [entries, List.append_nil]
      exact h.withProperties updated
  | dropProperties keys =>
      cases hs
      rw [entries, List.append_nil]
      exact h.withProperties _
  | setClock now =>
      cases hs
      rw [entries, List.append_nil]
      exact h

theorem recorded_run {s : Clocked} {first : String} {log : Log}
    (h : s.collection.Recorded first log) (actions : List Action) :
    (s.run actions).collection.Recorded first (log ++ s.log actions) := by
  induction actions generalizing s log with
  | nil => simpa [run, Clocked.log] using h
  | cons action rest ih =>
      rw [run, List.foldl_cons, next, Clocked.log]
      cases hs : s.step action with
      | ok after =>
          rw [← List.append_assoc]
          exact ih (recorded_step h hs)
      | error fault => exact ih h

end Clocked

/-! ## Snapshots -/

/-- Whether a row is seen at a clock reading: with a time to live it must have been inserted
after the reading less that time. -/
def StoredRow.live (now : Binary64) (seconds : ℤ) (row : StoredRow) : Bool :=
  seconds ≤ 0 || (Binary64.ofInt? seconds).any fun age =>
    (Number.real (now.sub age)).lt (.real row.insertedAt)

namespace Collection

variable {c : Collection} {first : String} {log : Log}

theorem partitionOf_eq_ok_iff {v : Value} {name : String} :
    c.partitionOf v = .ok name ↔ v = .str name ∧ name ∈ c.partitionNames := by
  unfold partitionOf
  split
  · next other =>
      split
      · next hp =>
          rw [hasPartition, Table.contains_iff] at hp
          constructor
          · intro h
            cases h
            exact ⟨rfl, hp⟩
          · rintro ⟨he, -⟩
            cases he
            rfl
      · next hp =>
          rw [hasPartition, Table.contains_iff] at hp
          constructor
          · intro h
            cases h
          · rintro ⟨he, hm⟩
            cases he
            exact absurd hm hp
  · next hv =>
      constructor
      · intro h
        obtain ⟨key, -, h⟩ := bind_eq_ok_iff.mp h
        cases h
      · rintro ⟨rfl, -⟩
        exact absurd rfl (hv name)

theorem mapM_partitionOf_eq_ok_iff {names : List Value} {texts : List String} :
    names.mapM c.partitionOf = .ok texts ↔
      names = texts.map .str ∧ ∀ text ∈ texts, text ∈ c.partitionNames := by
  rw [mapM_eq_ok_iff]
  constructor
  · intro h
    induction h with
    | nil => simp
    | cons hp _ ih =>
        obtain ⟨rfl, hm⟩ := partitionOf_eq_ok_iff.mp hp
        obtain ⟨rfl, hrest⟩ := ih
        exact ⟨rfl, List.forall_mem_cons.mpr ⟨hm, hrest⟩⟩
  · rintro ⟨rfl, hm⟩
    induction texts with
    | nil => exact .nil
    | cons text rest ih =>
        obtain ⟨ht, hrest⟩ := List.forall_mem_cons.mp hm
        exact .cons (partitionOf_eq_ok_iff.mpr ⟨rfl, ht⟩) (ih hrest)

/-- The rows of partitions of a collection are those that its log selects. -/
theorem Recorded.rowsOf (h : c.Recorded first log) {texts : List String}
    (ht : ∀ text ∈ texts, text ∈ c.partitionNames) :
    c.rowsOf texts = log.selected first texts := by
  rw [Log.selected, ← h.names]
  refine List.flatMap_congr fun name hm => h.rows name ?_
  split at hm
  · exact hm
  · exact ht name (List.mem_eraseDups.mp hm)

/-- A snapshot gives the live ones of the rows that it selects. -/
theorem snapshot_eq_ok_iff (now : Binary64) (names : List Value) (rows : List StoredRow) :
    c.snapshot now names = .ok rows ↔ ∃ texts seconds,
      names = texts.map .str ∧ (∀ text ∈ texts, text ∈ c.partitionNames) ∧
      c.ttl = .ok seconds ∧ (0 < seconds → (Binary64.ofInt? seconds).isSome = true) ∧
      rows = (c.rowsOf texts).filter (·.live now seconds) := by
  simp only [snapshot, bind_eq_ok_iff, mapM_partitionOf_eq_ok_iff]
  constructor
  · rintro ⟨texts, ⟨rfl, hm⟩, seconds, ht, h⟩
    refine ⟨texts, seconds, rfl, hm, ht, ?_⟩
    split at h
    · next hs =>
        cases h
        refine ⟨fun hp => absurd hs (by omega), ?_⟩
        simp [StoredRow.live, hs]
    · next hs =>
        split at h
        · cases h
        · next age ha =>
            cases h
            refine ⟨fun _ => by rw [ha]; rfl, ?_⟩
            simp [StoredRow.live, hs, ha]
  · rintro ⟨texts, seconds, rfl, hm, ht, ha, rfl⟩
    refine ⟨texts, ⟨rfl, hm⟩, seconds, ht, ?_⟩
    split
    · next hs => simp [StoredRow.live, hs, pure, Except.pure]
    · next hs =>
        obtain ⟨age, ha⟩ := Option.isSome_iff_exists.mp (ha (by omega))
        simp [StoredRow.live, hs, ha, pure, Except.pure]

/-- The rows that a snapshot selects are those that the log selects. -/
theorem Recorded.snapshot_iff (h : c.Recorded first log) (now : Binary64) (names : List Value)
    (rows : List StoredRow) :
    c.snapshot now names = .ok rows ↔ ∃ texts seconds,
      names = texts.map .str ∧ (∀ text ∈ texts, text ∈ first :: log.standing) ∧
      c.ttl = .ok seconds ∧ (0 < seconds → (Binary64.ofInt? seconds).isSome = true) ∧
      rows = (log.selected first texts).filter (·.live now seconds) := by
  rw [snapshot_eq_ok_iff, ← h.names]
  constructor
  · rintro ⟨texts, seconds, hn, hm, ht, ha, rfl⟩
    exact ⟨texts, seconds, hn, hm, ht, ha, by rw [h.rowsOf hm]⟩
  · rintro ⟨texts, seconds, hn, hm, ht, ha, rfl⟩
    exact ⟨texts, seconds, hn, hm, ht, ha, by rw [h.rowsOf hm]⟩

/-! ## Snapshots of a run -/

/-- After any run of a new collection, a snapshot gives the live ones of the rows that the log
selects. Failed actions, property changes and the clock leave no trace in the log. So a later
snapshot is taken of the same rows, those hidden before among them. -/
theorem snapshot_run_iff {settings : Settings} {name : String} {schema : Schema}
    {properties description : Value} {start : Binary64} {actions : List Action} {s : Clocked}
    (h : new settings name schema properties description = .ok c)
    (hs : Clocked.run ⟨c, start⟩ actions = s) (hl : Clocked.log ⟨c, start⟩ actions = log) :
    (∀ names rows, s.collection.snapshot s.now names = .ok rows ↔
      ∃ texts seconds, names = texts.map .str ∧
        (∀ text ∈ texts, text ∈ settings.defaultPartition :: log.standing) ∧
        s.collection.ttl = .ok seconds ∧
        (0 < seconds → (Binary64.ofInt? seconds).isSome = true) ∧
        rows = (log.selected settings.defaultPartition texts).filter (·.live s.now seconds)) ∧
    (∀ more, s.Quiet more → Clocked.log ⟨c, start⟩ (actions ++ more) = log) ∧
    ∀ more t names rows later, s.Quiet more → s.run more = t →
      s.collection.snapshot s.now names = .ok rows →
      t.collection.snapshot t.now names = .ok later →
        ∃ texts seconds seconds', names = texts.map .str ∧
          s.collection.ttl = .ok seconds ∧ t.collection.ttl = .ok seconds' ∧
          rows = (log.selected settings.defaultPartition texts).filter (·.live s.now seconds) ∧
          later = (log.selected settings.defaultPartition texts).filter (·.live t.now seconds') ∧
          (seconds' ≤ 0 → later = log.selected settings.defaultPartition texts) := by
  have hr : s.collection.Recorded settings.defaultPartition log := by
    rw [← hs, ← hl]
    exact Clocked.recorded_run (s := ⟨c, start⟩) (recorded_new h) actions
  have hq : ∀ more, s.Quiet more → Clocked.log ⟨c, start⟩ (actions ++ more) = log := by
    intro more hmore
    rw [Clocked.log_append, hs, Clocked.log_of_quiet hmore, hl, List.append_nil]
  refine ⟨fun names rows => hr.snapshot_iff s.now names rows, hq, ?_⟩
  rintro more t names rows later hmore rfl hrows hlater
  have hr' : (s.run more).collection.Recorded settings.defaultPartition log := by
    have h' := Clocked.recorded_run hr more
    rwa [Clocked.log_of_quiet hmore, List.append_nil] at h'
  obtain ⟨texts, seconds, rfl, -, ht, -, rfl⟩ := (hr.snapshot_iff s.now names rows).mp hrows
  obtain ⟨again, seconds', he, -, ht', -, rfl⟩ := (hr'.snapshot_iff _ _ later).mp hlater
  have hsame : again = texts := (List.map_injective_iff.mpr fun a b h => by cases h; rfl) he.symm
  rw [hsame]
  refine ⟨texts, seconds, seconds', rfl, ht, ht', rfl, rfl, fun hz => ?_⟩
  simp [StoredRow.live, hz]

/-- A row is added twice, once in vain. -/
def twice : List Action :=
  [.insert [.map [(.str "id", .str "a"), (.str "title", .str "x")]] none,
    .insert [.map [(.str "id", .str "a"), (.str "title", .str "x")]] none]

/-- A time to live hides all rows and is dropped again. -/
def expiry : List Action :=
  [.alterProperties [(.str Property.ttlKey, .str "1")], .setClock (.infinite false),
    .dropProperties [Property.ttlKey]]

theorem snapshot_run_iff_title :
    ∃ c s t, new {} "c" titleSchema .null .null = .ok c ∧
      Clocked.run ⟨c, .zero false⟩ twice = s ∧ s.run expiry = t ∧
      s.collection.snapshot s.now [] =
        .ok [⟨"_default", .zero false, [("id", .str "a"), ("title", .str "x")]⟩] ∧
      t.collection.snapshot t.now [] = s.collection.snapshot s.now [] := by
  obtain ⟨c, hc⟩ : ∃ c, new {} "c" titleSchema .null .null = .ok c := ⟨_, rfl⟩
  have hfirst : (Clocked.run ⟨c, .zero false⟩ twice).collection.snapshot
      (Clocked.run ⟨c, .zero false⟩ twice).now [] =
        .ok [⟨"_default", .zero false, [("id", .str "a"), ("title", .str "x")]⟩] := by
    refine ((snapshot_run_iff hc rfl rfl).1 [] _).mpr ⟨[], 0, rfl, by simp, ?_, by simp, ?_⟩
    · cases hc
      rfl
    · cases hc
      rfl
  refine ⟨c, _, _, hc, rfl, rfl, hfirst, ?_⟩
  rw [hfirst]
  cases hc
  rfl

end Collection

end ScalarStore
