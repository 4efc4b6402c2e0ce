import ScalarStore.Proofs.Collection.Expiry
import ScalarStore.Proofs.Collection.Log
import ScalarStore.Proofs.Document.Load

/-! # Writing a document

A document is written from a collection, the live records of its partitions and its aliases. It
cannot be written if the time to live is beyond the finite numbers. -/

namespace ScalarStore

/-- The live records of each partition. -/
def Collection.liveRecords (c : Collection) (now : Binary64) (seconds : ℤ) :
    List (String × List Record) :=
  c.partitionNames.map fun name =>
    (name, ((c.rowsIn name).filter (·.live now seconds)).map (·.record))

namespace Loaded

variable {l : Loaded} {c : Collection} {now : Binary64} {seconds : ℤ}

/-- Partitions with their records, as they stand in a document. -/
def partitionsDocument (partitions : List (String × List Record)) : Value :=
  .map (partitions.map fun (name, records) => (.str name, .list (records.map recordDocument)))

/-- The document of a collection with records in partitions, and with aliases. -/
def documentOf (c : Collection) (partitions : List (String × List Record))
    (aliases : List Value) : Document :=
  ⟨.str c.name, c.schema.document, c.description, c.properties.document,
    partitionsDocument partitions, .list aliases⟩

theorem liveRows_of_lt (httl : c.ttl = .ok seconds) (h : seconds < Binary64.integerBound) :
    liveRows c now = .ok (c.liveRecords now seconds) := by
  rw [liveRows, mapM_eq_ok_iff, Collection.liveRecords, List.forall₂_map_right_iff,
    List.forall₂_same]
  intro name hm
  have hfinite : 0 < seconds → (Binary64.ofInt? seconds).isSome = true := by
    intro hpos
    rw [Option.isSome_iff_ne_none]
    intro hnone
    have hle := (Binary64.ofInt?_eq_none_iff seconds).mp hnone
    omega
  have hrows : c.rowsOf [name] = c.rowsIn name := by
    simp [Collection.rowsOf, Collection.rowsIn, List.eraseDups_cons]
  have hsnapshot : c.snapshot now [.str name] =
      .ok ((c.rowsIn name).filter (·.live now seconds)) :=
    (Collection.snapshot_eq_ok_iff now _ _).mpr
      ⟨[name], seconds, rfl, by simpa using hm, httl, hfinite, by rw [hrows]⟩
  rw [hsnapshot]
  rfl

theorem liveRows_of_le (httl : c.ttl = .ok seconds) (h : Binary64.integerBound ≤ seconds)
    (hnames : c.partitionNames ≠ []) :
    liveRows c now = .error (.overflow .integerBeyondReals) := by
  obtain ⟨name, rest, hcons⟩ := List.exists_cons_of_ne_nil hnames
  have hm : name ∈ c.partitionNames := hcons ▸ List.mem_cons_self
  have hpartition : ∀ other ∈ [name], c.hasPartition other = true := fun other ho =>
    (Table.contains_iff _ _).mpr (List.mem_singleton.mp ho ▸ hm)
  have hsnapshot : c.snapshot now [.str name] = .error (.overflow .integerBeyondReals) :=
    Collection.snapshot_of_le hpartition httl h
  rw [liveRows, hcons, List.mapM_cons, hsnapshot]
  rfl

theorem dump_of_lt {aliases : List Value} (hc : l.collection = .ok c)
    (httl : c.ttl = .ok seconds) (h : seconds < Binary64.integerBound)
    (ha : l.aliases = .ok aliases) :
    l.dump now = .ok (documentOf c (c.liveRecords now seconds) aliases) := by
  rw [dump, hc]
  simp only [bind, Except.bind, liveRows_of_lt httl h, ha]
  rfl

theorem dump_of_le (hc : l.collection = .ok c) (httl : c.ttl = .ok seconds)
    (h : Binary64.integerBound ≤ seconds) (hnames : c.partitionNames ≠ []) :
    l.dump now = .error (.overflow .integerBeyondReals) := by
  rw [dump, hc]
  simp only [bind, Except.bind, liveRows_of_le httl h hnames]

end Loaded

/-! ## Reading what was written -/

/-- The parts of a document are found where they are written, but for empty aliases. -/
theorem Document.ofEntries_entries {d : Document} {text : String}
    (h : d.description = .str text) : Document.ofEntries d.entries =
      .ok { d with aliases := if d.aliases.truthy then d.aliases else .null } := by
  obtain ⟨name, schema, description, properties, partitions, aliases⟩ := d
  cases h
  have hnil (key : String) : Value.lookup (.str key) [] = none := rfl
  have htext := (Value.orEmpty_eq_self_iff (.str text)).mpr (Value.kept_str text)
  simp only [ofEntries, entries, Value.lookup_append, Value.lookup_cons_str,
    Value.lookup_entryUnlessEmpty, List.cons_append]
  simp [hnil, Value.getD_orEmpty, htext]
  split <;> rfl

end ScalarStore
