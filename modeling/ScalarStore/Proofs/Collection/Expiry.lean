import ScalarStore.Proofs.Collection.Step
import ScalarStore.Proofs.Numeric.Range
import ScalarStore.Proofs.Property

/-! # Reading rows that may be hidden

Every way of setting properties checks the time to live, so it can always be read back. The rows
can be read as long as it is within the finite numbers; one that is beyond them is a fault at
every reading, because it is subtracted from the clock. -/

namespace ScalarStore

namespace Collection

variable {c d : Collection} {now : Binary64} {names : List String} {seconds : Int}

/-! ## The time to live -/

theorem timed_of_alterProperties {entries : List (Value × Value)} (h : c.properties.Timed)
    (hd : c.alterProperties entries = .ok d) : d.properties.Timed := by
  obtain ⟨updates, -, hd⟩ := bind_eq_ok_iff.mp hd
  obtain ⟨⟨⟩, hcheck, hd⟩ := bind_eq_ok_iff.mp hd
  cases hd
  exact h.putAll (Properties.timed_of_check hcheck)

/-- Properties are put over those of a collection exactly if they pass the check. -/
theorem alterProperties_eq_ok_iff {p : Properties} :
    c.alterProperties (p.entries.map fun entry => (.str entry.1, .str entry.2)) = .ok d ↔
      p.Checked ∧ d = { c with properties := c.properties.putAll p.entries } := by
  rw [alterProperties, Property.ofEntries_texts, show Table.ofList p.entries = p from
    p.ofList_entries, ok_bind]
  constructor
  · intro h
    obtain ⟨⟨⟩, hcheck, h⟩ := bind_eq_ok_iff.mp h
    cases h
    exact ⟨hcheck, rfl⟩
  · rintro ⟨hcheck, rfl⟩
    exact bind_eq_ok_iff.mpr ⟨(), hcheck, rfl⟩

theorem alterProperties_of_checked (c : Collection) {p : Properties} (hp : p.Checked) :
    c.alterProperties (p.entries.map fun entry => (.str entry.1, .str entry.2)) =
      .ok { c with properties := c.properties.putAll p.entries } :=
  alterProperties_eq_ok_iff.mpr ⟨hp, rfl⟩

theorem timed_of_new {settings : Settings} {name : String} {schema : Schema}
    {properties description : Value} (h : new settings name schema properties description = .ok c) :
    c.properties.Timed := by
  unfold new at h
  split at h
  · cases h
  · obtain ⟨entries, -, h⟩ := bind_eq_ok_iff.mp h
    exact timed_of_alterProperties (Properties.timed_of_none rfl) h

theorem ttl_of_timed (h : c.properties.Timed) : ∃ seconds, 0 ≤ seconds ∧ c.ttl = .ok seconds := by
  obtain ⟨seconds, hread, hn⟩ := h
  refine ⟨seconds.getD 0, ?_, by rw [ttl, hread]; rfl⟩
  cases seconds with
  | none => exact le_rfl
  | some n => exact hn n rfl

/-! ## The rows -/

theorem mapM_partitionOf (h : ∀ name ∈ names, c.hasPartition name = true) :
    (names.map Value.str).mapM c.partitionOf = .ok names := by
  rw [mapM_eq_ok_iff, List.forall₂_map_left_iff, List.forall₂_same]
  intro name hm
  rw [partitionOf, if_pos (h name hm)]

theorem snapshot_of_lt (hnames : ∀ name ∈ names, c.hasPartition name = true)
    (httl : c.ttl = .ok seconds) (h : seconds < Binary64.integerBound) :
    ∃ rows, c.snapshot now (names.map .str) = .ok rows := by
  rw [snapshot, mapM_partitionOf hnames, httl]
  simp only [bind, Except.bind]
  split
  · exact ⟨_, rfl⟩
  · split
    · next hpos hnone =>
        have hle := (Binary64.ofInt?_eq_none_iff seconds).mp hnone
        omega
    · exact ⟨_, rfl⟩

/-- A time to live beyond the finite numbers makes every snapshot a fault. -/
theorem snapshot_of_le (hnames : ∀ name ∈ names, c.hasPartition name = true)
    (httl : c.ttl = .ok seconds) (h : Binary64.integerBound ≤ seconds) :
    c.snapshot now (names.map .str) = .error (.overflow .integerBeyondReals) := by
  have hpos : (0 : Int) < Binary64.integerBound := by
    have hbound := (pow_pos two_pos 1023).trans_le Binary64.integerBound_bounds.1
    exact_mod_cast hbound
  have hnone : Binary64.ofInt? seconds = none :=
    (Binary64.ofInt?_eq_none_iff seconds).mpr (by omega)
  rw [snapshot, mapM_partitionOf hnames, httl]
  simp only [bind, Except.bind]
  rw [if_neg (by omega), hnone]
  rfl

end Collection

namespace Clocked

/-- No action leaves a time to live that cannot be read. -/
theorem timed_step {s t : Clocked} {action : Action} (hs : s.collection.properties.Timed)
    (h : s.step action = .ok t) : t.collection.properties.Timed := by
  cases action with
  | createPartition name =>
      obtain ⟨d, hd, rfl⟩ := map_eq_ok_iff.mp h
      obtain ⟨-, rfl⟩ := Collection.createPartition_eq_ok hd
      exact hs
  | dropPartition name =>
      obtain ⟨d, hd, rfl⟩ := map_eq_ok_iff.mp h
      obtain ⟨-, -, rfl⟩ := Collection.dropPartition_eq_ok hd
      exact hs
  | insert rows partition =>
      obtain ⟨⟨keys, d⟩, hd, rfl⟩ := map_eq_ok_iff.mp h
      obtain ⟨records, -, -, -, -, -, rfl⟩ := Collection.insert_eq_ok hd
      exact hs
  | alterProperties entries =>
      obtain ⟨d, hd, rfl⟩ := map_eq_ok_iff.mp h
      exact Collection.timed_of_alterProperties hs hd
  | dropProperties keys =>
      cases h
      exact hs.erase keys
  | setClock now =>
      cases h
      exact hs

end Clocked

end ScalarStore
