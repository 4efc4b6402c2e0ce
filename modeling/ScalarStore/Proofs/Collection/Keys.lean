import ScalarStore.Proofs.Collection.Log
import ScalarStore.Proofs.Query.Answer

/-! # No key twice

The rows that a reader is given are among the stored ones, each at most once, so no two of them
have one key, whatever the clock and the properties are. -/

namespace ScalarStore

theorem nodup_eraseDups {α : Type} [DecidableEq α] : ∀ names : List α, names.eraseDups.Nodup
  | [] => List.nodup_nil
  | name :: rest => by
      rw [List.eraseDups_cons, List.nodup_cons]
      exact ⟨by simp [List.mem_eraseDups], nodup_eraseDups _⟩
termination_by names => names.length
decreasing_by
  simp only [List.length_cons]
  exact Nat.lt_succ_of_le (List.length_filter_le _ rest)

namespace Collection

variable {c d : Collection}

/-- Rows of partitions of a collection are stored rows, each at most once. -/
theorem rowsOf_subperm {names : List String} (h : ∀ name ∈ names, name ∈ c.partitionNames) :
    (c.rowsOf names).Subperm c.stored := by
  have hdistinct : (if names = [] then c.partitionNames else names.eraseDups).Nodup := by
    split
    · exact c.nodup_partitionNames
    · exact nodup_eraseDups names
  have hsub : (if names = [] then c.partitionNames else names.eraseDups) ⊆ c.partitionNames := by
    split
    · exact List.Subset.refl _
    · exact fun name hm => h name (List.mem_eraseDups.mp hm)
  obtain ⟨some, hp, hs⟩ := hdistinct.subperm hsub
  exact ⟨some.flatMap c.rowsIn, hp.flatMap_right c.rowsIn, hs.flatMap c.rowsIn⟩

theorem snapshot_subperm {now : Binary64} {names : List Value} {rows : List StoredRow}
    (h : c.snapshot now names = .ok rows) : rows.Subperm c.stored := by
  obtain ⟨texts, seconds, -, hm, -, -, rfl⟩ := (snapshot_eq_ok_iff now names rows).mp h
  exact List.filter_sublist.subperm.trans (rowsOf_subperm hm)

theorem Invariant.nodup_of_subperm (h : c.Invariant) {rows : List StoredRow}
    (hr : rows.Subperm c.stored) : (c.keysOf rows).Nodup := by
  obtain ⟨some, hp, hs⟩ := hr
  have hkeys : (c.keysOf some).Nodup := h.distinct.sublist (hs.map _)
  have hperm : (c.keysOf some).Perm (c.keysOf rows) := hp.map _
  exact hperm.nodup_iff.mp hkeys

/-- Keys that differ are not the same by content either. -/
theorem Invariant.pairwise_same (h : c.Invariant) {rows : List StoredRow}
    (hr : rows.Subperm c.stored) : (c.keysOf rows).Pairwise fun a b => a.same b = false := by
  have hplain : ∀ key ∈ c.keysOf rows, key.IsPlain := by
    intro key hk
    obtain ⟨row, hm, rfl⟩ := List.mem_map.mp hk
    exact (h.conforms row (hr.subset hm)).isPlain (h.keyed row (hr.subset hm))
  refine (h.nodup_of_subperm hr).imp_of_mem fun {a b} ha hb hne => ?_
  rw [Bool.eq_false_iff]
  exact fun hs => hne ((Value.same_iff_of_isPlain (hplain a ha) (hplain b hb)).mp hs)

/-- The keys of the records of an answer differ; the number of rows is an answer of one record. -/
theorem Invariant.nodup_answer (h : c.Invariant) {now : Binary64} {r : Request}
    {parsed : Except Fault (Option Filter)} {records : List Record}
    (ha : r.run c now parsed = .ok records) : (records.map (·.lookup c.primaryName)).Nodup := by
  obtain ⟨⟨filter, limit⟩, -, ha⟩ := bind_eq_ok_iff.mp ha
  obtain ⟨isCount, p, names, live, candidates, matched, -, -, -, hlive, hids, hmatched, hout⟩ :=
    Request.answer_eq_ok ha
  cases isCount with
  | true =>
      rw [if_pos rfl] at hout
      rw [hout]
      exact List.nodup_singleton _
  | false =>
      obtain ⟨output, fields, rows, -, hfields, hpage, hproject⟩ := hout
      have hsub : rows.Subperm c.stored :=
        (((Request.page_sublist hpage).trans (Request.matching_sublist hmatched)).trans
          (Request.restrict_sublist hids)).subperm.trans (snapshot_subperm hlive)
      have hmem : c.primaryName ∈ fields := Request.primaryName_mem_outputFields hfields
      have hkeys : records.map (·.lookup c.primaryName) = (c.keysOf rows).map some := by
        rw [Request.mapM_project_lookup hproject hmem, keysOf, List.map_map]
        exact List.map_congr_left fun row hm => h.keyed row (hsub.subset hm)
      rw [hkeys]
      exact (h.nodup_of_subperm hsub).map (Option.some_injective _)

/-- A dropped partition frees the keys of its rows and no others. -/
theorem Invariant.mem_keys_dropPartition (h : c.Invariant) {name : String}
    (hd : c.dropPartition name = .ok d) (key : Value) :
    key ∈ d.keys ↔ key ∈ c.keys ∧ key ∉ c.keysOf (c.rowsIn name) := by
  have hp := keysOf_stored_dropPartition hd
  have hdisjoint := (List.nodup_append.mp (hp.nodup_iff.mp h.distinct)).2.2
  have hkeys : d.keys.Perm (c.keysOf d.stored) := by
    have hinv := (h.dropPartition hd).keys_perm
    obtain ⟨-, -, rfl⟩ := dropPartition_eq_ok hd
    exact hinv
  rw [hkeys.mem_iff, h.keys_perm.mem_iff, hp.mem_iff, List.mem_append]
  constructor
  · exact fun hk => ⟨.inr hk, fun hf => hdisjoint key hf key hk rfl⟩
  · rintro ⟨hf | hk, hn⟩
    · exact absurd hf hn
    · exact hk

/-- After any run of a new collection the keys are those of all rows, hidden ones included, and
the keys of the rows differ; a row is tagged with its partition; and the default partition is
there. So no reader is given one key twice, whatever the clock and the properties are by then,
and a dropped partition frees the keys of its rows and no others. -/
theorem distinct_keys_of_run {settings : Settings} {name : String} {schema : Schema}
    {properties description : Value} {start : Binary64} {actions : List Action} {s : Clocked}
    (h : new settings name schema properties description = .ok c)
    (hs : Clocked.run ⟨c, start⟩ actions = s) :
    (∀ key, key ∈ s.collection.keys ↔
      ∃ row ∈ s.collection.stored, s.collection.keyOf row.record = key) ∧
    (∀ row ∈ s.collection.stored, row.record.lookup s.collection.primaryName =
      some (s.collection.keyOf row.record)) ∧
    ((s.collection.keysOf s.collection.stored).Pairwise fun a b => a.same b = false) ∧
    (∀ partition rows, s.collection.partitions.get? partition = some rows →
      ∀ row ∈ rows, row.partition = partition) ∧
    s.collection.hasPartition s.collection.settings.defaultPartition = true ∧
    (∀ updated now names rows,
      { s.collection with properties := updated }.snapshot now names = .ok rows →
        (s.collection.keysOf rows).Pairwise fun a b => a.same b = false) ∧
    (∀ updated now (r : Request) parsed records,
      r.run { s.collection with properties := updated } now parsed = .ok records →
        (records.map (·.lookup s.collection.primaryName)).Nodup) ∧
    ∀ partition d, s.collection.dropPartition partition = .ok d → ∀ key, key ∈ d.keys ↔
      key ∈ s.collection.keys ∧ key ∉ s.collection.keysOf (s.collection.rowsIn partition) := by
  have hinv : s.collection.Invariant := by
    rw [← hs]
    exact Clocked.invariant_run (s := ⟨c, start⟩) (invariant_new h) actions
  refine ⟨hinv.mem_keys, hinv.keyed, hinv.pairwise_same (.refl _), ?_, ?_, ?_, ?_, ?_⟩
  · intro partition rows hp row hm
    rw [← rowsIn_of_get? hp] at hm
    exact hinv.tagged partition (Table.mem_keys_of_get? hp) row hm
  · exact (Table.contains_iff _ _).mpr hinv.hasDefault
  · intro updated now names rows hrows
    exact (hinv.withProperties updated).pairwise_same (snapshot_subperm hrows)
  · intro updated now r parsed records ha
    exact (hinv.withProperties updated).nodup_answer ha
  · exact fun partition d hd => hinv.mem_keys_dropPartition hd

/-- A key goes with a partition and is taken again in another one. -/
def reuse : List Action :=
  [.createPartition "p",
    .insert [.map [(.str "id", .str "a"), (.str "title", .str "x")]] (some "p"),
    .dropPartition "p",
    .insert [.map [(.str "id", .str "a"), (.str "title", .str "y")]] none]

theorem distinct_keys_of_run_reuse :
    ∃ c s, new {} "c" titleSchema .null .null = .ok c ∧ Clocked.run ⟨c, .zero false⟩ reuse = s ∧
      s.collection.keys = [.str "a"] ∧
      ∃ row ∈ s.collection.stored, s.collection.keyOf row.record = .str "a" := by
  obtain ⟨c, hc⟩ : ∃ c, new {} "c" titleSchema .null .null = .ok c := ⟨_, rfl⟩
  have hkeys : (Clocked.run ⟨c, .zero false⟩ reuse).collection.keys = [.str "a"] := by
    cases hc
    rfl
  refine ⟨c, _, hc, rfl, hkeys, ((distinct_keys_of_run hc rfl).1 (.str "a")).mp ?_⟩
  rw [hkeys]
  exact List.mem_singleton_self _

end Collection

end ScalarStore
