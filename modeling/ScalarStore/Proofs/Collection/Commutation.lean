import ScalarStore.Proofs.Collection.Insertion

/-! # Batches in either order, and partitions undone

What a collection takes of a batch depends on its schema and on its keys alone. So batches for two
partitions can be put in in either order, and all that the order leaves behind is the order of the
keys. A partition that is created, filled and dropped leaves nothing behind. -/

namespace ScalarStore

namespace Collection

variable {c d e : Collection} {now : Binary64} {rows keys : List Value} {records : List Record}

/-! ## One batch -/

/-- A batch that a collection can take: its rows pass the check, and their keys are new. -/
structure Takes (c : Collection) (rows : List Value) (records : List Record) : Prop where
  checked : c.schema.records c.settings.defaultLength rows = .ok records
  keyed : ∀ record ∈ records, record.lookup c.primaryName = some (c.keyOf record)
  distinct : (records.map c.keyOf).Nodup
  unused : ∀ key ∈ records.map c.keyOf, key ∉ c.keys

theorem isPlain_of_checked (hr : c.schema.records c.settings.defaultLength rows = .ok records)
    (hkeyed : ∀ record ∈ records, record.lookup c.primaryName = some (c.keyOf record)) :
    ∀ key ∈ records.map c.keyOf, key.IsPlain :=
  List.forall_mem_map.mpr fun record hm =>
    (Schema.conforms_of_mem_records hr hm).isPlain (hkeyed record hm)

theorem insert_eq_ok_iff_takes (hi : c.Invariant) (hh : c.Headed) {name : String}
    (hm : name ∈ c.partitionNames) : c.insert now rows (some name) = .ok (keys, d) ↔
      ∃ records, c.Takes rows records ∧ keys = records.map c.keyOf ∧
        d = c.withRecords now name records := by
  have hnone {records : List Record}
      (hr : c.schema.records c.settings.defaultLength rows = .ok records)
      (hkeyed : ∀ record ∈ records, record.lookup c.primaryName = some (c.keyOf record)) :=
    firstTaken_eq_none_iff (fun key hk => hi.isPlain hk) (isPlain_of_checked hr hkeyed)
  constructor
  · intro h
    obtain ⟨records, hr, hkeyed, hfree, -, rfl, rfl⟩ := insert_eq_ok h
    obtain ⟨hdistinct, hunused⟩ := (hnone hr hkeyed).mp hfree
    refine ⟨records, ⟨hr, hkeyed, hdistinct, hunused⟩, rfl, ?_⟩
    rw [hh.targetPartition hm]
    rfl
  · rintro ⟨records, ⟨hr, hkeyed, hdistinct, hunused⟩, rfl, rfl⟩
    exact insert_of_records now hh hm hr hkeyed ((hnone hr hkeyed).mpr ⟨hdistinct, hunused⟩)

/-! ## Two batches -/

/-- Behind one batch another one can be taken if it could be taken before, and has none of the
keys. -/
theorem takes_withRecords_iff {name : String} {more : List Value} {others : List Record} :
    (c.withRecords now name records).Takes more others ↔
      c.Takes more others ∧ (records.map c.keyOf).Disjoint (others.map c.keyOf) := by
  have hkeys : (c.withRecords now name records).keys = c.keys ++ records.map c.keyOf := rfl
  constructor
  · rintro ⟨hchecked, hkeyed, hdistinct, hunused⟩
    simp only [hkeys, List.mem_append, not_or] at hunused
    exact ⟨⟨hchecked, hkeyed, hdistinct, fun key hk => (hunused key hk).1⟩,
      fun key hfirst hsecond => (hunused key hsecond).2 hfirst⟩
  · rintro ⟨⟨hchecked, hkeyed, hdistinct, hunused⟩, hdisjoint⟩
    refine ⟨hchecked, hkeyed, hdistinct, fun key hk => ?_⟩
    rw [hkeys, List.mem_append, not_or]
    exact ⟨hunused key hk, fun hfirst => hdisjoint hfirst hk⟩

/-- One batch for each of two partitions, put in one after the other. -/
def insertTwo (c : Collection) (now : Binary64) (first second : String × List Value) :
    Except Fault (List Value × List Value × Collection) := do
  let (keys, d) ← c.insert now first.2 (some first.1)
  let (others, e) ← d.insert now second.2 (some second.1)
  return (keys, others, e)

theorem insertTwo_eq_ok_iff_insert {first second : String × List Value} {others : List Value} :
    c.insertTwo now first second = .ok (keys, others, e) ↔
      ∃ d, c.insert now first.2 (some first.1) = .ok (keys, d) ∧
        d.insert now second.2 (some second.1) = .ok (others, e) := by
  constructor
  · intro h
    obtain ⟨⟨found, d⟩, hfirst, h⟩ := bind_eq_ok_iff.mp h
    obtain ⟨⟨more, last⟩, hsecond, h⟩ := bind_eq_ok_iff.mp h
    cases h
    exact ⟨d, hfirst, hsecond⟩
  · rintro ⟨d, hfirst, hsecond⟩
    simp only [insertTwo, hfirst, hsecond, ok_bind]
    rfl

/-- The condition is the same for both orders. -/
theorem insertTwo_eq_ok_iff (hi : c.Invariant) (hh : c.Headed) {first second : String × List Value}
    (hm : first.1 ∈ c.partitionNames) (hn : second.1 ∈ c.partitionNames) {others : List Value} :
    c.insertTwo now first second = .ok (keys, others, e) ↔
      ∃ records more, c.Takes first.2 records ∧ c.Takes second.2 more ∧
        (records.map c.keyOf).Disjoint (more.map c.keyOf) ∧ keys = records.map c.keyOf ∧
        others = more.map c.keyOf ∧
        e = (c.withRecords now first.1 records).withRecords now second.1 more := by
  rw [insertTwo_eq_ok_iff_insert]
  constructor
  · rintro ⟨d, hfirst, hsecond⟩
    have hid := hi.insert hfirst
    have hhd := hh.insert hfirst
    obtain ⟨records, htakes, rfl, rfl⟩ := (insert_eq_ok_iff_takes hi hh hm).mp hfirst
    have hnd : second.1 ∈ (c.withRecords now first.1 records).partitionNames := by
      rwa [partitionNames_withRecords, if_pos hm]
    obtain ⟨more, hmore, rfl, rfl⟩ := (insert_eq_ok_iff_takes hid hhd hnd).mp hsecond
    obtain ⟨hmore, hdisjoint⟩ := takes_withRecords_iff.mp hmore
    exact ⟨records, more, htakes, hmore, hdisjoint, rfl, rfl, rfl⟩
  · rintro ⟨records, more, htakes, hmore, hdisjoint, rfl, rfl, rfl⟩
    have hfirst : c.insert now first.2 (some first.1) =
        .ok (records.map c.keyOf, c.withRecords now first.1 records) :=
      (insert_eq_ok_iff_takes hi hh hm).mpr ⟨records, htakes, rfl, rfl⟩
    have hnd : second.1 ∈ (c.withRecords now first.1 records).partitionNames := by
      rwa [partitionNames_withRecords, if_pos hm]
    refine ⟨_, hfirst, (insert_eq_ok_iff_takes (hi.insert hfirst) (hh.insert hfirst) hnd).mpr ?_⟩
    exact ⟨more, takes_withRecords_iff.mpr ⟨hmore, hdisjoint⟩, rfl, rfl⟩

/-- Records of two partitions that are there stand alike whichever come first. -/
theorem withRecords_comm {first second : String} (hne : first ≠ second)
    (hm : first ∈ c.partitionNames) (hn : second ∈ c.partitionNames) (records more : List Record) :
    (c.withRecords now second more).withRecords now first records =
      { (c.withRecords now first records).withRecords now second more with
        keys := c.keys ++ more.map c.keyOf ++ records.map c.keyOf } := by
  have hput := Table.put_comm hne hm hn (c.rowsIn first ++ newRows first now records)
    (c.rowsIn second ++ newRows second now more)
  have hfirst : (c.withRecords now second more).rowsIn first = c.rowsIn first := by
    rw [rowsIn_withRecords, if_neg hne]
  have hsecond : (c.withRecords now first records).rowsIn second = c.rowsIn second := by
    rw [rowsIn_withRecords, if_neg hne.symm]
  simp only [withRecords] at hfirst hsecond ⊢
  rw [hfirst, hsecond, hput]
  rfl

/-- Batches for two partitions go in in one order exactly if they do in the other one, with the same
keys, the same rows in the same places, and all keys of the one collection in the other. -/
theorem insertTwo_comm (hi : c.Invariant) (hh : c.Headed) {first second : String × List Value}
    (hne : first.1 ≠ second.1) (hm : first.1 ∈ c.partitionNames)
    (hn : second.1 ∈ c.partitionNames) {others : List Value}
    (h : c.insertTwo now first second = .ok (keys, others, e)) :
    ∃ all, all.Perm e.keys ∧
      c.insertTwo now second first = .ok (others, keys, { e with keys := all }) := by
  obtain ⟨records, more, htakes, hmore, hdisjoint, rfl, rfl, rfl⟩ :=
    (insertTwo_eq_ok_iff hi hh hm hn).mp h
  refine ⟨c.keys ++ more.map c.keyOf ++ records.map c.keyOf, ?_, ?_⟩
  · have hswap : (more.map c.keyOf ++ records.map c.keyOf).Perm
        (records.map c.keyOf ++ more.map c.keyOf) := List.perm_append_comm
    have hall := hswap.append_left c.keys
    rwa [← List.append_assoc, ← List.append_assoc] at hall
  · refine (insertTwo_eq_ok_iff hi hh hn hm).mpr
      ⟨more, records, hmore, htakes, hdisjoint.symm, rfl, rfl, ?_⟩
    exact (withRecords_comm hne hm hn records more).symm

/-! ## A partition undone -/

/-- The collection with one more partition, the rows in it and their keys. -/
def withPartition (c : Collection) (name : String) (held : List StoredRow) : Collection :=
  { c with partitions := c.partitions.put name held, keys := c.keys ++ c.keysOf held }

variable {name : String} {held : List StoredRow}

theorem createPartition_eq_withPartition (h : c.createPartition name = .ok d) :
    name ∉ c.partitionNames ∧ d = c.withPartition name [] := by
  obtain ⟨hn, rfl⟩ := createPartition_eq_ok h
  refine ⟨hn, ?_⟩
  simp [withPartition, keysOf]

theorem insert_withPartition (hne : name ≠ "")
    (h : (c.withPartition name held).insert now rows (some name) = .ok (keys, d)) :
    ∃ more, d = c.withPartition name (held ++ more) := by
  obtain ⟨records, -, -, -, -, rfl, rfl⟩ := insert_eq_ok h
  have htarget : (c.withPartition name held).targetPartition (some name) = name := if_neg hne
  have hrows : (c.withPartition name held).rowsIn name = held := by
    rw [rowsIn_of_put (c := c) rfl, if_pos rfl]
  have hkeys : c.keysOf (held ++ newRows name now records) =
      c.keysOf held ++ records.map c.keyOf := by
    rw [← keysOf_newRows name now records, keysOf, List.map_append]
    rfl
  refine ⟨newRows name now records, ?_⟩
  rw [htarget, hrows, withPartition, withPartition, Table.put_put, hkeys, ← List.append_assoc]
  rfl

/-- No other partition has a key of the dropped one, so no key of them is freed. -/
theorem dropPartition_withPartition (hi : (c.withPartition name held).Invariant)
    (hn : name ∉ c.partitionNames) (hne : name ≠ c.settings.defaultPartition) :
    (c.withPartition name held).dropPartition name = .ok c := by
  have hget : (c.withPartition name held).partitions.get? name = some held := by
    rw [withPartition, Table.get?_put, if_pos rfl]
  have hdrop : (c.withPartition name held).dropPartition name =
      .ok { c with
        partitions := (c.partitions.put name held).erase name
        keys := (c.keys ++ c.keysOf held).filter fun key => !(c.keysOf held).any key.same } := by
    rw [dropPartition, if_neg (show name ≠ (c.withPartition name held).settings.defaultPartition
      from hne), hget]
    rfl
  have hdistinct : (c.keys ++ c.keysOf held).Nodup := hi.keys_perm.nodup_iff.mpr hi.distinct
  have hplain : ∀ key ∈ c.keys ++ c.keysOf held, key.IsPlain := fun key hk => hi.isPlain hk
  rw [hdrop, Table.erase_put hn held, Value.filter_not_same_append hdistinct hplain]

end Collection

namespace Clocked

variable {c d : Collection} {name : String}

theorem headed_step {s t : Clocked} {action : Action} (h : s.collection.Headed)
    (hs : s.step action = .ok t) : t.collection.Headed := by
  cases action with
  | createPartition name =>
      obtain ⟨d, hd, rfl⟩ := map_eq_ok_iff.mp hs
      exact h.createPartition hd
  | dropPartition name =>
      obtain ⟨d, hd, rfl⟩ := map_eq_ok_iff.mp hs
      exact h.dropPartition hd
  | insert rows partition =>
      obtain ⟨⟨keys, d⟩, hd, rfl⟩ := map_eq_ok_iff.mp hs
      exact h.insert hd
  | alterProperties entries =>
      obtain ⟨d, hd, rfl⟩ := map_eq_ok_iff.mp hs
      obtain ⟨updated, rfl⟩ := Collection.alterProperties_eq_ok hd
      exact h
  | dropProperties keys =>
      cases hs
      exact h
  | setClock now =>
      cases hs
      exact h

theorem headed_run {s : Clocked} (h : s.collection.Headed) (actions : List Action) :
    (s.run actions).collection.Headed :=
  run_induction (P := fun t => t.collection.Headed) (fun _ _ _ ht hs => headed_step ht hs) h actions

/-- Actions that only fill one partition, at any times. -/
def Fills (name : String) (action : Action) : Prop :=
  (∃ rows, action = .insert rows (some name)) ∨ ∃ now, action = .setClock now

/-- A partition that was created is all that actions which fill it have added, whether some of them
fail or not. -/
theorem run_fills {actions : List Action} (hne : name ≠ "")
    (h : ∀ action ∈ actions, Fills name action) {s : Clocked}
    (hs : ∃ held, s.collection = c.withPartition name held) :
    ∃ held, (s.run actions).collection = c.withPartition name held := by
  induction actions generalizing s with
  | nil => exact hs
  | cons action rest ih =>
      obtain ⟨hfills, hrest⟩ := List.forall_mem_cons.mp h
      obtain ⟨held, hs⟩ := hs
      refine ih hrest ?_
      unfold next
      split
      · next t ht =>
          rcases hfills with ⟨rows, rfl⟩ | ⟨now, rfl⟩
          · obtain ⟨⟨keys, d⟩, hd, rfl⟩ := map_eq_ok_iff.mp ht
            rw [hs] at hd
            obtain ⟨more, rfl⟩ := Collection.insert_withPartition hne hd
            exact ⟨held ++ more, rfl⟩
          · cases ht
            exact ⟨held, hs⟩
      · exact ⟨held, hs⟩

theorem dropPartition_run_fills (hi : c.Invariant) (hd : c.createPartition name = .ok d)
    (now : Binary64) {actions : List Action} (h : ∀ action ∈ actions, Fills name action) :
    (run ⟨d, now⟩ actions).collection.dropPartition name = .ok c := by
  have hid := invariant_run (s := ⟨d, now⟩) (hi.createPartition hd) actions
  have hne : name ≠ "" := by
    rintro rfl
    exact absurd (Collection.nonblank_of_createPartition hd) (by decide)
  obtain ⟨hn, hd⟩ := Collection.createPartition_eq_withPartition hd
  obtain ⟨held, hheld⟩ := run_fills hne h (s := ⟨d, now⟩) ⟨[], hd⟩
  rw [hheld] at hid ⊢
  exact Collection.dropPartition_withPartition hid hn fun he => hn (he ▸ hi.hasDefault)

/-- In a collection that a run has reached, batches for two partitions go in in either order or in
none, with the same keys, rows and partitions. And a partition that is created, filled by any
insertions and dropped leaves the collection as it was. -/
theorem commutation_of_run {settings : Settings} {label : String} {schema : Schema}
    {properties description : Value} {made : Collection} {start : Binary64} {actions : List Action}
    (h : Collection.new settings label schema properties description = .ok made)
    (hc : (run ⟨made, start⟩ actions).collection = c) (now : Binary64) :
    (∀ first second : String × List Value, first.1 ∈ c.partitionNames →
      second.1 ∈ c.partitionNames → first.1 ≠ second.1 →
        ((∃ found, c.insertTwo now first second = .ok found) ↔
          ∃ found, c.insertTwo now second first = .ok found) ∧
        ∀ keys others e, c.insertTwo now first second = .ok (keys, others, e) →
          ∃ all, all.Perm e.keys ∧
            c.insertTwo now second first = .ok (others, keys, { e with keys := all })) ∧
    ∀ name d filling, c.createPartition name = .ok d → (∀ action ∈ filling, Fills name action) →
      (run ⟨d, now⟩ filling).collection.dropPartition name = .ok c := by
  have hi : c.Invariant := hc ▸ invariant_run (Collection.invariant_new h) actions
  have hh : c.Headed := hc ▸ headed_run (Collection.headed_new h) actions
  refine ⟨fun first second hm hn hne => ⟨⟨?_, ?_⟩, fun keys others e htwo => ?_⟩,
    fun name d filling hd hfilling => dropPartition_run_fills hi hd now hfilling⟩
  · rintro ⟨⟨keys, others, e⟩, htwo⟩
    obtain ⟨all, -, hswapped⟩ := Collection.insertTwo_comm hi hh hne hm hn htwo
    exact ⟨_, hswapped⟩
  · rintro ⟨⟨keys, others, e⟩, htwo⟩
    obtain ⟨all, -, hswapped⟩ := Collection.insertTwo_comm hi hh hne.symm hn hm htwo
    exact ⟨_, hswapped⟩
  · exact Collection.insertTwo_comm hi hh hne hm hn htwo

/-- One row for the default partition and one for another, and a third partition that comes and
goes. -/
theorem commutation_of_run_title :
    ∃ made c, Collection.new {} "c" titleSchema .null .null = .ok made ∧
      (run ⟨made, .zero false⟩ [.createPartition "p"]).collection = c ∧
      (∃ e all, all.Perm e.keys ∧
        c.insertTwo (.zero false) ("_default", [.map (Collection.titleRow "a" "x")])
          ("p", [.map (Collection.titleRow "b" "y")]) = .ok ([.str "a"], [.str "b"], e) ∧
        c.insertTwo (.zero false) ("p", [.map (Collection.titleRow "b" "y")])
          ("_default", [.map (Collection.titleRow "a" "x")]) =
            .ok ([.str "b"], [.str "a"], { e with keys := all })) ∧
      ∃ d, c.createPartition "q" = .ok d ∧
        (run ⟨d, .zero false⟩
          [.insert [.map (Collection.titleRow "a" "x")] (some "q")]).collection.dropPartition "q" =
            .ok c := by
  obtain ⟨made, hmade⟩ : ∃ made, Collection.new {} "c" titleSchema .null .null = .ok made :=
    ⟨_, rfl⟩
  obtain ⟨c, hc⟩ : ∃ c, (run ⟨made, .zero false⟩ [.createPartition "p"]).collection = c :=
    ⟨_, rfl⟩
  have hnames : c.partitionNames = ["_default", "p"] := by
    cases hmade
    cases hc
    rfl
  obtain ⟨e, htwo⟩ : ∃ e,
      c.insertTwo (.zero false) ("_default", [.map (Collection.titleRow "a" "x")])
        ("p", [.map (Collection.titleRow "b" "y")]) = .ok ([.str "a"], [.str "b"], e) := by
    cases hmade
    cases hc
    exact ⟨_, rfl⟩
  obtain ⟨d, hd⟩ : ∃ d, c.createPartition "q" = .ok d := by
    cases hmade
    cases hc
    exact ⟨_, rfl⟩
  obtain ⟨hcommute, hundo⟩ := commutation_of_run hmade hc (.zero false)
  obtain ⟨-, hswap⟩ := hcommute ("_default", [.map (Collection.titleRow "a" "x")])
    ("p", [.map (Collection.titleRow "b" "y")]) (by simp [hnames]) (by simp [hnames]) (by decide)
  obtain ⟨all, hperm, hswapped⟩ := hswap _ _ e htwo
  refine ⟨made, c, hmade, hc, ⟨e, all, hperm, htwo, hswapped⟩, d, hd, ?_⟩
  exact hundo "q" d _ hd (by simp [Fills])

end Clocked

end ScalarStore
