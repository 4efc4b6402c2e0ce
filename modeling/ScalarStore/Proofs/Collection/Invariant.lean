import ScalarStore.Proofs.Collection.Step
import ScalarStore.Proofs.Numeric.Exact

/-! # What holds of every collection

The list of keys is a second copy of what the partitions hold. Every step keeps the two together,
and every run from a new collection does. -/

namespace ScalarStore

/-! ## Keys -/

/-- The values that a primary key can have. -/
def Value.IsPlain (v : Value) : Prop := (∃ n, v = .int n) ∨ ∃ s, v = .str s

theorem Value.same_iff_of_isPlain {a b : Value} (ha : a.IsPlain) (hb : b.IsPlain) :
    a.same b = true ↔ a = b := by
  rcases ha with ⟨m, rfl⟩ | ⟨s, rfl⟩
  · rcases hb with ⟨n, rfl⟩ | ⟨t, rfl⟩
    · have h := Number.compare?_eq_eq_iff (.whole m) (.whole n)
      simp only [Number.exactValue?, Option.some.injEq] at h
      simp [Value.same, Value.number?, h]
    · simp [Value.same, Value.number?]
  · rcases hb with ⟨n, rfl⟩ | ⟨t, rfl⟩ <;> simp [Value.same, Value.number?]

/-- Among possible keys, one that is the same as a key is that key. -/
theorem Value.any_same_iff {key : Value} {keys : List Value} (hkey : key.IsPlain)
    (hk : ∀ other ∈ keys, other.IsPlain) : keys.any key.same = true ↔ key ∈ keys := by
  rw [List.any_eq_true]
  constructor
  · rintro ⟨other, ho, hs⟩
    exact (same_iff_of_isPlain hkey (hk other ho)).mp hs ▸ ho
  · intro hm
    exact ⟨key, hm, (same_iff_of_isPlain hkey hkey).mpr rfl⟩

theorem Value.filter_not_same {keys freed : List Value} (hk : ∀ key ∈ keys, key.IsPlain)
    (hf : ∀ key ∈ freed, key.IsPlain) :
    (keys.filter fun key => !freed.any key.same) = keys.filter (· ∉ freed) := by
  refine List.filter_congr fun key hm => ?_
  rw [Bool.eq_iff_iff]
  simpa using not_congr (any_same_iff (hk key hm) hf)

/-- Without the keys to be freed, those to be kept are left. -/
theorem Value.filter_not_same_perm {keys freed kept : List Value} (hp : keys.Perm (freed ++ kept))
    (hd : keys.Nodup) (hk : ∀ key ∈ keys, key.IsPlain) :
    (keys.filter fun key => !freed.any key.same).Perm kept := by
  have hfreed : ∀ key ∈ freed, key.IsPlain :=
    fun key hm => hk key (hp.mem_iff.mpr (List.mem_append_left kept hm))
  have hdisjoint := (List.nodup_append.mp (hp.nodup_iff.mp hd)).2.2
  have hnone : freed.filter (· ∉ freed) = [] := by simp
  have hall : kept.filter (· ∉ freed) = kept := by
    refine List.filter_eq_self.mpr fun key hm => ?_
    simpa using fun hf => hdisjoint key hf key hm rfl
  have hfilter := hp.filter (· ∉ freed)
  rwa [List.filter_append, hnone, hall, List.nil_append, ← filter_not_same hk hfreed] at hfilter

/-- Keys that stand behind others are freed without a change to these. -/
theorem Value.filter_not_same_append {freed kept : List Value} (hd : (kept ++ freed).Nodup)
    (hk : ∀ key ∈ kept ++ freed, key.IsPlain) :
    ((kept ++ freed).filter fun key => !freed.any key.same) = kept := by
  have hdisjoint := (List.nodup_append.mp hd).2.2
  have hnone : freed.filter (· ∉ freed) = [] := by simp
  have hall : kept.filter (· ∉ freed) = kept := by
    refine List.filter_eq_self.mpr fun key hm => ?_
    simpa using fun hf => hdisjoint key hm key hf rfl
  rw [filter_not_same hk fun key hm => hk key (List.mem_append_right kept hm), List.filter_append,
    hall, hnone, List.append_nil]

theorem DataType.isPlain_of_admits {type : DataType} {v : Value} (hk : type.isKey = true)
    (h : type.Admits v) : v.IsPlain := by
  cases type with
  | int64 =>
      obtain ⟨n, -, -, hv, -⟩ := h
      exact .inl ⟨n, hv⟩
  | varchar =>
      obtain ⟨s, hv⟩ := h
      exact .inr ⟨s, hv⟩
  | _ => cases hk

theorem Schema.primary_mem (schema : Schema) :
    schema.primary ∈ schema.fields ∧ schema.primary.isPrimary = true :=
  List.mem_filter.mp (List.head_mem _)

/-- The value of a record at the primary key has the key's type. -/
theorem Schema.Conforms.admits_primary {schema : Schema} {record : Record} {key : Value}
    (h : schema.Conforms record) (hk : record.lookup schema.primary.name = some key) :
    schema.primary.type.Admits key := by
  have hne : schema.primary.name ≠ settingsName := by
    intro he
    rw [he, h.noSettings] at hk
    cases hk
  obtain ⟨v, hv, ha⟩ := h.value _ (mem_rowFields.mpr ⟨schema.primary_mem.1, hne⟩)
  cases hk.symm.trans hv
  exact ha

theorem Schema.Conforms.isPlain {schema : Schema} {record : Record} {key : Value}
    (h : schema.Conforms record) (hk : record.lookup schema.primary.name = some key) :
    key.IsPlain :=
  DataType.isPlain_of_admits (schema.primary.keyed schema.primary_mem.2) (h.admits_primary hk)

/-! ## Lists over distinct names -/

/-- What one name stands for can be taken out of all. -/
theorem flatMap_perm_of_mem {α : Type} {names : List String} {name : String}
    (f : String → List α) (hn : names.Nodup) (hm : name ∈ names) :
    (names.flatMap f).Perm (f name ++ (names.filter (· ≠ name)).flatMap f) := by
  have hp := (List.perm_cons_erase hm).flatMap_right f
  rw [hn.erase_eq_filter] at hp
  simpa [bne, Bool.beq_eq_decide_eq] using hp

theorem flatMap_filter_congr {α : Type} {names : List String} {name : String}
    {f g : String → List α} (h : ∀ other, other ≠ name → g other = f other) :
    (names.filter (· ≠ name)).flatMap g = (names.filter (· ≠ name)).flatMap f := by
  refine List.flatMap_congr fun other ho => h other ?_
  simpa using (List.mem_filter.mp ho).2

namespace Collection

variable {c d : Collection} {name : String}

/-- The keys are those of all rows, which differ; a row is tagged with the partition that holds
it; and the default partition is there. -/
structure Invariant (c : Collection) : Prop where
  keys_perm : c.keys.Perm (c.keysOf c.stored)
  distinct : (c.keysOf c.stored).Nodup
  keyed : ∀ row ∈ c.stored, row.record.lookup c.primaryName = some (c.keyOf row.record)
  conforms : ∀ row ∈ c.stored, c.schema.Conforms row.record
  tagged : ∀ name ∈ c.partitionNames, ∀ row ∈ c.rowsIn name, row.partition = name
  hasDefault : c.settings.defaultPartition ∈ c.partitionNames

theorem Invariant.mem_keys (h : c.Invariant) (key : Value) :
    key ∈ c.keys ↔ ∃ row ∈ c.stored, c.keyOf row.record = key := by
  rw [h.keys_perm.mem_iff]
  simp [keysOf]

theorem Invariant.isPlain (h : c.Invariant) {key : Value} (hk : key ∈ c.keys) : key.IsPlain := by
  obtain ⟨row, hr, rfl⟩ := (h.mem_keys key).mp hk
  exact (h.conforms row hr).isPlain (h.keyed row hr)

theorem nodup_partitionNames (c : Collection) : c.partitionNames.Nodup := c.partitions.distinct

theorem invariant_new {settings : Settings} {schema : Schema} {properties description : Value}
    (h : new settings name schema properties description = .ok c) : c.Invariant := by
  have hrows := rowsIn_of_new h
  have hnames := partitionNames_of_new h
  have hstored : c.stored = [] := by simp [stored, hnames, hrows]
  obtain ⟨updated, rfl⟩ := new_eq_ok h
  exact {
    keys_perm := by
      rw [hstored]
      exact .refl _
    distinct := by
      rw [hstored]
      exact List.nodup_nil
    keyed := by simp [hstored]
    conforms := by simp [hstored]
    tagged := by simp [hrows]
    hasDefault := by simp [hnames] }

/-- Nothing but the properties has changed. -/
theorem Invariant.withProperties (h : c.Invariant) (properties : Properties) :
    { c with properties := properties }.Invariant :=
  ⟨h.keys_perm, h.distinct, h.keyed, h.conforms, h.tagged, h.hasDefault⟩

/-! ## Partitions -/

/-- A new partition has no rows. -/
theorem rowsIn_createPartition (h : c.createPartition name = .ok d) : d.rowsIn = c.rowsIn := by
  obtain ⟨hn, rfl⟩ := createPartition_eq_ok h
  funext other
  rw [rowsIn_of_put rfl]
  split
  · next he => rw [he, rowsIn_of_not_mem hn]
  · rfl

theorem partitionNames_createPartition (h : c.createPartition name = .ok d) :
    d.partitionNames = c.partitionNames ++ [name] := by
  obtain ⟨hn, rfl⟩ := createPartition_eq_ok h
  rw [partitionNames_of_put rfl, if_neg hn]

theorem stored_createPartition (h : c.createPartition name = .ok d) : d.stored = c.stored := by
  rw [stored, partitionNames_createPartition h, rowsIn_createPartition h, List.flatMap_append]
  simp [stored, rowsIn_of_not_mem (createPartition_eq_ok h).1]

theorem Invariant.createPartition (h : c.Invariant) (hd : c.createPartition name = .ok d) :
    d.Invariant := by
  have hrows := rowsIn_createPartition hd
  have hnames := partitionNames_createPartition hd
  have hstored := stored_createPartition hd
  obtain ⟨hn, rfl⟩ := createPartition_eq_ok hd
  exact {
    keys_perm := by
      rw [hstored]
      exact h.keys_perm
    distinct := by
      rw [hstored]
      exact h.distinct
    keyed := by
      rw [hstored]
      exact h.keyed
    conforms := by
      rw [hstored]
      exact h.conforms
    tagged := by
      rw [hnames, hrows]
      intro other ho row hr
      rcases List.mem_append.mp ho with ho | ho
      · exact h.tagged other ho row hr
      · rw [List.mem_singleton.mp ho, rowsIn_of_not_mem hn] at hr
        cases hr
    hasDefault := by
      rw [hnames]
      exact List.mem_append_left _ h.hasDefault }

theorem rowsIn_dropPartition (h : c.dropPartition name = .ok d) (other : String)
    (ho : other ≠ name) : d.rowsIn other = c.rowsIn other := by
  obtain ⟨-, -, rfl⟩ := dropPartition_eq_ok h
  rw [rowsIn_of_erase rfl, if_neg ho]

theorem partitionNames_dropPartition (h : c.dropPartition name = .ok d) :
    d.partitionNames = c.partitionNames.filter (· ≠ name) := by
  obtain ⟨-, -, rfl⟩ := dropPartition_eq_ok h
  exact partitionNames_of_erase rfl

/-- The rows of a dropped partition and the rows left make up all rows. -/
theorem stored_dropPartition (h : c.dropPartition name = .ok d) :
    c.stored.Perm (c.rowsIn name ++ d.stored) := by
  have hp := flatMap_perm_of_mem c.rowsIn c.nodup_partitionNames (dropPartition_eq_ok h).2.1
  rw [← flatMap_filter_congr (rowsIn_dropPartition h),
    ← partitionNames_dropPartition h] at hp
  exact hp

theorem keysOf_stored_dropPartition (h : c.dropPartition name = .ok d) :
    (c.keysOf c.stored).Perm (c.keysOf (c.rowsIn name) ++ c.keysOf d.stored) := by
  simpa [keysOf] using (stored_dropPartition h).map fun row => c.keyOf row.record

theorem Invariant.dropPartition (h : c.Invariant) (hd : c.dropPartition name = .ok d) :
    d.Invariant := by
  have hstored := stored_dropPartition hd
  have hp := keysOf_stored_dropPartition hd
  have hnames := partitionNames_dropPartition hd
  have hrows := rowsIn_dropPartition hd
  have hsub : ∀ row ∈ d.stored, row ∈ c.stored :=
    fun row hr => hstored.mem_iff.mpr (List.mem_append_right _ hr)
  obtain ⟨hne, -, rfl⟩ := dropPartition_eq_ok hd
  exact {
    keys_perm := Value.filter_not_same_perm (h.keys_perm.trans hp)
      (h.keys_perm.nodup_iff.mpr h.distinct) fun key hk => h.isPlain hk
    distinct := (List.nodup_append.mp (hp.nodup_iff.mp h.distinct)).2.1
    keyed := fun row hr => h.keyed row (hsub row hr)
    conforms := fun row hr => h.conforms row (hsub row hr)
    tagged := by
      intro other ho row hr
      rw [hnames] at ho
      obtain ⟨ho, hother⟩ := List.mem_filter.mp ho
      rw [hrows other (by simpa using hother)] at hr
      exact h.tagged other ho row hr
    hasDefault := by
      rw [hnames]
      exact List.mem_filter.mpr ⟨h.hasDefault, by simpa using Ne.symm hne⟩ }

/-! ## Rows -/

/-- On possible keys the first repeat is missing exactly if all are new. -/
theorem firstTaken_eq_none_iff {taken keys : List Value} (ht : ∀ key ∈ taken, key.IsPlain)
    (hk : ∀ key ∈ keys, key.IsPlain) :
    firstTaken taken keys = none ↔ keys.Nodup ∧ ∀ key ∈ keys, key ∉ taken := by
  induction keys generalizing taken with
  | nil => simp [firstTaken]
  | cons key rest ih =>
      obtain ⟨hkey, hrest⟩ := List.forall_mem_cons.mp hk
      have hany := Value.any_same_iff hkey ht
      rw [firstTaken]
      split
      · next htaken => simp [hany.mp htaken]
      · next htaken =>
          rw [hany] at htaken
          rw [ih (List.forall_mem_cons.mpr ⟨hkey, ht⟩) hrest]
          simp only [List.nodup_cons, List.mem_cons, not_or, forall_eq_or_imp]
          grind

/-- The rows of a batch go to the end of their partition. -/
theorem rowsIn_insert {now : Binary64} {rows keys : List Value} {partition : Option String}
    {records : List Record} (hr : c.schema.records c.settings.defaultLength rows = .ok records)
    (h : c.insert now rows partition = .ok (keys, d)) (other : String) :
    d.rowsIn other = if other = c.targetPartition partition
      then c.rowsIn other ++ newRows (c.targetPartition partition) now records
      else c.rowsIn other := by
  obtain ⟨found, hf, -, -, -, -, rfl⟩ := insert_eq_ok h
  cases hr.symm.trans hf
  rw [rowsIn_of_put rfl]
  split
  · next he => rw [he]
  · rfl

theorem partitionNames_insert {now : Binary64} {rows keys : List Value}
    {partition : Option String} (h : c.insert now rows partition = .ok (keys, d)) :
    d.partitionNames = c.partitionNames := by
  obtain ⟨records, -, -, -, hm, -, rfl⟩ := insert_eq_ok h
  rw [partitionNames_of_put rfl, if_pos hm]

theorem stored_insert {now : Binary64} {rows keys : List Value} {partition : Option String}
    {records : List Record} (hr : c.schema.records c.settings.defaultLength rows = .ok records)
    (h : c.insert now rows partition = .ok (keys, d)) :
    d.stored.Perm (c.stored ++ newRows (c.targetPartition partition) now records) := by
  obtain ⟨-, -, -, -, hm, -, -⟩ := insert_eq_ok h
  have hrows := rowsIn_insert hr h
  have hbefore := flatMap_perm_of_mem c.rowsIn c.nodup_partitionNames hm
  have hafter := flatMap_perm_of_mem d.rowsIn c.nodup_partitionNames hm
  rw [hrows, if_pos rfl, flatMap_filter_congr fun other ho => by rw [hrows, if_neg ho],
    List.append_assoc] at hafter
  rw [stored, partitionNames_insert h, stored]
  refine hafter.trans ?_
  refine (List.perm_append_comm.append_left _).trans ?_
  rw [← List.append_assoc]
  exact hbefore.symm.append_right _

theorem keysOf_stored_insert {now : Binary64} {rows keys : List Value} {partition : Option String}
    (h : c.insert now rows partition = .ok (keys, d)) :
    (c.keysOf d.stored).Perm (c.keysOf c.stored ++ keys) := by
  obtain ⟨records, hr, -, -, -, rfl, -⟩ := insert_eq_ok h
  rw [← keysOf_newRows (c.targetPartition partition) now records]
  simpa [keysOf] using (stored_insert hr h).map fun row => c.keyOf row.record

theorem mem_stored_insert {now : Binary64} {rows keys : List Value} {partition : Option String}
    {records : List Record} (hr : c.schema.records c.settings.defaultLength rows = .ok records)
    (h : c.insert now rows partition = .ok (keys, d)) {row : StoredRow} (hm : row ∈ d.stored) :
    row ∈ c.stored ∨ row.record ∈ records := by
  rcases List.mem_append.mp ((stored_insert hr h).mem_iff.mp hm) with ho | hn
  · exact .inl ho
  · exact .inr (mem_newRows hn).2

/-- The keys of a batch differ from each other and from those of all rows before. -/
theorem Invariant.fresh_keys {now : Binary64} {rows keys : List Value}
    {partition : Option String} (h : c.Invariant)
    (hd : c.insert now rows partition = .ok (keys, d)) :
    keys.Nodup ∧ ∀ key ∈ keys, key ∉ c.keys := by
  obtain ⟨records, hr, hkeyed, hfree, -, rfl, -⟩ := insert_eq_ok hd
  have hplain : ∀ key ∈ records.map c.keyOf, key.IsPlain := by
    intro key hk
    obtain ⟨record, hrecord, rfl⟩ := List.mem_map.mp hk
    exact (Schema.conforms_of_mem_records hr hrecord).isPlain (hkeyed record hrecord)
  exact (firstTaken_eq_none_iff (fun key hk => h.isPlain hk) hplain).mp hfree

theorem Invariant.insert {now : Binary64} {rows keys : List Value} {partition : Option String}
    (h : c.Invariant) (hd : c.insert now rows partition = .ok (keys, d)) : d.Invariant := by
  have hnames := partitionNames_insert hd
  have hkeys := keysOf_stored_insert hd
  obtain ⟨hdistinct, hfresh⟩ := h.fresh_keys hd
  obtain ⟨records, hr, hkeyed, -, -, -, he⟩ := insert_eq_ok hd
  have hrows := rowsIn_insert hr hd
  have hstored : ∀ row ∈ d.stored, row ∈ c.stored ∨ row.record ∈ records :=
    fun row hm => mem_stored_insert hr hd hm
  subst he
  exact {
    keys_perm := (h.keys_perm.append_right _).trans hkeys.symm
    distinct := by
      refine hkeys.nodup_iff.mpr (List.nodup_append.mpr ⟨h.distinct, hdistinct, ?_⟩)
      rintro key hk _ hn rfl
      exact hfresh key hn (h.keys_perm.mem_iff.mpr hk)
    keyed := by
      intro row hm
      rcases hstored row hm with ho | hn
      · exact h.keyed row ho
      · exact hkeyed row.record hn
    conforms := by
      intro row hm
      rcases hstored row hm with ho | hn
      · exact h.conforms row ho
      · exact Schema.conforms_of_mem_records hr hn
    tagged := by
      intro other ho row hm
      rw [hnames] at ho
      rw [hrows] at hm
      split at hm
      · next heq =>
          rcases List.mem_append.mp hm with hold | hn
          · exact h.tagged other ho row hold
          · rw [heq]
            exact (mem_newRows hn).1
      · exact h.tagged other ho row hm
    hasDefault := by
      rw [hnames]
      exact h.hasDefault }

end Collection

/-! ## Runs -/

namespace Clocked

theorem invariant_step {s t : Clocked} {action : Action} (h : s.collection.Invariant)
    (hs : s.step action = .ok t) : t.collection.Invariant := by
  cases action with
  | createPartition name =>
      obtain ⟨d, hd, rfl⟩ := map_eq_ok_iff.mp hs
      exact h.createPartition hd
  | dropPartition name =>
      obtain ⟨d, hd, rfl⟩ := map_eq_ok_iff.mp hs
      exact h.dropPartition hd
  | insert rows partition =>
      obtain ⟨⟨keys, d⟩, hd, rfl⟩ := map_eq_ok_iff.mp hs
      exact h.insert hd
  | alterProperties entries =>
      obtain ⟨d, hd, rfl⟩ := map_eq_ok_iff.mp hs
      obtain ⟨updated, rfl⟩ := Collection.alterProperties_eq_ok hd
      exact h.withProperties updated
  | dropProperties keys =>
      cases hs
      exact h.withProperties _
  | setClock now =>
      cases hs
      exact h

theorem invariant_run {s : Clocked} (h : s.collection.Invariant) (actions : List Action) :
    (s.run actions).collection.Invariant :=
  run_induction (P := fun t => t.collection.Invariant)
    (fun _ _ _ ht hs => invariant_step ht hs) h actions

end Clocked

end ScalarStore
