import ScalarStore.Document
import ScalarStore.Proofs.Collection.Invariant
import ScalarStore.Proofs.Schema.Document

/-! # Partitions put in from a document

Loading a document takes its partitions one after another: each is created unless it is there, and
its rows go behind those that it has. What a collection holds afterwards is told by the records of
the rows alone. -/

namespace ScalarStore

/-- The records of the rows of a partition in a document, which may be left out. -/
def Schema.recordsOf (schema : Schema) (defaultLength : Option Number) (rows : Value) :
    Except Fault (List Record) := do
  if rows.truthy then schema.records defaultLength (← rows.items) else .ok []

namespace Collection

variable {c d : Collection} {name : String} {now : Binary64} {records : List Record}

/-- The collection with records behind the rows of a partition, which is there afterwards. -/
def withRecords (c : Collection) (now : Binary64) (name : String) (records : List Record) :
    Collection :=
  { c with
    partitions := c.partitions.put name (c.rowsIn name ++ newRows name now records)
    keys := c.keys ++ records.map c.keyOf }

/-- The default partition comes first, and no other one has a blank name. -/
def Headed (c : Collection) : Prop :=
  ∃ others, c.partitionNames = c.settings.defaultPartition :: others ∧
    ∀ name ∈ others, Text.isBlankText name = false

theorem Headed.default_or_nonblank (h : c.Headed) (hm : name ∈ c.partitionNames) :
    name = c.settings.defaultPartition ∨ Text.isBlankText name = false := by
  obtain ⟨others, hnames, hothers⟩ := h
  rw [hnames] at hm
  rcases List.mem_cons.mp hm with rfl | hm
  · exact .inl rfl
  · exact .inr (hothers name hm)

theorem Headed.targetPartition (h : c.Headed) (hm : name ∈ c.partitionNames) :
    c.targetPartition (some name) = name := by
  by_cases he : name = ""
  · rcases h.default_or_nonblank hm with hd | hb
    · simp [Collection.targetPartition, he, ← hd]
    · rw [he] at hb
      exact absurd hb (by decide)
  · simp [Collection.targetPartition, he]

theorem rowsIn_withRecords (c : Collection) (now : Binary64) (name : String)
    (records : List Record) (other : String) : (c.withRecords now name records).rowsIn other =
      if other = name then c.rowsIn other ++ newRows name now records else c.rowsIn other := by
  rw [rowsIn_of_put rfl]
  split
  · next he => rw [he]
  · rfl

theorem partitionNames_withRecords (c : Collection) (now : Binary64) (name : String)
    (records : List Record) : (c.withRecords now name records).partitionNames =
      if name ∈ c.partitionNames then c.partitionNames else c.partitionNames ++ [name] :=
  partitionNames_of_put rfl

theorem Headed.withRecords (h : c.Headed)
    (hn : name = c.settings.defaultPartition ∨ Text.isBlankText name = false) :
    (c.withRecords now name records).Headed := by
  obtain ⟨others, hnames, hothers⟩ := h
  rw [Headed, partitionNames_withRecords]
  split
  · exact ⟨others, hnames, hothers⟩
  · next hm =>
      have hblank : Text.isBlankText name = false := by
        refine hn.resolve_left ?_
        rintro rfl
        exact hm (hnames ▸ List.mem_cons_self)
      refine ⟨others ++ [name], by rw [hnames]; rfl, fun other ho => ?_⟩
      rcases List.mem_append.mp ho with ho | ho
      · exact hothers other ho
      · exact List.mem_singleton.mp ho ▸ hblank

theorem nonblank_of_createPartition (h : c.createPartition name = .ok d) :
    Text.isBlankText name = false := by
  unfold createPartition at h
  split at h
  · cases h
  · next hblank => exact Bool.not_eq_true _ ▸ hblank

theorem headed_new {settings : Settings} {schema : Schema} {properties description : Value}
    (h : new settings name schema properties description = .ok c) : c.Headed := by
  have hnames := partitionNames_of_new h
  obtain ⟨updated, rfl⟩ := new_eq_ok h
  exact ⟨[], hnames, by simp⟩

theorem Headed.createPartition (h : c.Headed) (hd : c.createPartition name = .ok d) :
    d.Headed := by
  have hnames := partitionNames_createPartition hd
  have hblank := nonblank_of_createPartition hd
  obtain ⟨others, hfirst, hothers⟩ := h
  obtain ⟨-, rfl⟩ := createPartition_eq_ok hd
  refine ⟨others ++ [name], by rw [hnames, hfirst]; rfl, fun other ho => ?_⟩
  rcases List.mem_append.mp ho with ho | ho
  · exact hothers other ho
  · exact List.mem_singleton.mp ho ▸ hblank

theorem Headed.dropPartition (h : c.Headed) (hd : c.dropPartition name = .ok d) : d.Headed := by
  have hnames := partitionNames_dropPartition hd
  obtain ⟨others, hfirst, hothers⟩ := h
  obtain ⟨hne, -, rfl⟩ := dropPartition_eq_ok hd
  refine ⟨others.filter (· ≠ name), ?_, fun other ho => hothers other (List.mem_filter.mp ho).1⟩
  rw [hnames, hfirst, List.filter_cons_of_pos (by simpa using Ne.symm hne)]

theorem Headed.insert {rows keys : List Value} {partition : Option String} (h : c.Headed)
    (hd : c.insert now rows partition = .ok (keys, d)) : d.Headed := by
  have hnames := partitionNames_insert hd
  obtain ⟨others, hfirst, hothers⟩ := h
  obtain ⟨records, -, -, -, -, -, rfl⟩ := insert_eq_ok hd
  exact ⟨others, hnames.trans hfirst, hothers⟩

/-! ## One partition -/

/-- Without records nothing but the partition is added. -/
theorem withRecords_nil_of_mem (now : Binary64) (hm : name ∈ c.partitionNames) :
    c.withRecords now name [] = c := by
  obtain ⟨rows, hrows⟩ := Table.exists_get?_of_mem_keys hm
  have hput : c.partitions.put name (c.rowsIn name ++ newRows name now []) = c.partitions := by
    rw [rowsIn_of_get? hrows]
    simp [newRows, Table.put_of_get? hrows]
  rw [withRecords, hput]
  simp

/-- Rows of which the records are known go behind those of a partition that is there. -/
theorem insert_of_records (now : Binary64) {rows : List Value} (h : c.Headed)
    (hm : name ∈ c.partitionNames)
    (hr : c.schema.records c.settings.defaultLength rows = .ok records)
    (hkeyed : ∀ record ∈ records, record.lookup c.primaryName = some (c.keyOf record))
    (hfree : firstTaken c.keys (records.map c.keyOf) = none) :
    c.insert now rows (some name) = .ok (records.map c.keyOf, c.withRecords now name records) := by
  have hkeys := mapM_keyFrom_of_lookup hkeyed
  obtain ⟨held, hheld⟩ := Table.exists_get?_of_mem_keys hm
  rw [insert, hr]
  simp only [bind, Except.bind, hkeys, h.targetPartition hm, hheld, hfree]
  rw [withRecords, rowsIn_of_get? hheld]
  rfl

/-- A partition is created if it is missing, and gets no rows by that. -/
theorem withRecords_nil_of_not_mem (now : Binary64) (hn : Text.isBlankText name = false)
    (hm : name ∉ c.partitionNames) : c.createPartition name = .ok (c.withRecords now name []) := by
  have hmissing : c.hasPartition name = false := by
    rw [← Bool.not_eq_true, hasPartition, Table.contains_iff]
    exact hm
  rw [createPartition, if_neg (by simp [hn]), if_neg (by simp [hmissing]), withRecords,
    rowsIn_of_not_mem hm]
  simp [newRows]

theorem withRecords_withRecords (c : Collection) (now : Binary64) (name : String)
    (records : List Record) :
    (c.withRecords now name []).withRecords now name records = c.withRecords now name records := by
  have hrows : (c.withRecords now name []).rowsIn name = c.rowsIn name := by
    rw [rowsIn_withRecords, if_pos rfl]
    simp [newRows]
  rw [withRecords, hrows]
  simp only [withRecords, Table.put_put, List.map_nil, List.append_nil]
  rfl

theorem mem_partitionNames_withRecords (c : Collection) (now : Binary64) (name : String)
    (records : List Record) : name ∈ (c.withRecords now name records).partitionNames := by
  rw [partitionNames_withRecords]
  split
  · next hm => exact hm
  · exact List.mem_append_right _ (List.mem_singleton_self name)

/-- The partition is made sure of before its rows are looked at. -/
theorem addPartition_text (now : Binary64) (rows : Value) (h : c.Headed)
    (hn : name = c.settings.defaultPartition ∨ Text.isBlankText name = false) :
    Loaded.addPartition now c (.str name) rows =
      if rows.truthy then
        rows.items >>= fun items =>
          ((c.withRecords now name []).insert now items (some name)).map (·.2)
      else .ok (c.withRecords now name []) := by
  have hname : Loaded.partitionName (.str name) = .ok name := rfl
  have hrest (d : Collection) :
      (if rows.truthy = true then do
        return (← d.insert now (← rows.items) (some name)).2
      else return d : Except Fault Collection) =
      if rows.truthy then rows.items >>= fun items => (d.insert now items (some name)).map (·.2)
      else .ok d := by
    split
    · cases rows.items with
      | error fault => rfl
      | ok items => cases d.insert now items (some name) <;> rfl
    · rfl
  rw [Loaded.addPartition, hname]
  by_cases hm : name ∈ c.partitionNames
  · have hpresent : c.hasPartition name = true := (Table.contains_iff _ _).mpr hm
    rw [withRecords_nil_of_mem now hm, ← hrest]
    simp only [bind, Except.bind, if_pos hpresent]
  · have hmissing : ¬c.hasPartition name = true := fun hp => hm ((Table.contains_iff _ _).mp hp)
    have hblank : Text.isBlankText name = false := by
      refine hn.resolve_left ?_
      rintro rfl
      obtain ⟨others, hnames, -⟩ := h
      exact hm (hnames ▸ List.mem_cons_self)
    rw [← hrest]
    simp only [bind, Except.bind, if_neg hmissing, withRecords_nil_of_not_mem now hblank hm]

theorem addPartition_of_records {rows : Value} (h : c.Headed)
    (hn : name = c.settings.defaultPartition ∨ Text.isBlankText name = false)
    (hr : c.schema.recordsOf c.settings.defaultLength rows = .ok records)
    (hkeyed : ∀ record ∈ records, record.lookup c.primaryName = some (c.keyOf record))
    (hfree : firstTaken c.keys (records.map c.keyOf) = none) :
    Loaded.addPartition now c (.str name) rows = .ok (c.withRecords now name records) := by
  rw [addPartition_text now rows h hn]
  unfold Schema.recordsOf at hr
  split at hr
  · next ht =>
      obtain ⟨items, hitems, hrecords⟩ := bind_eq_ok_iff.mp hr
      have hfree' : firstTaken (c.withRecords now name []).keys (records.map c.keyOf) = none := by
        simpa [withRecords] using hfree
      have hinsert := insert_of_records now (h.withRecords hn)
        (mem_partitionNames_withRecords c now name []) hrecords hkeyed hfree'
      rw [if_pos ht, hitems]
      simp only [bind, Except.bind, hinsert, withRecords_withRecords]
      rfl
  · next ht =>
      cases hr
      rw [if_neg ht]

theorem addPartition_eq_ok {key rows : Value} (h : c.Headed)
    (hd : Loaded.addPartition now c key rows = .ok d) : ∃ name records, key = .str name ∧
      (name = c.settings.defaultPartition ∨ Text.isBlankText name = false) ∧
      c.schema.recordsOf c.settings.defaultLength rows = .ok records ∧
      d = c.withRecords now name records := by
  obtain ⟨name, rfl⟩ : ∃ name, key = .str name := by
    obtain ⟨name, hname, -⟩ := bind_eq_ok_iff.mp hd
    unfold Loaded.partitionName at hname
    split at hname
    · exact ⟨_, rfl⟩
    · split at hname <;> cases hname
  have hn : name = c.settings.defaultPartition ∨ Text.isBlankText name = false := by
    by_cases hm : name ∈ c.partitionNames
    · exact h.default_or_nonblank hm
    · -- A partition that is missing is created, and none is with a blank name.
      obtain ⟨found, hfound, hd⟩ := bind_eq_ok_iff.mp hd
      cases hfound
      have hmissing : ¬c.hasPartition name = true := fun hp => hm ((Table.contains_iff _ _).mp hp)
      dsimp only at hd
      rw [if_neg hmissing] at hd
      obtain ⟨created, hcreated, -⟩ := bind_eq_ok_iff.mp hd
      exact .inr (nonblank_of_createPartition hcreated)
  rw [addPartition_text now rows h hn] at hd
  split at hd
  · next ht =>
      obtain ⟨items, hitems, hd⟩ := bind_eq_ok_iff.mp hd
      obtain ⟨⟨keys, e⟩, hinsert, rfl⟩ := map_eq_ok_iff.mp hd
      obtain ⟨records, hrecords, -, -, -, hkeys, he⟩ := insert_eq_ok hinsert
      refine ⟨name, records, rfl, hn, ?_, ?_⟩
      · rw [Schema.recordsOf, if_pos ht, hitems]
        exact hrecords
      · have hheaded : (c.withRecords now name []).Headed := h.withRecords hn
        have htarget := hheaded.targetPartition (mem_partitionNames_withRecords c now name [])
        rw [← withRecords_withRecords, he, htarget, hkeys]
        rfl
  · next ht =>
      cases hd
      exact ⟨name, [], rfl, hn, by rw [Schema.recordsOf, if_neg ht], rfl⟩

/-! ## All partitions -/

/-- The collection with all partitions put in, one after another. -/
def withAll (c : Collection) (now : Binary64) (parts : List (String × List Record)) : Collection :=
  parts.foldl (fun c (name, records) => c.withRecords now name records) c

theorem withAll_cons (c : Collection) (now : Binary64) (name : String) (records : List Record)
    (parts : List (String × List Record)) :
    c.withAll now ((name, records) :: parts) = (c.withRecords now name records).withAll now parts :=
  rfl

/-- Only partitions and keys are put in. -/
theorem frame_withAll (c : Collection) (now : Binary64) (parts : List (String × List Record)) :
    ∃ partitions keys, c.withAll now parts =
      { c with partitions := partitions, keys := keys } := by
  induction parts generalizing c with
  | nil => exact ⟨_, _, rfl⟩
  | cons part rest ih =>
      obtain ⟨partitions, keys, hrest⟩ := ih (c.withRecords now part.1 part.2)
      exact ⟨partitions, keys, hrest⟩

/-- The records that are put into a partition, which may be named several times. -/
def recordsFor (name : String) (parts : List (String × List Record)) : List Record :=
  (parts.filter fun part => part.1 = name).flatMap (·.2)

theorem newRows_append (partition : String) (now : Binary64) (first second : List Record) :
    newRows partition now (first ++ second) =
      newRows partition now first ++ newRows partition now second :=
  List.map_append

theorem rowsIn_withAll (c : Collection) (now : Binary64) (parts : List (String × List Record))
    (name : String) : (c.withAll now parts).rowsIn name =
      c.rowsIn name ++ newRows name now (recordsFor name parts) := by
  induction parts generalizing c with
  | nil => exact (List.append_nil _).symm
  | cons part rest ih =>
      obtain ⟨partition, records⟩ := part
      rw [withAll_cons, ih, rowsIn_withRecords]
      by_cases he : name = partition
      · subst he
        simp [recordsFor, newRows_append]
      · simp [recordsFor, he, Ne.symm he]

/-- Partitions stand in the order in which they are first named. -/
theorem partitionNames_withAll (c : Collection) (now : Binary64)
    (parts : List (String × List Record)) : (c.withAll now parts).partitionNames =
      (c.partitionNames ++ parts.map (·.1)).eraseDups := by
  induction parts generalizing c with
  | nil =>
      rw [List.map_nil, List.append_nil, eraseDups_of_nodup c.nodup_partitionNames]
      rfl
  | cons part rest ih =>
      obtain ⟨name, records⟩ := part
      rw [withAll_cons, ih, partitionNames_withRecords, List.map_cons, eraseDups_append_cons]

/-- Names with the records of their rows, as the entries of a document's partitions tell them. -/
def Told (schema : Schema) (defaultLength : Option Number) (entries : List (Value × Value))
    (parts : List (String × List Record)) : Prop :=
  List.Forall₂ (fun entry part => entry.1 = .str part.1 ∧
    schema.recordsOf defaultLength entry.2 = .ok part.2) entries parts

/-- Putting in the partitions of a document is reading their records and then putting them in. -/
theorem foldlM_addPartition_eq_ok {entries : List (Value × Value)} (h : c.Headed)
    (hd : entries.foldlM (fun c (key, rows) => Loaded.addPartition now c key rows) c = .ok d) :
    ∃ parts, Told c.schema c.settings.defaultLength entries parts ∧
      (∀ part ∈ parts, part.1 = c.settings.defaultPartition ∨ Text.isBlankText part.1 = false) ∧
      d = c.withAll now parts := by
  induction entries generalizing c with
  | nil =>
      cases hd
      exact ⟨[], .nil, by simp, rfl⟩
  | cons entry rest ih =>
      obtain ⟨next, hnext, hd⟩ := bind_eq_ok_iff.mp hd
      obtain ⟨name, records, hkey, hname, hrecords, rfl⟩ := addPartition_eq_ok h hnext
      obtain ⟨parts, htold, hnames, rfl⟩ := ih (h.withRecords hname) hd
      exact ⟨(name, records) :: parts, .cons ⟨hkey, hrecords⟩ htold,
        List.forall_mem_cons.mpr ⟨hname, hnames⟩, rfl⟩

/-- Partitions can be put in if all keys are new and differ. -/
theorem foldlM_addPartition_of_told {entries : List (Value × Value)}
    {parts : List (String × List Record)} (h : c.Headed)
    (htold : Told c.schema c.settings.defaultLength entries parts)
    (hnames : ∀ part ∈ parts,
      part.1 = c.settings.defaultPartition ∨ Text.isBlankText part.1 = false)
    (hkeyed : ∀ part ∈ parts, ∀ record ∈ part.2,
      record.lookup c.primaryName = some (c.keyOf record))
    (hplain : ∀ key ∈ c.keys ++ parts.flatMap fun part => part.2.map c.keyOf, key.IsPlain)
    (hnodup : (c.keys ++ parts.flatMap fun part => part.2.map c.keyOf).Nodup) :
    entries.foldlM (fun c (key, rows) => Loaded.addPartition now c key rows) c =
      .ok (c.withAll now parts) := by
  induction parts generalizing c entries with
  | nil =>
      cases htold
      rfl
  | cons part others ih =>
      obtain ⟨⟨key, rows⟩, rest, ⟨rfl, hread⟩, hrest, rfl⟩ := List.forall₂_cons_right_iff.mp htold
      obtain ⟨hname, hrestNames⟩ := List.forall_mem_cons.mp hnames
      obtain ⟨hrecords, hrestKeyed⟩ := List.forall_mem_cons.mp hkeyed
      rw [List.flatMap_cons, ← List.append_assoc] at hplain hnodup
      have hheld : ∀ key ∈ c.keys, key.IsPlain := fun key hk => hplain key (by simp [hk])
      have hadded : ∀ key ∈ part.2.map c.keyOf, key.IsPlain :=
        fun key hk => hplain key (List.mem_append_left _ (List.mem_append_right _ hk))
      obtain ⟨-, hdistinct, hapart⟩ := List.nodup_append.mp (List.nodup_append.mp hnodup).1
      have hfree : firstTaken c.keys (part.2.map c.keyOf) = none :=
        (firstTaken_eq_none_iff hheld hadded).mpr
          ⟨hdistinct, fun key hk hm => hapart key hm key hk rfl⟩
      refine bind_eq_ok_iff.mpr ⟨_, addPartition_of_records h hname hread hrecords hfree, ?_⟩
      exact ih (h.withRecords hname) hrest hrestNames hrestKeyed hplain hnodup

end Collection

end ScalarStore
