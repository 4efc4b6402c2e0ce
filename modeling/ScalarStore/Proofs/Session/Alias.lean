import ScalarStore.Proofs.Session.Invariant

/-! # Aliases in a session

The aliases that are told of a collection are exactly the other names that stand for it, and no
alias is left without its collection, whatever was dropped, created again or pointed elsewhere. -/

namespace ScalarStore

namespace Database

variable {db : Database} {name other : String}

theorem mem_sorted {names : List String} : other ∈ sorted names ↔ other ∈ names :=
  List.mem_mergeSort

theorem nodup_sorted {names : List String} (h : names.Nodup) : (sorted names).Nodup :=
  (List.mergeSort_perm names _).nodup_iff.mpr h

theorem mem_aliasNames_iff :
    other ∈ db.aliasNames (some name) ↔ db.aliases.get? other = some name := by
  rw [aliasNames, mem_sorted, Table.get?_eq_some_iff, List.mem_map]
  constructor
  · rintro ⟨⟨found, target⟩, hm, rfl⟩
    obtain ⟨hm, ht⟩ := List.mem_filter.mp hm
    have htarget : target = name := by simpa using ht
    exact htarget ▸ hm
  · intro hm
    exact ⟨(other, name), List.mem_filter.mpr ⟨hm, by simp⟩, rfl⟩

theorem nodup_aliasNames (collection : Option String) : (db.aliasNames collection).Nodup :=
  nodup_sorted (db.aliases.distinct.sublist (List.filter_sublist.map _))

theorem describe_eq_ok {now : Binary64} {d : Description} (h : db.describe now name = .ok d) :
    db.resolve name = .ok d.collection ∧ d.aliases = db.aliasNames (some d.collection.name) := by
  obtain ⟨c, hc, h⟩ := bind_eq_ok_iff.mp h
  obtain ⟨size, -, h⟩ := bind_eq_ok_iff.mp h
  cases h
  exact ⟨hc, rfl⟩

/-- The aliases told of a collection are the names other than its own that stand for it. -/
theorem Invariant.mem_aliases_iff (h : db.Invariant) {now : Binary64} {d : Description}
    (hd : db.describe now name = .ok d) :
    other ∈ d.aliases ↔ other ≠ d.collection.name ∧ db.resolve other = .ok d.collection := by
  obtain ⟨hr, haliases⟩ := describe_eq_ok hd
  have hget := (h.of_resolve hr).2.1
  rw [haliases, mem_aliasNames_iff, h.resolve_iff hget]
  constructor
  · intro ha
    refine ⟨?_, .inr ha⟩
    rintro rfl
    exact h.apart _ (Table.mem_keys_of_get? ha) (Table.mem_keys_of_get? hget)
  · rintro ⟨hne, rfl | ha⟩
    · exact absurd rfl hne
    · exact ha

/-- Without collections there are no aliases. -/
theorem Invariant.aliases_eq_nil (h : db.Invariant) (hc : db.collections.keys = []) :
    db.aliases.keys = [] := by
  rw [List.eq_nil_iff_forall_not_mem]
  intro other ha
  obtain ⟨name, hname⟩ := Table.exists_get?_of_mem_keys ha
  have hm := h.aimed other name hname
  rw [hc] at hm
  cases hm

end Database

namespace Session

/-- After any run the default and the current database are there. In each database no alias has
the name of a collection, an alias stands for a collection that is there, and a collection is
kept under its own name. The aliases told of a collection are exactly the names other than its
own that stand for it. A database that is dropped has no alias. -/
theorem aliases_of_run {settings : Settings} {start : Binary64} {commands : List Command}
    {s : Session} (hs : ((new settings start).run commands).2 = s) :
    s.store.databases.contains settings.defaultDatabase = true ∧
    s.store.databases.contains s.store.current = true ∧
    (∀ database db, s.store.databases.get? database = some db →
      (∀ name, db.aliases.contains name = true → db.collections.contains name = false) ∧
      (∀ other name, db.aliases.get? other = some name →
        ∃ c, db.collections.get? name = some c) ∧
      ∀ name c, db.collections.get? name = some c → c.name = name) ∧
    (∀ now name database d, s.store.describe now name database = .ok d →
      s.store.collection name database = .ok d.collection ∧ d.aliases.Nodup ∧
      ∀ other, other ∈ d.aliases ↔
        other ≠ d.collection.name ∧ s.store.collection other database = .ok d.collection) ∧
    ∀ database store, s.store.dropDatabase database = .ok store →
      ∃ db, s.store.databases.get? database = some db ∧ db.aliases.keys = [] := by
  have h : s.store.Invariant settings := by
    rw [← hs]
    exact invariant_run settings start commands
  refine ⟨(Table.contains_iff _ _).mpr h.hasDefault, (Table.contains_iff _ _).mpr h.hasCurrent,
    ?_, ?_, ?_⟩
  · intro database db hdb
    have hinv := h.sound database db hdb
    refine ⟨fun name ha => ?_, fun other name ha => ?_, hinv.named⟩
    · rw [← Bool.not_eq_true, Table.contains_iff]
      exact hinv.apart name ((Table.contains_iff _ _).mp ha)
    · exact Table.exists_get?_of_mem_keys (hinv.aimed other name ha)
  · intro now name database d hd
    obtain ⟨db, hdb, hd⟩ := bind_eq_ok_iff.mp hd
    have hinv := h.sound _ db (Store.database_eq_ok_iff.mp hdb)
    have hcollection : ∀ other, s.store.collection other database = db.resolve other := by
      intro other
      rw [Store.collection, hdb]
      rfl
    obtain ⟨hr, haliases⟩ := Database.describe_eq_ok hd
    refine ⟨by rw [hcollection, hr], haliases ▸ Database.nodup_aliasNames _, fun other => ?_⟩
    rw [hcollection, hinv.mem_aliases_iff hd]
  · intro database store hdrop
    obtain ⟨-, ⟨db, hdb, hnone⟩, -⟩ := Store.dropDatabase_eq_ok hdrop
    exact ⟨db, hdb, (h.sound database db hdb).aliases_eq_nil hnone⟩

/-- An alias is pointed elsewhere, a collection is dropped with its other alias, and that name is
taken by a new collection; a database that is in use is dropped. -/
def freed : List Command :=
  [.createCollection "c" titleSchema .null .null none,
    .createCollection "d" titleSchema .null .null none,
    .createAlias "c" "a", .createAlias "c" "b", .alterAlias "d" "a", .dropCollection "a" none,
    .dropCollection "c" none, .createCollection "b" titleSchema .null .null none,
    .createDatabase "x", .useDatabase "x", .dropDatabase "x"]

theorem aliases_of_run_freed :
    ∃ s d, ((new {} (.zero false)).run freed).2 = s ∧ s.store.current = "default" ∧
      s.store.describe (.zero false) "d" none = .ok d ∧ "a" ∈ d.aliases ∧
      s.store.collection "a" none = .ok d.collection ∧ "b" ∉ d.aliases := by
  obtain ⟨s, hs⟩ : ∃ s, ((new {} (.zero false)).run freed).2 = s := ⟨_, rfl⟩
  obtain ⟨d, hd⟩ : ∃ d, s.store.describe (.zero false) "d" none = .ok d := by
    subst hs
    exact ⟨_, rfl⟩
  have ha : s.store.collection "a" none = .ok d.collection := by
    subst hs
    cases hd
    rfl
  have hname : d.collection.name = "d" := by
    subst hs
    cases hd
    rfl
  have hmem := ((aliases_of_run hs).2.2.2.1 _ _ _ d hd).2.2
  refine ⟨s, d, hs, ?_, hd, (hmem "a").mpr ⟨?_, ha⟩, ha, ?_⟩
  · subst hs
    rfl
  · rw [hname]
    decide
  · intro hb
    have hname' : ∃ c, s.store.collection "b" none = .ok c ∧ c.name = "b" := by
      subst hs
      exact ⟨_, rfl, rfl⟩
    obtain ⟨c, hc, hcn⟩ := hname'
    cases hc.symm.trans ((hmem "b").mp hb).2
    rw [hname] at hcn
    exact absurd hcn (by decide)

end Session

end ScalarStore
