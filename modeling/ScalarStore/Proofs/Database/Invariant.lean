import ScalarStore.Database
import ScalarStore.Proofs.Collection.Invariant

/-! # What holds of every database

Collections and aliases are kept in two tables. Every operation keeps their names apart, each
alias on a collection that is there, and each collection under its own name. -/

namespace ScalarStore.Database

variable {db after : Database} {name other : String} {c d : Collection}

/-- No name is both a collection's and an alias; an alias stands for a collection that is there;
a collection is kept under its own name, and holds what every collection holds. -/
structure Invariant (db : Database) : Prop where
  apart : ∀ name ∈ db.aliases.keys, name ∉ db.collections.keys
  aimed : ∀ other name, db.aliases.get? other = some name → name ∈ db.collections.keys
  named : ∀ name c, db.collections.get? name = some c → c.name = name
  sound : ∀ name c, db.collections.get? name = some c → c.Invariant

theorem invariant_empty : Database.empty.Invariant where
  apart _ h := absurd h List.not_mem_nil
  aimed _ _ h := nomatch h
  named _ _ h := nomatch h
  sound _ _ h := nomatch h

/-! ## Names that stand for collections -/

theorem resolve_eq_ok_iff :
    db.resolve name = .ok c ↔ db.collections.get? (db.target name) = some c := by
  unfold resolve
  split
  · next found h => rw [h, Except.ok.injEq, Option.some.injEq]
  · next h => simp [h]

theorem target_of_alias (h : db.aliases.get? other = some name) : db.target other = name := by
  rw [target, h]
  rfl

/-- A name that is no alias stands for itself. -/
theorem target_of_not_mem (h : name ∉ db.aliases.keys) : db.target name = name := by
  rw [target, (db.aliases.get?_eq_none_iff name).mpr h]
  rfl

theorem Invariant.not_mem_aliases (h : db.Invariant) (hm : name ∈ db.collections.keys) :
    name ∉ db.aliases.keys := fun ha => h.apart name ha hm

theorem Invariant.of_resolve (h : db.Invariant) (hc : db.resolve name = .ok c) :
    c.name = db.target name ∧ db.collections.get? c.name = some c ∧ c.Invariant := by
  have hget := resolve_eq_ok_iff.mp hc
  have hname := h.named _ c hget
  exact ⟨hname, hname ▸ hget, h.sound _ c hget⟩

/-- The names of a collection are its own and its aliases. -/
theorem Invariant.resolve_iff (h : db.Invariant) (hc : db.collections.get? c.name = some c) :
    db.resolve other = .ok c ↔ other = c.name ∨ db.aliases.get? other = some c.name := by
  rw [resolve_eq_ok_iff]
  constructor
  · intro hr
    have hname := h.named _ c hr
    cases ha : db.aliases.get? other with
    | none =>
        rw [target_of_not_mem ((db.aliases.get?_eq_none_iff other).mp ha)] at hname
        exact .inl hname.symm
    | some name =>
        rw [target_of_alias ha] at hname
        exact .inr (congrArg some hname.symm)
  · rintro (rfl | ha)
    · rwa [target_of_not_mem (h.not_mem_aliases (Table.mem_keys_of_get? hc))]
    · rwa [target_of_alias ha]

/-! ## Collections put and dropped -/

/-- A collection takes the place of one of its name, or a name that no alias has. -/
theorem Invariant.put (h : db.Invariant) (hn : c.name ∉ db.aliases.keys) (hc : c.Invariant) :
    { db with collections := db.collections.put c.name c }.Invariant where
  apart name ha hm := by
    rcases (Table.mem_keys_put _ _ _ _).mp hm with rfl | hm
    · exact hn ha
    · exact h.apart name ha hm
  aimed other name ha := (Table.mem_keys_put _ _ _ _).mpr (.inr (h.aimed other name ha))
  named name found hf := by
    dsimp only at hf
    rw [Table.get?_put] at hf
    split at hf
    · next he => rw [he, ← Option.some.inj hf]
    · exact h.named name found hf
  sound name found hf := by
    dsimp only at hf
    rw [Table.get?_put] at hf
    split at hf
    · exact Option.some.inj hf ▸ hc
    · exact h.sound name found hf

theorem Invariant.replace (h : db.Invariant) (hc : db.resolve name = .ok c)
    (hname : d.name = c.name) (hd : d.Invariant) : (db.replace name d).Invariant := by
  obtain ⟨ht, hget, -⟩ := h.of_resolve hc
  rw [Database.replace, ← ht, ← hname]
  refine h.put ?_ hd
  rw [hname]
  exact h.not_mem_aliases (Table.mem_keys_of_get? hget)

theorem createCollection_eq_ok {settings : Settings} {schema : Schema}
    {properties description : Value}
    (h : db.createCollection settings name schema properties description = .ok (c, after)) :
    name ∉ db.collections.keys ∧ name ∉ db.aliases.keys ∧
      Collection.new settings name schema properties description = .ok c ∧
      after = { db with collections := db.collections.put name c } := by
  unfold createCollection at h
  split at h
  · cases h
  · next hn =>
      obtain ⟨created, hc, h⟩ := bind_eq_ok_iff.mp h
      cases h
      rw [Table.contains_iff, Table.contains_iff, not_or] at hn
      exact ⟨hn.1, hn.2, hc, rfl⟩

theorem Invariant.createCollection {settings : Settings} {schema : Schema}
    {properties description : Value} (h : db.Invariant)
    (hc : db.createCollection settings name schema properties description = .ok (c, after)) :
    after.Invariant := by
  obtain ⟨-, hn, hnew, rfl⟩ := createCollection_eq_ok hc
  have hname : c.name = name := by
    obtain ⟨updated, rfl⟩ := Collection.new_eq_ok hnew
    rfl
  have hinv := Collection.invariant_new hnew
  subst hname
  exact h.put hn hinv

theorem dropCollection_eq_ok (h : db.dropCollection name = .ok after) :
    name ∉ db.aliases.keys ∧ name ∈ db.collections.keys ∧
      after = ⟨db.collections.erase name, db.aliases.filter (·.2 ≠ name)⟩ := by
  unfold dropCollection at h
  split at h
  · cases h
  · next ha =>
      split at h
      · cases h
      · next hc =>
          cases h
          rw [Table.contains_iff] at ha
          refine ⟨ha, ?_, rfl⟩
          simpa [Table.contains_iff] using hc

/-- The aliases of a dropped collection go with it, and no others. -/
theorem get?_aliases_dropCollection (h : db.dropCollection name = .ok after)
    (standing target : String) : after.aliases.get? standing = some target ↔
      db.aliases.get? standing = some target ∧ target ≠ name := by
  obtain ⟨-, -, rfl⟩ := dropCollection_eq_ok h
  simp [Table.get?_eq_some_iff, Table.filter]

theorem Invariant.dropCollection (h : db.Invariant) (hd : db.dropCollection name = .ok after) :
    after.Invariant := by
  have haliases := get?_aliases_dropCollection hd
  obtain ⟨-, -, rfl⟩ := dropCollection_eq_ok hd
  exact {
    apart := by
      intro standing ha hm
      obtain ⟨target, ht⟩ := Table.exists_get?_of_mem_keys ha
      have hold := ((haliases standing target).mp ht).1
      exact h.apart standing (Table.mem_keys_of_get? hold) ((Table.mem_keys_erase _ _ _).mp hm).1
    aimed := by
      intro standing target ht
      obtain ⟨hold, hne⟩ := (haliases standing target).mp ht
      exact (Table.mem_keys_erase _ _ _).mpr ⟨h.aimed standing target hold, hne⟩
    named := by
      intro kept c hc
      dsimp only at hc
      rw [Table.get?_erase] at hc
      split at hc
      · cases hc
      · exact h.named kept c hc
    sound := by
      intro kept c hc
      dsimp only at hc
      rw [Table.get?_erase] at hc
      split at hc
      · cases hc
      · exact h.sound kept c hc }

/-! ## Aliases put and dropped -/

/-- An alias is put that no collection has as its name, on a collection that is there. -/
theorem Invariant.aim (h : db.Invariant) (ho : other ∉ db.collections.keys)
    (hn : name ∈ db.collections.keys) :
    { db with aliases := db.aliases.put other name }.Invariant where
  apart standing ha := by
    rcases (Table.mem_keys_put _ _ _ _).mp ha with rfl | ha
    · exact ho
    · exact h.apart standing ha
  aimed standing target ht := by
    dsimp only at ht
    rw [Table.get?_put] at ht
    split at ht
    · exact Option.some.inj ht ▸ hn
    · exact h.aimed standing target ht
  named := h.named
  sound := h.sound

theorem createAlias_eq_ok (h : db.createAlias name other = .ok after) :
    name ∈ db.collections.keys ∧ other ∉ db.aliases.keys ∧ other ∉ db.collections.keys ∧
      after = { db with aliases := db.aliases.put other name } := by
  unfold createAlias at h
  split at h
  · cases h
  · next hn =>
      split at h
      · cases h
      · next ho =>
          cases h
          rw [Table.contains_iff, Table.contains_iff, not_or] at ho
          refine ⟨?_, ho.1, ho.2, rfl⟩
          simpa [Table.contains_iff] using hn

theorem alterAlias_eq_ok (h : db.alterAlias name other = .ok after) :
    name ∈ db.collections.keys ∧ other ∈ db.aliases.keys ∧
      after = { db with aliases := db.aliases.put other name } := by
  unfold alterAlias at h
  split at h
  · cases h
  · next hn =>
      split at h
      · cases h
      · next ho =>
          cases h
          simp only [Bool.not_eq_true', Bool.not_eq_false, Table.contains_iff] at hn ho
          exact ⟨hn, ho, rfl⟩

theorem dropAlias_eq_ok (h : db.dropAlias other = .ok after) :
    other ∈ db.aliases.keys ∧ after = { db with aliases := db.aliases.erase other } := by
  unfold dropAlias at h
  split at h
  · cases h
  · next ho =>
      cases h
      simp only [Bool.not_eq_true', Bool.not_eq_false, Table.contains_iff] at ho
      exact ⟨ho, rfl⟩

theorem Invariant.createAlias (h : db.Invariant) (ha : db.createAlias name other = .ok after) :
    after.Invariant := by
  obtain ⟨hn, -, ho, rfl⟩ := createAlias_eq_ok ha
  exact h.aim ho hn

theorem Invariant.alterAlias (h : db.Invariant) (ha : db.alterAlias name other = .ok after) :
    after.Invariant := by
  obtain ⟨hn, ho, rfl⟩ := alterAlias_eq_ok ha
  exact h.aim (h.apart other ho) hn

theorem Invariant.dropAlias (h : db.Invariant) (ha : db.dropAlias other = .ok after) :
    after.Invariant := by
  obtain ⟨-, rfl⟩ := dropAlias_eq_ok ha
  exact {
    apart := fun standing hm => h.apart standing ((Table.mem_keys_erase _ _ _).mp hm).1
    aimed := by
      intro standing target ht
      dsimp only at ht
      rw [Table.get?_erase] at ht
      split at ht
      · cases ht
      · exact h.aimed standing target ht
    named := h.named
    sound := h.sound }

end ScalarStore.Database
