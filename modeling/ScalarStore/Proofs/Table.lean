import Mathlib.Data.List.Nodup
import Mathlib.Data.List.Perm.Basic
import ScalarStore.Table

/-! # The entries of a table

Looking up a name finds exactly the entry at it, because no name occurs twice. -/

namespace ScalarStore

theorem lookup_cons_eq_ite {α : Type} (key k : String) (v : α) (rest : List (String × α)) :
    ((k, v) :: rest).lookup key = if key = k then some v else rest.lookup key := by
  by_cases h : key = k
  · simp [h]
  · simp [List.lookup_cons, beq_false_of_ne h, h]

theorem lookup_eq_some_iff_mem {α : Type} {entries : List (String × α)}
    (h : (entries.map (·.1)).Nodup) (key : String) (value : α) :
    entries.lookup key = some value ↔ (key, value) ∈ entries := by
  induction entries with
  | nil => simp
  | cons entry rest ih =>
      obtain ⟨k, v⟩ := entry
      obtain ⟨hk, hrest⟩ := List.nodup_cons.mp h
      rw [lookup_cons_eq_ite, List.mem_cons, Prod.mk.injEq]
      by_cases he : key = k
      · subst he
        have hn : (key, value) ∉ rest := fun hm => hk (List.mem_map.mpr ⟨_, hm, rfl⟩)
        simp [hn, eq_comm]
      · simp [he, ih hrest]

theorem lookup_eq_none_iff_not_mem {α : Type} {entries : List (String × α)} {key : String} :
    entries.lookup key = none ↔ key ∉ entries.map (·.1) := by
  simp only [List.lookup_eq_none_iff, List.mem_map, not_exists, not_and]
  constructor
  · rintro h entry he rfl
    simpa using h entry he
  · intro h entry he
    simpa using fun hk => h entry he hk.symm

theorem exists_lookup_iff_mem {α : Type} {entries : List (String × α)} {key : String} :
    (∃ value, entries.lookup key = some value) ↔ key ∈ entries.map (·.1) := by
  rw [← Option.ne_none_iff_exists', ne_eq, lookup_eq_none_iff_not_mem, Classical.not_not]

theorem eraseDups_of_nodup {names : List String} (h : names.Nodup) : names.eraseDups = names := by
  induction names with
  | nil => rfl
  | cons name rest ih =>
      obtain ⟨hname, hrest⟩ := List.nodup_cons.mp h
      have hfilter : rest.filter (fun other => !other == name) = rest := by
        refine List.filter_eq_self.mpr fun other ho => ?_
        simpa using fun he : other = name => hname (he ▸ ho)
      rw [List.eraseDups_cons, hfilter, ih hrest]

/-- A name behind others is left out if it is among them. -/
theorem eraseDups_append_cons (names rest : List String) (name : String) :
    (names ++ name :: rest).eraseDups =
      ((if name ∈ names then names else names ++ [name]) ++ rest).eraseDups := by
  split
  · next hm =>
      rw [List.eraseDups_append, List.eraseDups_append, List.cons_removeAll,
        if_neg (by simpa using hm)]
  · rw [List.append_assoc, List.singleton_append]

theorem find?_eraseDups (p : String → Bool) : ∀ names : List String,
    names.eraseDups.find? p = names.find? p
  | [] => rfl
  | name :: rest => by
      rw [List.eraseDups_cons, List.find?_cons, List.find?_cons]
      cases hp : p name with
      | true => rfl
      | false =>
          have hothers : (fun other => decide ((!other == name) = true ∧ p other = true)) = p := by
            funext other
            by_cases ho : other = name <;> simp [ho, hp]
          rw [find?_eraseDups p, List.find?_filter, hothers]
termination_by names => names.length
decreasing_by
  simp only [List.length_cons]
  exact Nat.lt_succ_of_le (List.length_filter_le _ rest)

namespace Table

variable {α : Type}

theorem get?_eq_some_iff (t : Table α) (key : String) (value : α) :
    t.get? key = some value ↔ (key, value) ∈ t.entries :=
  lookup_eq_some_iff_mem t.distinct key value

theorem get?_eq_none_iff (t : Table α) (key : String) : t.get? key = none ↔ key ∉ t.keys :=
  lookup_eq_none_iff_not_mem

theorem contains_iff (t : Table α) (key : String) : t.contains key = true ↔ key ∈ t.keys := by
  simp [contains]

theorem mem_keys_of_get? {t : Table α} {key : String} {value : α} (h : t.get? key = some value) :
    key ∈ t.keys :=
  List.mem_map_of_mem ((t.get?_eq_some_iff key value).mp h)

theorem exists_get?_of_mem_keys {t : Table α} {key : String} (h : key ∈ t.keys) :
    ∃ value, t.get? key = some value := by
  obtain ⟨⟨name, value⟩, hm, rfl⟩ := List.mem_map.mp h
  exact ⟨value, (t.get?_eq_some_iff name value).mpr hm⟩

theorem mem_keys_put (t : Table α) (key name : String) (value : α) :
    name ∈ (t.put key value).keys ↔ name = key ∨ name ∈ t.keys := by
  rw [keys_put]
  split
  · next h =>
      constructor
      · exact .inr
      · rintro (rfl | hm)
        · exact h
        · exact hm
  · rw [List.mem_append, List.mem_singleton, or_comm]

theorem mem_keys_erase (t : Table α) (key name : String) :
    name ∈ (t.erase key).keys ↔ name ∈ t.keys ∧ name ≠ key := by
  rw [keys_erase]
  simp

theorem lookup_putEntry (key name : String) (value : α) (entries : List (String × α)) :
    (putEntry key value entries).lookup name =
      if name = key then some value else entries.lookup name := by
  induction entries with
  | nil => rw [putEntry, lookup_cons_eq_ite]
  | cons entry rest ih =>
      obtain ⟨k, v⟩ := entry
      by_cases hk : k = key
      · subst hk
        rw [putEntry, if_pos rfl, lookup_cons_eq_ite, lookup_cons_eq_ite]
        split <;> rfl
      · rw [putEntry, if_neg hk, lookup_cons_eq_ite, lookup_cons_eq_ite, ih]
        by_cases h : name = key
        · subst h
          simp [Ne.symm hk]
        · simp [h]

theorem get?_put (t : Table α) (key name : String) (value : α) :
    (t.put key value).get? name = if name = key then some value else t.get? name :=
  lookup_putEntry key name value t.entries

theorem get?_erase (t : Table α) (key name : String) :
    (t.erase key).get? name = if name = key then none else t.get? name := by
  by_cases h : name = key
  · rw [if_pos h, get?_eq_none_iff, keys_erase]
    simp [h]
  · rw [if_neg h]
    refine Option.ext fun value => ?_
    rw [get?_eq_some_iff, get?_eq_some_iff]
    simp [erase, h]

theorem ext_entries {t u : Table α} (h : t.entries = u.entries) : t = u := by
  cases t
  cases u
  cases h
  rfl

/-- Tables are equal if they have the same names, in the same order, with the same values. -/
theorem ext_get? {t u : Table α} (hk : t.keys = u.keys)
    (hget : ∀ key, t.get? key = u.get? key) : t = u := by
  refine ext_entries (List.ext_getElem ?_ fun i hi hj => ?_)
  · simpa [keys] using congrArg List.length hk
  · have hname : (t.entries[i]).1 = (u.entries[i]).1 := by
      have h := List.getElem_of_eq hk (i := i) (by simpa [keys] using hi)
      simpa [keys] using h
    have hmem : (u.entries[i].1, u.entries[i].2) ∈ u.entries := List.getElem_mem hj
    have hvalue := (u.get?_eq_some_iff _ _).mpr hmem
    have hfirst : ((t.entries[i]).1, (t.entries[i]).2) ∈ t.entries := List.getElem_mem hi
    rw [← hname, ← hget, (t.get?_eq_some_iff _ _).mpr hfirst] at hvalue
    exact Prod.ext hname (Option.some.inj hvalue)

theorem putEntry_of_lookup {key : String} {value : α} {entries : List (String × α)}
    (h : entries.lookup key = some value) : putEntry key value entries = entries := by
  induction entries with
  | nil => cases h
  | cons entry rest ih =>
      obtain ⟨k, v⟩ := entry
      rw [lookup_cons_eq_ite] at h
      by_cases hk : k = key
      · rw [if_pos hk.symm] at h
        rw [putEntry, if_pos hk, Option.some.inj h]
      · rw [if_neg (Ne.symm hk)] at h
        rw [putEntry, if_neg hk, ih h]

/-- Putting what is there already changes nothing. -/
theorem put_of_get? {t : Table α} {key : String} {value : α} (h : t.get? key = some value) :
    t.put key value = t := ext_entries (putEntry_of_lookup h)

/-- Of two values put at one name the second stays. -/
theorem put_put (t : Table α) (key : String) (value other : α) :
    (t.put key other).put key value = t.put key value := by
  have hentries (entries : List (String × α)) :
      putEntry key value (putEntry key other entries) = putEntry key value entries := by
    induction entries with
    | nil => simp [putEntry]
    | cons entry rest ih =>
        by_cases hk : entry.1 = key
        · simp [putEntry, hk]
        · simp [putEntry, hk, ih]
  exact ext_entries (hentries t.entries)

/-- Values at two names that are there can be put in either order. -/
theorem put_comm {t : Table α} {key other : String} (hne : key ≠ other) (hk : key ∈ t.keys)
    (ho : other ∈ t.keys) (v w : α) : (t.put key v).put other w = (t.put other w).put key v := by
  refine ext_get? ?_ fun name => ?_
  · simp only [keys_put, if_pos hk, if_pos ho]
  · simp only [get?_put]
    by_cases h : name = key
    · simp [h, hne]
    · simp [h]

theorem putEntry_of_not_mem {key : String} {value : α} {entries : List (String × α)}
    (h : key ∉ entries.map (·.1)) : putEntry key value entries = entries ++ [(key, value)] := by
  induction entries with
  | nil => rfl
  | cons entry rest ih =>
      obtain ⟨hk, hrest⟩ := not_or.mp (mt List.mem_cons.mpr h)
      rw [putEntry, if_neg (Ne.symm hk), ih hrest]
      rfl

/-- New names stand behind the old ones, in the order in which they are put. -/
theorem entries_putAll {entries : List (String × α)} {t : Table α}
    (h : (t.keys ++ entries.map (·.1)).Nodup) :
    (t.putAll entries).entries = t.entries ++ entries := by
  induction entries generalizing t with
  | nil => exact (List.append_nil _).symm
  | cons entry rest ih =>
      obtain ⟨k, v⟩ := entry
      rw [List.map_cons, ← List.singleton_append, ← List.append_assoc] at h
      have hk : k ∉ t.keys := fun hm =>
        (List.nodup_append.mp (List.nodup_append.mp h).1).2.2 k hm k (List.mem_singleton_self k) rfl
      have hput : (t.put k v).entries = t.entries ++ [(k, v)] := putEntry_of_not_mem hk
      have hkeys : (t.put k v).keys = t.keys ++ [k] := by rw [keys_put, if_neg hk]
      have hall : t.putAll ((k, v) :: rest) = (t.put k v).putAll rest := rfl
      rw [hall, ih (hkeys ▸ h), hput, List.append_assoc, List.singleton_append]

theorem entries_ofList {entries : List (String × α)} (h : (entries.map (·.1)).Nodup) :
    (ofList entries).entries = entries :=
  entries_putAll h

/-- A table is made again from its entries. -/
theorem ofList_entries (t : Table α) : ofList t.entries = t :=
  ext_entries (entries_ofList t.distinct)

/-- Erasing what is not there changes nothing. -/
theorem erase_of_not_mem {t : Table α} {key : String} (h : key ∉ t.keys) : t.erase key = t := by
  refine ext_entries (List.filter_eq_self.mpr fun entry hm => ?_)
  rw [decide_eq_true_eq]
  rintro rfl
  exact h (List.mem_map_of_mem hm)

/-- Erasing what was put at a new name gives the table back. -/
theorem erase_put {t : Table α} {key : String} (h : key ∉ t.keys) (value : α) :
    (t.put key value).erase key = t := by
  refine ext_get? ?_ fun name => ?_
  · have hkept : t.keys.filter (· ≠ key) = t.keys := by
      refine List.filter_eq_self.mpr fun name hm => ?_
      exact decide_eq_true (ne_of_mem_of_not_mem hm h)
    rw [keys_erase, keys_put, if_neg h, List.filter_append, hkept]
    simp
  · rw [get?_erase]
    split
    · next he => rw [he, (t.get?_eq_none_iff key).mpr h]
    · next he => rw [get?_put, if_neg he]

/-- Of entries that are put one after another, each at its own name, all are found. -/
theorem get?_putAll {entries : List (String × α)} (h : (entries.map (·.1)).Nodup) (t : Table α)
    (key : String) : (t.putAll entries).get? key = (entries.lookup key).or (t.get? key) := by
  induction entries generalizing t with
  | nil => rfl
  | cons entry rest ih =>
      obtain ⟨k, v⟩ := entry
      obtain ⟨hk, hrest⟩ := List.nodup_cons.mp h
      have hput : t.putAll ((k, v) :: rest) = (t.put k v).putAll rest := rfl
      rw [hput, ih hrest, get?_put, lookup_cons_eq_ite]
      by_cases he : key = k
      · subst he
        simp [lookup_eq_none_iff_not_mem.mpr hk]
      · simp [he]

/-- Of entries that are put one after another, the last one at a name is found. -/
theorem get?_putAll_last (entries : List (String × α)) (t : Table α) (key : String) :
    (t.putAll entries).get? key = (entries.reverse.lookup key).or (t.get? key) := by
  induction entries generalizing t with
  | nil => rfl
  | cons entry rest ih =>
      obtain ⟨k, v⟩ := entry
      have hput : t.putAll ((k, v) :: rest) = (t.put k v).putAll rest := rfl
      rw [hput, ih, get?_put, List.reverse_cons, List.lookup_append, lookup_cons_eq_ite,
        Option.or_assoc]
      by_cases he : key = k
      · simp [he]
      · simp [he]

/-- Names stand in the order in which they are first put. -/
theorem keys_putAll (entries : List (String × α)) (t : Table α) :
    (t.putAll entries).keys = (t.keys ++ entries.map (·.1)).eraseDups := by
  induction entries generalizing t with
  | nil =>
      have hkeys : t.keys.eraseDups = t.keys := eraseDups_of_nodup t.distinct
      rw [List.map_nil, List.append_nil, hkeys]
      rfl
  | cons entry rest ih =>
      obtain ⟨k, v⟩ := entry
      have hput : t.putAll ((k, v) :: rest) = (t.put k v).putAll rest := rfl
      rw [hput, ih, keys_put, List.map_cons, eraseDups_append_cons]

theorem get?_foldl_erase (names : List String) (t : Table α) (key : String) :
    (names.foldl erase t).get? key = if key ∈ names then none else t.get? key := by
  induction names generalizing t with
  | nil => simp
  | cons name rest ih =>
      rw [List.foldl_cons, ih, get?_erase]
      by_cases hname : key = name
      · simp [hname]
      · simp [hname]

theorem entries_foldl_erase (names : List String) (t : Table α) :
    (names.foldl erase t).entries = t.entries.filter (·.1 ∉ names) := by
  induction names generalizing t with
  | nil => simp
  | cons name rest ih =>
      rw [List.foldl_cons, ih, erase, List.filter_filter]
      refine List.filter_congr fun entry _ => ?_
      simp [Bool.and_comm]

/-- Erasing the names of some entries one by one leaves the others. -/
theorem foldl_erase_keys_filter (t : Table α) (p : String × α → Bool) :
    (t.filter p).keys.foldl erase t = t.filter fun entry => !p entry := by
  refine ext_entries ?_
  rw [entries_foldl_erase]
  refine List.filter_congr fun entry hm => ?_
  have hkey : entry.1 ∈ (t.filter p).keys ↔ p entry = true := by
    constructor
    · intro hk
      obtain ⟨other, ho, he⟩ := List.mem_map.mp hk
      obtain ⟨hmem, hp⟩ := List.mem_filter.mp ho
      exact List.inj_on_of_nodup_map t.distinct hmem hm he ▸ hp
    · exact fun hp => List.mem_map_of_mem (List.mem_filter.mpr ⟨hm, hp⟩)
  rw [Bool.eq_iff_iff]
  simp [hkey]

/-! ## Tables of two runs -/

variable {β : Type}

/-- Two tables are linked if they have the same names, in the same order, with related values. -/
structure Linked (R : String → α → β → Prop) (t : Table α) (u : Table β) : Prop where
  keys : u.keys = t.keys
  related : ∀ key x y, t.get? key = some x → u.get? key = some y → R key x y

namespace Linked

variable {R S : String → α → β → Prop} {t : Table α} {u : Table β} {key : String}

theorem empty : Linked R (Table.empty : Table α) (Table.empty : Table β) where
  keys := rfl
  related _ _ _ h := nomatch h

theorem mono (h : Linked R t u)
    (hs : ∀ key x y, t.get? key = some x → u.get? key = some y → R key x y → S key x y) :
    Linked S t u :=
  ⟨h.keys, fun key x y hx hy => hs key x y hx hy (h.related key x y hx hy)⟩

theorem contains (h : Linked R t u) (key : String) : u.contains key = t.contains key := by
  rw [Table.contains, Table.contains, h.keys]

theorem get? (h : Linked R t u) (key : String) :
    (t.get? key = none ∧ u.get? key = none) ∨
      ∃ x y, t.get? key = some x ∧ u.get? key = some y ∧ R key x y := by
  by_cases hm : key ∈ t.keys
  · obtain ⟨x, hx⟩ := exists_get?_of_mem_keys hm
    obtain ⟨y, hy⟩ := exists_get?_of_mem_keys (h.keys ▸ hm)
    exact .inr ⟨x, y, hx, hy, h.related key x y hx hy⟩
  · exact .inl ⟨(t.get?_eq_none_iff key).mpr hm, (u.get?_eq_none_iff key).mpr (h.keys ▸ hm)⟩

theorem put (h : Linked R t u) {x : α} {y : β} (hxy : R key x y) :
    Linked R (t.put key x) (u.put key y) where
  keys := by rw [keys_put, keys_put, h.keys]
  related other a b ha hb := by
    rw [get?_put] at ha hb
    split at ha
    · next he =>
        rw [if_pos he] at hb
        cases ha
        cases hb
        exact he ▸ hxy
    · next he =>
        rw [if_neg he] at hb
        exact h.related other a b ha hb

theorem erase (h : Linked R t u) (key : String) : Linked R (t.erase key) (u.erase key) where
  keys := by rw [keys_erase, keys_erase, h.keys]
  related other a b ha hb := by
    rw [get?_erase] at ha hb
    split at ha
    · cases ha
    · next he =>
        rw [if_neg he] at hb
        exact h.related other a b ha hb

theorem size (h : Linked R t u) : u.size = t.size := by
  have hlength := congrArg List.length h.keys
  rwa [Table.keys, Table.keys, List.length_map, List.length_map] at hlength

theorem isEmpty (h : Linked R t u) : u.isEmpty = t.isEmpty := by
  have hsize := h.size
  rw [Table.size, Table.size] at hsize
  rw [Bool.eq_iff_iff, Table.isEmpty, Table.isEmpty, List.isEmpty_iff_length_eq_zero,
    List.isEmpty_iff_length_eq_zero, hsize]

/-- The entries of linked tables are related one by one. -/
theorem entries (h : Linked R t u) :
    List.Forall₂ (fun a b => b.1 = a.1 ∧ R a.1 a.2 b.2) t.entries u.entries := by
  rw [List.forall₂_iff_get]
  refine ⟨h.size.symm, fun i hi hj => ?_⟩
  have hname : (u.entries.get ⟨i, hj⟩).1 = (t.entries.get ⟨i, hi⟩).1 := by
    have hget := List.getElem_of_eq h.keys (i := i) (by simpa [Table.keys] using hj)
    simpa [Table.keys] using hget
  refine ⟨hname, h.related _ _ _ ?_ ?_⟩
  · exact (t.get?_eq_some_iff _ _).mpr (List.get_mem _ _)
  · rw [← hname]
    exact (u.get?_eq_some_iff _ _).mpr (List.get_mem _ _)

end Linked

end Table

end ScalarStore
