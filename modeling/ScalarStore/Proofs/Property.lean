import ScalarStore.Proofs.Outcome
import ScalarStore.Proofs.Table
import ScalarStore.Property

/-! # Checked properties

The value at the key of the time to live is an integer that is not negative wherever it has passed
the check, because a later reader takes it from the same text. -/

namespace ScalarStore

namespace Property

variable {properties : Properties} {fault : Fault}

theorem readTtl_nonneg {v : Value} {n : Int} (h : readTtl v = .ok n) : 0 ≤ n := by
  obtain ⟨whole, -, h⟩ := bind_eq_ok_iff.mp h
  cases whole with
  | none =>
      obtain ⟨_, -, h⟩ := bind_eq_ok_iff.mp h
      cases h
  | some m =>
      dsimp only at h
      split at h
      · cases h
      · next hm =>
          cases h
          exact Int.not_lt.mp hm

theorem readTtl_of_readInteger {s : String} {n : Int} (h : Text.readInteger s = .ok n)
    (hn : 0 ≤ n) : readTtl (.str s) = .ok n := by
  have hwhole : wholeNumber? (.str s) = .ok (some n) := by
    simp only [wholeNumber?, h]
  rw [readTtl, hwhole]
  simp only [bind, Except.bind]
  rw [if_neg (Int.not_lt.mpr hn)]
  rfl

/-- Texts are stored as they are. -/
theorem ofEntries_texts (entries : List (String × String)) :
    ofEntries (entries.map fun entry => (.str entry.1, .str entry.2)) =
      .ok (Table.ofList entries) := by
  refine bind_eq_ok_iff.mpr ⟨entries, mapM_eq_ok_iff.mpr ?_, rfl⟩
  rw [List.forall₂_map_left_iff]
  exact List.forall₂_same.mpr fun _ _ => rfl

theorem check_eq_ok {find : String → Option Value} (h : check find = .ok ()) :
    ∀ v ∈ find ttlKey, ∃ n, readTtl v = .ok n := by
  intro v hv
  rw [check, hv] at h
  obtain ⟨n, hn, -⟩ := bind_eq_ok_iff.mp h
  exact ⟨n, hn⟩

theorem check_eq_ok_iff {find : String → Option Value} : check find = .ok () ↔
    (∀ v ∈ find ttlKey, ∃ n, readTtl v = .ok n) ∧ ∀ v ∈ find mmapKey, ∃ b, readMmap v = .ok b := by
  unfold check
  cases find ttlKey with
  | none =>
      cases find mmapKey with
      | none => simp [pure, Except.pure]
      | some w =>
          cases hw : readMmap w <;> simp [bind, Except.bind, pure, Except.pure, hw]
  | some v =>
      cases find mmapKey with
      | none => cases hv : readTtl v <;> simp [bind, Except.bind, pure, Except.pure, hv]
      | some w =>
          cases hv : readTtl v <;> cases hw : readMmap w <;>
            simp [bind, Except.bind, pure, Except.pure, hv, hw]

/-- A value at one of the two keys is the reason why a check fails. -/
theorem check_eq_error {find : String → Option Value} (h : check find = .error fault) :
    (∃ v ∈ find ttlKey, readTtl v = .error fault) ∨
      ∃ v ∈ find mmapKey, readMmap v = .error fault := by
  unfold check at h
  cases ht : find ttlKey with
  | none =>
      rw [ht] at h
      cases hm : find mmapKey with
      | none =>
          rw [hm] at h
          cases h
      | some w =>
          rw [hm] at h
          rcases bind_eq_error_iff.mp h with hread | ⟨_, -, h⟩
          · exact .inr ⟨w, rfl, hread⟩
          · cases h
  | some v =>
      rw [ht] at h
      rcases bind_eq_error_iff.mp h with hread | ⟨_, -, h⟩
      · exact .inl ⟨v, rfl, hread⟩
      · cases hm : find mmapKey with
        | none =>
            rw [hm] at h
            cases h
        | some w =>
            rw [hm] at h
            rcases bind_eq_error_iff.mp h with hread | ⟨_, -, h⟩
            · exact .inr ⟨w, rfl, hread⟩
            · cases h

/-- Why a text is no time to live. -/
theorem readTtl_text_eq_error {s : String} (h : readTtl (.str s) = .error fault) :
    fault = .parameter (.ttlText (.str s)) ∨ fault = .parameter .ttlNegative := by
  have hwhole : ∃ n, wholeNumber? (.str s) = .ok n := by
    unfold wholeNumber?
    dsimp only
    split <;> exact ⟨_, rfl⟩
  obtain ⟨n, hn⟩ := hwhole
  rw [readTtl, hn] at h
  cases n with
  | none =>
      cases h
      exact .inl rfl
  | some n =>
      simp only [bind, Except.bind] at h
      split at h
      · cases h
        exact .inr rfl
      · cases h

theorem readMmap_text_eq_error {s : String} (h : readMmap (.str s) = .error fault) :
    fault = .parameter (.mmapText (.str s)) := by
  unfold readMmap at h
  obtain hw | ⟨word, -, h⟩ := bind_eq_error_iff.mp h
  · cases hw
  · dsimp only at h
    split at h
    · cases h
    · split at h
      · cases h
      · cases h
        rfl

end Property

namespace Properties

variable {p q : Properties}

/-- The time to live can be read, and it is not negative. -/
def Timed (p : Properties) : Prop := ∃ seconds, p.ttl? = .ok seconds ∧ ∀ n ∈ seconds, 0 ≤ n

theorem Timed.congr (h : p.Timed) (hq : q.get? Property.ttlKey = p.get? Property.ttlKey) :
    q.Timed := by
  obtain ⟨seconds, hread, hn⟩ := h
  refine ⟨seconds, ?_, hn⟩
  rw [ttl?, hq]
  exact hread

theorem timed_of_none (h : p.get? Property.ttlKey = none) : p.Timed :=
  ⟨none, by rw [ttl?, h], nofun⟩

theorem timed_of_check (h : Property.check p.find = .ok ()) : p.Timed := by
  cases hs : p.get? Property.ttlKey with
  | none => exact timed_of_none hs
  | some s =>
      obtain ⟨n, hn⟩ := Property.check_eq_ok h (.str s) (by rw [find, hs]; rfl)
      refine ⟨some n, by rw [ttl?, hs]; simp only [hn]; rfl, fun m hm => ?_⟩
      cases hm
      exact Property.readTtl_nonneg hn

/-- The time to live comes from the new properties if they have one, else from the old ones. -/
theorem Timed.putAll (h : p.Timed) (hq : q.Timed) : Timed (p.putAll q.entries) := by
  have hget := p.get?_putAll q.distinct Property.ttlKey
  cases hs : q.get? Property.ttlKey with
  | none =>
      refine h.congr ?_
      rw [hget, show q.entries.lookup Property.ttlKey = none from hs, Option.none_or]
  | some s =>
      refine hq.congr ?_
      rw [hget, hs, show q.entries.lookup Property.ttlKey = some s from hs, Option.some_or]

theorem Timed.erase (h : p.Timed) (keys : List String) : Timed (keys.foldl Table.erase p) := by
  have hget := p.get?_foldl_erase keys Property.ttlKey
  split at hget
  · exact timed_of_none hget
  · exact h.congr hget

/-! ## Properties that pass the check -/

/-- The values at the keys that have a meaning can be read. -/
def Checked (p : Properties) : Prop := Property.check p.find = .ok ()

theorem checked_empty : Checked .empty := rfl

/-- What a key has comes from the new properties if they have it, else from the old ones. -/
theorem find_putAll (p q : Properties) (key : String) :
    find (p.putAll q.entries) key = (q.find key).or (p.find key) := by
  rw [find, p.get?_putAll q.distinct key]
  cases hq : q.entries.lookup key <;> simp [find, Table.get?, hq]

theorem Checked.putAll (h : p.Checked) (hq : q.Checked) : Checked (p.putAll q.entries) := by
  obtain ⟨httl, hmmap⟩ := Property.check_eq_ok_iff.mp h
  obtain ⟨hnewTtl, hnewMmap⟩ := Property.check_eq_ok_iff.mp hq
  have hfound (key : String) {v : Value} (hv : v ∈ find (p.putAll q.entries) key) :
      v ∈ q.find key ∨ v ∈ p.find key := by
    rw [find_putAll] at hv
    exact (Option.or_eq_some_iff.mp hv).imp id And.right
  refine Property.check_eq_ok_iff.mpr ⟨fun v hv => ?_, fun v hv => ?_⟩
  · exact (hfound _ hv).elim (hnewTtl v) (httl v)
  · exact (hfound _ hv).elim (hnewMmap v) (hmmap v)

theorem Checked.erase (h : p.Checked) (keys : List String) :
    Checked (keys.foldl Table.erase p) := by
  obtain ⟨httl, hmmap⟩ := Property.check_eq_ok_iff.mp h
  have hfound (key : String) {v : Value} (hv : v ∈ find (keys.foldl Table.erase p) key) :
      v ∈ p.find key := by
    rw [find, p.get?_foldl_erase keys key] at hv
    split at hv
    · cases hv
    · exact hv
  exact Property.check_eq_ok_iff.mpr
    ⟨fun v hv => httl v (hfound _ hv), fun v hv => hmmap v (hfound _ hv)⟩

end Properties

end ScalarStore
