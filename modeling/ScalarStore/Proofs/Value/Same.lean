import ScalarStore.Proofs.Numeric.Digits
import ScalarStore.Proofs.Numeric.Exact

/-! # Values of the same content

Equality by content relates numbers of different kinds, so it need not keep what depends on
kinds. It is symmetric where maps have distinct keys; `nan` is not even the same as itself, and
coincides only with the object that it is. -/

namespace ScalarStore

namespace Value

variable {v w : Value}

/-! ## Numbers -/

theorem same_of_number? {m n : Number} (hv : v.number? = some m) (hw : w.number? = some n) :
    v.same w = (m.compare? n == some .eq) := by
  cases v <;> cases w <;> simp_all [number?, same]

theorem number?_of_same {m : Number} (h : v.same w = true) (hv : v.number? = some m) :
    ∃ n, w.number? = some n ∧ m.exactValue? = n.exactValue? := by
  have hw : ∃ n, w.number? = some n := by
    cases v <;> cases w <;> simp_all [same, number?]
  obtain ⟨n, hn⟩ := hw
  rw [same_of_number? hv hn, beq_iff_eq] at h
  exact ⟨n, hn, Number.exactValue?_of_compare? h⟩

theorem same_eq_false_of_number? {n : Number} (hv : v.number? = none) (hw : w.number? = some n) :
    v.same w = false := by
  cases v <;> cases w <;> simp_all [same, number?]

/-- Values of the same content are of one kind or are both numbers. -/
theorem kind_of_same (h : v.same w = true) :
    v.kind = w.kind ∨ ∃ m n, v.number? = some m ∧ w.number? = some n := by
  cases v <;> cases w <;> simp_all [same, kind, number?]

/-! ## One object -/

theorem same_nan_left (object : Option ℕ) (w : Value) : (float (.nan object)).same w = false := by
  cases w <;> rfl

theorem same_nan_right (v : Value) (object : Option ℕ) : v.same (.float (.nan object)) = false := by
  cases v with
  | float x => cases x <;> rfl
  | _ => rfl

theorem isOneNan_iff :
    v.isOneNan w = true ↔ v = w ∧ ∃ object, v = .float (.nan (some object)) := by
  constructor
  · intro h
    unfold isOneNan at h
    split at h
    · next a b =>
        obtain rfl := beq_iff_eq.mp h
        exact ⟨rfl, a, rfl⟩
    · cases h
  · rintro ⟨rfl, object, rfl⟩
    exact beq_self_eq_true object

theorem eq_of_isOneNan (h : v.isOneNan w = true) : v = w := (isOneNan_iff.mp h).1

/-- A value of the same content as another is no `nan`. -/
theorem isOneNan_eq_false_of_same (h : v.same w = true) (u : Value) :
    u.isOneNan v = false ∧ u.isOneNan w = false := by
  rw [← Bool.not_eq_true, ← Bool.not_eq_true, isOneNan_iff, isOneNan_iff]
  constructor
  · rintro ⟨rfl, object, rfl⟩
    rw [same_nan_left] at h
    cases h
  · rintro ⟨rfl, object, rfl⟩
    rw [same_nan_right] at h
    cases h

theorem coincides_iff : v.coincides w = true ↔ v.same w = true ∨ v.isOneNan w = true := by
  rw [coincides, Bool.or_eq_true]

theorem sameItems_cons (v w : Value) (rest others : List Value) :
    sameItems (v :: rest) (w :: others) = (v.coincides w && sameItems rest others) := rfl

/-! ## Keys -/

/-- Keys of the same content that are no tuples are one value, show one moment or are equal
numbers. -/
theorem key_of_same (hkey : v.isKey = true) (htuple : ∀ items, v ≠ .tuple items)
    (h : v.same w = true) :
    v = w ∨ (∃ a b, v = .moment a ∧ w = .moment b ∧ a.same b = true) ∨
      ∃ m n, v.number? = some m ∧ w.number? = some n ∧ m.exactValue? = n.exactValue? := by
  cases hv : v.number? with
  | some m =>
      obtain ⟨n, hn, he⟩ := number?_of_same h hv
      exact .inr (.inr ⟨m, n, rfl, hn, he⟩)
  | none =>
      cases v with
      | list items => cases hkey
      | map entries => cases hkey
      | tuple items => exact absurd rfl (htuple items)
      | _ => cases w <;> simp_all [same, number?]

/-- Under an equality, a value takes the place of a key: it is a key, too, and what equals the one
equals the other. -/
structure OneKey (equals : Value → Value → Bool) (v w : Value) : Prop where
  isKey : w.isKey = true
  symm : equals w v = true
  congr (u : Value) : equals u v = equals u w

theorem oneKey_of_plain (hkey : v.isKey = true) (htuple : ∀ items, v ≠ .tuple items)
    (h : v.same w = true) : OneKey same v w := by
  rcases key_of_same hkey htuple h with rfl | ⟨a, b, rfl, rfl, hab⟩ | ⟨m, n, hm, hn, he⟩
  · exact ⟨hkey, h, fun _ => rfl⟩
  · simp only [Moment.same, Bool.and_eq_true, beq_iff_eq] at hab
    refine ⟨rfl, by simp [same, Moment.same, hab.1, hab.2], fun u => ?_⟩
    cases u with
    | moment c => simp only [same, Moment.same, hab.1, hab.2]
    | _ => rfl
  · refine ⟨?_, ?_, fun u => ?_⟩
    · cases w <;> first | rfl | cases hn
    · rw [same_of_number? hm hn, beq_iff_eq] at h
      rw [same_of_number? hn hm, beq_iff_eq]
      exact Number.compare?_eq_eq_comm.mp h
    · cases hu : u.number? with
      | none => rw [same_eq_false_of_number? hu hm, same_eq_false_of_number? hu hn]
      | some k =>
          rw [same_of_number? hu hm, same_of_number? hu hn, Bool.eq_iff_iff, beq_iff_eq,
            beq_iff_eq]
          exact Number.compare?_eq_eq_congr he k

/-- So it does where tuples, maps and sets hold the key. -/
theorem OneKey.of_coincides (hone : v.same w = true → OneKey same v w) (hkey : v.isKey = true)
    (h : v.coincides w = true) : OneKey coincides v w := by
  rcases coincides_iff.mp h with hsame | hnan
  · obtain ⟨hw, hsymm, hcongr⟩ := hone hsame
    refine ⟨hw, coincides_iff.mpr (.inl hsymm), fun u => ?_⟩
    obtain ⟨hv, hw⟩ := isOneNan_eq_false_of_same hsame u
    rw [coincides, coincides, hcongr, hv, hw]
  · obtain rfl := eq_of_isOneNan hnan
    exact ⟨hkey, h, fun _ => rfl⟩

mutual

theorem oneKey_of_same : (v : Value) → {w : Value} → v.isKey = true → v.same w = true →
    OneKey same v w
  | .tuple items, w, hkey, h => by
      cases w with
      | tuple others =>
          obtain ⟨hothers, hsymm, hcongr⟩ :=
            oneKeys_of_sameItems items (Option.isNone_iff_eq_none.mp hkey) h
          refine ⟨Option.isNone_iff_eq_none.mpr hothers, hsymm, fun u => ?_⟩
          cases u with
          | tuple us => exact hcongr us
          | _ => rfl
      | _ => cases h
  | .list _, _, hkey, _ | .map _, _, hkey, _ => by cases hkey
  | .null, _, hkey, h | .bool _, _, hkey, h | .int _, _, hkey, h | .float _, _, hkey, h
  | .str _, _, hkey, h | .day _, _, hkey, h | .moment _, _, hkey, h =>
      oneKey_of_plain hkey nofun h

theorem oneKeys_of_sameItems : (items : List Value) → {others : List Value} →
    nonKeyAmong? items = none → sameItems items others = true →
      nonKeyAmong? others = none ∧ sameItems others items = true ∧
        ∀ us, sameItems us items = sameItems us others
  | [], [], _, _ => ⟨rfl, rfl, fun _ => rfl⟩
  | [], _ :: _, _, h => by cases h
  | _ :: _, [], _, h => by cases h
  | v :: rest, w :: others, hkeys, h => by
      rw [nonKeyAmong?, Option.or_eq_none_iff] at hkeys
      rw [sameItems_cons, Bool.and_eq_true] at h
      obtain ⟨hkey, hsymm, hcongr⟩ := OneKey.of_coincides
        (oneKey_of_same v (Option.isNone_iff_eq_none.mpr hkeys.1))
        (Option.isNone_iff_eq_none.mpr hkeys.1) h.1
      obtain ⟨hothers, hsymms, hcongrs⟩ := oneKeys_of_sameItems rest hkeys.2 h.2
      refine ⟨?_, ?_, fun us => ?_⟩
      · rw [nonKeyAmong?, Option.isNone_iff_eq_none.mp hkey, hothers]
        rfl
      · rw [sameItems_cons, hsymm, hsymms]
        rfl
      · cases us with
        | nil => rfl
        | cons u us => rw [sameItems_cons, sameItems_cons, hcongr, hcongrs]

end

theorem oneKey_of_coincides (hkey : v.isKey = true) (h : v.coincides w = true) :
    OneKey coincides v w :=
  OneKey.of_coincides (oneKey_of_same v hkey) hkey h

/-! ## Maps -/

mutual

/-- Whether the keys of all maps within a value are distinct, and no lists or maps. -/
def hasDistinctKeys : Value → Bool
  | .list items | .tuple items => itemsHaveDistinctKeys items
  | .map entries => entriesHaveDistinctKeys entries
  | _ => true

def itemsHaveDistinctKeys : List Value → Bool
  | [] => true
  | v :: rest => hasDistinctKeys v && itemsHaveDistinctKeys rest

def entriesHaveDistinctKeys : List (Value × Value) → Bool
  | [] => true
  | (k, v) :: rest =>
      k.isKey && !rest.any (fun entry => k.coincides entry.1) && hasDistinctKeys v &&
        entriesHaveDistinctKeys rest

end

theorem sameEntries_iff {entries others : List (Value × Value)} :
    sameEntries entries others = true ↔
      ∀ entry ∈ entries, ∃ other ∈ others, entry.1.coincides other.1 = true ∧
        entry.2.coincides other.2 = true := by
  induction entries with
  | nil => simp [sameEntries]
  | cons entry rest ih => simp [sameEntries, ih, coincides]

/-- Partners of distinct elements leave no element of a list without one that is not longer. -/
theorem exists_partner {α β : Type} {R : α → β → Prop} {as : List α} {bs : List β}
    (hpartner : ∀ a ∈ as, ∃ b ∈ bs, R a b) (hlength : bs.length ≤ as.length)
    (hdistinct : as.Pairwise fun a a' => ∀ b, R a b → ¬ R a' b) :
    ∀ b ∈ bs, ∃ a ∈ as, R a b := by
  induction as generalizing bs with
  | nil =>
      rw [List.eq_nil_of_length_eq_zero (Nat.le_zero.mp hlength)]
      exact List.forall_mem_nil _
  | cons a as ih =>
      obtain ⟨⟨b, hb, hr⟩, hpartner⟩ := List.forall_mem_cons.mp hpartner
      obtain ⟨hapart, hdistinct⟩ := List.pairwise_cons.mp hdistinct
      -- The partner of the first element is that of no other, so it can be taken out.
      obtain ⟨front, back, rfl⟩ := List.append_of_mem hb
      have hrest : ∀ a' ∈ as, ∃ b' ∈ front ++ back, R a' b' := by
        intro a' ha'
        obtain ⟨b', hb', hr'⟩ := hpartner a' ha'
        have hne : b' ≠ b := by
          rintro rfl
          exact hapart a' ha' b' hr hr'
        refine ⟨b', ?_, hr'⟩
        simpa [hne] using hb'
      have hothers := ih hrest (by simp at hlength ⊢; omega) hdistinct
      intro b' hb'
      by_cases he : b' = b
      · exact ⟨a, List.mem_cons_self, he ▸ hr⟩
      · obtain ⟨a', ha', hr'⟩ := hothers b' (by simpa [he] using hb')
        exact ⟨a', List.mem_cons_of_mem _ ha', hr'⟩

theorem entriesHaveDistinctKeys_iff {entries : List (Value × Value)} :
    entriesHaveDistinctKeys entries = true ↔
      (∀ entry ∈ entries, entry.1.isKey = true ∧ entry.2.hasDistinctKeys = true) ∧
        entries.Pairwise fun entry other => entry.1.coincides other.1 = false := by
  induction entries with
  | nil => simp [entriesHaveDistinctKeys]
  | cons entry rest ih =>
      simp only [entriesHaveDistinctKeys, ih, Bool.and_eq_true, Bool.not_eq_true',
        Bool.not_eq_true, List.any_eq_false, List.forall_mem_cons, List.pairwise_cons]
      tauto

/-- Entries of distinct keys do not agree with one entry. -/
theorem entries_pairwise {entries : List (Value × Value)}
    (hdistinct : entriesHaveDistinctKeys entries = true) :
    entries.Pairwise fun entry entry' => ∀ other : Value × Value,
      entry.1.coincides other.1 = true ∧ entry.2.coincides other.2 = true →
        ¬ (entry'.1.coincides other.1 = true ∧ entry'.2.coincides other.2 = true) := by
  obtain ⟨hkeys, hapart⟩ := entriesHaveDistinctKeys_iff.mp hdistinct
  refine hapart.imp_of_mem fun {entry entry'} hm hm' hne other h h' => ?_
  have hone := oneKey_of_coincides (hkeys entry' hm').1 h'.1
  rw [hone.congr, h.1] at hne
  cases hne

theorem coincides_symm_of (hsymm : v.same w = true → w.same v = true) (h : v.coincides w = true) :
    w.coincides v = true := by
  rcases coincides_iff.mp h with hsame | hnan
  · exact coincides_iff.mpr (.inl (hsymm hsame))
  · obtain rfl := eq_of_isOneNan hnan
    exact h

mutual

theorem same_symm : (v : Value) → {w : Value} → v.hasDistinctKeys = true → v.same w = true →
    w.same v = true
  | .list items, w, hdistinct, h | .tuple items, w, hdistinct, h => by
      cases w <;> first | exact sameItems_symm items hdistinct h | cases h
  | .map entries, w, hdistinct, h => by
      cases w with
      | map others =>
          rw [same, Bool.and_eq_true, beq_iff_eq] at h ⊢
          refine ⟨h.1.symm, sameEntries_iff.mpr fun other hm => ?_⟩
          obtain ⟨entry, he, hkey, hvalue⟩ := exists_partner (sameEntries_iff.mp h.2) h.1.ge
            (entries_pairwise hdistinct) other hm
          have hisKey := ((entriesHaveDistinctKeys_iff.mp hdistinct).1 entry he).1
          exact ⟨entry, he, (oneKey_of_coincides hisKey hkey).symm,
            entries_symm entries hdistinct entry he hvalue⟩
      | _ => cases h
  | .null, _, _, h | .bool _, _, _, h | .int _, _, _, h | .float _, _, _, h | .str _, _, _, h
  | .day _, _, _, h | .moment _, _, _, h => (oneKey_of_same _ rfl h).symm

theorem sameItems_symm : (items : List Value) → {others : List Value} →
    itemsHaveDistinctKeys items = true → sameItems items others = true →
      sameItems others items = true
  | [], [], _, _ => rfl
  | [], _ :: _, _, h => by cases h
  | _ :: _, [], _, h => by cases h
  | v :: rest, w :: others, hdistinct, h => by
      rw [itemsHaveDistinctKeys, Bool.and_eq_true] at hdistinct
      rw [sameItems_cons, Bool.and_eq_true] at h ⊢
      exact ⟨coincides_symm_of (same_symm v hdistinct.1) h.1, sameItems_symm rest hdistinct.2 h.2⟩

theorem entries_symm : (entries : List (Value × Value)) →
    entriesHaveDistinctKeys entries = true → ∀ entry ∈ entries, ∀ {w : Value},
      entry.2.coincides w = true → w.coincides entry.2 = true
  | [], _, _, hm, _, _ => by cases hm
  | (k, v) :: rest, hdistinct, entry, hm, w, h => by
      simp only [entriesHaveDistinctKeys, Bool.and_eq_true] at hdistinct
      rcases List.mem_cons.mp hm with rfl | hm
      · exact coincides_symm_of (same_symm v hdistinct.1.2) h
      · exact entries_symm rest hdistinct.2 entry hm h

end

/-! ## Long integers -/

section

variable {limit : ℕ}

/-- No number but an integer equals one that is too long to be written. -/
theorem longInteger_of_same_int (hlimit : 1024 ≤ limit) {n : ℤ}
    (h : (Value.int n).same w = true)
    (hlong : (Value.int n).hasLongInteger limit = true) : w.hasLongInteger limit = true := by
  obtain ⟨k, hk, he⟩ := number?_of_same h rfl
  have hbig : ¬ n.natAbs < 10 ^ limit := fun hlt => by
    rw [(hasLongInteger_int (by omega) n).mpr hlt] at hlong
    cases hlong
  cases w with
  | int m =>
      cases hk
      obtain rfl : n = m := by simpa [Number.exactValue?] using he
      exact hlong
  | bool b =>
      cases hk
      obtain rfl : n = b.toInt := by simpa [Number.exactValue?] using he
      have hsmall : b.toInt.natAbs ≤ 1 := by cases b <;> decide
      exact absurd (hsmall.trans_lt (Nat.one_lt_pow (by omega) (by omega))) hbig
  | float x =>
      cases hk
      have hten : 2 ^ limit ≤ 10 ^ limit := Nat.pow_le_pow_left (by decide) limit
      have hpow : 2 ^ 1024 ≤ 10 ^ limit := le_trans (pow_le_pow_right₀ one_le_two hlimit) hten
      exact absurd (lt_of_lt_of_le (Binary64.natAbs_lt_of_exactValue? he.symm) hpow) hbig
  | _ => cases hk

theorem entriesHaveLongInteger_iff {entries : List (Value × Value)} :
    entriesHaveLongInteger limit entries = true ↔ ∃ entry ∈ entries,
      entry.1.hasLongInteger limit = true ∨ entry.2.hasLongInteger limit = true := by
  induction entries with
  | nil => simp [entriesHaveLongInteger]
  | cons entry rest ih => simp [entriesHaveLongInteger, ih]

theorem longInteger_of_coincides
    (hsame : v.same w = true → v.hasLongInteger limit = true → w.hasLongInteger limit = true)
    (h : v.coincides w = true) (hlong : v.hasLongInteger limit = true) :
    w.hasLongInteger limit = true := by
  rcases coincides_iff.mp h with h | hnan
  · exact hsame h hlong
  · exact eq_of_isOneNan hnan ▸ hlong

mutual

theorem longInteger_of_same (hlimit : 1024 ≤ limit) : (v : Value) → {w : Value} → v.same w = true →
    v.hasLongInteger limit = true → w.hasLongInteger limit = true
  | .int _, _, h, hlong => longInteger_of_same_int hlimit h hlong
  | .list items, w, h, hlong | .tuple items, w, h, hlong => by
      cases w <;> first | exact longInteger_of_sameItems hlimit items h hlong | cases h
  | .map entries, w, h, hlong => by
      cases w with
      | map others =>
          rw [same, Bool.and_eq_true] at h
          exact longInteger_of_sameEntries hlimit entries h.2 hlong
      | _ => cases h
  | .null, _, _, hlong | .bool _, _, _, hlong | .float _, _, _, hlong | .str _, _, _, hlong
  | .day _, _, _, hlong | .moment _, _, _, hlong => by cases hlong

theorem longInteger_of_sameItems (hlimit : 1024 ≤ limit) : (items : List Value) →
    {others : List Value} →
    sameItems items others = true → itemsHaveLongInteger limit items = true →
      itemsHaveLongInteger limit others = true
  | [], _, _, hlong => by cases hlong
  | _ :: _, [], h, _ => by cases h
  | v :: rest, w :: others, h, hlong => by
      rw [sameItems_cons, Bool.and_eq_true] at h
      rw [itemsHaveLongInteger, Bool.or_eq_true] at hlong ⊢
      exact hlong.imp (longInteger_of_coincides (longInteger_of_same hlimit v) h.1)
        (longInteger_of_sameItems hlimit rest h.2)

theorem longInteger_of_sameEntries (hlimit : 1024 ≤ limit) : (entries : List (Value × Value)) →
    {others : List (Value × Value)} → sameEntries entries others = true →
      entriesHaveLongInteger limit entries = true → entriesHaveLongInteger limit others = true
  | [], _, _, hlong => by cases hlong
  | (k, v) :: rest, others, h, hlong => by
      obtain ⟨⟨other, hm, hkey, hvalue⟩, hrest⟩ := List.forall_mem_cons.mp (sameEntries_iff.mp h)
      rw [entriesHaveLongInteger, Bool.or_eq_true, Bool.or_eq_true] at hlong
      rcases hlong with hlong | hlong
      · exact entriesHaveLongInteger_iff.mpr ⟨other, hm,
          hlong.imp (longInteger_of_coincides (longInteger_of_same hlimit k) hkey)
            (longInteger_of_coincides (longInteger_of_same hlimit v) hvalue)⟩
      · exact longInteger_of_sameEntries hlimit rest (sameEntries_iff.mpr hrest) hlong

end

end

/-- Values of the same content can both be written or neither can. -/
theorem hasLongInteger_of_same (hdistinct : v.hasDistinctKeys = true) (h : v.same w = true) :
    v.hasLongInteger Text.digitLimit = w.hasLongInteger Text.digitLimit := by
  have hlimit : 1024 ≤ Text.digitLimit := by decide
  rw [Bool.eq_iff_iff]
  exact ⟨longInteger_of_same hlimit v h, longInteger_of_same hlimit w (same_symm v hdistinct h)⟩

end Value

end ScalarStore
