import ScalarStore.Proofs.Predicate.Leaf

/-! # What a range decides

All integers of a range may stand alike to a number: all in a relation to it, or none. If the
number lies beyond the range, they do, and the range decides the comparison. A number of the range
is left open, also where the integers happen to agree on it: at an end of the range, between two
integers, and in a range of one integer. -/

namespace ScalarStore

namespace Comparison

variable {c : Comparison} {n : Number} {x : ExactValue} {low high : ℤ} {b : Bool}

/-- All integers of a range stand to a number as `b` tells. -/
def Agree (c : Comparison) (n : Number) (low high : ℤ) (b : Bool) : Prop :=
  ∀ v, low ≤ v → v ≤ high → (b = true ↔ c.RelatesNumbers (.whole v) n)

/-- An outcome tells all that can be told of a range: whether all of its integers stand in the
relation, or none of them, or some do and some do not. -/
structure Tells (c : Comparison) (n : Number) (low high : ℤ) (outcome : Option Bool) : Prop where
  holds : outcome = some true ↔ ∀ v, low ≤ v → v ≤ high → c.RelatesNumbers (.whole v) n
  fails : outcome = some false ↔ ∀ v, low ≤ v → v ≤ high → ¬c.RelatesNumbers (.whole v) n
  varies : outcome = none ↔
    (∃ v, low ≤ v ∧ v ≤ high ∧ c.RelatesNumbers (.whole v) n) ∧
      ∃ v, low ≤ v ∧ v ≤ high ∧ ¬c.RelatesNumbers (.whole v) n

/-- Where the integers of a range agree on a number that lies among them. -/
def Unvaried (c : Comparison) (x : ExactValue) (low high : ℤ) : Prop :=
  match c with
  | .eq | .ne => low = high ∨ ∀ v : ℤ, x ≠ .ofRat v
  | .lt | .ge => x = .ofRat low
  | .le | .gt => x = .ofRat high

/-! ## Integers as exact values -/

theorem ofRat_intCast_le (m k : ℤ) : ExactValue.ofRat (m : ℚ) ≤ .ofRat (k : ℚ) ↔ m ≤ k := by
  rw [← not_lt, ExactValue.ofRat_lt_ofRat, Int.cast_lt, not_lt]

theorem ofRat_intCast_inj (m k : ℤ) : ExactValue.ofRat (m : ℚ) = .ofRat (k : ℚ) ↔ m = k := by
  rw [ExactValue.ofRat_inj, Int.cast_inj]

theorem relatesNumbers_whole_iff (hx : n.exactValue? = some x) (v : ℤ) :
    c.RelatesNumbers (.whole v) n ↔ c.Orders (.ofRat (v : ℚ)) x :=
  relatesNumbers_iff c rfl hx

/-! ## Beyond the range -/

theorem whole_lt_iff (hx : n.exactValue? = some x) (v : ℤ) :
    (Number.whole v).lt n = true ↔ .ofRat (v : ℚ) < x := by
  rw [Number.lt_iff, hx]
  simp [Number.exactValue?]

theorem lt_whole_iff (hx : n.exactValue? = some x) (v : ℤ) :
    n.lt (.whole v) = true ↔ x < .ofRat (v : ℚ) := by
  rw [Number.lt_iff, hx]
  simp [Number.exactValue?]

/-- A range decides nothing of the numbers within it. -/
theorem overRange?_eq_none_iff (hx : n.exactValue? = some x) :
    c.overRange? n low high = none ↔ .ofRat (low : ℚ) ≤ x ∧ x ≤ .ofRat (high : ℚ) := by
  rw [← not_lt, ← not_lt, ← lt_whole_iff hx, ← whole_lt_iff hx]
  unfold overRange?
  split
  · next hhigh => simp [hhigh]
  · next hhigh =>
      split
      · next hlow => simp [hlow]
      · next hlow => simp [hlow, hhigh]

/-- What is decided holds of every integer of the range. -/
theorem agree_of_overRange? (h : c.overRange? n low high = some b) : c.Agree n low high b :=
  fun _ hlow hhigh => overRange?_sound h hlow hhigh

/-- The integers of a range agree in one way at most. -/
theorem Agree.unique {d : Bool} (hle : low ≤ high) (h : c.Agree n low high b)
    (hd : c.Agree n low high d) : d = b := by
  rw [Bool.eq_iff_iff, hd low le_rfl hle, h low le_rfl hle]

/-- A range decides a comparison exactly if the number lies beyond it, and then as its integers
agree. -/
theorem overRange?_eq_some_iff (hx : n.exactValue? = some x) (hle : low ≤ high) :
    c.overRange? n low high = some b ↔
      (x < .ofRat (low : ℚ) ∨ .ofRat (high : ℚ) < x) ∧ c.Agree n low high b := by
  constructor
  · intro h
    refine ⟨?_, agree_of_overRange? h⟩
    by_contra hwithin
    rw [not_or, not_lt, not_lt] at hwithin
    rw [(overRange?_eq_none_iff hx).mpr hwithin] at h
    cases h
  · rintro ⟨hbeyond, hagree⟩
    cases ho : c.overRange? n low high with
    | none =>
        obtain ⟨hlow, hhigh⟩ := (overRange?_eq_none_iff hx).mp ho
        rcases hbeyond with h | h
        · exact absurd h (not_lt.mpr hlow)
        · exact absurd h (not_lt.mpr hhigh)
    | some d => rw [Agree.unique hle hagree (agree_of_overRange? ho)]

/-! ## Within the range -/

/-- The relation that holds where another one does not. -/
def opposite : Comparison → Comparison
  | .eq => .ne
  | .ne => .eq
  | .lt => .ge
  | .le => .gt
  | .gt => .le
  | .ge => .lt

theorem orders_opposite_iff (c : Comparison) (x y : ExactValue) :
    c.opposite.Orders x y ↔ ¬c.Orders x y := by
  cases c with
  | eq => exact Iff.rfl
  | ne => exact not_not.symm
  | lt => simp only [opposite, Orders, not_lt, le_iff_lt_or_eq, eq_comm]
  | le => simp only [opposite, Orders, ← le_iff_lt_or_eq, not_le]
  | gt => simp only [opposite, Orders, not_lt, le_iff_lt_or_eq]
  | ge => simp only [opposite, Orders, ← le_iff_lt_or_eq, not_le]

theorem agree_opposite_iff (hx : n.exactValue? = some x) :
    c.opposite.Agree n low high b ↔ c.Agree n low high !b := by
  refine forall_congr' fun v => forall_congr' fun _ => forall_congr' fun _ => ?_
  rw [relatesNumbers_whole_iff hx, relatesNumbers_whole_iff hx, orders_opposite_iff]
  cases b <;> simp

theorem exists_agree_opposite_iff (hx : n.exactValue? = some x) :
    (∃ b, c.opposite.Agree n low high b) ↔ ∃ b, c.Agree n low high b := by
  simp only [agree_opposite_iff hx]
  constructor
  · rintro ⟨b, h⟩
    exact ⟨!b, h⟩
  · rintro ⟨b, h⟩
    exact ⟨!b, by rwa [Bool.not_not]⟩

section Within

variable (hx : n.exactValue? = some x) (hlow : .ofRat (low : ℚ) ≤ x) (hhigh : x ≤ .ofRat (high : ℚ))

include hx hlow hhigh

/-- Only one integer can equal a number. -/
theorem exists_agree_eq_iff (hle : low ≤ high) :
    (∃ b, Agree .eq n low high b) ↔ low = high ∨ ∀ v : ℤ, x ≠ .ofRat v := by
  constructor
  · rintro ⟨b, h⟩
    cases b with
    | true =>
        have hfirst := (relatesNumbers_whole_iff hx low).mp ((h low le_rfl hle).mp rfl)
        have hlast := (relatesNumbers_whole_iff hx high).mp ((h high hle le_rfl).mp rfl)
        exact .inl ((ofRat_intCast_inj low high).mp (Eq.trans hfirst (Eq.symm hlast)))
    | false =>
        refine .inr fun v hv => ?_
        have hl : low ≤ v := (ofRat_intCast_le low v).mp (hv ▸ hlow)
        have hh : v ≤ high := (ofRat_intCast_le v high).mp (hv ▸ hhigh)
        exact absurd ((h v hl hh).mpr ((relatesNumbers_whole_iff hx v).mpr hv.symm))
          Bool.false_ne_true
  · rintro (rfl | hnone)
    · refine ⟨true, fun v hl hh => iff_of_true rfl ?_⟩
      rw [relatesNumbers_whole_iff hx, le_antisymm hh hl]
      exact le_antisymm hlow hhigh
    · refine ⟨false, fun v _ _ => iff_of_false Bool.false_ne_true ?_⟩
      rw [relatesNumbers_whole_iff hx]
      exact fun he => hnone v (Eq.symm he)

/-- The last integer is not less than a number of the range. -/
theorem exists_agree_lt_iff (hle : low ≤ high) :
    (∃ b, Agree .lt n low high b) ↔ x = .ofRat (low : ℚ) := by
  constructor
  · rintro ⟨b, h⟩
    have hlast : b = false := by
      rw [← Bool.not_eq_true, h high hle le_rfl, relatesNumbers_whole_iff hx]
      exact not_lt.mpr hhigh
    have hfirst : ¬.ofRat (low : ℚ) < x := by
      have hrelates := h low le_rfl hle
      rw [hlast, relatesNumbers_whole_iff hx] at hrelates
      exact fun hlt => absurd (hrelates.mpr hlt) Bool.false_ne_true
    exact le_antisymm (not_lt.mp hfirst) hlow
  · rintro rfl
    refine ⟨false, fun v hl _ => iff_of_false Bool.false_ne_true ?_⟩
    rw [relatesNumbers_whole_iff hx]
    exact not_lt.mpr ((ofRat_intCast_le low v).mpr hl)

/-- The first integer is not greater than a number of the range. -/
theorem exists_agree_gt_iff (hle : low ≤ high) :
    (∃ b, Agree .gt n low high b) ↔ x = .ofRat (high : ℚ) := by
  constructor
  · rintro ⟨b, h⟩
    have hfirst : b = false := by
      rw [← Bool.not_eq_true, h low le_rfl hle, relatesNumbers_whole_iff hx]
      exact not_lt.mpr hlow
    have hlast : ¬x < .ofRat (high : ℚ) := by
      have hrelates := h high hle le_rfl
      rw [hfirst, relatesNumbers_whole_iff hx] at hrelates
      exact fun hlt => absurd (hrelates.mpr hlt) Bool.false_ne_true
    exact le_antisymm hhigh (not_lt.mp hlast)
  · rintro rfl
    refine ⟨false, fun v _ hh => iff_of_false Bool.false_ne_true ?_⟩
    rw [relatesNumbers_whole_iff hx]
    exact not_lt.mpr ((ofRat_intCast_le v high).mpr hh)

theorem exists_agree_iff (hle : low ≤ high) :
    (∃ b, c.Agree n low high b) ↔ c.Unvaried x low high := by
  cases c with
  | eq => exact exists_agree_eq_iff hx hlow hhigh hle
  | ne => exact (exists_agree_opposite_iff hx).trans (exists_agree_eq_iff hx hlow hhigh hle)
  | lt => exact exists_agree_lt_iff hx hlow hhigh hle
  | ge => exact (exists_agree_opposite_iff hx).trans (exists_agree_lt_iff hx hlow hhigh hle)
  | gt => exact exists_agree_gt_iff hx hlow hhigh hle
  | le => exact (exists_agree_opposite_iff hx).trans (exists_agree_gt_iff hx hlow hhigh hle)

end Within

/-! ## All that can be told -/

theorem agree_true_iff : c.Agree n low high true ↔
    ∀ v, low ≤ v → v ≤ high → c.RelatesNumbers (.whole v) n := by
  simp [Agree]

theorem agree_false_iff : c.Agree n low high false ↔
    ∀ v, low ≤ v → v ≤ high → ¬c.RelatesNumbers (.whole v) n := by
  simp [Agree]

theorem tells_iff {outcome : Option Bool} :
    c.Tells n low high outcome ↔ ∀ b, outcome = some b ↔ c.Agree n low high b := by
  constructor
  · intro h b
    cases b with
    | true => exact h.holds.trans agree_true_iff.symm
    | false => exact h.fails.trans agree_false_iff.symm
  · intro h
    have htrue := (h true).trans agree_true_iff
    have hfalse := (h false).trans agree_false_iff
    refine ⟨htrue, hfalse, ?_⟩
    have hnone : outcome = none ↔ outcome ≠ some false ∧ outcome ≠ some true := by
      rcases outcome with _ | (_ | _) <;> simp
    rw [hnone, Ne, Ne, hfalse, htrue]
    simp only [not_forall, not_not, exists_prop]

/-- A number lies within a range or beyond it. If it lies beyond, the range decides the comparison
as all integers of the range stand to the number; if it lies within, nothing is decided. That is
all that can be told of the range, but for the numbers within it on which its integers agree. -/
theorem range_tells_iff (hn : ∀ object, n ≠ .real (.nan object)) (hle : low ≤ high) :
    ∃ x, n.exactValue? = some x ∧
      (∀ b, c.overRange? n low high = some b ↔
        (x < .ofRat (low : ℚ) ∨ .ofRat (high : ℚ) < x) ∧ c.Agree n low high b) ∧
      (c.overRange? n low high = none ↔ .ofRat (low : ℚ) ≤ x ∧ x ≤ .ofRat (high : ℚ)) ∧
      (c.Tells n low high (c.overRange? n low high) ↔
        ¬(.ofRat (low : ℚ) ≤ x ∧ x ≤ .ofRat (high : ℚ) ∧ c.Unvaried x low high)) := by
  obtain ⟨x, hx⟩ := Number.exists_exactValue?_of_ne hn
  have hsome (b : Bool) := overRange?_eq_some_iff (c := c) (b := b) hx hle
  refine ⟨x, hx, hsome, overRange?_eq_none_iff hx, ?_⟩
  rw [tells_iff]
  by_cases hwithin : .ofRat (low : ℚ) ≤ x ∧ x ≤ .ofRat (high : ℚ)
  · obtain ⟨hlow, hhigh⟩ := hwithin
    rw [(overRange?_eq_none_iff hx).mpr ⟨hlow, hhigh⟩, ← exists_agree_iff hx hlow hhigh hle]
    simp [hlow, hhigh]
  · have hbeyond : x < .ofRat (low : ℚ) ∨ .ofRat (high : ℚ) < x := by
      rwa [not_and_or, not_le, not_le] at hwithin
    refine iff_of_true (fun b => ?_) fun h => hwithin ⟨h.1, h.2.1⟩
    rw [hsome]
    exact and_iff_right hbeyond

/-- Two to the power 63 as a real number, which no integer of 64 bits reaches. -/
def wordBound : Number := .real (.finite false 4503599627370496 11 (by decide))

theorem range_tells_iff_wordBound :
    (∀ object, wordBound ≠ .real (.nan object)) ∧
      (-9223372036854775808 : ℤ) ≤ 9223372036854775807 ∧
      Tells .lt wordBound (-9223372036854775808) 9223372036854775807 (some true) := by
  have hnan (object : Option ℕ) : wordBound ≠ .real (.nan object) := nofun
  have hdecided :
      overRange? .lt wordBound (-9223372036854775808) 9223372036854775807 = some true := by
    decide +kernel
  obtain ⟨x, -, -, hnone, htells⟩ := range_tells_iff (c := .lt) hnan
    (show (-9223372036854775808 : ℤ) ≤ 9223372036854775807 by decide)
  rw [hdecided] at hnone htells
  refine ⟨hnan, by decide, htells.mpr fun hwithin => ?_⟩
  cases hnone.mpr ⟨hwithin.1, hwithin.2.1⟩

/-- All integers of 8 bits are at most the greatest of them, and yet the range leaves that open. -/
theorem range_end_undecided :
    overRange? .le (.whole 127) (-128) 127 = none ∧
      (∀ v, -128 ≤ v → v ≤ 127 → RelatesNumbers .le (.whole v) (.whole 127)) ∧
      ¬Tells .le (.whole 127) (-128) 127 (overRange? .le (.whole 127) (-128) 127) := by
  have hopen : overRange? .le (.whole 127) (-128) 127 = none := by decide +kernel
  have hall (v : ℤ) (_ : -128 ≤ v) (hv : v ≤ 127) :
      RelatesNumbers .le (.whole v) (.whole 127) := by
    rw [relatesNumbers_whole_iff (n := .whole 127) rfl]
    exact le_iff_lt_or_eq.mp ((ofRat_intCast_le v 127).mpr hv)
  refine ⟨hopen, hall, fun htells => ?_⟩
  have hdecided := htells.holds.mpr hall
  rw [hopen] at hdecided
  cases hdecided

end Comparison

end ScalarStore
