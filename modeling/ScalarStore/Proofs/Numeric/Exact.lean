import Mathlib.Algebra.Order.Field.Basic
import Mathlib.Algebra.Order.Field.Rat
import Mathlib.Order.WithBot
import Mathlib.Tactic.Positivity
import Mathlib.Tactic.Ring
import ScalarStore.Numeric.Number

/-! # Exact values of numbers

The value of a number is a rational number or an infinity. Places count units of `2 ^ -1074`
instead; the order of places is the order of the values. -/

namespace ScalarStore

/-- The rational numbers between two infinities. -/
abbrev ExactValue := WithBot (WithTop ℚ)

namespace ExactValue

def ofRat (q : ℚ) : ExactValue := ((q : WithTop ℚ) : WithBot (WithTop ℚ))

@[simp] theorem ofRat_lt_ofRat (p q : ℚ) : ofRat p < ofRat q ↔ p < q := by
  simp [ofRat]

@[simp] theorem ofRat_inj (p q : ℚ) : ofRat p = ofRat q ↔ p = q := by
  simp [ofRat]

@[simp] theorem bot_lt_ofRat (q : ℚ) : (⊥ : ExactValue) < ofRat q :=
  WithBot.bot_lt_coe _

@[simp] theorem ofRat_lt_top (q : ℚ) : ofRat q < (⊤ : ExactValue) :=
  WithBot.coe_lt_coe.mpr (WithTop.coe_lt_top q)

end ExactValue

/-- The value of a number; `nan` has none. -/
def Binary64.exactValue? : Binary64 → Option ExactValue
  | .nan _ => none
  | .infinite negative => some (if negative then ⊥ else ⊤)
  | .finite negative mantissa exponent _ =>
      some (.ofRat ((if negative then -(mantissa : ℚ) else mantissa) * 2 ^ exponent))

/-- The value of a number of any representation; truth values count as 0 and 1. -/
def Number.exactValue? : Number → Option ExactValue
  | .flag b => some (.ofRat (b.toInt : ℚ))
  | .whole n => some (.ofRat (n : ℚ))
  | .real x => x.exactValue?

/-- The value at a place. -/
def Place.value : Place → ExactValue
  | .low => ⊥
  | .units n => .ofRat (n * 2 ^ (-1074 : ℤ))
  | .high => ⊤

theorem pow2_cast (n : ℕ) : ((pow2 n : ℕ) : ℚ) = 2 ^ n := by
  have h : pow2 n = 2 ^ n := rfl
  rw [h, Nat.cast_pow, Nat.cast_ofNat]

namespace Place

theorem unit_pos : (0 : ℚ) < 2 ^ (-1074 : ℤ) := zpow_pos two_pos _

theorem units_mul_lt (m n : ℤ) :
    (m : ℚ) * 2 ^ (-1074 : ℤ) < n * 2 ^ (-1074 : ℤ) ↔ m < n := by
  rw [mul_lt_mul_iff_left₀ unit_pos, Int.cast_lt]

theorem units_mul_inj (m n : ℤ) :
    (m : ℚ) * 2 ^ (-1074 : ℤ) = n * 2 ^ (-1074 : ℤ) ↔ m = n := by
  rw [mul_left_inj' unit_pos.ne', Int.cast_inj]

theorem compare_units_eq_lt_iff (m n : ℤ) : (units m).compare (.units n) = .lt ↔ m < n := by
  simp only [compare]
  split
  · next h => simp [h]
  · next h => split <;> simp [h]

theorem compare_units_eq_eq_iff (m n : ℤ) : (units m).compare (.units n) = .eq ↔ m = n := by
  simp only [compare]
  split
  · next h => simp [h.ne]
  · split <;> simp_all

theorem compare_eq_lt_iff (a b : Place) : a.compare b = .lt ↔ a.value < b.value := by
  cases a with
  | low => cases b <;> simp [compare, value]
  | high => cases b <;> simp [compare, value]
  | units m =>
      cases b with
      | low => simp [compare, value]
      | high => simp [compare, value]
      | units n =>
          rw [compare_units_eq_lt_iff]
          simp only [value, ExactValue.ofRat_lt_ofRat, units_mul_lt]

theorem compare_eq_eq_iff (a b : Place) : a.compare b = .eq ↔ a.value = b.value := by
  cases a with
  | low => cases b <;> simp [compare, value, (ExactValue.bot_lt_ofRat _).ne]
  | high => cases b <;> simp [compare, value, (ExactValue.ofRat_lt_top _).ne']
  | units m =>
      cases b with
      | low => simp [compare, value, (ExactValue.bot_lt_ofRat _).ne']
      | high => simp [compare, value, (ExactValue.ofRat_lt_top _).ne]
      | units n =>
          rw [compare_units_eq_eq_iff]
          simp only [value, ExactValue.ofRat_inj, units_mul_inj]

theorem value_ofInt (n : ℤ) : (ofInt n).value = .ofRat (n : ℚ) := by
  have h : ((n * (pow2 1074 : ℕ) : ℤ) : ℚ) = n * 2 ^ (1074 : ℤ) := by
    rw [Int.cast_mul, Int.cast_natCast, pow2_cast, ← zpow_natCast]
    rfl
  simp only [ofInt, value, ExactValue.ofRat_inj, h]
  rw [mul_assoc, ← zpow_add₀ two_ne_zero, add_neg_cancel, zpow_zero, mul_one]

end Place

namespace Binary64

/-- A canonical exponent is at least that of the unit, so the power of two is a natural one. -/
theorem signedUnits_cast (negative : Bool) (mantissa : ℕ) (exponent : ℤ)
    (h : -1074 ≤ exponent) :
    ((signedUnits negative mantissa exponent : ℤ) : ℚ) * 2 ^ (-1074 : ℤ) =
      (if negative then -(mantissa : ℚ) else mantissa) * 2 ^ exponent := by
  have hp : (2 : ℚ) ^ (exponent + 1074).toNat * 2 ^ (-1074 : ℤ) = 2 ^ exponent := by
    rw [← zpow_natCast, Int.toNat_of_nonneg (by omega), ← zpow_add₀ two_ne_zero,
      add_neg_cancel_right]
  cases negative with
  | false =>
      simp only [signedUnits, Bool.false_eq_true, if_false, Int.cast_mul, Int.cast_natCast,
        pow2_cast, mul_assoc, hp]
  | true =>
      simp only [signedUnits, if_true, Int.cast_neg, Int.cast_mul, Int.cast_natCast, pow2_cast,
        neg_mul, mul_assoc, hp]

theorem place?_exact (x : Binary64) : x.place?.map Place.value = x.exactValue? := by
  cases x with
  | nan object => rfl
  | infinite negative => cases negative <;> rfl
  | finite negative mantissa exponent h =>
      simp only [place?, exactValue?, Option.map_some, Place.value,
        signedUnits_cast negative mantissa exponent h.2.1]

/-- An integer that is the value of a real number is less than the first power of two beyond
the range. -/
theorem natAbs_lt_of_exactValue? {x : Binary64} {n : ℤ}
    (h : x.exactValue? = some (.ofRat (n : ℚ))) : n.natAbs < 2 ^ 1024 := by
  cases x with
  | nan object => cases h
  | infinite negative =>
      cases negative with
      | true => exact absurd (Option.some.inj h) (ExactValue.bot_lt_ofRat _).ne
      | false => exact absurd (Option.some.inj h) (ExactValue.ofRat_lt_top _).ne'
  | finite negative m e hc =>
      have hvalue := (ExactValue.ofRat_inj _ _).mp (Option.some.inj h)
      have hpos : (0 : ℚ) < 2 ^ e := zpow_pos two_pos e
      have habs : ((n.natAbs : ℕ) : ℚ) = m * 2 ^ e := by
        rw [Nat.cast_natAbs, Int.cast_abs, ← hvalue, abs_mul, abs_of_pos hpos]
        cases negative <;> simp
      have hm : (m : ℚ) < 2 ^ (53 : ℤ) := by exact_mod_cast hc.1
      have he : (2 : ℚ) ^ e ≤ 2 ^ (971 : ℤ) := zpow_le_zpow_right₀ one_le_two hc.2.2.1
      have hlt : ((n.natAbs : ℕ) : ℚ) < ((2 ^ 1024 : ℕ) : ℚ) :=
        calc ((n.natAbs : ℕ) : ℚ) = m * 2 ^ e := habs
          _ < 2 ^ (53 : ℤ) * 2 ^ (971 : ℤ) := mul_lt_mul hm he hpos (zpow_pos two_pos _).le
          _ = 2 ^ (1024 : ℤ) := (zpow_add₀ two_ne_zero _ _).symm
          _ = ((2 ^ 1024 : ℕ) : ℚ) := by rw [Nat.cast_pow, Nat.cast_ofNat]; rfl
      exact Nat.cast_lt.mp hlt

end Binary64

namespace Number

theorem place?_exact (a : Number) : a.place?.map Place.value = a.exactValue? := by
  cases a with
  | flag b => simp [place?, exactValue?, Place.value_ofInt]
  | whole n => simp [place?, exactValue?, Place.value_ofInt]
  | real x => exact x.place?_exact

/-- Only `nan` has no value. -/
theorem exists_exactValue?_of_ne {a : Number} (h : ∀ object, a ≠ .real (.nan object)) :
    ∃ x, a.exactValue? = some x := by
  cases a with
  | flag b => exact ⟨_, rfl⟩
  | whole n => exact ⟨_, rfl⟩
  | real x =>
      cases x with
      | nan object => exact absurd rfl (h object)
      | infinite negative => exact ⟨_, rfl⟩
      | finite negative mantissa exponent canonical => exact ⟨_, rfl⟩

theorem compare?_eq_lt_iff (a b : Number) :
    a.compare? b = some .lt ↔ ∃ x y, a.exactValue? = some x ∧ b.exactValue? = some y ∧ x < y := by
  rw [← place?_exact a, ← place?_exact b]
  cases ha : a.place? <;> cases hb : b.place? <;>
    simp [compare?, ha, hb, Place.compare_eq_lt_iff]

theorem compare?_eq_eq_iff (a b : Number) :
    a.compare? b = some .eq ↔ ∃ x y, a.exactValue? = some x ∧ b.exactValue? = some y ∧ x = y := by
  rw [← place?_exact a, ← place?_exact b]
  cases ha : a.place? <;> cases hb : b.place? <;>
    simp [compare?, ha, hb, Place.compare_eq_eq_iff]
  exact eq_comm

theorem lt_iff (a b : Number) :
    a.lt b = true ↔ ∃ x y, a.exactValue? = some x ∧ b.exactValue? = some y ∧ x < y := by
  rw [lt, beq_iff_eq, compare?_eq_lt_iff]

theorem lt_whole (m n : ℤ) : (whole m).lt (.whole n) = decide (m < n) := by
  rw [Bool.eq_iff_iff, lt_iff, decide_eq_true_eq]
  simp [exactValue?]

theorem le_iff (a b : Number) :
    a.le b = true ↔ ∃ x y, a.exactValue? = some x ∧ b.exactValue? = some y ∧ x ≤ y := by
  simp only [le, Bool.or_eq_true, lt_iff, beq_iff_eq, compare?_eq_eq_iff]
  constructor
  · rintro (⟨x, y, hx, hy, h⟩ | ⟨x, y, hx, hy, h⟩)
    · exact ⟨x, y, hx, hy, h.le⟩
    · exact ⟨x, y, hx, hy, h.le⟩
  · rintro ⟨x, y, hx, hy, h⟩
    rcases h.lt_or_eq with h | h
    · exact .inl ⟨x, y, hx, hy, h⟩
    · exact .inr ⟨x, y, hx, hy, h⟩

theorem exactValue?_of_compare? {a b : Number} (h : a.compare? b = some .eq) :
    a.exactValue? = b.exactValue? := by
  obtain ⟨x, y, hx, hy, rfl⟩ := (compare?_eq_eq_iff a b).mp h
  rw [hx, hy]

/-! Numbers of one value compare alike. -/

section

variable {a b : Number} (h : a.exactValue? = b.exactValue?) (c : Number)

include h

theorem compare?_eq_eq_congr : c.compare? a = some .eq ↔ c.compare? b = some .eq := by
  rw [compare?_eq_eq_iff, compare?_eq_eq_iff, h]

theorem lt_congr_right : c.lt a = c.lt b := by
  rw [Bool.eq_iff_iff, lt_iff, lt_iff, h]

theorem lt_congr_left : a.lt c = b.lt c := by
  rw [Bool.eq_iff_iff, lt_iff, lt_iff, h]

theorem le_congr_right : c.le a = c.le b := by
  rw [Bool.eq_iff_iff, le_iff, le_iff, h]

theorem le_congr_left : a.le c = b.le c := by
  rw [Bool.eq_iff_iff, le_iff, le_iff, h]

end

theorem compare?_eq_eq_comm {a b : Number} : a.compare? b = some .eq ↔ b.compare? a = some .eq := by
  rw [compare?_eq_eq_iff, compare?_eq_eq_iff]
  constructor
  · rintro ⟨x, y, hx, hy, h⟩
    exact ⟨y, x, hy, hx, h.symm⟩
  · rintro ⟨x, y, hx, hy, h⟩
    exact ⟨y, x, hy, hx, h.symm⟩

end Number

end ScalarStore
