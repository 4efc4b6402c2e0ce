import Mathlib.Algebra.Order.Field.Basic
import Mathlib.Algebra.Ring.Parity
import Mathlib.Data.Nat.Log
import ScalarStore.Numeric.Binary64

/-! # Integers among the finite numbers

An integer has a nearest finite number exactly if it lies below the middle between the largest
finite number and the next power of two: from there on it would be rounded up to that power. -/

namespace ScalarStore

theorem pow2_eq (n : ℕ) : pow2 n = 2 ^ n := rfl

/-! ## Rounded quotients -/

theorem div_le_nearestQuotient (n d : ℕ) : n / d ≤ nearestQuotient n d := by
  unfold nearestQuotient
  dsimp only
  split
  · exact le_rfl
  · split <;> omega

theorem nearestQuotient_le (n d : ℕ) : nearestQuotient n d ≤ n / d + 1 := by
  unfold nearestQuotient
  dsimp only
  split
  · omega
  · split <;> omega

/-- An even number is reached from the half below it on. -/
theorem le_nearestQuotient_iff {half m : ℕ} (hh : 0 < half) (hm : Even m) (n : ℕ) :
    m ≤ nearestQuotient n (2 * half) ↔ 2 * half * m ≤ n + half := by
  have hn := Nat.div_add_mod n (2 * half)
  have hr := Nat.mod_lt n (Nat.mul_pos Nat.two_pos hh)
  unfold nearestQuotient
  dsimp only
  generalize n / (2 * half) = q at *
  generalize n % (2 * half) = r at *
  subst hn
  -- Rounding reaches at most `q + 1`, where it depends on the rest and, at the half, on `q` alone.
  rcases Nat.lt_trichotomy m (q + 1) with hlt | rfl | hgt
  · have hle : 2 * half * m ≤ 2 * half * q := Nat.mul_le_mul_left _ (by omega)
    constructor
    · intro _
      omega
    · intro _
      split
      · omega
      · split <;> omega
  · have hodd : q % 2 = 1 := by
      have h := Nat.even_iff.mp hm
      omega
    rw [Nat.mul_add, Nat.mul_one]
    split
    · omega
    · split <;> omega
  · have hle : 2 * half * (q + 2) ≤ 2 * half * m := Nat.mul_le_mul_left _ (by omega)
    rw [Nat.mul_add] at hle
    constructor
    · intro h
      split at h
      · omega
      · split at h <;> omega
    · intro h
      omega

/-! ## The mantissa and the exponent of an integer -/

namespace Binary64

variable {n : ℕ}

/-- Scaled by its logarithm, an integer has 53 bits before the point. -/
theorem scaled_bounds (h : n ≠ 0) :
    2 ^ 52 * 2 ^ (n.log2 - 52) ≤ n * 2 ^ (52 - n.log2) ∧
      n * 2 ^ (52 - n.log2) < 2 ^ 53 * 2 ^ (n.log2 - 52) := by
  have hpower : 2 ^ 52 * 2 ^ (n.log2 - 52) = 2 ^ n.log2 * 2 ^ (52 - n.log2) := by
    rw [← Nat.pow_add, ← Nat.pow_add]
    congr 1
    omega
  constructor
  · rw [hpower]
    exact Nat.mul_le_mul_right _ (Nat.log2_self_le h)
  · rw [Nat.pow_succ, Nat.mul_right_comm, hpower, Nat.mul_right_comm, ← Nat.pow_succ]
    exact Nat.mul_lt_mul_of_pos_right Nat.lt_log2_self (Nat.two_pow_pos _)

/-- The last mantissa bit of an integer is 52 places below its first one. -/
theorem lastBitExponent_one (h : n ≠ 0) : lastBitExponent n 1 = (n.log2 : ℤ) - 52 := by
  have hlog : ((Nat.log2 1 : ℕ) : ℤ) = 0 := by decide
  have hfilled : pow2 52 * (1 * pow2 ((n.log2 : ℤ) - 52).toNat) ≤
      n * pow2 (-((n.log2 : ℤ) - 52)).toNat := by
    rw [Nat.one_mul, pow2_eq, pow2_eq, pow2_eq,
      show ((n.log2 : ℤ) - 52).toNat = n.log2 - 52 by omega,
      show (-((n.log2 : ℤ) - 52)).toNat = 52 - n.log2 by omega]
    exact (scaled_bounds h).1
  unfold lastBitExponent
  rw [if_neg h, hlog, Int.sub_zero]
  dsimp only
  rw [if_pos hfilled]
  omega

/-- The mantissa to which an integer is rounded, which may be one too many. -/
def roundedMantissa (n : ℕ) : ℕ := nearestQuotient (n * 2 ^ (52 - n.log2)) (2 ^ (n.log2 - 52))

theorem roundedMantissa_bounds (h : n ≠ 0) :
    2 ^ 52 ≤ roundedMantissa n ∧ roundedMantissa n ≤ 2 ^ 53 := by
  obtain ⟨hlower, hupper⟩ := scaled_bounds h
  have hpos : 0 < 2 ^ (n.log2 - 52) := Nat.two_pow_pos _
  constructor
  · exact ((Nat.le_div_iff_mul_le hpos).mpr hlower).trans (div_le_nearestQuotient _ _)
  · exact (nearestQuotient_le _ _).trans ((Nat.div_lt_iff_lt_mul hpos).mpr hupper)

/-- With all 53 bits, a mantissa has any exponent that is not too high. -/
theorem canonical_iff_of_full {m : ℕ} {e : ℤ} (hlower : 2 ^ 52 ≤ m) (hupper : m < 2 ^ 53)
    (he : -1074 ≤ e) : Canonical m e ↔ e ≤ 971 :=
  ⟨fun h => h.2.2.1, fun h => ⟨hupper, he, h, .inl hlower⟩⟩

theorem dite_canonical_eq_infinite {negative : Bool} {m : ℕ} {e : ℤ} :
    (if hc : Canonical m e then Binary64.finite negative m e hc else .infinite negative) =
      .infinite negative ↔ ¬ Canonical m e := by
  split
  · next hc => exact ⟨nofun, fun h => absurd hc h⟩
  · next hc => exact ⟨fun _ => hc, fun _ => rfl⟩

/-- A number is infinite if the exponent to which it is rounded is too high. -/
theorem ofRatio_one_eq_infinite_iff (negative : Bool) (h : n ≠ 0) :
    ofRatio negative n 1 = .infinite negative ↔
      1023 < n.log2 ∨ n.log2 = 1023 ∧ roundedMantissa n = 2 ^ 53 := by
  obtain ⟨hlower, hupper⟩ := roundedMantissa_bounds h
  have hm : nearestQuotient (n * pow2 (-((n.log2 : ℤ) - 52)).toNat)
      (1 * pow2 ((n.log2 : ℤ) - 52).toNat) = roundedMantissa n := by
    rw [Nat.one_mul, pow2_eq, pow2_eq, show ((n.log2 : ℤ) - 52).toNat = n.log2 - 52 by omega,
      show (-((n.log2 : ℤ) - 52)).toNat = 52 - n.log2 by omega]
    rfl
  unfold ofRatio
  dsimp only
  rw [lastBitExponent_one h, hm, pow2_eq, pow2_eq]
  by_cases hmax : roundedMantissa n = 2 ^ 53
  · rw [if_pos hmax, dite_canonical_eq_infinite,
      canonical_iff_of_full le_rfl (by decide) (by omega)]
    omega
  · rw [if_neg hmax, dite_canonical_eq_infinite,
      canonical_iff_of_full hlower (lt_of_le_of_ne hupper hmax) (by omega)]
    omega

theorem ofInt?_eq_none_iff_infinite (z : ℤ) :
    ofInt? z = none ↔ ofRatio (z < 0) z.natAbs 1 = .infinite (z < 0) := by
  have hdite (m : ℕ) (e : ℤ) : (∃ hc, (if hc : Canonical m e then
      Binary64.finite (z < 0) m e hc else .infinite (z < 0)) = .finite (z < 0) m e hc) ∨
      (if hc : Canonical m e then Binary64.finite (z < 0) m e hc else .infinite (z < 0)) =
        .infinite (z < 0) := by
    split
    · next hc => exact .inl ⟨hc, rfl⟩
    · exact .inr rfl
  have hcases : (∃ m e hc, ofRatio (z < 0) z.natAbs 1 = .finite (z < 0) m e hc) ∨
      ofRatio (z < 0) z.natAbs 1 = .infinite (z < 0) :=
    (hdite _ _).imp (fun ⟨hc, he⟩ => ⟨_, _, hc, he⟩) id
  unfold ofInt?
  rcases hcases with ⟨m, e, hc, he⟩ | he <;> rw [he]
  · exact ⟨nofun, nofun⟩
  · exact ⟨fun _ => rfl, fun _ => rfl⟩

/-- The least magnitude of an integer that is beyond the finite numbers. -/
def integerBound : ℕ := 2 ^ 1024 - 2 ^ 970

/-- The bound lies between the last two powers of two. -/
theorem integerBound_bounds : 2 ^ 1023 ≤ integerBound ∧ integerBound ≤ 2 ^ 1024 := by
  have htop : (2 : ℕ) ^ 1024 = 2 ^ 1023 + 2 ^ 1023 := by
    rw [← Nat.two_mul, ← Nat.pow_succ']
  have hhalf : (2 : ℕ) ^ 970 ≤ 2 ^ 1023 := pow_le_pow_right₀ one_le_two (by decide)
  refine ⟨?_, Nat.sub_le _ _⟩
  rw [integerBound, htop]
  exact Nat.le_sub_of_add_le (Nat.add_le_add_left hhalf _)

/-- Between the last two powers of two, the integers from the bound on are rounded up. -/
theorem roundedMantissa_eq_iff (h : n.log2 = 1023) :
    roundedMantissa n = 2 ^ 53 ↔ integerBound ≤ n := by
  have hn : n ≠ 0 := by
    rintro rfl
    exact absurd h (by decide)
  have hmax : roundedMantissa n = 2 ^ 53 ↔ 2 ^ 53 ≤ roundedMantissa n :=
    ⟨fun he => he.ge, fun hle => Nat.le_antisymm (roundedMantissa_bounds hn).2 hle⟩
  have heven : Even (2 ^ 53) := by decide
  have hscale : (2 : ℕ) ^ (1023 - 52) = 2 * 2 ^ 970 := by rw [← Nat.pow_succ']
  have htop : (2 : ℕ) * 2 ^ 970 * 2 ^ 53 = 2 ^ 1024 := by
    rw [← hscale, ← pow_add]
  rw [hmax, roundedMantissa, h, hscale, show 52 - 1023 = 0 from rfl, pow_zero, mul_one,
    le_nearestQuotient_iff (pow_pos two_pos _) heven, htop, integerBound, Nat.sub_le_iff_le_add]

/-- An integer has a nearest finite number exactly if it is below the bound. -/
theorem ofInt?_eq_none_iff (z : ℤ) : ofInt? z = none ↔ integerBound ≤ z.natAbs := by
  obtain ⟨hlower, hupper⟩ := integerBound_bounds
  by_cases hz : z = 0
  · subst hz
    have hpos : 0 < integerBound := (pow_pos two_pos 1023).trans_le hlower
    have hsome : ofInt? 0 ≠ none := by decide +kernel
    exact ⟨fun h => absurd h hsome, fun h => absurd h (Nat.not_le.mpr hpos)⟩
  · have hn : z.natAbs ≠ 0 := Int.natAbs_ne_zero.mpr hz
    rw [ofInt?_eq_none_iff_infinite, ofRatio_one_eq_infinite_iff _ hn]
    -- Only between the last two powers of two does rounding decide.
    rcases Nat.lt_trichotomy z.natAbs.log2 1023 with hlog | hlog | hlog
    · have hlt : z.natAbs < 2 ^ 1023 := by
        rw [← Nat.log_lt_iff_lt_pow one_lt_two hn, ← Nat.log2_eq_log_two]
        exact hlog
      constructor
      · rintro (h | ⟨h, -⟩) <;> omega
      · exact fun h => absurd (hlower.trans h) (Nat.not_le.mpr hlt)
    · rw [← roundedMantissa_eq_iff hlog]
      simp [hlog]
    · have hle : 2 ^ 1024 ≤ z.natAbs := by
        apply Nat.pow_le_of_le_log hn
        rw [← Nat.log2_eq_log_two]
        exact hlog
      exact ⟨fun _ => hupper.trans hle, fun _ => .inl hlog⟩

end Binary64

end ScalarStore
