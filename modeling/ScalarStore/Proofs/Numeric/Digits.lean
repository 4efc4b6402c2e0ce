import Mathlib.Algebra.Order.Ring.Nat
import Mathlib.Data.List.Basic
import Mathlib.Data.List.TakeWhile
import ScalarStore.Text.Integer
import ScalarStore.Value.Text

/-! # How many digits an integer has

An integer that is read from few digits is written with few digits, and one that is written is read
again. -/

namespace ScalarStore

theorem digitCount_le_iff {k n : ℕ} (hk : 0 < k) : digitCount n ≤ k ↔ n < 10 ^ k := by
  induction k, hk using Nat.le_induction generalizing n with
  | base =>
      unfold digitCount
      split
      · next hn => simpa using hn
      · next hn =>
          have hpos : 0 < digitCount (n / 10) := by
            unfold digitCount
            split <;> omega
          exact ⟨fun h => absurd h (by omega), fun h => absurd (by simpa using h) hn⟩
  | succ k hk ih =>
      unfold digitCount
      split
      · next hn =>
          have hten : 10 ^ 1 ≤ 10 ^ (k + 1) := Nat.pow_le_pow_right (by omega) (by omega)
          exact ⟨fun _ => by omega, fun _ => by omega⟩
      · rw [Nat.add_le_add_iff_right, ih, Nat.div_lt_iff_lt_mul (by omega), pow_succ]

namespace Text

theorem digitValue?_lt {c : Char} {d : ℕ} (h : digitValue? c = some d) : d < 10 := by
  unfold digitValue? at h
  split at h
  · split at h
    · next hdigit =>
        cases h
        have hnine : c.toNat ≤ 57 := (Char.isDigit_iff_toNat.mp hdigit).2
        omega
    · cases h
  · obtain ⟨first, hfirst, rfl⟩ := Option.map_eq_some_iff.mp h
    have hrange := List.find?_some hfirst
    simp only [Bool.and_eq_true, decide_eq_true_eq] at hrange
    omega

theorem digitValue?_of_isDigit {c : Char} (h : c.isDigit = true) :
    digitValue? c = some (c.toNat - 48) := by
  have hnine : c.toNat ≤ 57 := (Char.isDigit_iff_toNat.mp h).2
  rw [digitValue?, if_pos (by omega), if_pos h]

theorem foldl_digits_lt {ds : List ℕ} (h : ∀ d ∈ ds, d < 10) {n k : ℕ} (hn : n < 10 ^ k) :
    ds.foldl (fun n d => 10 * n + d) n < 10 ^ (k + ds.length) := by
  induction ds generalizing n k with
  | nil => simpa using hn
  | cons d ds ih =>
      obtain ⟨hd, hds⟩ := List.forall_mem_cons.mp h
      have hnext : 10 * n + d < 10 ^ (k + 1) := by
        rw [pow_succ]
        omega
      have hrest := ih hds hnext
      rwa [List.foldl_cons, List.length_cons, Nat.add_comm ds.length, ← Nat.add_assoc]

theorem ofDigits_lt {ds : List ℕ} (h : ∀ d ∈ ds, d < 10) : ofDigits ds < 10 ^ ds.length := by
  have hlt := foldl_digits_lt h (n := 0) (k := 0) (by simp)
  rwa [Nat.zero_add] at hlt

/-- Digits that are read as one integer give one that can be written. -/
theorem readDigits_lt {cs : List Char} {n : ℕ} (h : readDigits cs = .ok n) :
    n < 10 ^ digitLimit := by
  simp only [readDigits] at h
  split at h
  · cases h
  · next hlength =>
      cases h
      refine Nat.lt_of_lt_of_le (ofDigits_lt fun d hd => ?_)
        (Nat.pow_le_pow_right (by omega) (Nat.le_of_not_lt hlength))
      obtain ⟨c, -, hc⟩ := List.mem_filterMap.mp hd
      exact digitValue?_lt hc

/-! ## Integers that are written and read again -/

section Written

variable {cs : List Char}

theorem isIntegerBlank_of_isDigit {c : Char} (h : c.isDigit = true) :
    isIntegerBlank c = false := by
  have hrange := Char.isDigit_iff_toNat.mp h
  simp only [isIntegerBlank, isBlank]
  grind

theorem ne_of_isDigit {c d : Char} (h : c.isDigit = true) (hd : d.isDigit = false) : c ≠ d := by
  rintro rfl
  exact absurd h (by simp [hd])

theorem wellSeparated_of_isDigit (h : ∀ c ∈ cs, c.isDigit = true) :
    wellSeparated true cs = true := by
  induction cs with
  | nil => rfl
  | cons c cs ih =>
      obtain ⟨hc, hcs⟩ := List.forall_mem_cons.mp h
      rw [wellSeparated, if_neg (ne_of_isDigit hc (by decide)), ih hcs]

theorem splitSign_of_isDigit {c : Char} (h : c.isDigit = true) (cs : List Char) :
    splitSign (c :: cs) = (false, c :: cs) := by
  have hminus : c ≠ '-' := ne_of_isDigit h (by decide)
  have hplus : c ≠ '+' := ne_of_isDigit h (by decide)
  unfold splitSign
  split
  · next he => exact absurd (List.cons.inj he).1 hminus
  · next he => exact absurd (List.cons.inj he).1 hplus
  · rfl

theorem readDigits_of_isDigit (h : ∀ c ∈ cs, c.isDigit = true) (hlength : cs.length ≤ digitLimit) :
    readDigits cs = .ok (Nat.ofDigitChars 10 cs 0) := by
  have hdigits : cs.filterMap digitValue? = cs.map fun c => c.toNat - 48 := by
    rw [← List.filterMap_eq_map]
    exact List.filterMap_congr fun c hc => digitValue?_of_isDigit (h c hc)
  simp only [readDigits, hdigits, List.length_map, if_neg (Nat.not_lt.mpr hlength)]
  rw [ofDigits, List.foldl_map]
  rfl

/-- A text of digits alone is read as the number that they write. -/
theorem readInteger_of_isDigit {s : String} (hs : s.toList ≠ [])
    (h : ∀ c ∈ s.toList, c.isDigit = true) (hlength : s.toList.length ≤ digitLimit) :
    readInteger s = .ok (Nat.ofDigitChars 10 s.toList 0 : ℕ) := by
  obtain ⟨c, cs, hcs⟩ := List.exists_cons_of_ne_nil hs
  rw [hcs] at h hlength ⊢
  obtain ⟨hc, hrest⟩ := List.forall_mem_cons.mp h
  have hdigit (d : Char) (hd : d ∈ c :: cs) : (d == '_' || isDigit d) = true := by
    simp [isDigit, digitValue?_of_isDigit (h d hd)]
  have hseparated : wellSeparated false (c :: cs) = true := by
    rw [wellSeparated, if_neg (ne_of_isDigit hc (by decide)), wellSeparated_of_isDigit hrest]
  have hblank : (c :: cs).dropWhile isIntegerBlank = c :: cs :=
    List.dropWhile_cons_of_neg (by simp [isIntegerBlank_of_isDigit hc])
  have hrun := List.takeWhile_eq_self_iff.mpr hdigit
  have hend := List.dropWhile_eq_nil_iff.mpr hdigit
  rw [readInteger, hcs]
  simp only [hblank, splitSign_of_isDigit hc, hrun, hend, hseparated,
    readDigits_of_isDigit h hlength]
  rfl

/-- An integer that is not negative, and not too long to be written, is read again. -/
theorem readInteger_intText {n : ℕ} (h : n < 10 ^ digitLimit) :
    readInteger (intText n) = .ok n := by
  have htext : (intText n).toList = Nat.toDigits 10 n := by
    rw [intText, if_neg (by omega), Int.natAbs_natCast, Nat.toList_repr]
  have hdigits : ∀ c ∈ (intText n).toList, c.isDigit = true := by
    rw [htext]
    exact fun c hc => Nat.isDigit_of_mem_toDigits (by decide) (by decide) hc
  have hlength : (intText n).toList.length ≤ digitLimit := by
    rw [htext]
    exact (Nat.length_toDigits_le_iff (by decide) (by decide)).mpr h
  have hne : (intText n).toList ≠ [] := by
    rw [htext]
    exact Nat.toDigits_ne_nil
  rw [readInteger_of_isDigit hne hdigits hlength, htext, Nat.ofDigitChars_ten_toDigits]

end Written
end Text

theorem Value.hasLongInteger_int {limit : ℕ} (hlimit : 0 < limit) (n : ℤ) :
    (Value.int n).hasLongInteger limit = false ↔ n.natAbs < 10 ^ limit := by
  rw [hasLongInteger, decide_eq_false_iff_not, Nat.not_lt, digitCount_le_iff hlimit]

end ScalarStore
