import ScalarStore.Proofs.Filter.Meaning
import ScalarStore.Proofs.Schema.Row
import ScalarStore.Proofs.Value.Same

/-! # Compiled leaves

On a value of the field's type a compiled leaf never fails, and it answers with the meaning of
the leaf: a decided range, a filtered list and the short forms of a pattern change nothing. -/

namespace ScalarStore

/-! ## Comparable values -/

theorem DataType.fits_bool_iff (w : Value) : DataType.bool.fits w = true ↔ ∃ q, w = .bool q := by
  cases w <;> simp [fits, Value.kind]

theorem DataType.fits_varchar_iff (w : Value) :
    DataType.varchar.fits w = true ↔ ∃ t, w = .str t := by
  cases w <;> simp [fits, Value.kind, isNumeric, isInteger, integerBounds?]

theorem DataType.fits_numeric_iff {type : DataType} (h : type.isNumeric = true) (w : Value) :
    type.fits w = true ↔ ∃ n, w.numeric? = some n := by
  have hb : type ≠ .bool := by rintro rfl; exact absurd h (by decide)
  cases w <;> simp [fits, hb, h, Value.kind, Value.numeric?]

/-- A value that a numeric field can hold is a number. -/
theorem DataType.Admits.numeric? {type : DataType} {v : Value} (hv : type.Admits v)
    (h : type.isNumeric = true) : ∃ m, v.numeric? = some m := by
  cases type with
  | bool => exact absurd h (by decide)
  | varchar => exact absurd h (by decide)
  | float => obtain ⟨x, rfl⟩ := hv; exact ⟨_, rfl⟩
  | double => obtain ⟨x, rfl⟩ := hv; exact ⟨_, rfl⟩
  | _ => obtain ⟨n, _, _, rfl, _⟩ := hv; exact ⟨_, rfl⟩

theorem DataType.Admits.integer {type : DataType} {v : Value} {low high : Int}
    (hv : type.Admits v) (h : type.integerBounds? = some (low, high)) :
    ∃ k, v = .int k ∧ low ≤ k ∧ k ≤ high := by
  have hk : ∃ k low high, v = .int k ∧ type.integerBounds? = some (low, high) ∧
      low ≤ k ∧ k ≤ high := by
    cases type <;> first | exact hv | cases h
  obtain ⟨k, least, most, hv, hb, hlow, hhigh⟩ := hk
  cases h.symm.trans hb
  exact ⟨k, hv, hlow, hhigh⟩

theorem DataType.isNumeric_of_integerBounds {type : DataType} {bounds : Int × Int}
    (h : type.integerBounds? = some bounds) : type.isNumeric = true := by
  simp [isNumeric, isInteger, h]

/-- A type is that of truth values, that of texts or numeric. -/
theorem DataType.bool_or_varchar_or_numeric (type : DataType) :
    type = .bool ∨ type = .varchar ∨ type.isNumeric = true := by
  cases type <;> simp [isNumeric, isInteger, integerBounds?]

/-- A value that a field can hold is comparable with the field. -/
theorem DataType.Admits.fits {type : DataType} {v : Value} (hv : type.Admits v) :
    type.fits v = true := by
  rcases type.bool_or_varchar_or_numeric with rfl | rfl | hn
  · exact (DataType.fits_bool_iff v).mpr hv
  · exact (DataType.fits_varchar_iff v).mpr hv
  · exact (DataType.fits_numeric_iff hn v).mpr (hv.numeric? hn)

namespace Value

theorem number?_of_numeric? {v : Value} {m : Number} (h : v.numeric? = some m) :
    v.number? = some m := by
  cases v <;> simp_all [numeric?, number?]

theorem relates_numbers_iff {v w : Value} {m n : Number} (c : Comparison)
    (hv : v.numeric? = some m) (hw : w.numeric? = some n) :
    v.Relates c w ↔ c.RelatesNumbers m n := by
  cases v <;> cases w <;> simp_all [numeric?, Relates]

end Value

namespace Comparison

theorem run_numbers (c : Comparison) {v w : Value} {m n : Number} (hv : v.numeric? = some m)
    (hw : w.numeric? = some n) : c.run v w = .ok (c.holds m n) := by
  have hm := Value.number?_of_numeric? hv
  have hn := Value.number?_of_numeric? hw
  cases c with
  | eq => rw [run, Value.same_of_number? hm hn]; rfl
  | ne => rw [run, Value.same_of_number? hm hn]; rfl
  | _ => simp only [run, hm, hn]

theorem run_texts (c : Comparison) (s t : String) :
    c.run (.str s) (.str t) = .ok (c.holdsText s t) := by
  cases c <;> simp [run, Value.same, holdsText, Value.number?, bne]

theorem same_bool (p q : Bool) : (Value.bool p).same (.bool q) = (p == q) := by
  rw [Value.same_of_number? (m := .flag p) (n := .flag q) rfl rfl, Bool.eq_iff_iff, beq_iff_eq,
    beq_iff_eq, Number.compare?_eq_eq_iff]
  cases p <;> cases q <;> simp [Number.exactValue?]

/-- Comparing with a literal of the field's kind never fails. -/
theorem run_of_fits (c : Comparison) {type : DataType} {v w : Value} (hv : type.Admits v)
    (hw : type.fits w = true) (hb : type = .bool → c = .eq ∨ c = .ne) :
    ∃ b, c.run v w = .ok b ∧ (b = true ↔ v.Relates c w) := by
  rcases type.bool_or_varchar_or_numeric with rfl | rfl | hn
  · obtain ⟨p, rfl⟩ := hv
    obtain ⟨q, rfl⟩ := (DataType.fits_bool_iff w).mp hw
    rcases hb rfl with rfl | rfl
    · exact ⟨p == q, by rw [run, same_bool], by simp [Value.Relates]⟩
    · exact ⟨!(p == q), by rw [run, same_bool], by simp [Value.Relates]⟩
  · obtain ⟨s, rfl⟩ := hv
    obtain ⟨t, rfl⟩ := (DataType.fits_varchar_iff w).mp hw
    exact ⟨_, run_texts c s t, holdsText_iff c s t⟩
  · obtain ⟨m, hm⟩ := hv.numeric? hn
    obtain ⟨n, hn⟩ := (DataType.fits_numeric_iff hn w).mp hw
    exact ⟨_, run_numbers c hm hn, (holds_iff c m n).trans (Value.relates_numbers_iff c hm hn).symm⟩

end Comparison

/-- A value stands in a relation to values of its own kind only. -/
theorem DataType.fits_of_relates {type : DataType} {c : Comparison} {v w : Value}
    (hv : type.Admits v) (h : v.Relates c w) : type.fits w = true := by
  rcases type.bool_or_varchar_or_numeric with rfl | rfl | hn
  · obtain ⟨p, rfl⟩ := hv
    cases w <;> simp_all [Value.Relates, Value.numeric?, DataType.fits_bool_iff]
  · obtain ⟨s, rfl⟩ := hv
    cases w <;> simp_all [Value.Relates, Value.numeric?, DataType.fits_varchar_iff]
  · obtain ⟨m, hm⟩ := hv.numeric? hn
    rw [DataType.fits_numeric_iff hn]
    cases v <;> cases w <;> simp_all [Value.Relates, Value.numeric?]

/-! ## Decided ranges -/

namespace Comparison

theorem belowNumber_iff (c : Comparison) {x y : ExactValue} (h : x < y) :
    c.belowNumber = true ↔ c.Orders x y := by
  cases c <;> simp [belowNumber, Orders, h, h.ne, h.ne', h.not_gt]

theorem aboveNumber_iff (c : Comparison) {x y : ExactValue} (h : y < x) :
    c.aboveNumber = true ↔ c.Orders x y := by
  cases c <;> simp [aboveNumber, Orders, h, h.ne, h.ne', h.not_gt]

/-- A comparison that a range decides has that outcome for every value of the range. -/
theorem overRange?_sound {c : Comparison} {n : Number} {low high k : Int} {b : Bool}
    (h : c.overRange? n low high = some b) (hlow : low ≤ k) (hhigh : k ≤ high) :
    b = true ↔ c.RelatesNumbers (.whole k) n := by
  have hk : (Number.whole k).exactValue? = some (.ofRat (k : ℚ)) := rfl
  unfold overRange? at h
  split at h
  · next hn =>
      obtain ⟨x, y, hx, hy, hlt⟩ := (Number.lt_iff _ _).mp hn
      cases hx
      have hle : ExactValue.ofRat (k : ℚ) ≤ .ofRat (high : ℚ) := by
        simpa [ExactValue.ofRat] using hhigh
      rw [relatesNumbers_iff c hk hy, ← belowNumber_iff c (hle.trans_lt hlt), Option.some.inj h]
  · split at h
    · next hn =>
        obtain ⟨x, y, hx, hy, hlt⟩ := (Number.lt_iff _ _).mp hn
        cases hy
        have hle : ExactValue.ofRat (low : ℚ) ≤ .ofRat (k : ℚ) := by
          simpa [ExactValue.ofRat] using hlow
        rw [relatesNumbers_iff c hk hx, ← aboveNumber_iff c (hlt.trans_le hle), Option.some.inj h]
    · contradiction

/-- So it does for every value that a field of the range can hold. -/
theorem overRange?_relates {c : Comparison} {type : DataType} {v literal : Value} {n : Number}
    {low high : Int} {b : Bool} (hv : type.Admits v)
    (hbounds : type.integerBounds? = some (low, high)) (hn : literal.numeric? = some n)
    (h : c.overRange? n low high = some b) : b = true ↔ v.Relates c literal := by
  obtain ⟨k, rfl, hlow, hhigh⟩ := hv.integer hbounds
  exact (overRange?_sound h hlow hhigh).trans (Value.relates_numbers_iff c rfl hn).symm

end Comparison

/-! ## Leaves -/

/-- A predicate answers a question about the value of a field: it is decided, or its test gives
the answer on that value. -/
inductive Predicate.Asks (f : Field) (v : Value) (question : Prop) : Predicate → Prop where
  | decided {b : Bool} (h : b = true ↔ question) : Asks f v question (.constant b)
  | tested {t : Test} {b : Bool} (ht : t.run v = .ok b) (h : b = true ↔ question) :
      Asks f v question (Filter.ask f t)

namespace Filter

variable {f : Field} {v : Value}

theorem asks_compileComparison {c : Comparison} {literal : Value} {p : Predicate}
    (hv : f.type.Admits v) (h : compileComparison f c literal = .ok p) :
    p.Asks f v (v.Relates c literal) := by
  unfold compileComparison at h
  split at h
  · unfold misfitLiteral at h
    split at h <;> cases h
  · next hfits =>
      have hw : f.type.fits literal = true := by simpa using hfits
      split at h
      · contradiction
      · next hbool =>
          have hb : f.type = .bool → c = .eq ∨ c = .ne := by
            intro ht
            by_contra hc
            exact hbool ⟨ht, fun he => hc (.inl he), fun he => hc (.inr he)⟩
          obtain ⟨b, hrun, hiff⟩ := c.run_of_fits hv hw hb
          have htested : Predicate.Asks f v (v.Relates c literal) (ask f (.compare c literal)) :=
            .tested hrun hiff
          split at h
          · next low high n hbounds hn =>
              split at h
              · next b hover =>
                  cases h
                  have hnum := DataType.isNumeric_of_integerBounds hbounds
                  obtain ⟨m, hm⟩ := (DataType.fits_numeric_iff hnum literal).mp hw
                  cases hn.symm.trans (Value.number?_of_numeric? hm)
                  exact .decided (Comparison.overRange?_relates hv hbounds hm hover)
              · cases h; exact htested
          · cases h; exact htested

theorem isAmong_eq {members : List Value} (hv : f.type.Admits v) :
    Test.isAmong members v = .ok (members.any v.coincides) := by
  have hk : v.nonKey? = none := by
    cases ht : f.type <;> rw [ht] at hv
    case bool => obtain ⟨b, rfl⟩ := hv; rfl
    case float => obtain ⟨x, rfl⟩ := hv; rfl
    case double => obtain ⟨x, rfl⟩ := hv; rfl
    case varchar => obtain ⟨s, rfl⟩ := hv; rfl
    all_goals obtain ⟨n, _, _, rfl, _⟩ := hv; rfl
  simp [Test.isAmong, Value.asKey, hk, Except.map]

theorem same_iff_relates {w : Value} (hv : f.type.Admits v) (hw : f.type.fits w = true) :
    v.same w = true ↔ v.Relates .eq w := by
  obtain ⟨b, hrun, hiff⟩ := Comparison.eq.run_of_fits hv hw fun _ => .inl rfl
  rw [← hiff, ← Except.ok.inj hrun]

/-- Only items of the field's kind can equal a value of the field, or be it. -/
theorem any_coincides_filter_iff (items : List Value) (hv : f.type.Admits v) :
    (items.filter f.type.fits).any v.coincides = true ↔
      (∃ w ∈ items, v.Relates .eq w) ∨ ∃ w ∈ items, v.isOneNan w = true := by
  rw [List.any_eq_true]
  constructor
  · rintro ⟨w, hw, hs⟩
    obtain ⟨hm, hfits⟩ := List.mem_filter.mp hw
    exact (Value.coincides_iff.mp hs).imp (fun hs => ⟨w, hm, (same_iff_relates hv hfits).mp hs⟩)
      fun hone => ⟨w, hm, hone⟩
  · rintro (⟨w, hm, hr⟩ | ⟨w, hm, hone⟩)
    · have hfits := DataType.fits_of_relates hv hr
      exact ⟨w, List.mem_filter.mpr ⟨hm, hfits⟩,
        Value.coincides_iff.mpr (.inl ((same_iff_relates hv hfits).mpr hr))⟩
    · have hfits : f.type.fits w = true := Value.eq_of_isOneNan hone ▸ hv.fits
      exact ⟨w, List.mem_filter.mpr ⟨hm, hfits⟩, Value.coincides_iff.mpr (.inr hone)⟩

theorem finds_isIn_iff {literal : Value} {items : List Value} (v : Value)
    (h : literal.sequence? = some items) :
    Operator.isIn.Finds v literal ↔
      (∃ w ∈ items, v.Relates .eq w) ∨ ∃ w ∈ items, v.isOneNan w = true := by
  simp [Operator.Finds, Operator.Holds, Value.IsItemOf, h]

theorem finds_notIn_iff {literal : Value} {items : List Value} (v : Value)
    (h : literal.sequence? = some items) :
    Operator.notIn.Finds v literal ↔
      ¬((∃ w ∈ items, v.Relates .eq w) ∨ ∃ w ∈ items, v.isOneNan w = true) := by
  simp [Operator.Finds, Operator.Holds, Value.IsItemOf, h]

/-- A membership is decided if no item is comparable with the field. -/
theorem compileMembership_eq_ok {operator : Operator} {literal : Value} {p : Predicate}
    (h : compileMembership f operator literal = .ok p) :
    ∃ items, literal.sequence? = some items ∧
      (items.filter f.type.fits = [] ∧ p = .constant (operator == .notIn) ∨
        items.filter f.type.fits ≠ [] ∧ p = ask f (if operator == .isIn
          then .within (items.filter f.type.fits) else .outside (items.filter f.type.fits))) := by
  unfold compileMembership at h
  split at h
  · next items hitems =>
      dsimp only at h
      split at h
      · next hnone =>
          exact ⟨items, hitems, .inl ⟨List.isEmpty_iff.mp hnone, (Except.ok.inj h).symm⟩⟩
      · next hsome =>
          exact ⟨items, hitems, .inr ⟨by simpa using hsome, (Except.ok.inj h).symm⟩⟩
  · cases h

theorem asks_compileMembership {operator : Operator} {literal : Value} {p : Predicate}
    (ho : operator = .isIn ∨ operator = .notIn) (hv : f.type.Admits v)
    (h : compileMembership f operator literal = .ok p) :
    p.Asks f v (operator.Finds v literal) := by
  obtain ⟨items, hitems, ⟨hnone, rfl⟩ | ⟨-, rfl⟩⟩ := compileMembership_eq_ok h
  all_goals have hany := any_coincides_filter_iff items hv
  · rw [hnone] at hany
    rcases ho with rfl | rfl
    · exact .decided (hany.trans (finds_isIn_iff v hitems).symm)
    · exact .decided (by simpa [finds_notIn_iff v hitems] using hany)
  · rcases ho with rfl | rfl
    · exact .tested (isAmong_eq hv) (hany.trans (finds_isIn_iff v hitems).symm)
    · refine .tested (b := !(items.filter f.type.fits).any v.coincides) ?_ ?_
      · simp [Test.run, isAmong_eq hv, Except.map]
      · rw [Bool.not_eq_true', ← Bool.not_eq_true, hany, finds_notIn_iff v hitems]

/-- The two short forms of a pattern test what the pattern matches. -/
theorem likeTest_run (pattern s : String) :
    ∃ b, (likeTest pattern).run (.str s) = .ok b ∧
      (b = true ↔ Pattern.LikeDerivation pattern.toList s.toList) := by
  simp only [likeTest]
  split
  · next h =>
      obtain ⟨hlast, hplain⟩ := h
      have hp : pattern.toList.dropLast ++ ['%'] = pattern.toList :=
        List.dropLast_append_getLast? '%' hlast
      have hd := Pattern.likeDerivation_start_iff pattern.toList.dropLast s.toList
        (by simpa using hplain)
      refine ⟨_, rfl, ?_⟩
      rw [← hp, hd, String.toList_ofList, hp, List.isPrefixOf_iff_prefix]
  · split
    · next h =>
        refine ⟨_, rfl, ?_⟩
        rw [Pattern.likeDerivation_plain_iff pattern.toList s.toList (by simpa using h)]
        simp [Value.same, String.toList_inj]
    · exact ⟨_, rfl, (Pattern.likeDerivation_iff _ _).symm⟩

theorem asks_compileLike {literal : Value} {p : Predicate} (hv : f.type.Admits v)
    (h : compileLike f literal = .ok p) : p.Asks f v (Operator.like.Finds v literal) := by
  unfold compileLike at h
  split at h
  · contradiction
  · next ht =>
      rw [Classical.not_not.mp ht] at hv
      obtain ⟨s, rfl⟩ := hv
      split at h
      · next pattern =>
          cases h
          obtain ⟨b, hrun, hiff⟩ := likeTest_run pattern s
          exact .tested hrun (hiff.trans (by simp [Operator.Finds, Operator.Holds]))
      · contradiction

/-- A leaf that compiles asks its own question of every value of the field. -/
theorem asks_compileLeaf {operator : Operator} {literal : Value} {p : Predicate}
    (hv : f.type.Admits v) (h : compileLeaf f operator literal = .ok p) :
    p.Asks f v (operator.Finds v literal) := by
  cases operator with
  | compare c => exact asks_compileComparison hv h
  | like => exact asks_compileLike hv h
  | isIn => exact asks_compileMembership (.inl rfl) hv h
  | notIn => exact asks_compileMembership (.inr rfl) hv h
  | other symbol unknown => cases h

end Filter

end ScalarStore
