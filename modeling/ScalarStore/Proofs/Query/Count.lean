import ScalarStore.Proofs.Collection.Expiry
import ScalarStore.Proofs.Document.Load
import ScalarStore.Proofs.ParseCache
import ScalarStore.Proofs.Query.Composition

/-! # Counting rows

A request for the number of rows on which a filter text holds reads the text, compiles the filter
and counts. The first two fail alike on all rows; counting fails for a time to live beyond the
finite numbers and for the declared field that takes no value. -/

namespace ScalarStore

/-- The number of live rows on which a predicate holds. -/
def Collection.count (c : Collection) (now : Binary64) (p : Predicate) : Except Fault ℕ := do
  let rows ← c.snapshot now []
  return (← Request.matching p rows).length

/-- A request for the number of rows on which a filter text holds. -/
def Request.counting (name text : String) : Request where
  collection := name
  filter := .text text
  ids := none
  partitions := .ok []
  consistency := .bounded
  output := .ok [.str countAll]
  limit := none
  offset := .whole 0

/-! ## The steps of a count -/

namespace Request

theorem isCount_counting (name text : String) : (counting name text).isCount = .ok true :=
  isCount_of_output rfl

theorem answer_counting (c : Collection) (now : Binary64) (name text : String)
    (filter : Option Filter) (limit : Option Int) :
    (counting name text).answer c now filter limit = (do
      let p ← Filter.compile c.schema (some c.name) limit filter
      let n ← c.count now p
      return [[(countAll, .int n)]]) := by
  rw [answer, isCount_counting]
  simp only [bind, Except.bind, Bool.not_true, Bool.false_eq_true, and_false, if_false, if_true,
    checkWindow, counting, restrict, Collection.count, pure, Except.pure]
  cases Filter.compile c.schema (some c.name) limit filter with
  | error fault => rfl
  | ok p =>
      dsimp only
      cases c.snapshot now [] with
      | error fault => rfl
      | ok rows =>
          dsimp only
          cases matching p rows <;> rfl

/-- A count reads its text unless it is too long, compiles the filter and counts. -/
theorem run_counting (c : Collection) (now : Binary64) (name text : String)
    (parsed : Except Fault (Option Filter)) :
    (counting name text).run c now parsed =
      if c.settings.maxFilterLength < text.length then
        refuse (.filterTooLong text.length c.settings.maxFilterLength)
      else do
        let filter ← parsed
        let p ← Filter.compile c.schema (some c.name) none filter
        let n ← c.count now p
        return [[(countAll, .int n)]] := by
  rw [run, show (counting name text).filter = .text text from rfl, readFilter]
  split
  · rfl
  · cases parsed with
    | error fault => rfl
    | ok filter => exact answer_counting c now name text filter none

end Request

/-- In a store with one collection a text is parsed under the limit of the settings. -/
theorem Store.query_counting {settings : Settings} {c : Collection} {texts : List String}
    (h : (c.name :: texts).Nodup) (hsettings : c.settings = settings) (now : Binary64)
    (text : String) :
    ((Store.single settings c texts).query now (.counting c.name text)).1 =
      if settings.maxFilterLength < text.length then
        refuse (.filterTooLong text.length settings.maxFilterLength)
      else do
        let filter ← Filter.parse settings.maxDepth text
        let p ← Filter.compile c.schema (some c.name) none filter
        let n ← c.count now p
        return [[(Request.countAll, .int n)]] := by
  have hcollection : (single settings c texts).collection
      (Request.counting c.name text).collection none = .ok c := collection_single h
  rw [query, hcollection]
  dsimp only
  rw [Request.run_counting, hsettings]
  split
  · rfl
  · next hlength =>
      have hparsed : ((single settings c texts).parseFilter settings.maxFilterLength
          (Request.counting c.name text).filter).1 = Filter.parse settings.maxDepth text := by
        have hsound := (ParseCache.sound_new settings.maxDepth settings.cacheSize).parse text
        simp only [Request.counting, parseFilter, if_neg hlength]
        exact hsound.1
      rw [hparsed]

/-! ## What is counted -/

namespace Collection

variable {c : Collection} {now : Binary64} {p : Predicate} {seconds : ℤ}

/-- A constant counts all live rows or none. -/
theorem count_constant {rows : List StoredRow} (h : c.snapshot now [] = .ok rows) (b : Bool) :
    c.count now (.constant b) = .ok (if b then rows.length else 0) := by
  have hmatching : Request.matching (.constant b) rows = .ok (if b then rows else []) := by
    clear h
    induction rows with
    | nil => cases b <;> rfl
    | cons row rows ih =>
        rw [Request.matching_cons, ih]
        cases b <;> rfl
  rw [count, h]
  simp only [bind, Except.bind, hmatching]
  cases b <;> rfl

theorem snapshot_of_count {n : ℕ} (h : c.count now p = .ok n) :
    ∃ rows, c.snapshot now [] = .ok rows := by
  obtain ⟨rows, hrows, -⟩ := bind_eq_ok_iff.mp h
  exact ⟨rows, hrows⟩

/-- Counting has two faults: a time to live beyond the finite numbers, and the missing field. -/
theorem error_of_count (h : c.Invariant) (httl : c.ttl = .ok seconds) {filter : Option Filter}
    {limit : Option ℤ} (hp : Filter.compile c.schema (some c.name) limit filter = .ok p)
    {fault : Fault} (hfault : c.count now p = .error fault) :
    Binary64.integerBound ≤ seconds ∧ fault = .overflow .integerBeyondReals ∨
      c.schema.IsExempt fault := by
  rcases bind_eq_error_iff.mp hfault with hsnapshot | ⟨rows, hrows, hcounted⟩
  · left
    rcases lt_or_ge seconds Binary64.integerBound with hlt | hle
    · have hlive : ∃ rows, c.snapshot now (List.map Value.str []) = .ok rows :=
        snapshot_of_lt nofun httl hlt
      obtain ⟨rows, hrows⟩ := hlive
      cases hsnapshot.symm.trans hrows
    · have hbeyond : c.snapshot now (List.map Value.str []) =
          .error (.overflow .integerBeyondReals) := snapshot_of_le nofun httl hle
      cases hsnapshot.symm.trans hbeyond
      exact ⟨hle, rfl⟩
  · right
    rcases bind_eq_error_iff.mp hcounted with hmatching | ⟨matched, -, hreturn⟩
    · exact Request.failsOnly_matching h hp (snapshot_subperm hrows).subset fault hmatching
    · cases hreturn

theorem count_eq_ok (h : c.Invariant) (httl : c.ttl = .ok seconds)
    (hlt : seconds < Binary64.integerBound) (hs : Schema.settingsName ∉ c.schema.fieldNames)
    {filter : Option Filter} {limit : Option ℤ}
    (hp : Filter.compile c.schema (some c.name) limit filter = .ok p) :
    ∃ n, c.count now p = .ok n := by
  cases hcount : c.count now p with
  | ok n => exact ⟨n, rfl⟩
  | error fault =>
      rcases error_of_count h httl hp hcount with ⟨hle, -⟩ | ⟨hmem, -⟩
      · exact absurd hlt (not_lt.mpr hle)
      · exact absurd hmem hs

end Collection

end ScalarStore
