import ScalarStore.Proofs.Predicate.Offence
import ScalarStore.Proofs.Filter.Composition
import ScalarStore.Proofs.Query.Failure
import ScalarStore.Proofs.Query.Selection
import ScalarStore.Proofs.Session.Standing

/-! # Evaluating a filter and querying with its text

A filter can be evaluated on a row, or its text can be put into a query. The answers are those of
one meaning, but evaluation limits the connectives above one another, and a query trusts the limit
on open levels under which the text was read. -/

namespace ScalarStore

open Schema (settingsName)

/-! ## Evaluation -/

namespace Filter

variable {schema : Schema} {f : Filter} {record : Record}

/-- A filter that compiles answers a record of its schema with what is found of it there. -/
theorem test_of_compile {collection : Option String} {limit : Option ℤ} {p : Predicate}
    (hp : compile schema collection limit (some f) = .ok p) (hr : schema.Conforms record)
    (hs : settingsName ∉ schema.fieldNames) :
    ∃ b, p.test record = .ok b ∧ (b = true ↔ Finds (valuesOf record) f) := by
  have ha := answers_compile hr (Schema.completes_valuesOf hr hs) hp
  obtain ⟨b, hb, hiff⟩ := ha.answers fun hn => hs (ha.reads _ hn)
  exact ⟨b, hb, by simpa [FindsIfAny] using hiff⟩

theorem evaluate_of_legal (hf : f.Legal schema) (hlevels : f.levels ≤ 128)
    (hr : schema.Conforms record) (hs : settingsName ∉ schema.fieldNames) :
    ∃ b, evaluate schema (some f) record = .ok b ∧ (b = true ↔ Finds (valuesOf record) f) := by
  have hallows : Allows (some defaultDepth) 0 f.levels := by
    rintro _ ⟨⟩
    exact .inr (by unfold defaultDepth; omega)
  obtain ⟨p, hp⟩ := compile_eq_ok_iff.mpr ⟨hf, hallows⟩
  obtain ⟨b, hb, hiff⟩ := test_of_compile hp hr hs
  exact ⟨b, bind_eq_ok_iff.mpr ⟨p, hp, hb⟩, hiff⟩

theorem evaluate_of_deep (hf : f.Legal schema) (hdeep : 128 < f.levels) (record : Record) :
    evaluate schema (some f) record = .error (.parameter (.filterTooDeep 128)) := by
  cases hp : compile schema none (some defaultDepth) (some f) with
  | error fault =>
      have hfirst := List.mem_of_head? (compile_eq_error_iff.mp hp)
      obtain ⟨_, ⟨⟩, rfl⟩ := hf.tooDeep_of_offences 0 fault hfirst
      exact bind_eq_error_iff.mpr (.inl hp)
  | ok p =>
      have hlimit := (compile_eq_ok_iff.mp ⟨p, hp⟩).2 defaultDepth rfl
      unfold defaultDepth at hlimit
      omega

theorem evaluate_of_illegal (hf : ¬ f.Legal schema) (record : Record) :
    ∃ fault, evaluate schema (some f) record = .error fault := by
  cases hp : compile schema none (some defaultDepth) (some f) with
  | error fault => exact ⟨fault, bind_eq_error_iff.mpr (.inl hp)⟩
  | ok p => exact absurd (compile_eq_ok_iff.mp ⟨p, hp⟩).1 hf

end Filter

/-! ## Queries for keys -/

/-- A request for the keys of the rows on which a filter text holds. -/
def Request.selecting (name text : String) : Request where
  collection := name
  filter := .text text
  ids := none
  partitions := .ok []
  consistency := .bounded
  output := .ok []
  limit := none
  offset := .whole 0

namespace Collection

/-- What such a request shows of a row. -/
def keyEntry (c : Collection) (row : StoredRow) : Record :=
  [(c.primaryName, c.keyOf row.record)]

variable {c : Collection} {row other : StoredRow} {rows : List StoredRow}

theorem Invariant.keyEntry_inj (h : c.Invariant) (hrow : row ∈ c.stored) (hother : other ∈ c.stored)
    (he : c.keyEntry row = c.keyEntry other) : row = other := by
  have hkey : c.keyOf row.record = c.keyOf other.record := by
    simpa [keyEntry] using he
  exact List.inj_on_of_nodup_map h.distinct hrow hother hkey

theorem Invariant.mapM_project_key (h : c.Invariant) (hrows : rows ⊆ c.stored) :
    rows.mapM (Request.project [c.primaryName]) = .ok (rows.map c.keyEntry) := by
  refine mapM_eq_ok_iff.mpr ((List.forall₂_map_right_iff).mpr (List.forall₂_same.mpr ?_))
  intro row hrow
  simp [Request.project, keyEntry, h.keyed row (hrows hrow), pure, Except.pure, bind, Except.bind]

end Collection

namespace Request

variable {c : Collection} {now : Binary64}

theorem answer_selecting (name text : String) (f : Filter) (limit : Option ℤ) :
    (selecting name text).answer c now (some f) limit = (do
      let p ← Filter.compile c.schema (some c.name) limit (some f)
      let live ← c.snapshot now []
      let matched ← matching p live
      matched.mapM (project [c.primaryName])) := by
  have hcount : (selecting name text).isCount = .ok false := rfl
  have hfields : outputFields c [] = .ok [c.primaryName] := rfl
  rw [answer, hcount]
  simp only [bind, Except.bind, Option.isNone_some, Bool.false_eq_true, false_and, if_false,
    checkWindow, selecting, hfields, restrict, page, pure, Except.pure, placeOf, Number.int?]
  cases Filter.compile c.schema (some c.name) limit (some f) with
  | error fault => rfl
  | ok p =>
      cases c.snapshot now [] with
      | error fault => rfl
      | ok live =>
          dsimp only
          cases matching p live <;> rfl

/-- A legal filter is answered, and the answer shows the live rows on which it is found true. -/
theorem answer_of_legal (h : c.Invariant) (hs : settingsName ∉ c.schema.fieldNames)
    {f : Filter} (hf : f.Legal c.schema) {live : List StoredRow}
    (hlive : c.snapshot now [] = .ok live) (name text : String) :
    ∃ records, (selecting name text).answer c now (some f) none = .ok records ∧
      ∀ row ∈ live, c.keyEntry row ∈ records ↔ Filter.Finds (Filter.valuesOf row.record) f := by
  obtain ⟨p, hp⟩ : ∃ p, Filter.compile c.schema (some c.name) none (some f) = .ok p :=
    Filter.compile_eq_ok_iff.mpr ⟨hf, Filter.allows_none 0 _⟩
  have hstored : live ⊆ c.stored := (Collection.snapshot_subperm hlive).subset
  obtain ⟨matched, hmatched⟩ : ∃ matched, matching p live = .ok matched := by
    cases hmatching : matching p live with
    | ok matched => exact ⟨matched, rfl⟩
    | error fault => exact absurd (failsOnly_matching h hp hstored fault hmatching).1 hs
  have hkept : matched ⊆ live := (matching_sublist hmatched).subset
  refine ⟨matched.map c.keyEntry, ?_, fun row hrow => ?_⟩
  · rw [answer_selecting]
    simp only [bind, Except.bind, hp, hlive, hmatched]
    exact h.mapM_project_key fun row hrow => hstored (hkept hrow)
  · have hentry : c.keyEntry row ∈ matched.map c.keyEntry ↔ row ∈ matched := by
      refine ⟨fun hmem => ?_, List.mem_map_of_mem⟩
      obtain ⟨other, hother, he⟩ := List.mem_map.mp hmem
      exact h.keyEntry_inj (hstored (hkept hother)) (hstored hrow) he ▸ hother
    obtain ⟨b, hb, hmem⟩ := mem_matching_iff hmatched hrow
    obtain ⟨b', hb', hfinds⟩ := Filter.test_of_compile hp (h.conforms row (hstored hrow)) hs
    cases hb.symm.trans hb'
    exact hentry.trans (hmem.trans hfinds)

theorem answer_of_illegal {f : Filter} (hf : ¬ f.Legal c.schema) (now : Binary64)
    (name text : String) :
    ∃ fault, (selecting name text).answer c now (some f) none = .error fault := by
  rw [answer_selecting]
  cases hp : Filter.compile c.schema (some c.name) none (some f) with
  | error fault => exact ⟨fault, rfl⟩
  | ok p => exact absurd (Filter.compile_eq_ok_iff.mp ⟨p, hp⟩).1 hf

end Request

/-! ## Deep filters -/

namespace Filter

/-- A flag, and conjunctions with it within disjunctions with it, some levels deep. -/
def nested : ℕ → Filter
  | 0 => .leaf "f" (.compare .eq) (.bool true)
  | n + 1 => .node .or [.leaf "f" (.compare .eq) (.bool true),
      .node .and [.leaf "f" (.compare .eq) (.bool true), nested n]]

def nestedText : ℕ → String
  | 0 => "f"
  | n + 1 => "f or f and (" ++ nestedText n ++ ")"

theorem levels_nested (n : ℕ) : (nested n).levels = 2 * n := by
  induction n with
  | zero => rfl
  | succ n ih =>
      simp only [nested, levels, levelsOf, ih]
      omega

theorem length_nestedText (n : ℕ) : (nestedText n).length = 13 * n + 1 := by
  induction n with
  | zero => rfl
  | succ n ih =>
      have hfront : "f or f and (".length = 12 := rfl
      have hback : ")".length = 1 := rfl
      rw [nestedText, String.length_append, String.length_append, ih, hfront, hback]
      omega

/-- One level is open for each pair of parentheses. -/
theorem tokenize_nestedText (k n : ℕ) : ∃ tokens, tokenize (nestedText n) = .ok tokens ∧
    DisjunctionDerivation (k + n) tokens (nested n) := by
  have hflag (m p : ℕ) : UnaryDerivation m [⟨.name "f", p⟩] (nested 0) :=
    .predicate m (.flag "f" p)
  induction n with
  | zero =>
      refine ⟨[⟨.name "f", 0⟩], by cbv, ?_⟩
      exact (hflag k 0).disjunction
  | succ n ih =>
      obtain ⟨tokens, htokens, hinside⟩ := ih
      have htext : (nestedText (n + 1)).toList = 'f' :: ' ' :: (Keyword.or.word.toList ++
          ' ' :: 'f' :: ' ' :: (Keyword.and.word.toList ++
            ' ' :: ('(' :: (nestedText n).toList ++ [')']))) := by
        simp [nestedText, Keyword.word]
      obtain ⟨p, hor⟩ := scan_word .or 2 ('f' :: ' ' :: (Keyword.and.word.toList ++
        ' ' :: ('(' :: (nestedText n).toList ++ [')'])))
      obtain ⟨q, hand⟩ := scan_word .and (p + 2) ('(' :: (nestedText n).toList ++ [')'])
      obtain ⟨taken, last, htaken, henclosed⟩ := scan_enclosed htokens hinside q
      refine ⟨⟨.name "f", 0⟩ :: ⟨.keyword .or, 2⟩ :: ⟨.name "f", p⟩ ::
        ⟨.keyword .and, p + 2⟩ :: taken, ?_, ?_⟩
      · rw [tokenize, htext, scan_f, hor, scan_f, hand, henclosed]
        simp [scan, Except.map]
      · have hopened : UnaryDerivation (k + (n + 1)) taken (nested n) := htaken
        have hright : ConjunctionDerivation (k + (n + 1))
            (⟨.name "f", p⟩ :: ⟨.keyword .and, p + 2⟩ :: taken) (.node .and [nested 0, nested n]) :=
          .run (hflag _ p) (.one rfl hopened) (.several _ _ [])
        exact .run (hflag _ 0).conjunction (.one rfl hright) (.several _ _ [])

theorem parse_nestedText (k n : ℕ) :
    parse (k + n : ℕ) (nestedText n) = .ok (some (nested n)) := by
  obtain ⟨tokens, htokens, hderivation⟩ := tokenize_nestedText k n
  exact parse_of_derivation htokens hderivation

/-- A schema of a key and a flag. -/
def flagSchema : Schema :=
  ⟨[titleSchema.primary,
    ⟨"f", .bool, false, none, .null, by decide,
      (Keyword.ofWord?_eq_none_iff _).mpr (by decide), fun h => absurd h Bool.false_ne_true,
      fun h => absurd rfl h, positive_of_none⟩],
    .null, nodup_pair (by decide), rfl⟩

theorem legal_nested (n : ℕ) : (nested n).Legal flagSchema := by
  have hflag : (nested 0).Legal flagSchema := by decide
  induction n with
  | zero => exact hflag
  | succ n ih =>
      have hboth : (Filter.node .and [nested 0, nested n]).Legal flagSchema :=
        .all (by simp [hflag, ih])
      exact .any (by simpa using ⟨hflag, hboth⟩)

end Filter

/-! ## Both answers for one row -/

/-- A filter is true of a row exactly if the query shows the row, false exactly if the query
succeeds without it, and a fault exactly if the query is one. -/
structure Agree (answer : Except Fault Bool) (found : Except Fault (List Record))
    (entry : Record) : Prop where
  isTrue : answer = .ok true ↔ ∃ records, found = .ok records ∧ entry ∈ records
  isFalse : answer = .ok false ↔ ∃ records, found = .ok records ∧ entry ∉ records
  isFault : (∃ fault, answer = .error fault) ↔ ∃ fault, found = .error fault

theorem agree_of_ok {b : Bool} {records : List Record} {entry : Record}
    (h : b = true ↔ entry ∈ records) : Agree (.ok b) (.ok records) entry := by
  cases b <;> constructor <;> simp_all

theorem agree_of_error {fault fault' : Fault} (entry : Record) :
    Agree (.error fault) (.error fault') entry := by
  constructor <;> simp

namespace Session

variable {start : Binary64} {commands : List Command} {s : Session} {name : String}
  {c : Collection}

theorem settings_of_run {settings : Settings} (hs : ((new settings start).run commands).2 = s)
    (hc : s.store.collection name none = .ok c) : c.settings = settings := by
  obtain ⟨a, hat⟩ := Store.at?_of_collection hc
  refine forall_collections_of_run (P := fun c => c.settings = settings) hs ?_ ?_ hat
  · intro name schema properties description c _ hnew
    obtain ⟨updated, rfl⟩ := Collection.new_eq_ok hnew
    rfl
  · intro s t action ht hstep
    exact (Clocked.frame_step hstep).2.2.trans ht

/-- In any session with the usual settings a query with a text gives what its filter does. -/
theorem query_selecting (hs : ((new {} start).run commands).2 = s)
    (hc : s.store.collection name none = .ok c) {text : String} {f : Filter}
    (hlength : text.length ≤ 65536)
    (hparse : Filter.parse Filter.defaultDepth text = .ok (some f)) :
    (s.store.query s.clock (.selecting name text)).1 =
      (Request.selecting name text).answer c s.clock (some f) none := by
  have h : s.store.Invariant {} := hs ▸ invariant_run {} start commands
  have hparsed : (Request.selecting name text).filter.parsed s.store.settings.maxDepth =
      .ok (some f) := by
    rw [h.configured]
    exact hparse
  have hshort : ¬ c.settings.maxFilterLength < text.length := by
    rw [settings_of_run hs hc]
    exact not_lt.mpr (Int.ofNat_le.mpr hlength)
  rw [h.query_of_collection s.clock hc, hparsed, Request.run]
  simp only [Request.selecting, Request.readFilter, if_neg hshort]
  rfl

/-- A collection with a row whose flag is set. -/
def flagged : List Command :=
  [.createCollection "c" Filter.flagSchema .null .null none,
    .insert "c" (.map [(.str "id", .str "a"), (.str "f", .bool true)]) none]

theorem exists_flagged : ∃ s c row, ((new {} (.zero false)).run flagged).2 = s ∧
    s.store.collection "c" none = .ok c ∧ c.schema = Filter.flagSchema ∧
    settingsName ∉ c.schema.fieldNames ∧ c.snapshot s.clock [] = .ok [row] ∧
    row.record = [("id", .str "a"), ("f", .bool true)] :=
  ⟨_, _, _, rfl, rfl, rfl, by decide, rfl, rfl⟩

/-- Evaluating the filter of a text on a live row agrees with the query exactly if the filter has
at most as many connectives above one another as evaluation takes, or does not fit the schema. -/
theorem evaluation_agrees_iff {text : String} {f : Filter} {live : List StoredRow}
    {row : StoredRow} (hs : ((new {} start).run commands).2 = s)
    (hc : s.store.collection name none = .ok c) (hlength : text.length ≤ 65536)
    (hparse : Filter.parse Filter.defaultDepth text = .ok (some f))
    (hsettings : settingsName ∉ c.schema.fieldNames)
    (hlive : c.snapshot s.clock [] = .ok live) (hrow : row ∈ live) :
    Agree (Filter.evaluate c.schema (some f) row.record)
        (s.store.query s.clock (.selecting name text)).1 (c.keyEntry row) ↔
      f.levels ≤ 128 ∨ ¬ f.Legal c.schema := by
  have hstore : s.store.Invariant {} := hs ▸ invariant_run {} start commands
  have h : c.Invariant := hstore.of_collection hc
  have hconforms := h.conforms row ((Collection.snapshot_subperm hlive).subset hrow)
  rw [query_selecting hs hc hlength hparse]
  by_cases hf : f.Legal c.schema
  · obtain ⟨records, hrecords, hentry⟩ := Request.answer_of_legal h hsettings hf hlive name text
    rw [hrecords, or_iff_left (not_not_intro hf)]
    constructor
    · intro hagree
      by_contra hdeep
      have hfault := Filter.evaluate_of_deep hf (not_le.mp hdeep) row.record
      obtain ⟨_, hrefused⟩ := hagree.isFault.mp ⟨_, hfault⟩
      cases hrefused
    · intro hlevels
      obtain ⟨b, hb, hfinds⟩ := Filter.evaluate_of_legal hf hlevels hconforms hsettings
      rw [hb]
      exact agree_of_ok (hfinds.trans (hentry row hrow).symm)
  · obtain ⟨fault, hfault⟩ := Request.answer_of_illegal hf s.clock name text
    obtain ⟨fault', hfault'⟩ := Filter.evaluate_of_illegal hf row.record
    rw [hfault, hfault']
    exact iff_of_true (agree_of_error _) (.inr hf)

theorem evaluation_agrees_iff_nested : ∃ s c row,
    ((new {} (.zero false)).run flagged).2 = s ∧ s.store.collection "c" none = .ok c ∧
    c.snapshot s.clock [] = .ok [row] ∧
    Filter.parse Filter.defaultDepth (Filter.nestedText 64) = .ok (some (Filter.nested 64)) ∧
    Agree (Filter.evaluate c.schema (some (Filter.nested 64)) row.record)
      (s.store.query s.clock (.selecting "c" (Filter.nestedText 64))).1 (c.keyEntry row) := by
  obtain ⟨s, c, row, hs, hc, -, hsettings, hlive, -⟩ := exists_flagged
  have hparse : Filter.parse Filter.defaultDepth (Filter.nestedText 64) =
      .ok (some (Filter.nested 64)) := Filter.parse_nestedText 64 64
  have hlength : (Filter.nestedText 64).length ≤ 65536 := by
    rw [Filter.length_nestedText]
    decide
  have hagree := evaluation_agrees_iff hs hc hlength hparse hsettings hlive
    (List.mem_singleton_self row)
  exact ⟨s, c, row, hs, hc, hlive, hparse,
    hagree.mpr (.inl (Nat.le_of_eq (Filter.levels_nested 64)))⟩

/-- One pair of parentheses more, and evaluation refuses a filter of which the query shows the
row. -/
theorem evaluation_nested_differs : ∃ s c row records,
    ((new {} (.zero false)).run flagged).2 = s ∧ s.store.collection "c" none = .ok c ∧
    c.snapshot s.clock [] = .ok [row] ∧
    Filter.parse Filter.defaultDepth (Filter.nestedText 65) = .ok (some (Filter.nested 65)) ∧
    (s.store.query s.clock (.selecting "c" (Filter.nestedText 65))).1 = .ok records ∧
    c.keyEntry row ∈ records ∧
    Filter.evaluate c.schema (some (Filter.nested 65)) row.record =
      .error (.parameter (.filterTooDeep 128)) ∧
    ¬ Agree (Filter.evaluate c.schema (some (Filter.nested 65)) row.record)
      (s.store.query s.clock (.selecting "c" (Filter.nestedText 65))).1 (c.keyEntry row) := by
  obtain ⟨s, c, row, hs, hc, hschema, hsettings, hlive, hrecord⟩ := exists_flagged
  have hparse : Filter.parse Filter.defaultDepth (Filter.nestedText 65) =
      .ok (some (Filter.nested 65)) := Filter.parse_nestedText 63 65
  have hlength : (Filter.nestedText 65).length ≤ 65536 := by
    rw [Filter.length_nestedText]
    decide
  have hlegal : (Filter.nested 65).Legal c.schema := hschema ▸ Filter.legal_nested 65
  have hdeep : 128 < (Filter.nested 65).levels := by
    rw [Filter.levels_nested]
    decide
  have hfault := Filter.evaluate_of_deep hlegal hdeep row.record
  have hfinds : Filter.Finds (Filter.valuesOf row.record) (Filter.nested 65) := by
    rw [hrecord]
    exact .inl (.inl ⟨rfl, rfl⟩)
  have hstore : s.store.Invariant {} := hs ▸ invariant_run {} _ flagged
  obtain ⟨records, hanswer, hshown⟩ := Request.answer_of_legal (hstore.of_collection hc)
    hsettings hlegal hlive "c" (Filter.nestedText 65)
  have hquery := (query_selecting hs hc hlength hparse).trans hanswer
  refine ⟨s, c, row, records, hs, hc, hlive, hparse, hquery,
    (hshown row (List.mem_singleton_self row)).mpr hfinds, hfault, fun hagree => ?_⟩
  obtain ⟨_, hrefused⟩ := hagree.isFault.mp ⟨_, hfault⟩
  cases hquery.symm.trans hrefused

end Session

end ScalarStore
