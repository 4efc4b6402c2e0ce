import ScalarStore.Proofs.Collection.Keys
import ScalarStore.Proofs.Predicate.Tree
import ScalarStore.Proofs.Session.Invariant

/-! # What a query selects

Without a limit, an offset or a count, a query answers with exactly the live rows that are wanted,
each once and in the order of the snapshot, and shows each of them at the requested fields. -/

namespace ScalarStore

/-- The filter that an argument stands for: a tree is a filter, and a text stands for what it
parses to. -/
inductive FilterArgument.Denotes (depth : Int) : FilterArgument → Option Filter → Prop
  | tree (f : Filter) : Denotes depth (.tree f) (some f)
  | text {text : String} {filter : Option Filter} (h : Filter.parse depth text = .ok filter) :
      Denotes depth (.text text) filter

namespace Value

variable {key v : Value}

/-- An id that is no truth value is the same as a key exactly if it equals the key. -/
theorem same_iff_relates (hkey : key.IsPlain) (hv : v.kind ≠ .bool) :
    key.same v = true ↔ key.Relates .eq v := by
  rcases hkey with ⟨n, rfl⟩ | ⟨s, rfl⟩
  · have hnumber : ∀ m, ((Number.whole n).compare? m == some .eq) = true ↔
        Comparison.eq.RelatesNumbers (.whole n) m := fun m => Comparison.holds_iff .eq _ m
    cases v with
    | bool b => exact absurd rfl hv
    | int m => simp [same, number?, Relates, numeric?, ← hnumber]
    | float x => simp [same, number?, Relates, numeric?, ← hnumber]
    | _ => simp [same, number?, Relates, numeric?]
  · cases v <;> simp [same, number?, Relates, numeric?, Comparison.Orders]

theorem asKey_eq_ok (h : v.asKey = .ok key) : key = v := by
  unfold asKey at h
  split at h
  · exact (Except.ok.inj h).symm
  · cases h

end Value

/-- An answered query has found its collection and read its filter. -/
theorem Store.Invariant.query_eq_ok {settings : Settings} {s : Store} (h : s.Invariant settings)
    {now : Binary64} {r : Request} {records : List Record}
    (hq : (s.query now r).1 = .ok records) :
    ∃ c filter limit, s.collection r.collection none = .ok c ∧
      r.filter.Denotes settings.maxDepth filter ∧ r.answer c now filter limit = .ok records := by
  unfold Store.query at hq
  split at hq
  · cases hq
  · next c hc =>
      obtain ⟨⟨filter, limit⟩, hread, ha⟩ := bind_eq_ok_iff.mp hq
      refine ⟨c, filter, limit, hc, ?_, ha⟩
      cases hf : r.filter with
      | tree f =>
          rw [hf] at hread
          cases hread
          exact .tree f
      | other kind =>
          rw [hf] at hread
          cases hread
      | text text =>
          rw [hf] at hread
          unfold Request.readFilter at hread
          dsimp only at hread
          split at hread
          · cases hread
          · next hlength =>
              obtain ⟨parsed, hparsed, he⟩ := map_eq_ok_iff.mp hread
              cases he
              rw [Store.parseFilter, if_neg hlength, h.configured] at hparsed
              exact .text ((h.cached.parse text).1.symm.trans hparsed)

namespace Request

variable {c : Collection} {now : Binary64} {r : Request} {row : StoredRow}

/-! ## What is wanted -/

/-- A row is wanted if its partition is requested, its key is among the ids, and what is asked of
it by the filter is so. No partitions mean all of them, and no ids any key. -/
structure Wants (r : Request) (c : Collection) (row : StoredRow) (question : Prop) : Prop where
  partition : ∃ names, r.partitions = .ok names ∧ (names = [] ∨ .str row.partition ∈ names)
  key : ∀ ids, r.ids = some ids → ∃ items, ids = .ok items ∧
    ∃ id ∈ items, id.kind ≠ .bool ∧ (c.keyOf row.record).Relates .eq id
  filter : question

/-- Rows are selected by a request if they are the live stored rows that it wants, each once, in
the order of the snapshot: those of which the filter is found to be true, and so those of which it
is true where no list of the filter has a `nan` of the row for an item. A field without a value in
a row has no part in this, whatever its value would be. -/
structure Selects (r : Request) (c : Collection) (now : Binary64) (filter : Option Filter)
    (rows : List StoredRow) : Prop where
  inOrder : ∃ names live, r.partitions = .ok names ∧ c.snapshot now names = .ok live ∧
    rows.Sublist live
  once : rows.Nodup
  stored : ∀ row ∈ rows, row ∈ c.stored
  wanted : ∃ seconds, c.ttl = .ok seconds ∧ ∀ row ∈ c.stored,
    (∃ values, c.schema.Completes row.record values) ∧
    ∀ values, c.schema.Completes row.record values →
      (row ∈ rows ↔
        row.live now seconds = true ∧ r.Wants c row (Filter.FindsIfAny values filter)) ∧
      ((∀ f ∈ filter, ¬f.ListsOwnNan values) →
        (row ∈ rows ↔
          row.live now seconds = true ∧ r.Wants c row (Filter.HoldsIfAny values filter)))

/-- The fields that an output name asks for. -/
def requested (c : Collection) (name : String) : List String :=
  if Text.strip name = "*" then c.schema.fieldNames else [Text.strip name]

/-- An entry of an answer has the values of a row at some fields, in their order. -/
structure IsEntry (fields : List String) (row : StoredRow) (record : Record) : Prop where
  names : record.map (·.1) = fields
  values : ∀ entry ∈ record, row.record.lookup entry.1 = some entry.2

/-- Rows are shown one by one at the primary key and then at the requested fields in the order of
first mention, no field twice. -/
def Shows (r : Request) (c : Collection) (rows : List StoredRow) (records : List Record) : Prop :=
  ∃ names fields : List String, r.output = .ok (names.map .str) ∧
    fields = (c.primaryName :: names.flatMap (requested c)).eraseDups ∧ fields.Nodup ∧
    List.Forall₂ (IsEntry fields) rows records

/-! ## Partitions, keys and filters -/

/-- A snapshot has the live rows of the requested partitions. -/
theorem mem_snapshot_iff (h : c.Invariant) {names : List Value} {live : List StoredRow}
    {seconds : ℤ} (hlive : c.snapshot now names = .ok live) (hs : c.ttl = .ok seconds)
    (hrow : row ∈ c.stored) :
    row ∈ live ↔ row.live now seconds = true ∧ (names = [] ∨ .str row.partition ∈ names) := by
  obtain ⟨texts, found, rfl, hm, ht, -, rfl⟩ :=
    (Collection.snapshot_eq_ok_iff now names live).mp hlive
  cases hs.symm.trans ht
  obtain ⟨name, hname, hin⟩ := List.mem_flatMap.mp hrow
  have htag : row.partition = name := h.tagged name hname row hin
  have hselected : row ∈ c.rowsOf texts ↔ texts = [] ∨ row.partition ∈ texts := by
    rw [Collection.rowsOf, List.mem_flatMap]
    by_cases hnone : texts = []
    · rw [if_pos hnone]
      exact ⟨fun _ => .inl hnone, fun _ => ⟨name, hname, hin⟩⟩
    · rw [if_neg hnone]
      constructor
      · rintro ⟨other, ho, hin'⟩
        have hother := List.mem_eraseDups.mp ho
        exact .inr (h.tagged other (hm other hother) row hin' ▸ hother)
      · rintro (hnil | hmem)
        · exact absurd hnil hnone
        · exact ⟨name, List.mem_eraseDups.mpr (htag ▸ hmem), hin⟩
  rw [List.mem_filter, hselected, and_comm]
  simp

theorem allowedKeys_eq_ok {ids allowed : List Value} (h : allowedKeys ids = .ok allowed) :
    allowed = ids.filter fun v => v.kind != .bool := by
  have hf := mapM_eq_ok_iff.mp h
  generalize ids.filter (fun v => v.kind != .bool) = kept at hf
  clear h
  induction hf with
  | nil => rfl
  | cons hkey _ ih => rw [Value.asKey_eq_ok hkey, ih]

/-- A key is among the allowed ones exactly if one of the ids equals it. -/
theorem any_same_allowed_iff {ids allowed : List Value} {key : Value}
    (h : allowedKeys ids = .ok allowed) (hkey : key.IsPlain) :
    allowed.any key.same = true ↔ ∃ id ∈ ids, id.kind ≠ .bool ∧ key.Relates .eq id := by
  rw [allowedKeys_eq_ok h, List.any_eq_true]
  constructor
  · rintro ⟨id, hm, hsame⟩
    obtain ⟨hid, hkind⟩ := List.mem_filter.mp hm
    have hne : id.kind ≠ .bool := by simpa using hkind
    exact ⟨id, hid, hne, (Value.same_iff_relates hkey hne).mp hsame⟩
  · rintro ⟨id, hid, hne, hequal⟩
    exact ⟨id, List.mem_filter.mpr ⟨hid, by simpa using hne⟩,
      (Value.same_iff_relates hkey hne).mpr hequal⟩

/-- The rows with a requested key are left. -/
theorem mem_restrict_iff {ids : Option (Supplied (List Value))} {rows found : List StoredRow}
    (h : restrict c ids rows = .ok found) (hkey : (c.keyOf row.record).IsPlain) :
    row ∈ found ↔ row ∈ rows ∧ ∀ given, ids = some given → ∃ items, given = .ok items ∧
      ∃ id ∈ items, id.kind ≠ .bool ∧ (c.keyOf row.record).Relates .eq id := by
  unfold restrict at h
  cases ids with
  | none =>
      cases h
      simp
  | some given =>
      obtain ⟨items, hitems, h⟩ := bind_eq_ok_iff.mp h
      obtain ⟨allowed, hallowed, h⟩ := bind_eq_ok_iff.mp h
      cases h
      subst hitems
      rw [List.mem_filter, any_same_allowed_iff hallowed hkey]
      simp

/-- The predicate fails on none of the rows, and those on which it is true are left. -/
theorem mem_matching_iff {p : Predicate} {rows found : List StoredRow}
    (h : matching p rows = .ok found) (hrow : row ∈ rows) :
    ∃ b, p.test row.record = .ok b ∧ (row ∈ found ↔ b = true) := by
  obtain ⟨answers, rfl, htest, rfl⟩ := matching_eq_ok h
  obtain ⟨⟨_, b⟩, hm, rfl⟩ := List.mem_map.mp hrow
  have hb := htest _ hm
  refine ⟨b, hb, ?_⟩
  constructor
  · intro hfound
    obtain ⟨⟨other, positive⟩, hm', rfl⟩ := List.mem_map.mp hfound
    obtain ⟨hm', rfl⟩ := List.mem_filter.mp hm'
    exact Except.ok.inj (hb.symm.trans (htest _ hm'))
  · rintro rfl
    exact List.mem_map_of_mem (List.mem_filter.mpr ⟨hm, rfl⟩)

/-! ## Pages and fields -/

/-- The first place is that of an offset of zero. -/
theorem placeOf_eq_zero {offset : Number} {place : ℕ} (ho : offset.isZero = true)
    (h : placeOf offset = .ok place) : place = 0 := by
  have hzero := (Number.compare?_eq_eq_iff offset (.whole 0)).mp (beq_iff_eq.mp ho)
  cases offset with
  | flag b =>
      cases h
      cases b with
      | false => rfl
      | true => simp [Number.exactValue?, Bool.toInt] at hzero
  | whole n =>
      cases h
      have hn : (0 : ℚ) = n := by simpa [Number.exactValue?] using hzero
      rw [Int.cast_eq_zero.mp hn.symm]
      rfl
  | real x => cases h

/-- From the first place on and without a limit a page has all items. -/
theorem page_eq_ok {α : Type} {offset : Number} {items found : List α}
    (ho : offset.isZero = true) (h : page offset none items = .ok found) : found = items := by
  obtain ⟨start, hstart, h⟩ := bind_eq_ok_iff.mp h
  cases h
  rw [placeOf_eq_zero ho hstart, List.drop_zero]

theorem expand_eq_ok {v : Value} {group : List String}
    (h : (do expand c (← outputName v)) = Except.ok group) :
    ∃ name, v = .str name ∧ group = requested c name ∧ group ⊆ c.schema.fieldNames := by
  obtain ⟨stripped, hname, h⟩ := bind_eq_ok_iff.mp h
  unfold outputName at hname
  split at hname
  · next name =>
      cases hname
      refine ⟨name, rfl, ?_⟩
      unfold expand at h
      unfold requested
      by_cases hall : Text.strip name = "*"
      · rw [if_pos hall] at h ⊢
        cases h
        exact ⟨rfl, List.Subset.refl _⟩
      · rw [if_neg hall] at h ⊢
        split at h
        · cases h
        · split at h
          · next hm =>
              cases h
              exact ⟨rfl, by simpa using hm⟩
          · cases h
  · cases hname

/-- The names that are asked for are texts, and stand for fields of the schema. -/
theorem outputFields_eq_ok {output : List Value} {fields : List String}
    (h : outputFields c output = .ok fields) :
    ∃ names : List String, output = names.map .str ∧
      fields = (c.primaryName :: names.flatMap (requested c)).eraseDups ∧
      fields ⊆ c.schema.fieldNames := by
  obtain ⟨groups, hgroups, h⟩ := bind_eq_ok_iff.mp h
  cases h
  have hf := mapM_eq_ok_iff.mp hgroups
  clear hgroups h
  suffices hnames : ∃ names : List String, output = names.map .str ∧
      groups.flatten = names.flatMap (requested c) ∧ groups.flatten ⊆ c.schema.fieldNames by
    obtain ⟨names, hn, hg, hsub⟩ := hnames
    refine ⟨names, hn, by rw [hg], fun name hm => ?_⟩
    rcases List.mem_cons.mp (List.mem_eraseDups.mp hm) with rfl | hm
    · exact List.mem_map_of_mem c.schema.primary_mem.1
    · exact hsub hm
  induction hf with
  | nil => exact ⟨[], rfl, rfl, List.nil_subset _⟩
  | cons hv _ ih =>
      obtain ⟨name, rfl, rfl, hgroup⟩ := expand_eq_ok hv
      obtain ⟨names, rfl, hflat, hrest⟩ := ih
      refine ⟨name :: names, rfl, by rw [List.flatten_cons, hflat, List.flatMap_cons], ?_⟩
      rw [List.flatten_cons]
      exact List.append_subset.mpr ⟨hgroup, hrest⟩

theorem isEntry_of_project {fields : List String} {record : Record}
    (h : project fields row = .ok record) : IsEntry fields row record := by
  have hf := mapM_eq_ok_iff.mp h
  clear h
  induction hf with
  | nil => exact ⟨rfl, by simp⟩
  | cons he _ ih =>
      split at he
      · next v hv =>
          cases he
          exact ⟨congrArg (_ :: ·) ih.names, List.forall_mem_cons.mpr ⟨hv, ih.values⟩⟩
      · cases he

/-! ## Answers -/

/-- A request that is answered without a limit, an offset or a count selects its rows and shows
them. -/
theorem selects_of_answer (h : c.Invariant) {filter : Option Filter} {limit : Option Int}
    {records : List Record} (ha : r.answer c now filter limit = .ok records)
    (hlimit : r.limit = none) (hoffset : r.offset.isZero = true) (hcount : r.isCount ≠ .ok true) :
    ∃ rows, r.Selects c now filter rows ∧ r.Shows c rows records := by
  obtain ⟨isCount, p, names, live, candidates, matched, hisCount, hp, hnames, hlive, hids,
    hmatched, hout⟩ := answer_eq_ok ha
  have hfalse : isCount = false := by
    rw [← Bool.not_eq_true]
    rintro rfl
    exact hcount hisCount
  subst hfalse
  obtain ⟨output, fields, rows, houtput, hfields, hpage, hproject⟩ := hout
  rw [hlimit] at hpage
  obtain rfl := page_eq_ok hoffset hpage
  have hcandidates : candidates.Sublist live := restrict_sublist hids
  have hrows : rows.Sublist candidates := matching_sublist hmatched
  have hsub : rows.Subperm c.stored :=
    (hrows.trans hcandidates).subperm.trans (Collection.snapshot_subperm hlive)
  refine ⟨rows, ?_, ?_⟩
  · refine ⟨⟨names, live, hnames, hlive, hrows.trans hcandidates⟩,
      (h.nodup_of_subperm hsub).of_map, fun row hm => hsub.subset hm, ?_⟩
    obtain ⟨_, seconds, -, -, hs, -⟩ := (Collection.snapshot_eq_ok_iff now names live).mp hlive
    refine ⟨seconds, hs, fun row hrow => ?_⟩
    have hconforms := h.conforms row hrow
    refine ⟨Schema.exists_completes hconforms, fun values hvalues => ?_⟩
    have hinLive := mem_snapshot_iff h hlive hs hrow
    have hinCandidates := mem_restrict_iff hids (hconforms.isPlain (h.keyed row hrow))
    have hfinds : row ∈ candidates → (row ∈ rows ↔ Filter.FindsIfAny values filter) := by
      intro hm
      obtain ⟨b, hb, hiff⟩ := mem_matching_iff hmatched hm
      exact hiff.trans ((Filter.answers_compile hconforms hvalues hp).of_eq_ok hb)
    suffices hwanted : row ∈ rows ↔
        row.live now seconds = true ∧ r.Wants c row (Filter.FindsIfAny values filter) from
      ⟨hwanted, fun hlists => by rwa [← Filter.findsIfAny_iff_holdsIfAny hlists]⟩
    constructor
    · intro hm
      have hcandidate := hrows.subset hm
      obtain ⟨hin, hkey⟩ := hinCandidates.mp hcandidate
      obtain ⟨hliving, hpartition⟩ := hinLive.mp hin
      exact ⟨hliving, ⟨names, hnames, hpartition⟩, hkey, (hfinds hcandidate).mp hm⟩
    · rintro ⟨hliving, ⟨given, hgiven, hpartition⟩, hkey, hfilter⟩
      cases hnames.symm.trans hgiven
      have hcandidate := hinCandidates.mpr ⟨hinLive.mpr ⟨hliving, hpartition⟩, hkey⟩
      exact (hfinds hcandidate).mpr hfilter
  · obtain ⟨texts, rfl, hall, -⟩ := outputFields_eq_ok hfields
    exact ⟨texts, fields, houtput, hall, hall ▸ nodup_eraseDups _,
      (mapM_eq_ok_iff.mp hproject).imp fun row record hrow => isEntry_of_project hrow⟩

end Request

namespace Session

variable {settings : Settings} {start : Binary64} {commands : List Command} {s : Session}

/-- In any session, a query that is answered without a limit, an offset or a count selects rows
of the collection that it names, by the filter that its argument stands for, and shows them in
their order. -/
theorem selection_of_query {r : Request} {records : List Record}
    (hs : ((new settings start).run commands).2 = s)
    (hq : (s.store.query s.clock r).1 = .ok records) (hlimit : r.limit = none)
    (hoffset : r.offset.isZero = true) (hcount : r.isCount ≠ .ok true) :
    ∃ c filter rows, s.store.collection r.collection none = .ok c ∧
      r.filter.Denotes settings.maxDepth filter ∧ r.Selects c s.clock filter rows ∧
      r.Shows c rows records := by
  have h : s.store.Invariant settings := by
    rw [← hs]
    exact invariant_run settings start commands
  obtain ⟨c, filter, limit, hc, hdenotes, ha⟩ := h.query_eq_ok hq
  obtain ⟨rows, hselects, hshows⟩ :=
    Request.selects_of_answer (h.of_collection hc) ha hlimit hoffset hcount
  exact ⟨c, filter, rows, hc, hdenotes, hselects, hshows⟩

/-- A collection with two rows. -/
def shelf : List Command :=
  [.createCollection "c" titleSchema .null .null none,
    .insert "c" (.list [.map [(.str "id", .str "a"), (.str "title", .str "x")],
      .map [(.str "id", .str "b"), (.str "title", .str "y")]]) none]

/-- A request for the row with title `x` among two keys. -/
def titled : Request where
  collection := "c"
  filter := .tree (.leaf "title" (.compare .eq) (.str "x"))
  ids := some (.ok [.str "b", .bool true, .str "a"])
  partitions := .ok []
  consistency := .bounded
  output := .ok []
  limit := none
  offset := .whole 0

theorem selection_of_query_titled :
    ∃ s c filter rows, ((new {} (.zero false)).run shelf).2 = s ∧
      s.store.collection "c" none = .ok c ∧
      titled.filter.Denotes 128 filter ∧ titled.Selects c s.clock filter rows ∧
      titled.Shows c rows [[("id", .str "a")]] := by
  obtain ⟨s, hs⟩ : ∃ s, ((new {} (.zero false)).run shelf).2 = s := ⟨_, rfl⟩
  have hq : (s.store.query s.clock titled).1 = .ok [[("id", .str "a")]] := by
    subst hs
    rfl
  have hzero : titled.offset.isZero = true :=
    beq_iff_eq.mpr ((Number.compare?_eq_eq_iff _ _).mpr ⟨_, _, rfl, rfl, rfl⟩)
  have hcount : titled.isCount = .ok false := rfl
  obtain ⟨c, filter, rows, h⟩ := selection_of_query hs hq rfl hzero (by simp [hcount])
  exact ⟨s, c, filter, rows, hs, h⟩

/-- A collection with a row whose score is `nan`. -/
def unscored : List Command :=
  [.createCollection "c" scoreSchema .null .null none,
    .insert "c" (.list [.map [(.str "id", .str "a"), (.str "score", .float (.nan (some 0)))]])
      none]

/-- The one score that is looked for is that of the row. -/
def amongOwn : Filter := .leaf "score" .isIn (.list [.float (.nan (some 0))])

def ownScore : Request where
  collection := "c"
  filter := .tree amongOwn
  ids := none
  partitions := .ok []
  consistency := .bounded
  output := .ok []
  limit := none
  offset := .whole 0

/-- The score of the row equals no score, and the row is found. -/
theorem query_ownScore :
    ∃ s c, ((new {} (.zero false)).run unscored).2 = s ∧ s.store.collection "c" none = .ok c ∧
      (s.store.query s.clock ownScore).1 = .ok [[("id", .str "a")]] ∧
      ∃ row, c.stored = [row] ∧
        ¬Filter.HoldsIfAny (Filter.valuesOf row.record) (some amongOwn) := by
  refine ⟨_, _, rfl, rfl, rfl, _, rfl, fun hholds => ?_⟩
  obtain ⟨items, hitems, item, hitem, hequal⟩ := hholds _ rfl
  cases hitems
  rw [List.mem_singleton.mp hitem] at hequal
  obtain ⟨m, n, hm, hn, hequal⟩ := hequal
  cases hm
  cases hn
  cases hequal

end Session

end ScalarStore
