import ScalarStore.Proofs.Query.Composition
import ScalarStore.Proofs.Query.Evaluation

/-! # Ids and filters on the key

The rows with some keys can be asked for by ids or by a filter on the key. The two look through a
list in their own ways: ids leave out truth values only, while a filter leaves out all that is not
of the key's kind and is decided if nothing is left. They find the same rows. -/

namespace ScalarStore

/-- The filter that asks for the keys among some ids, in front of another filter. -/
def Filter.keyed (name : String) (ids : List Value) : Option Filter → Filter
  | none => .leaf name .isIn (.list ids)
  | some filter => .node .and [.leaf name .isIn (.list ids), filter]

/-! ## Keys among the ids -/

/-- A key equals no truth value. -/
theorem Value.IsPlain.kind_ne_bool {key v : Value} (hkey : key.IsPlain)
    (h : key.Relates .eq v) : v.kind ≠ .bool := by
  rcases hkey with ⟨n, rfl⟩ | ⟨s, rfl⟩ <;> cases v <;> simp_all [Relates, numeric?, kind]

/-- A key is no `nan`. -/
theorem Value.IsPlain.isOneNan {key : Value} (hkey : key.IsPlain) (v : Value) :
    key.isOneNan v = false := by
  rcases hkey with ⟨n, rfl⟩ | ⟨s, rfl⟩ <;> rfl

/-- What both ways leave out of a list equals no key. -/
theorem Request.any_coincides_allowed {f : Field} {ids allowed : List Value} {key : Value}
    (h : allowedKeys ids = .ok allowed) (hkey : key.IsPlain) (ha : f.type.Admits key) :
    (ids.filter f.type.fits).any key.coincides = allowed.any key.same := by
  rw [Bool.eq_iff_iff, Filter.any_coincides_filter_iff ids ha, any_same_allowed_iff h hkey]
  constructor
  · rintro (⟨id, hm, hequal⟩ | ⟨id, -, hnan⟩)
    · exact ⟨id, hm, hkey.kind_ne_bool hequal, hequal⟩
    · exact absurd hnan (by simp [hkey.isOneNan])
  · rintro ⟨id, hm, -, hequal⟩
    exact .inl ⟨id, hm, hequal⟩

/-- Without lists and maps all ids but the truth values are allowed. -/
theorem Request.exists_allowedKeys {ids : List Value} (h : ∀ id ∈ ids, id.isKey = true) :
    ∃ allowed, allowedKeys ids = .ok allowed := by
  refine ⟨ids.filter fun v => v.kind != .bool, mapM_eq_ok_iff.mpr (List.forall₂_same.mpr ?_)⟩
  intro id hm
  rw [Value.asKey, Option.isNone_iff_eq_none.mp (h id (List.mem_filter.mp hm).1)]

/-! ## Guards -/

/-- A guard answers for the rows that it keeps with another predicate, and for the others with
no. -/
def Predicate.Guards (guarded p : Predicate) (record : Record) (keeps : Bool) : Prop :=
  guarded.test record = if keeps then p.test record else .ok false

namespace Predicate

variable {p q : Predicate} {record : Record} {keeps : Bool}

theorem test_all_singleton (p : Predicate) (record : Record) :
    (all [p]).test record = p.test record := by
  cases p with
  | constant b => cases b <;> rfl
  | live c => rfl

/-- The first part of a conjunction guards the second. -/
theorem guards_all (h : q.test record = .ok keeps) : (all [q, p]).Guards p record keeps := by
  cases keeps with
  | false => exact test_all_of_false h
  | true => exact (test_all_of_true h).trans (test_all_singleton p record)

/-- A predicate guards what is true of every row. -/
theorem guards_of_constant (h : q.test record = .ok keeps) :
    q.Guards (.constant true) record keeps := by
  rw [Guards, h]
  cases keeps <;> rfl

end Predicate

/-- A guarded predicate finds what the predicate finds among the rows that the guard keeps. -/
theorem Request.matching_of_guards {guarded p : Predicate} {keeps : StoredRow → Bool}
    {rows : List StoredRow} (h : ∀ row ∈ rows, guarded.Guards p row.record (keeps row)) :
    matching guarded rows = matching p (rows.filter keeps) := by
  induction rows with
  | nil => rfl
  | cons row rows ih =>
      obtain ⟨hrow, hrest⟩ := List.forall_mem_cons.mp h
      rw [matching_cons, hrow, ih hrest]
      cases hk : keeps row with
      | true => rw [List.filter_cons_of_pos hk, matching_cons, if_pos rfl]
      | false =>
          rw [List.filter_cons_of_neg (by simp [hk])]
          cases matching p (rows.filter keeps) <;> rfl

/-! ## The filter on the key -/

namespace Collection

variable {c : Collection}

theorem field_primaryName (c : Collection) :
    c.schema.field (some c.name) c.primaryName = .ok c.schema.primary := by
  have hfound : c.schema.field? c.primaryName = some c.schema.primary :=
    Schema.field?_eq_some_iff.mpr ⟨c.schema.primary_mem.1, rfl⟩
  rw [Schema.field, hfound]

/-- The filter on the key tells of a stored row whether its key is allowed. -/
theorem Invariant.test_membership (h : c.Invariant) {ids allowed : List Value} {p : Predicate}
    {row : StoredRow} (hrow : row ∈ c.stored) (hallowed : Request.allowedKeys ids = .ok allowed)
    (hp : Filter.compileMembership c.schema.primary .isIn (.list ids) = .ok p) :
    p.test row.record = .ok (allowed.any (c.keyOf row.record).same) := by
  have hkeyed := h.keyed row hrow
  have hconforms := h.conforms row hrow
  have hadmits := hconforms.admits_primary hkeyed
  rw [← Request.any_coincides_allowed hallowed (hconforms.isPlain hkeyed) hadmits]
  obtain ⟨items, ⟨⟩, ⟨hnone, rfl⟩ | ⟨-, rfl⟩⟩ := Filter.compileMembership_eq_ok hp
  · rw [hnone]
    rfl
  · simp only [Filter.ask, Predicate.test, Predicate.run, Circuit.run]
    rw [show row.record.lookup c.schema.primary.name = some (c.keyOf row.record) from hkeyed]
    exact Filter.isAmong_eq hadmits

end Collection

/-- Behind the filter on a field, a filter compiles to what it compiles to by itself. -/
theorem Filter.compile_keyed {schema : Schema} {collection : Option String} {name : String}
    {f : Field} {ids : List Value} {filter : Filter} {limit depth : Option ℤ}
    {p guarded : Predicate} (hf : schema.field collection name = .ok f)
    (hp : compile schema collection limit (some filter) = .ok p)
    (hguarded : compile schema collection depth (some (keyed name ids (some filter))) =
      .ok guarded) :
    ∃ q, compileMembership f .isIn (.list ids) = .ok q ∧ guarded = .all [q, p] := by
  have hlimit : Allows limit 0 filter.levels := (compile_eq_ok_iff.mp ⟨p, hp⟩).2
  have hdepth : Allows depth 1 filter.levels := by
    have hjoined := (compile_eq_ok_iff.mp ⟨guarded, hguarded⟩).2
    rw [keyed, levels, allows_succ_iff] at hjoined
    simp only [levelsOf, allows_max_iff] at hjoined
    exact hjoined.2.2.1
  have hinside : compileAt schema collection depth 1 filter = .ok p :=
    (compileAt_of_allows filter hdepth hlimit).trans hp
  rw [compile, keyed, compileAt] at hguarded
  split at hguarded
  · cases hguarded
  · cases hq : compileMembership f .isIn (.list ids) with
    | error fault => simp [compileAll, compileAt, compileLeaf, hf, hq] at hguarded
    | ok q =>
        refine ⟨q, rfl, ?_⟩
        simp only [compileAll, compileAt, compileLeaf, hf, hq, hinside, Except.map] at hguarded
        exact (Except.ok.inj hguarded).symm

/-- With the filter on the key in front, a compiled filter is guarded by the keys that are
allowed. -/
theorem Collection.Invariant.guards_keyed {c : Collection} (h : c.Invariant)
    {ids allowed : List Value} {filter : Option Filter} {limit depth : Option ℤ}
    {p guarded : Predicate} (hallowed : Request.allowedKeys ids = .ok allowed)
    (hp : Filter.compile c.schema (some c.name) limit filter = .ok p)
    (hguarded : Filter.compile c.schema (some c.name) depth
      (some (.keyed c.primaryName ids filter)) = .ok guarded)
    {row : StoredRow} (hrow : row ∈ c.stored) :
    guarded.Guards p row.record (allowed.any (c.keyOf row.record).same) := by
  cases filter with
  | none =>
      cases hp
      rw [Filter.keyed, Filter.compile, Filter.compileAt, c.field_primaryName] at hguarded
      exact Predicate.guards_of_constant (h.test_membership hrow hallowed hguarded)
  | some filter =>
      obtain ⟨q, hq, rfl⟩ := Filter.compile_keyed c.field_primaryName hp hguarded
      exact Predicate.guards_all (h.test_membership hrow hallowed hq)

/-! ## Answers -/

namespace Request

variable {c : Collection} {now : Binary64} {r : Request}

/-- The request with another filter and no ids. -/
def unrestricted (r : Request) (argument : FilterArgument) : Request :=
  { r with filter := argument, ids := none }

theorem restrict_none (c : Collection) (rows : List StoredRow) :
    restrict c none rows = .ok rows := rfl

theorem restrict_of_allowed (c : Collection) {ids allowed : List Value}
    (h : allowedKeys ids = .ok allowed) (rows : List StoredRow) :
    restrict c (some (.ok ids)) rows =
      .ok (rows.filter fun row => allowed.any (c.keyOf row.record).same) := by
  simp only [restrict, ok_bind, h]
  rfl

/-- If both filters compile then the answers are one, or fail alike. -/
theorem answer_unrestricted (h : c.Invariant) {ids : List Value} {filter : Option Filter}
    {limit depth : Option ℤ} {p guarded : Predicate} (hids : r.ids = some (.ok ids))
    (hkeys : ∀ id ∈ ids, id.isKey = true)
    (hp : Filter.compile c.schema (some c.name) limit filter = .ok p)
    (hguarded : Filter.compile c.schema (some c.name) depth
      (some (.keyed c.primaryName ids filter)) = .ok guarded) (argument : FilterArgument) :
    (r.unrestricted argument).answer c now (some (.keyed c.primaryName ids filter)) depth =
      r.answer c now filter limit := by
  obtain ⟨allowed, hallowed⟩ := exists_allowedKeys hkeys
  have hcount : (r.unrestricted argument).isCount = r.isCount := rfl
  have hwindow : (r.unrestricted argument).checkWindow = r.checkWindow := rfl
  have hfound (names : List Value) (shown : List StoredRow → Except Fault (List Record)) :
      (do
        let live ← c.snapshot now names
        let candidates ← restrict c none live
        shown (← matching guarded candidates)) =
      (do
        let live ← c.snapshot now names
        let candidates ← restrict c (some (.ok ids)) live
        shown (← matching p candidates)) := by
    cases hlive : c.snapshot now names with
    | error fault => rfl
    | ok live =>
        have hmatching := matching_of_guards fun row hm => h.guards_keyed hallowed hp hguarded
          ((Collection.snapshot_subperm hlive).subset hm)
        simp only [ok_bind, restrict_none, restrict_of_allowed c hallowed, hmatching]
  unfold answer
  rw [hcount, hwindow, hp, hguarded]
  refine bind_congr fun isCount => ?_
  rw [if_neg (by simp), if_neg (by simp [hids])]
  refine bind_congr fun _ => ?_
  simp only [ok_bind, unrestricted, hfound, hids]

end Request

/-! ## Accepted filters -/

/-- An argument stands for one filter. -/
theorem FilterArgument.Denotes.unique {depth : ℤ} {argument : FilterArgument}
    {filter other : Option Filter} (h : argument.Denotes depth filter)
    (ho : argument.Denotes depth other) : filter = other := by
  cases h with
  | tree f =>
      cases ho
      rfl
  | text h =>
      cases ho with
      | text ho => exact Except.ok.inj (h.symm.trans ho)

/-- An argument is accepted for a collection with the filter that it stands for if that filter
compiles. A text must be short enough, and a tree must keep the limit on its connectives. -/
inductive FilterArgument.Accepted (c : Collection) : FilterArgument → Option Filter → Prop
  | tree {f : Filter} {p : Predicate}
      (h : Filter.compile c.schema (some c.name) (some c.settings.maxDepth) (some f) = .ok p) :
      Accepted c (.tree f) (some f)
  | text {text : String} {filter : Option Filter} {p : Predicate}
      (hlength : text.length ≤ c.settings.maxFilterLength)
      (hparse : Filter.parse c.settings.maxDepth text = .ok filter)
      (h : Filter.compile c.schema (some c.name) none filter = .ok p) :
      Accepted c (.text text) filter

namespace Store.Invariant

variable {s : Store} {c : Collection} {now : Binary64} {r : Request}

theorem query_of_accepted {filter : Option Filter} (h : s.Invariant c.settings)
    (hc : s.collection r.collection none = .ok c) (ha : r.filter.Accepted c filter) :
    ∃ limit p, Filter.compile c.schema (some c.name) limit filter = .ok p ∧
      (s.query now r).1 = r.answer c now filter limit := by
  rw [h.query_of_collection now hc, Request.run, h.configured]
  cases hr : r.filter with
  | other kind =>
      rw [hr] at ha
      cases ha
  | tree f =>
      rw [hr] at ha
      cases ha with
      | tree hp => exact ⟨_, _, hp, rfl⟩
  | text text =>
      rw [hr] at ha
      cases ha with
      | text hlength hparse hp =>
          refine ⟨_, _, hp, ?_⟩
          simp only [FilterArgument.parsed, Request.readFilter, if_neg (not_lt.mpr hlength), hparse]
          rfl

/-- The filter of an answered request compiles, and the answer is that of its collection. -/
theorem answer_of_query {settings : Settings} {filter : Option Filter} {records : List Record}
    (h : s.Invariant settings) (hc : s.collection r.collection none = .ok c)
    (hr : r.filter.Denotes settings.maxDepth filter) (hq : (s.query now r).1 = .ok records) :
    ∃ limit p, Filter.compile c.schema (some c.name) limit filter = .ok p ∧
      r.answer c now filter limit = .ok records := by
  obtain ⟨_, _, limit, hc', hr', ha⟩ := h.query_eq_ok hq
  cases hc.symm.trans hc'
  cases hr.unique hr'
  obtain ⟨_, p, _, _, _, _, _, hp, -⟩ := Request.answer_eq_ok ha
  exact ⟨limit, p, hp, ha⟩

end Store.Invariant

namespace Session

variable {settings : Settings} {start : Binary64} {commands : List Command} {s : Session}

/-- In any session, ids select the rows that the filter on the key selects: a request with ids and
the request without them, with the filter on the key in front of its own, have the same answer. If
both filters are accepted then they also fail alike. -/
theorem query_unrestricted {r : Request} {c : Collection} {ids : List Value}
    {filter : Option Filter} {argument : FilterArgument}
    (hs : ((new settings start).run commands).2 = s)
    (hc : s.store.collection r.collection none = .ok c) (hids : r.ids = some (.ok ids))
    (hkeys : ∀ id ∈ ids, id.isKey = true) (hr : r.filter.Denotes settings.maxDepth filter)
    (hargument : argument.Denotes settings.maxDepth (some (.keyed c.primaryName ids filter))) :
    (∀ records others, (s.store.query s.clock r).1 = .ok records →
      (s.store.query s.clock (r.unrestricted argument)).1 = .ok others → others = records) ∧
    (r.filter.Accepted c filter → argument.Accepted c (some (.keyed c.primaryName ids filter)) →
      (s.store.query s.clock (r.unrestricted argument)).1 = (s.store.query s.clock r).1) := by
  have h : s.store.Invariant settings := hs ▸ invariant_run settings start commands
  have hcollection : c.Invariant := h.of_collection hc
  have hsame : s.store.collection (r.unrestricted argument).collection none = .ok c := hc
  constructor
  · intro records others hrecords hothers
    obtain ⟨limit, p, hp, ha⟩ := h.answer_of_query hc hr hrecords
    obtain ⟨depth, guarded, hguarded, hg⟩ := h.answer_of_query hsame hargument hothers
    rw [Request.answer_unrestricted hcollection hids hkeys hp hguarded, ha] at hg
    exact (Except.ok.inj hg).symm
  · intro haccepted hjoined
    obtain rfl := settings_of_run hs hc
    obtain ⟨limit, p, hp, hq⟩ := h.query_of_accepted hc haccepted
    obtain ⟨depth, guarded, hguarded, hg⟩ := h.query_of_accepted hsame hjoined
    rw [hq, hg]
    exact Request.answer_unrestricted hcollection hids hkeys hp hguarded argument

/-- The filter on the key for the titled rows. -/
def titledKeyed : Filter :=
  .keyed "id" [.str "b", .bool true, .str "a"] (some (.leaf "title" (.compare .eq) (.str "x")))

theorem query_unrestricted_titled :
    ∃ s c, ((new {} (.zero false)).run shelf).2 = s ∧ s.store.collection "c" none = .ok c ∧
      titled.filter.Accepted c (some (.leaf "title" (.compare .eq) (.str "x"))) ∧
      (FilterArgument.tree titledKeyed).Accepted c (some titledKeyed) ∧
      (s.store.query s.clock titled).1 = .ok [[("id", .str "a")]] ∧
      (s.store.query s.clock (titled.unrestricted (.tree titledKeyed))).1 =
        .ok [[("id", .str "a")]] := by
  obtain ⟨s, hs⟩ : ∃ s, ((new {} (.zero false)).run shelf).2 = s := ⟨_, rfl⟩
  obtain ⟨c, hc, hname, haccepted, hkeyed⟩ : ∃ c, s.store.collection "c" none = .ok c ∧
      c.primaryName = "id" ∧
      titled.filter.Accepted c (some (.leaf "title" (.compare .eq) (.str "x"))) ∧
      (FilterArgument.tree titledKeyed).Accepted c (some titledKeyed) := by
    subst hs
    exact ⟨_, rfl, rfl, .tree rfl, .tree rfl⟩
  have hq : (s.store.query s.clock titled).1 = .ok [[("id", .str "a")]] := by
    subst hs
    rfl
  have hkeys : ∀ id ∈ [Value.str "b", .bool true, .str "a"], id.isKey = true := by decide
  have hjoined : (FilterArgument.tree titledKeyed).Accepted c (some (.keyed c.primaryName
      [.str "b", .bool true, .str "a"] (some (.leaf "title" (.compare .eq) (.str "x"))))) := by
    rwa [hname]
  have hsame := (query_unrestricted hs hc rfl hkeys (.tree _) (hname ▸ .tree _)).2 haccepted hjoined
  exact ⟨s, c, hs, hc, haccepted, hkeyed, hq, hsame.trans hq⟩

end Session

end ScalarStore
