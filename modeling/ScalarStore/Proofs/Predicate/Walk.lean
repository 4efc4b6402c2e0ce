import ScalarStore.Proofs.Filter.Mention
import ScalarStore.Proofs.Predicate.Fold

/-! # What a predicate reads

The fields that a predicate reads of a record are those of a walk through the filter from left to
right, past all that is known without the record. A conjunction is left at its first part that is
not true, a disjunction at its first part that is not false. -/

namespace ScalarStore

namespace Filter

section

variable (schema : Schema) (record : Record)

mutual

/-- A walk through a filter reads some fields and ends with an answer or a fault. A part that is
known reads nothing. -/
inductive WalkDerivation : Filter → List String → Except Fault Bool → Prop where
  | known {filter : Filter} {b : Bool} (hk : filter.kleene schema.known = some b) :
      WalkDerivation filter [] (.ok b)
  | missing {name : String} {f : Field} {operator : Operator} {literal : Value}
      (hf : schema.field? name = some f) (hk : f.known operator literal = none)
      (hv : record.lookup name = none) :
      WalkDerivation (.leaf name operator literal) [name] (.error (.missingKey name))
  | asked {name : String} {f : Field} {operator : Operator} {literal v : Value} {t : Test}
      (hf : schema.field? name = some f) (hk : f.known operator literal = none)
      (ht : f.test? operator literal = some t) (hv : record.lookup name = some v) :
      WalkDerivation (.leaf name operator literal) [name] (t.run v)
  | not {child : Filter} {names : List String} {result : Except Fault Bool}
      (hk : kleene schema.known (.node .not [child]) = none)
      (h : WalkDerivation child names result) :
      WalkDerivation (.node .not [child]) names (result.map Bool.not)
  | all {children : List Filter} {names : List String} {result : Except Fault Bool}
      (hk : kleene schema.known (.node .and children) = none)
      (h : WalkEachDerivation true children names result) :
      WalkDerivation (.node .and children) names result
  | any {children : List Filter} {names : List String} {result : Except Fault Bool}
      (hk : kleene schema.known (.node .or children) = none)
      (h : WalkEachDerivation false children names result) :
      WalkDerivation (.node .or children) names result

/-- A walk through several filters goes on as long as the answer is the one given. -/
inductive WalkEachDerivation : Bool → List Filter → List String → Except Fault Bool → Prop where
  | nil (b : Bool) : WalkEachDerivation b [] [] (.ok b)
  | goes {b : Bool} {child : Filter} {rest : List Filter} {names others : List String}
      {result : Except Fault Bool} (h : WalkDerivation child names (.ok b))
      (hrest : WalkEachDerivation b rest others result) :
      WalkEachDerivation b (child :: rest) (names ++ others) result
  | stops {b : Bool} {child : Filter} {rest : List Filter} {names : List String}
      {result : Except Fault Bool} (h : WalkDerivation child names result)
      (hne : result ≠ .ok b) : WalkEachDerivation b (child :: rest) names result

end

end

end Filter

/-! ## Runs one after another -/

namespace Reads

/-- A run that ends with the answer `b` is followed by another one. -/
def followedBy (b : Bool) (first rest : Reads Bool) : Reads Bool :=
  match first.result with
  | .ok c => if c = b then ⟨first.names ++ rest.names, rest.result⟩ else first
  | .error _ => first

variable {b : Bool} {first rest : Reads Bool}

theorem followedBy_of_eq (h : first.result = .ok b) :
    first.followedBy b rest = ⟨first.names ++ rest.names, rest.result⟩ := by
  simp [followedBy, h]

theorem followedBy_of_ne (h : first.result ≠ .ok b) : first.followedBy b rest = first := by
  unfold followedBy
  split
  · next c hc =>
      rw [if_neg]
      rintro rfl
      exact h hc
  · rfl

theorem followedBy_eq_iff {names : List String} {result : Except Fault Bool} :
    first.followedBy b rest = ⟨names, result⟩ ↔
      (∃ front others, first = ⟨front, .ok b⟩ ∧ rest = ⟨others, result⟩ ∧
        names = front ++ others) ∨ first = ⟨names, result⟩ ∧ result ≠ .ok b := by
  by_cases h : first.result = .ok b
  · rw [followedBy_of_eq h]
    constructor
    · rintro ⟨⟩
      exact .inl ⟨_, _, by rw [← h], rfl, rfl⟩
    · rintro (⟨front, others, rfl, rfl, rfl⟩ | ⟨rfl, hne⟩)
      · rfl
      · exact absurd h hne
  · rw [followedBy_of_ne h]
    constructor
    · rintro rfl
      exact .inr ⟨rfl, h⟩
    · rintro (⟨front, others, rfl, -, -⟩ | ⟨hfirst, -⟩)
      · exact absurd rfl h
      · exact hfirst

end Reads

theorem Circuit.runAll_cons (record : Record) (c : Circuit) (cs : List Circuit) :
    runAll record (c :: cs) = (run record c).followedBy true (runAll record cs) := by
  rw [runAll, Reads.followedBy]
  rcases run record c with ⟨names, fault | answer⟩
  · rfl
  · cases answer <;> rfl

theorem Circuit.runAny_cons (record : Record) (c : Circuit) (cs : List Circuit) :
    runAny record (c :: cs) = (run record c).followedBy false (runAny record cs) := by
  rw [runAny, Reads.followedBy]
  rcases run record c with ⟨names, fault | answer⟩
  · rfl
  · cases answer <;> rfl

namespace Predicate

theorem run_negate (record : Record) (p : Predicate) :
    p.negate.run record = ⟨(p.run record).names, (p.run record).result.map Bool.not⟩ := by
  cases p <;> rfl

/-- Runs predicates as long as the answer is `b`. -/
def runEach (b : Bool) (record : Record) : List Predicate → Reads Bool
  | [] => ⟨[], .ok b⟩
  | p :: ps => (p.run record).followedBy b (runEach b record ps)

variable (record : Record)

/-- A constant with the answer that goes on leaves no trace. -/
theorem runEach_constant (b : Bool) (ps : List Predicate) :
    runEach b record (.constant b :: ps) = runEach b record ps :=
  Reads.followedBy_of_eq rfl

theorem runAll_live (ps : List Predicate) (h : some false ∉ ps.map constant?) :
    Circuit.runAll record (ps.filterMap live?) = runEach true record ps := by
  induction ps with
  | nil => rfl
  | cons p ps ih =>
      rw [List.map_cons, List.mem_cons, not_or] at h
      cases p with
      | live c =>
          have hcons : (live c :: ps).filterMap live? = c :: ps.filterMap live? := rfl
          rw [hcons, Circuit.runAll_cons, ih h.2]
          rfl
      | constant b =>
          cases b with
          | false => exact absurd rfl h.1
          | true => rw [List.filterMap_cons_none rfl, ih h.2, runEach_constant]

theorem runAny_live (ps : List Predicate) (h : some true ∉ ps.map constant?) :
    Circuit.runAny record (ps.filterMap live?) = runEach false record ps := by
  induction ps with
  | nil => rfl
  | cons p ps ih =>
      rw [List.map_cons, List.mem_cons, not_or] at h
      cases p with
      | live c =>
          have hcons : (live c :: ps).filterMap live? = c :: ps.filterMap live? := rfl
          rw [hcons, Circuit.runAny_cons, ih h.2]
          rfl
      | constant b =>
          cases b with
          | true => exact absurd rfl h.1
          | false => rw [List.filterMap_cons_none rfl, ih h.2, runEach_constant]

/-- Unless it is known, a conjunction runs its parts until one is not true. -/
theorem run_all_of_unknown {ps : List Predicate} (h : (all ps).constant? = none) :
    (all ps).run record = runEach true record ps := by
  have hfalse : some false ∉ ps.map constant? := fun hmem => by
    rw [constant?_all, Kleene.all_eq, if_pos hmem] at h
    cases h
  rw [run_all, if_neg (mt (any_constant?_iff ps false).mp hfalse), runAll_live record ps hfalse]

theorem run_any_of_unknown {ps : List Predicate} (h : (any ps).constant? = none) :
    (any ps).run record = runEach false record ps := by
  have htrue : some true ∉ ps.map constant? := fun hmem => by
    rw [constant?_any, Kleene.any_eq, if_pos hmem] at h
    cases h
  rw [run_any, if_neg (mt (any_constant?_iff ps true).mp htrue), runAny_live record ps htrue]

end Predicate

namespace Filter

variable {schema : Schema} {record : Record} {collection : Option String} {limit : Option ℤ}

/-! ## The walk is the run -/

/-- A predicate runs on a record as a walk through a filter goes. -/
def RunsAs (schema : Schema) (record : Record) (filter : Filter) (p : Predicate) : Prop :=
  ∀ names result,
    WalkDerivation schema record filter names result ↔ p.run record = ⟨names, result⟩

/-- What is known of a filter is all that a walk finds. -/
theorem walk_of_known {filter : Filter} {b : Bool} (hk : filter.kleene schema.known = some b)
    {names : List String} {result : Except Fault Bool} :
    WalkDerivation schema record filter names result ↔ names = [] ∧ result = .ok b := by
  constructor
  · intro h
    cases h with
    | known h => exact ⟨rfl, congrArg Except.ok (Option.some.inj (h.symm.trans hk))⟩
    | missing hf h _ =>
        rw [kleene, Schema.known_of_field? hf, h] at hk
        cases hk
    | asked hf h _ _ =>
        rw [kleene, Schema.known_of_field? hf, h] at hk
        cases hk
    | not h => cases h.symm.trans hk
    | all h => cases h.symm.trans hk
    | any h => cases h.symm.trans hk
  · rintro ⟨rfl, rfl⟩
    exact .known hk

theorem runsAs_of_known {filter : Filter} {p : Predicate} {b : Bool}
    (hk : filter.kleene schema.known = some b) (hp : p.constant? = some b) :
    RunsAs schema record filter p := fun names result => by
  obtain rfl := Predicate.constant?_eq_some_iff.mp hp
  rw [walk_of_known hk, Predicate.run, Reads.mk.injEq]
  exact and_congr eq_comm eq_comm

theorem walkEach_cons_iff {b : Bool} {child : Filter} {rest : List Filter} {names : List String}
    {result : Except Fault Bool} :
    WalkEachDerivation schema record b (child :: rest) names result ↔
      (∃ front others, WalkDerivation schema record child front (.ok b) ∧
        WalkEachDerivation schema record b rest others result ∧ names = front ++ others) ∨
      WalkDerivation schema record child names result ∧ result ≠ .ok b := by
  constructor
  · intro h
    cases h with
    | goes h hrest => exact .inl ⟨_, _, h, hrest, rfl⟩
    | stops h hne => exact .inr ⟨h, hne⟩
  · rintro (⟨front, others, h, hrest, rfl⟩ | ⟨h, hne⟩)
    · exact .goes h hrest
    · exact .stops h hne

theorem walkEach_nil_iff {b : Bool} {names : List String} {result : Except Fault Bool} :
    WalkEachDerivation schema record b [] names result ↔ names = [] ∧ result = .ok b := by
  constructor
  · intro h
    cases h
    exact ⟨rfl, rfl⟩
  · rintro ⟨rfl, rfl⟩
    exact .nil b

theorem runsAs_leaf {name : String} {f : Field} (hf : schema.field? name = some f)
    {operator : Operator} {literal : Value} {t : Test} (hk : f.known operator literal = none)
    (ht : f.test? operator literal = some t) :
    RunsAs schema record (.leaf name operator literal) (ask f t) := fun names result => by
  obtain ⟨-, rfl⟩ := Schema.field?_eq_some_iff.mp hf
  have hunknown : kleene schema.known (.leaf f.name operator literal) = none :=
    (Schema.known_of_field? hf operator literal).trans hk
  cases hv : record.lookup f.name with
  | none =>
      have hrun : (ask f t).run record = ⟨[f.name], .error (.missingKey f.name)⟩ := by
        simp [ask, Predicate.run, Circuit.run, hv]
      rw [hrun, Reads.mk.injEq]
      constructor
      · intro h
        cases h with
        | known h => cases h.symm.trans hunknown
        | missing => exact ⟨rfl, rfl⟩
        | asked _ _ _ hv' => cases hv.symm.trans hv'
      · rintro ⟨rfl, rfl⟩
        exact .missing hf hk hv
  | some v =>
      have hrun : (ask f t).run record = ⟨[f.name], t.run v⟩ := by
        simp [ask, Predicate.run, Circuit.run, hv]
      rw [hrun, Reads.mk.injEq]
      constructor
      · intro h
        cases h with
        | known h => cases h.symm.trans hunknown
        | missing _ _ hv' => cases hv.symm.trans hv'
        | asked hf' _ ht' hv' =>
            cases hf.symm.trans hf'
            cases ht.symm.trans ht'
            cases hv.symm.trans hv'
            exact ⟨rfl, rfl⟩
      · rintro ⟨rfl, rfl⟩
        exact .asked hf hk ht hv

/-- The predicates of several filters run as a walk through them goes. -/
theorem walkEach_iff_of_walk {b : Bool} {children : List Filter} {ps : List Predicate}
    (h : List.Forall₂ (RunsAs schema record) children ps) (names : List String)
    (result : Except Fault Bool) :
    WalkEachDerivation schema record b children names result ↔
      Predicate.runEach b record ps = ⟨names, result⟩ := by
  induction h generalizing names with
  | nil =>
      rw [walkEach_nil_iff, Predicate.runEach, Reads.mk.injEq]
      exact and_congr eq_comm eq_comm
  | cons hp _ ih =>
      rw [walkEach_cons_iff, Predicate.runEach, Reads.followedBy_eq_iff]
      simp only [hp _ _, ih]

/-! ## Trees -/

theorem walk_all_iff {children : List Filter} {names : List String} {result : Except Fault Bool}
    (hk : kleene schema.known (.node .and children) = none) :
    WalkDerivation schema record (.node .and children) names result ↔
      WalkEachDerivation schema record true children names result := by
  constructor
  · intro hwalk
    cases hwalk with
    | known h => cases h.symm.trans hk
    | all _ h => exact h
  · exact .all hk

theorem walk_any_iff {children : List Filter} {names : List String} {result : Except Fault Bool}
    (hk : kleene schema.known (.node .or children) = none) :
    WalkDerivation schema record (.node .or children) names result ↔
      WalkEachDerivation schema record false children names result := by
  constructor
  · intro hwalk
    cases hwalk with
    | known h => cases h.symm.trans hk
    | any _ h => exact h
  · exact .any hk

theorem walk_not_iff {child : Filter} {names : List String} {result : Except Fault Bool}
    (hk : kleene schema.known (.node .not [child]) = none) :
    WalkDerivation schema record (.node .not [child]) names result ↔
      ∃ r, WalkDerivation schema record child names r ∧ r.map Bool.not = result := by
  constructor
  · intro hwalk
    cases hwalk with
    | known h => cases h.symm.trans hk
    | not _ h => exact ⟨_, h, rfl⟩
  · rintro ⟨r, h, rfl⟩
    exact .not hk h

theorem runsAs_connect {connective : Connective} {children : List Filter} {ps : List Predicate}
    {p : Predicate} (hc : connect connective ps = .ok p)
    (hconstant : p.constant? = kleene schema.known (.node connective children))
    (h : List.Forall₂ (RunsAs schema record) children ps) :
    RunsAs schema record (.node connective children) p := by
  cases hk : kleene schema.known (.node connective children) with
  | some b => exact runsAs_of_known hk (hconstant.trans hk)
  | none =>
      intro names result
      cases connective with
      | and =>
          cases hc
          rw [walk_all_iff hk, Predicate.run_all_of_unknown record (hconstant.trans hk),
            walkEach_iff_of_walk h]
      | or =>
          cases hc
          rw [walk_any_iff hk, Predicate.run_any_of_unknown record (hconstant.trans hk),
            walkEach_iff_of_walk h]
      | other symbol unknown => cases hc
      | not =>
          cases h with
          | nil => cases hc
          | @cons child q _ _ hq hrest =>
              cases hrest with
              | cons => cases hc
              | nil =>
                  cases hc
                  rw [walk_not_iff hk, Predicate.run_negate, Reads.mk.injEq]
                  constructor
                  · rintro ⟨r, hwalk, rfl⟩
                    rw [(hq _ _).mp hwalk]
                    exact ⟨rfl, rfl⟩
                  · rintro ⟨rfl, rfl⟩
                    exact ⟨_, (hq _ _).mpr rfl, rfl⟩

mutual

theorem runsAs_compileAt (depth : ℕ) : (filter : Filter) → {p : Predicate} →
    compileAt schema collection limit depth filter = .ok p → RunsAs schema record filter p
  | .leaf name operator literal, p, h => by
      obtain ⟨f, hf, hc⟩ := compileAt_leaf_eq_ok h
      rcases compileLeaf_eq_ok hc with ⟨b, hb, rfl⟩ | ⟨t, hk, ht, rfl⟩
      · exact runsAs_of_known ((Schema.known_of_field? hf operator literal).trans hb) rfl
      · exact runsAs_leaf hf hk ht
  | .node connective children, p, h => by
      obtain ⟨ps, hps, hc⟩ := compileAt_node_eq_ok h
      exact runsAs_connect hc (constant?_compileAt depth _ h)
        (runsAs_compileAll (depth + 1) children hps)
  | .bare, _, h => nomatch h
  | .absent, _, h => nomatch h

theorem runsAs_compileAll (depth : ℕ) : (children : List Filter) → {ps : List Predicate} →
    compileAll schema collection limit depth children = .ok ps →
      List.Forall₂ (RunsAs schema record) children ps
  | [], ps, h => by
      cases h
      exact .nil
  | child :: rest, ps, h => by
      obtain ⟨q, others, hq, hothers, rfl⟩ := compileAll_cons_eq_ok h
      exact .cons (runsAs_compileAt depth child hq) (runsAs_compileAll depth rest hothers)

end

/-! ## The fields of a walk -/

mutual

theorem WalkDerivation.names_subset {filter : Filter} {names : List String}
    {result : Except Fault Bool} : WalkDerivation schema record filter names result →
      names ⊆ filter.leafFields
  | .known _ => List.nil_subset _
  | .missing .. => List.Subset.refl _
  | .asked .. => List.Subset.refl _
  | .not _ h => by
      rw [leafFields, leafFieldsOf, leafFieldsOf, List.append_nil]
      exact h.names_subset
  | .all _ h => h.names_subset
  | .any _ h => h.names_subset

theorem WalkEachDerivation.names_subset {b : Bool} {children : List Filter} {names : List String}
    {result : Except Fault Bool} : WalkEachDerivation schema record b children names result →
      names ⊆ leafFieldsOf children
  | .nil _ => List.nil_subset _
  | .goes h hrest =>
      List.append_subset_of_subset_of_subset
        (List.subset_append_of_subset_left _ h.names_subset)
        (List.subset_append_of_subset_right _ hrest.names_subset)
  | .stops h _ => List.subset_append_of_subset_left _ h.names_subset

end

mutual

/-- A record with the same values of the fields read has the same walk. -/
theorem WalkDerivation.congr {other : Record} {filter : Filter} {names : List String}
    {result : Except Fault Bool} : WalkDerivation schema record filter names result →
      (∀ name ∈ names, record.lookup name = other.lookup name) →
        WalkDerivation schema other filter names result
  | .known hk, _ => .known hk
  | .missing hf hk hv, hsame => .missing hf hk ((hsame _ (List.mem_singleton_self _)).symm.trans hv)
  | .asked hf hk ht hv, hsame =>
      .asked hf hk ht ((hsame _ (List.mem_singleton_self _)).symm.trans hv)
  | .not hk h, hsame => .not hk (h.congr hsame)
  | .all hk h, hsame => .all hk (h.congr hsame)
  | .any hk h, hsame => .any hk (h.congr hsame)

theorem WalkEachDerivation.congr {other : Record} {b : Bool} {children : List Filter}
    {names : List String} {result : Except Fault Bool} :
    WalkEachDerivation schema record b children names result →
      (∀ name ∈ names, record.lookup name = other.lookup name) →
        WalkEachDerivation schema other b children names result
  | .nil b, _ => .nil b
  | .goes h hrest, hsame =>
      .goes (h.congr fun name hm => hsame name (List.mem_append_left _ hm))
        (hrest.congr fun name hm => hsame name (List.mem_append_right _ hm))
  | .stops h hne, hsame => .stops (h.congr hsame) hne

end

/-- A predicate reads what a walk through its filter reads, in this order, and ends as the walk
does. All that it reads are fields of the filter, so records that agree on those have the same
outcome. -/
theorem reads_of_compile {filter : Filter} {p : Predicate}
    (h : compile schema collection limit (some filter) = .ok p) (record : Record) :
    (∀ names result, p.run record = ⟨names, result⟩ ↔
      WalkDerivation schema record filter names result) ∧
    (∀ name ∈ (p.run record).names, name ∈ filter.fieldNames) ∧
    ∀ other : Record, (∀ name ∈ filter.fieldNames, record.lookup name = other.lookup name) →
      p.run other = p.run record := by
  have hwalk (record : Record) : RunsAs schema record filter p := runsAs_compileAt 0 filter h
  have hread := (hwalk record _ _).mpr rfl
  have hnames : ∀ name ∈ (p.run record).names, name ∈ filter.fieldNames := fun name hm =>
    mem_fieldNames_iff.mpr (hread.names_subset hm)
  refine ⟨fun names result => (hwalk record names result).symm, hnames, fun other hsame => ?_⟩
  exact (hwalk other _ _).mp (hread.congr fun name hm => hsame name (hnames name hm))

/-- No number of stars is a text, so the first part is skipped. Unless the key is `b`, the number
of stars is read next. -/
def starred : Filter :=
  .node .or [.leaf "stars" .isIn (.list [.str "x"]),
    .node .and [.leaf "id" (.compare .ne) (.str "b"), .leaf "stars" .isIn (.list [.int 1])],
    .leaf "id" (.compare .eq) (.str "c")]

theorem walk_starred : WalkDerivation starsSchema [("id", .str "a")] starred ["id", "stars"]
    (.error (.missingKey "stars")) :=
  have hkey : WalkDerivation starsSchema [("id", .str "a")]
      (.leaf "id" (.compare .ne) (.str "b")) ["id"] (.ok true) :=
    .asked (t := .compare .ne (.str "b")) (v := .str "a") rfl rfl rfl rfl
  have hstars : WalkDerivation starsSchema [("id", .str "a")]
      (.leaf "stars" .isIn (.list [.int 1])) ["stars"] (.error (.missingKey "stars")) :=
    .missing rfl rfl rfl
  .any rfl (.goes (.known rfl) (.stops (.all rfl (.goes hkey (.stops hstars nofun))) nofun))

theorem reads_of_compile_starred :
    ∃ p, compile starsSchema none none (some starred) = .ok p ∧
      p.run [("id", .str "a")] = ⟨["id", "stars"], .error (.missingKey "stars")⟩ ∧
      starred.fieldNames = ["stars", "id"] ∧
      p.run [("id", .str "a"), ("title", .null)] = p.run [("id", .str "a")] := by
  obtain ⟨p, hc⟩ := compile_eq_ok_iff.mpr
    ⟨(by decide : starred.Legal starsSchema), allows_none 0 _⟩
  obtain ⟨hwalk, -, hagree⟩ := reads_of_compile hc [("id", .str "a")]
  have hnames : starred.fieldNames = ["stars", "id"] := (fieldNames_eq starred).trans (by decide)
  refine ⟨p, hc, (hwalk _ _).mpr walk_starred, hnames, hagree _ ?_⟩
  rw [hnames]
  decide

end Filter

end ScalarStore
