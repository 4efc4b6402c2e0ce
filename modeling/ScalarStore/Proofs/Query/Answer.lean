import ScalarStore.Proofs.Outcome
import ScalarStore.Proofs.Table
import ScalarStore.Query

/-! # The rows behind an answer

An answer goes back to live rows of the collection: each step from them keeps some of the rows,
in their order, and the last one keeps some of their fields. -/

namespace ScalarStore.Request

variable {c : Collection} {now : Binary64} {r : Request}

theorem restrict_sublist {ids : Option (Supplied (List Value))} {rows found : List StoredRow}
    (h : restrict c ids rows = .ok found) : found.Sublist rows := by
  unfold restrict at h
  split at h
  · cases h
    exact .refl _
  · obtain ⟨items, -, h⟩ := bind_eq_ok_iff.mp h
    obtain ⟨allowed, -, h⟩ := bind_eq_ok_iff.mp h
    cases h
    exact List.filter_sublist

/-- Every row is answered, and those with a positive answer are left. -/
theorem matching_eq_ok {p : Predicate} {rows found : List StoredRow}
    (h : matching p rows = .ok found) :
    ∃ answers : List (StoredRow × Bool), answers.map (·.1) = rows ∧
      (∀ answer ∈ answers, p.test answer.1.record = .ok answer.2) ∧
      found = (answers.filter (·.2)).map (·.1) := by
  obtain ⟨answers, ha, h⟩ := bind_eq_ok_iff.mp h
  cases h
  have hf := mapM_eq_ok_iff.mp ha
  suffices hanswers : answers.map (·.1) = rows ∧
      ∀ answer ∈ answers, p.test answer.1.record = .ok answer.2 from
    ⟨answers, hanswers.1, hanswers.2, rfl⟩
  clear h ha
  induction hf with
  | nil => simp
  | cons ht _ ih =>
      obtain ⟨b, hb, ht⟩ := bind_eq_ok_iff.mp ht
      cases ht
      obtain ⟨rfl, hrest⟩ := ih
      exact ⟨rfl, List.forall_mem_cons.mpr ⟨hb, hrest⟩⟩

theorem matching_sublist {p : Predicate} {rows found : List StoredRow}
    (h : matching p rows = .ok found) : found.Sublist rows := by
  obtain ⟨answers, rfl, -, rfl⟩ := matching_eq_ok h
  exact List.filter_sublist.map _

theorem page_sublist {α : Type} {offset : Number} {limit : Option Number} {items found : List α}
    (h : page offset limit items = .ok found) : found.Sublist items := by
  unfold page at h
  obtain ⟨start, -, h⟩ := bind_eq_ok_iff.mp h
  split at h
  · cases h
    exact List.drop_sublist start items
  · obtain ⟨count, -, h⟩ := bind_eq_ok_iff.mp h
    cases h
    exact (List.take_sublist count _).trans (List.drop_sublist start items)

/-- A projected row has the values of the row at the names of the fields. -/
theorem project_lookup {fields : List String} {row : StoredRow} {record : Record}
    (h : project fields row = .ok record) {name : String} (hm : name ∈ fields) :
    record.lookup name = row.record.lookup name := by
  have hf := mapM_eq_ok_iff.mp h
  clear h
  induction hf with
  | nil => cases hm
  | @cons field entry rest entries he _ ih =>
      split at he
      · next v hv =>
          cases he
          rw [lookup_cons_eq_ite]
          split
          · next heq => rw [heq, hv]
          · next hne =>
              rcases List.mem_cons.mp hm with heq | hrest
              · exact absurd heq hne
              · exact ih hrest
      · cases he

theorem mapM_project_lookup {fields : List String} {rows : List StoredRow}
    {records : List Record} (h : rows.mapM (project fields) = .ok records) {name : String}
    (hm : name ∈ fields) :
    records.map (·.lookup name) = rows.map fun row => row.record.lookup name := by
  have hf := mapM_eq_ok_iff.mp h
  clear h
  induction hf with
  | nil => rfl
  | cons hp _ ih => rw [List.map_cons, List.map_cons, ih, project_lookup hp hm]

theorem primaryName_mem_outputFields {output : List Value} {fields : List String}
    (h : outputFields c output = .ok fields) : c.primaryName ∈ fields := by
  unfold outputFields at h
  obtain ⟨groups, -, h⟩ := bind_eq_ok_iff.mp h
  cases h
  exact List.mem_eraseDups.mpr List.mem_cons_self

theorem isCount_of_output (h : r.output = .ok [.str countAll]) : r.isCount = .ok true := by
  have hname : Text.lower (Text.strip countAll) = countAll := by decide +kernel
  simp [isCount, h, bind, Except.bind, pure, Except.pure, outputName, hname]

/-- All that an answered request has gone through. -/
theorem answer_eq_ok {filter : Option Filter} {limit : Option Int} {records : List Record}
    (h : r.answer c now filter limit = .ok records) :
    ∃ isCount p names live candidates matched,
      r.isCount = .ok isCount ∧ Filter.compile c.schema (some c.name) limit filter = .ok p ∧
      r.partitions = .ok names ∧ c.snapshot now names = .ok live ∧
      restrict c r.ids live = .ok candidates ∧ matching p candidates = .ok matched ∧
      if isCount then records = [[(countAll, .int matched.length)]]
      else ∃ output fields rows, r.output = .ok output ∧ outputFields c output = .ok fields ∧
        page r.offset r.limit matched = .ok rows ∧ rows.mapM (project fields) = .ok records := by
  unfold answer at h
  obtain ⟨isCount, hcount, h⟩ := bind_eq_ok_iff.mp h
  dsimp only at h
  split at h
  · obtain ⟨_, hrefused, -⟩ := bind_eq_ok_iff.mp h
    cases hrefused
  · obtain ⟨_, -, h⟩ := bind_eq_ok_iff.mp h
    obtain ⟨p, hp, h⟩ := bind_eq_ok_iff.mp h
    cases isCount with
    | true =>
        obtain ⟨_, -, h⟩ := bind_eq_ok_iff.mp h
        obtain ⟨names, hnames, h⟩ := bind_eq_ok_iff.mp h
        obtain ⟨live, hlive, h⟩ := bind_eq_ok_iff.mp h
        obtain ⟨candidates, hids, h⟩ := bind_eq_ok_iff.mp h
        obtain ⟨matched, hmatched, h⟩ := bind_eq_ok_iff.mp h
        cases h
        exact ⟨true, p, names, live, candidates, matched, hcount, hp, hnames, hlive, hids,
          hmatched, rfl⟩
    | false =>
        obtain ⟨output, houtput, h⟩ := bind_eq_ok_iff.mp h
        obtain ⟨fields, hfields, h⟩ := bind_eq_ok_iff.mp h
        obtain ⟨names, hnames, h⟩ := bind_eq_ok_iff.mp h
        obtain ⟨live, hlive, h⟩ := bind_eq_ok_iff.mp h
        obtain ⟨candidates, hids, h⟩ := bind_eq_ok_iff.mp h
        obtain ⟨matched, hmatched, h⟩ := bind_eq_ok_iff.mp h
        obtain ⟨rows, hrows, h⟩ := bind_eq_ok_iff.mp h
        exact ⟨false, p, names, live, candidates, matched, hcount, hp, hnames, hlive, hids,
          hmatched, output, fields, rows, houtput, hfields, hrows, h⟩

end ScalarStore.Request
