import ScalarStore.Proofs.Like.Expression
import ScalarStore.Proofs.Predicate.Offence

/-! # One meaning of patterns

A pattern is matched place by place, as a regular expression, or, in a compiled filter, by one of
three tests that are chosen by the characters of the pattern. All of them agree with the rules. -/

namespace ScalarStore.Filter

open Pattern (LikeDerivation)

variable {schema : Schema} {f : Field}

/-- A filter chooses texts at a field if it compiles under every limit to a predicate that is true
of the records with one of these texts at the field, and false of those with another. -/
def Chooses (schema : Schema) (field : String) (filter : Filter) (choice : String → Prop) : Prop :=
  ∀ collection limit, ∃ p, compile schema collection limit (some filter) = .ok p ∧
    ∀ (record : Record) (s : String), record.lookup field = some (.str s) →
      ∃ b, p.test record = .ok b ∧ (b = true ↔ choice s)

theorem Chooses.congr {field : String} {filter : Filter} {choice other : String → Prop}
    (h : Chooses schema field filter choice) (hiff : ∀ s, choice s ↔ other s) :
    Chooses schema field filter other :=
  (funext fun s => propext (hiff s) : choice = other) ▸ h

/-- What the test of a field answers for a text, the predicate of a leaf answers for the records
that have the text there. -/
theorem chooses_of_compileLeaf {operator : Operator} {literal : Value} {t : Test}
    {choice : String → Prop} (hf : f ∈ schema.fields)
    (ht : compileLeaf f operator literal = .ok (ask f t))
    (h : ∀ s, ∃ b, t.run (.str s) = .ok b ∧ (b = true ↔ choice s)) :
    Chooses schema f.name (.leaf f.name operator literal) choice := by
  intro collection limit
  refine ⟨ask f t, ?_, fun record s hs => ?_⟩
  · rw [compile, compileAt, Schema.field, Schema.field?_eq_some_iff.mpr ⟨hf, rfl⟩]
    exact ht
  · obtain ⟨b, hb, hiff⟩ := h s
    refine ⟨b, ?_, hiff⟩
    simp only [Predicate.test, ask, Predicate.run, Circuit.run, hs, hb]

/-- Whichever test a pattern is given, it chooses the texts that the rules name. -/
theorem chooses_like (hf : f ∈ schema.fields) (ht : f.type = .varchar) (pattern : String) :
    Chooses schema f.name (.leaf f.name .like (.str pattern))
      fun s => LikeDerivation pattern.toList s.toList := by
  have hcompile : compileLeaf f .like (.str pattern) = .ok (ask f (likeTest pattern)) := by
    simp [compileLeaf, compileLike, ht]
  exact chooses_of_compileLeaf hf hcompile (likeTest_run pattern)

/-- The texts that the rules name are those that the places of a pattern match, those of its
regular expression, read from its text, and those that a compiled filter chooses. -/
theorem like_paths_agree (hf : f ∈ schema.fields) (ht : f.type = .varchar) (pattern : String) :
    (∀ s : String, (Pattern.ofText pattern).test s.toList = true ↔
      LikeDerivation pattern.toList s.toList) ∧
    (∃ r, Regex.read? (Pattern.ofText pattern).spelling = some r ∧ ∀ s : String,
      s.toList ∈ r.language ↔ LikeDerivation pattern.toList s.toList) ∧
    Chooses schema f.name (.leaf f.name .like (.str pattern))
      fun s => LikeDerivation pattern.toList s.toList := by
  have htest : ∀ s : String, (Pattern.ofText pattern).test s.toList = true ↔
      LikeDerivation pattern.toList s.toList :=
    fun s => (Pattern.likeDerivation_iff pattern.toList s.toList).symm
  refine ⟨htest, ⟨_, Pattern.read?_spelling _, fun s => ?_⟩, chooses_like hf ht pattern⟩
  rw [Pattern.mem_language_regex_iff, ← Pattern.test_iff, htest]

/-- An escaped `%` in front of one that is a wildcard: texts that start with `50%.`. -/
theorem like_paths_agree_percent : ∃ f ∈ titleSchema.fields, f.name = "title" ∧
    f.type = .varchar ∧ (Pattern.ofText "50\\%.%").spelling = "50%\\..*".toList ∧
    Chooses titleSchema "title" (.leaf "title" .like (.str "50\\%.%"))
      fun s => LikeDerivation "50\\%.%".toList s.toList := by
  obtain ⟨f, hf, hname, ht⟩ : ∃ f ∈ titleSchema.fields, f.name = "title" ∧ f.type = .varchar :=
    ⟨_, List.mem_cons_of_mem _ List.mem_cons_self, rfl, rfl⟩
  have hagree := (like_paths_agree hf ht "50\\%.%").2.2
  rw [hname] at hagree
  exact ⟨f, hf, hname, ht, by decide, hagree⟩

end ScalarStore.Filter
