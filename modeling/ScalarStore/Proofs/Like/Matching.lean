import Mathlib.Data.List.Basic
import ScalarStore.Predicate.Compile

/-! # What a wildcard pattern matches

The rules read the characters of a pattern from left to right and name the text they take. The
program keeps a list of the remainders that a text may have; matching is exact for both. -/

namespace ScalarStore.Pattern

/-- A character of a pattern stands for itself unless it is a wildcard or escapes the next. -/
def StandsForItself (c : Char) (rest : List Char) : Prop :=
  c ≠ '%' ∧ c ≠ '_' ∧ (c = '\\' → ∀ d ∈ rest.head?, isSpecial d = false)

/-- The texts that the characters of a pattern stand for. -/
inductive LikeDerivation : List Char → List Char → Prop where
  | nil : LikeDerivation [] []
  | escaped (c) {pattern text} (h : isSpecial c = true) :
      LikeDerivation pattern text → LikeDerivation ('\\' :: c :: pattern) (c :: text)
  | exact (c) {pattern text} (h : StandsForItself c pattern) :
      LikeDerivation pattern text → LikeDerivation (c :: pattern) (c :: text)
  | any (c) {pattern text} :
      LikeDerivation pattern text → LikeDerivation ('_' :: pattern) (c :: text)
  | run (skipped) {pattern text} :
      LikeDerivation pattern text → LikeDerivation ('%' :: pattern) (skipped ++ text)

/-- The texts that the places of a pattern match. -/
def Matches : Pattern → List Char → Prop
  | [], text => text = []
  | .exact c :: pattern, text => ∃ rest, text = c :: rest ∧ Matches pattern rest
  | .any :: pattern, text => ∃ c rest, text = c :: rest ∧ Matches pattern rest
  | .run :: pattern, text => ∃ skipped rest, text = skipped ++ rest ∧ Matches pattern rest

/-! ## The remainders of a text -/

/-- The remainders are suffixes of one another, longest first, so all tails of them are tails
of the first. -/
def Nested (texts : List (List Char)) : Prop :=
  texts.Pairwise fun longer shorter => shorter <:+ longer

theorem mem_tails_iff (text rest : List Char) : rest ∈ tails text ↔ rest <:+ text := by
  induction text with
  | nil => simp [tails]
  | cons c text ih => simp [tails, List.suffix_cons_iff, ih]

theorem nested_tails (text : List Char) : Nested (tails text) := by
  induction text with
  | nil => simp [Nested, tails]
  | cons c text ih =>
      refine List.pairwise_cons.mpr ⟨?_, ih⟩
      intro rest hr
      exact ((mem_tails_iff text rest).mp hr).trans (List.suffix_cons c text)

theorem suffix_of_cons_suffix_cons {c d : Char} {short long : List Char}
    (h : c :: short <:+ d :: long) : short <:+ long := by
  rcases List.suffix_cons_iff.mp h with he | hs
  · exact (List.cons.inj he).2 ▸ List.suffix_rfl
  · exact (List.suffix_cons c short).trans hs

theorem nested_advance (w : Wildcard) {texts : List (List Char)} (h : Nested texts) :
    Nested (advance w texts) := by
  cases w with
  | exact c =>
      refine List.Pairwise.filterMap _ ?_ h
      intro longer shorter hs rest hr rest' hr'
      cases longer with
      | nil => simp at hr
      | cons d longer =>
          cases shorter with
          | nil => simp at hr'
          | cons e shorter =>
              simp only [Option.ite_none_right_eq_some, Option.some.injEq] at hr hr'
              obtain ⟨-, rfl⟩ := hr
              obtain ⟨-, rfl⟩ := hr'
              exact suffix_of_cons_suffix_cons hs
  | any =>
      refine List.Pairwise.filterMap _ ?_ h
      intro longer shorter hs rest hr rest' hr'
      cases longer with
      | nil => simp at hr
      | cons d longer =>
          cases shorter with
          | nil => simp at hr'
          | cons e shorter =>
              simp only [List.tail?_cons, Option.some.injEq] at hr hr'
              subst hr hr'
              exact suffix_of_cons_suffix_cons hs
  | run =>
      cases texts with
      | nil => exact h
      | cons longest rest => exact nested_tails longest

/-- Some remainder after a place is matched exactly if some remainder before it is. -/
theorem exists_mem_advance_iff (w : Wildcard) (pattern : Pattern) {texts : List (List Char)}
    (h : Nested texts) :
    (∃ rest ∈ advance w texts, Matches pattern rest) ↔
      ∃ text ∈ texts, Matches (w :: pattern) text := by
  cases w with
  | exact c =>
      simp only [advance, List.mem_filterMap, Matches]
      constructor
      · rintro ⟨rest, ⟨text, ht, hr⟩, hm⟩
        cases text with
        | nil => simp at hr
        | cons d text =>
            simp only [Option.ite_none_right_eq_some, Option.some.injEq] at hr
            obtain ⟨rfl, rfl⟩ := hr
            exact ⟨_, ht, _, rfl, hm⟩
      · rintro ⟨text, ht, rest, rfl, hm⟩
        exact ⟨rest, ⟨_, ht, by simp⟩, hm⟩
  | any =>
      simp only [advance, List.mem_filterMap, Matches]
      constructor
      · rintro ⟨rest, ⟨text, ht, hr⟩, hm⟩
        cases text with
        | nil => simp at hr
        | cons d text => exact ⟨_, ht, d, text, rfl, by simpa using (Option.some.inj hr) ▸ hm⟩
      · rintro ⟨text, ht, c, rest, rfl, hm⟩
        exact ⟨rest, ⟨_, ht, rfl⟩, hm⟩
  | run =>
      cases texts with
      | nil => simp [advance]
      | cons longest others =>
          simp only [advance, mem_tails_iff, Matches]
          constructor
          · rintro ⟨rest, ⟨skipped, rfl⟩, hm⟩
            exact ⟨_, List.mem_cons_self, skipped, rest, rfl, hm⟩
          · rintro ⟨text, ht, skipped, rest, rfl, hm⟩
            refine ⟨rest, (List.suffix_append skipped rest).trans ?_, hm⟩
            rcases List.mem_cons.mp ht with he | ht
            · exact he ▸ List.suffix_rfl
            · exact List.rel_of_pairwise_cons h ht

theorem exists_mem_foldl_advance_iff (pattern : Pattern) {texts : List (List Char)}
    (h : Nested texts) :
    [] ∈ pattern.foldl (fun texts w => advance w texts) texts ↔
      ∃ text ∈ texts, Matches pattern text := by
  induction pattern generalizing texts with
  | nil => simp [Matches]
  | cons w pattern ih =>
      rw [List.foldl_cons, ih (nested_advance w h), exists_mem_advance_iff w pattern h]

theorem test_iff (pattern : Pattern) (text : List Char) :
    pattern.test text = true ↔ Matches pattern text := by
  have h : Nested [text] := List.pairwise_singleton _ _
  rw [test, List.any_eq_true]
  simpa using exists_mem_foldl_advance_iff pattern h

/-! ## The characters of a pattern -/

theorem ofChars_escaped (c : Char) (rest : List Char) (h : isSpecial c = true) :
    ofChars ('\\' :: c :: rest) = .exact c :: ofChars rest := by
  simp [ofChars, h]

theorem ofChars_exact (c : Char) (rest : List Char) (h : StandsForItself c rest) :
    ofChars (c :: rest) = .exact c :: ofChars rest := by
  obtain ⟨hrun, hany, hescape⟩ := h
  by_cases hc : c = '\\'
  · subst hc
    cases rest with
    | nil => rfl
    | cons d rest =>
        have hd : isSpecial d = false := hescape rfl d rfl
        simp [ofChars, hd]
  · rw [ofChars]
    · simp [ofChar, hrun, hany]
    · intro d more h
      exact absurd h hc

theorem ofChars_run (rest : List Char) : ofChars ('%' :: rest) = .run :: ofChars rest := by
  rw [ofChars]
  · rfl
  · intro d more h
    exact absurd h (by decide)

theorem ofChars_any (rest : List Char) : ofChars ('_' :: rest) = .any :: ofChars rest := by
  rw [ofChars]
  · rfl
  · intro d more h
    exact absurd h (by decide)

theorem LikeDerivation.matches {pattern text : List Char} (h : LikeDerivation pattern text) :
    Matches (ofChars pattern) text := by
  induction h with
  | nil => rfl
  | escaped c hc _ ih => rw [ofChars_escaped c _ hc]; exact ⟨_, rfl, ih⟩
  | exact c hc _ ih => rw [ofChars_exact c _ hc]; exact ⟨_, rfl, ih⟩
  | any c _ ih => rw [ofChars_any]; exact ⟨c, _, rfl, ih⟩
  | run skipped _ ih => rw [ofChars_run]; exact ⟨skipped, _, rfl, ih⟩

/-- Each character escapes the next, is a wildcard or stands for itself. -/
theorem ofChars_derivation (pattern text : List Char) (h : Matches (ofChars pattern) text) :
    LikeDerivation pattern text := by
  fun_induction ofChars pattern generalizing text with
  | case1 c rest hc ih =>
      obtain ⟨text, rfl, hm⟩ := h
      exact .escaped c hc (ih text hm)
  | case2 c rest hc ih =>
      obtain ⟨text, rfl, hm⟩ := h
      refine .exact '\\' ⟨by decide, by decide, ?_⟩ (ih text hm)
      intro _ d hd
      cases hd
      simpa using hc
  | case3 c rest hescape ih =>
      by_cases hrun : c = '%'
      · subst hrun
        obtain ⟨skipped, text, rfl, hm⟩ := h
        exact .run skipped (ih text hm)
      · by_cases hany : c = '_'
        · subst hany
          obtain ⟨c, text, rfl, hm⟩ := h
          exact .any c (ih text hm)
        · simp only [ofChar, if_neg hrun, if_neg hany] at h
          obtain ⟨text, rfl, hm⟩ := h
          refine .exact c ⟨hrun, hany, ?_⟩ (ih text hm)
          intro hc d hd
          cases rest with
          | nil => cases hd
          | cons e rest => exact absurd rfl (hescape e rest hc)
  | case4 =>
      cases h
      exact .nil

theorem likeDerivation_iff (pattern text : List Char) :
    LikeDerivation pattern text ↔ (ofChars pattern).test text = true := by
  rw [test_iff]
  exact ⟨LikeDerivation.matches, ofChars_derivation pattern text⟩

/-! ## Patterns that need no search -/

theorem standsForItself_of_plain {c : Char} (rest : List Char) (h : isSpecial c = false) :
    StandsForItself c rest := by
  refine ⟨?_, ?_, ?_⟩
  · rintro rfl; exact absurd h (by decide)
  · rintro rfl; exact absurd h (by decide)
  · rintro rfl; exact absurd h (by decide)

/-- Plain characters in front of a pattern stand in front of the text. -/
theorem likeDerivation_append_iff (plain pattern text : List Char)
    (h : ∀ c ∈ plain, isSpecial c = false) :
    LikeDerivation (plain ++ pattern) text ↔
      ∃ rest, text = plain ++ rest ∧ LikeDerivation pattern rest := by
  induction plain generalizing text with
  | nil => simp
  | cons c plain ih =>
      obtain ⟨hc, hplain⟩ := List.forall_mem_cons.mp h
      have hs := standsForItself_of_plain (plain ++ pattern) hc
      rw [likeDerivation_iff, test_iff, List.cons_append, ofChars_exact c _ hs]
      constructor
      · rintro ⟨text, rfl, hm⟩
        obtain ⟨rest, rfl, hr⟩ := (ih text hplain).mp (ofChars_derivation _ _ hm)
        exact ⟨rest, rfl, hr⟩
      · rintro ⟨rest, rfl, hr⟩
        exact ⟨plain ++ rest, rfl, ((ih _ hplain).mpr ⟨rest, rfl, hr⟩).matches⟩

theorem likeDerivation_plain_iff (plain text : List Char)
    (h : ∀ c ∈ plain, isSpecial c = false) : LikeDerivation plain text ↔ text = plain := by
  have hn : ∀ rest, LikeDerivation [] rest ↔ rest = [] := by
    intro rest
    rw [likeDerivation_iff, test_iff]
    rfl
  simpa [hn] using likeDerivation_append_iff plain [] text h

theorem likeDerivation_start_iff (plain text : List Char)
    (h : ∀ c ∈ plain, isSpecial c = false) :
    LikeDerivation (plain ++ ['%']) text ↔ plain <+: text := by
  have hr : ∀ rest, LikeDerivation ['%'] rest := by
    intro rest
    simpa using LikeDerivation.run rest .nil
  rw [likeDerivation_append_iff plain ['%'] text h]
  constructor
  · rintro ⟨rest, rfl, -⟩
    exact List.prefix_append plain rest
  · rintro ⟨rest, rfl⟩
    exact ⟨rest, rfl, hr rest⟩

end ScalarStore.Pattern
