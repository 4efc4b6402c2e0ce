import Mathlib
import ScalarStore.Filter.Parse
import ScalarStore.Proofs.Filter.Completeness
import ScalarStore.Proofs.Filter.Scan

/-! # Filter texts in parentheses

Two texts that spell filters are joined, and one is negated, by writing parentheses and a word
around them. The result spells the joined or negated filter, one or two levels deeper. -/

namespace ScalarStore.Filter

/-! ## Places do not matter -/

section Moved

variable (places : ℕ)

theorem LiteralDerivation.moved {tokens : List Token} {value : Value}
    (h : LiteralDerivation tokens value) :
    LiteralDerivation (tokens.map (Token.moved places)) value := by
  cases h with
  | quoted mark body p => exact .quoted mark body _
  | isTrue p => exact .isTrue _
  | isFalse p => exact .isFalse _
  | unsigned p hv => exact .unsigned _ hv
  | plus p q hv => exact .plus _ _ hv
  | minus p q hv => exact .minus _ _ hv

theorem ItemsDerivation.moved {tokens : List Token} {values : List Value}
    (h : ItemsDerivation tokens values) :
    ItemsDerivation (tokens.map (Token.moved places)) values := by
  induction h with
  | close p => exact .close _
  | cons p hf _ ih =>
      rw [List.map_cons, List.map_append]
      exact .cons _ (hf.moved places) ih

theorem ListDerivation.moved {tokens : List Token} {values : List Value}
    (h : ListDerivation tokens values) :
    ListDerivation (tokens.map (Token.moved places)) values := by
  cases h with
  | empty p q => exact .empty _ _
  | cons p hf hr =>
      rw [List.map_cons, List.map_append]
      exact .cons _ (hf.moved places) (hr.moved places)

theorem PredicateDerivation.moved {tokens : List Token} {f : Filter}
    (h : PredicateDerivation tokens f) :
    PredicateDerivation (tokens.map (Token.moved places)) f := by
  cases h with
  | isIn name p q hl => exact .isIn name _ _ (hl.moved places)
  | notIn name p q r hl => exact .notIn name _ _ _ (hl.moved places)
  | like name mark body p q r => exact .like name mark body _ _ _
  | compare name c p q hl => exact .compare name c _ _ (hl.moved places)
  | flipped name c p q hl =>
      rw [List.map_append]
      exact .flipped name c _ _ (hl.moved places)
  | chain name first second p q r hl hh hw =>
      rw [List.map_append]
      exact .chain name first second _ _ _ (hl.moved places) (hh.moved places) hw
  | flag name p => exact .flag name _

mutual

theorem DisjunctionDerivation.moved : ∀ {n : ℕ} {tokens : List Token} {f : Filter},
    DisjunctionDerivation n tokens f →
      DisjunctionDerivation n (tokens.map (Token.moved places)) f
  | _, _, _, .run hc hd hj => by
      rw [List.map_append]
      exact .run hc.moved hd.moved hj

theorem DisjunctsDerivation.moved : ∀ {n : ℕ} {tokens : List Token} {fs : List Filter},
    DisjunctsDerivation n tokens fs → DisjunctsDerivation n (tokens.map (Token.moved places)) fs
  | _, _, _, .nil n => .nil n
  | _, _, _, .cons hor hc hd => by
      rw [List.map_cons, List.map_append]
      exact .cons hor hc.moved hd.moved

theorem ConjunctionDerivation.moved : ∀ {n : ℕ} {tokens : List Token} {f : Filter},
    ConjunctionDerivation n tokens f →
      ConjunctionDerivation n (tokens.map (Token.moved places)) f
  | _, _, _, .run hu hc hj => by
      rw [List.map_append]
      exact .run hu.moved hc.moved hj

theorem ConjunctsDerivation.moved : ∀ {n : ℕ} {tokens : List Token} {fs : List Filter},
    ConjunctsDerivation n tokens fs → ConjunctsDerivation n (tokens.map (Token.moved places)) fs
  | _, _, _, .nil n => .nil n
  | _, _, _, .cons hand hu hc => by
      rw [List.map_cons, List.map_append]
      exact .cons hand hu.moved hc.moved

theorem UnaryDerivation.moved : ∀ {n : ℕ} {tokens : List Token} {f : Filter},
    UnaryDerivation n tokens f → UnaryDerivation n (tokens.map (Token.moved places)) f
  | _, _, _, .predicate n hp => .predicate n (hp.moved places)
  | _, _, _, .negation hnot hu => .negation hnot hu.moved
  | _, _, _, .parentheses p q hd => by
      rw [List.map_cons, List.map_append]
      exact .parentheses _ _ hd.moved

end

end Moved

/-! ## Texts -/

/-- Each of two texts in parentheses, with a word between them. -/
def linkedText (word : Keyword) (s t : String) : String :=
  "(" ++ s ++ ") " ++ word.word ++ " (" ++ t ++ ")"

def negatedText (s : String) : String := "not (" ++ s ++ ")"

theorem parse_eq_ok {limit : ℤ} {text : String} {f : Filter}
    (h : parse limit text = .ok (some f)) :
    ∃ tokens, tokenize text = .ok tokens ∧ DisjunctionDerivation limit.toNat tokens f := by
  unfold parse at h
  split at h
  · cases h
  · split at h
    · cases h
    · next tokens ht =>
        split at h
        · cases h
        · next g hg =>
            cases h
            refine ⟨tokens, ht, ?_⟩
            unfold ofTokens at hg
            split at hg
            · cases hg
            · next r hr =>
                split at hg
                · next hrest =>
                    cases hg
                    obtain ⟨taken, he, hd⟩ := disjunction_sound (n := limit.toNat) (by omega) hr
                    rw [hrest, List.append_nil] at he
                    exact he ▸ hd
                · cases hg

theorem scan_of_all_blank {position : ℕ} {cs : List Char} (h : cs.all Text.isBlank = true) :
    scan position cs = .ok [] := by
  induction cs generalizing position with
  | nil => simp [scan]
  | cons c cs ih =>
      rw [List.all_cons, Bool.and_eq_true] at h
      rw [scan, if_pos h.1]
      exact ih h.2

/-- No filter is derived from no tokens. -/
theorem DisjunctionDerivation.ne_nil {n : ℕ} {tokens : List Token} {f : Filter}
    (h : DisjunctionDerivation n tokens f) : tokens ≠ [] := by
  rintro rfl
  have hread := h.execution (Int.le_refl _)
  simp [ofTokens, disjunction, conjunction, unary, predicate, startsLiteral, stop] at hread

theorem parse_of_derivation {n : ℕ} {text : String} {tokens : List Token} {f : Filter}
    (ht : tokenize text = .ok tokens) (hd : DisjunctionDerivation n tokens f) :
    parse n text = .ok (some f) := by
  have hb : Text.isBlankText text = false := by
    by_contra hb
    rw [tokenize, scan_of_all_blank (by simpa [Text.isBlankText] using hb)] at ht
    cases ht
    exact hd.ne_nil rfl
  simp [parse, hb, ht, hd.execution (Int.le_refl _)]

/-- A text in parentheses is read as one phrase, wherever it starts and whatever follows. -/
theorem scan_enclosed {s : String} {tokens : List Token} {n : ℕ} {f : Filter}
    (ht : tokenize s = .ok tokens) (hd : DisjunctionDerivation n tokens f) (position : ℕ) :
    ∃ taken place, UnaryDerivation (n + 1) taken f ∧ ∀ rest,
      scan position ('(' :: s.toList ++ ')' :: rest) = (scan place rest).map (taken ++ ·) := by
  have hmoved := scan_moved (position + 1) ht
  rw [Nat.zero_add] at hmoved
  let place := position + 1 + s.toList.length
  refine ⟨_, place + 1, .parentheses position place (hd.moved (position + 1)), fun rest => ?_⟩
  rw [List.cons_append, (scan_paren position _).1, scan_append_cons hmoved (by decide),
    (scan_paren place rest).2]
  cases scan (place + 1) rest with
  | error fault => rfl
  | ok others => simp [Except.map]

variable {limit : ℤ} {s t : String} {f g : Filter}

/-- Texts in parentheses around a connective are read as two phrases around its word. -/
theorem tokenize_linkedText (word : Keyword) (hs : parse limit s = .ok (some f))
    (ht : parse limit t = .ok (some g)) :
    ∃ left place right, UnaryDerivation (limit.toNat + 1) left f ∧
      UnaryDerivation (limit.toNat + 1) right g ∧
      tokenize (linkedText word s t) = .ok (left ++ ⟨.keyword word, place⟩ :: right) := by
  obtain ⟨first, hfirst, hf⟩ := parse_eq_ok hs
  obtain ⟨second, hsecond, hg⟩ := parse_eq_ok ht
  obtain ⟨left, middle, hleft, hl⟩ := scan_enclosed hfirst hf 0
  obtain ⟨place, hword⟩ := scan_word word (middle + 1) ('(' :: t.toList ++ [')'])
  obtain ⟨right, last, hright, hr⟩ := scan_enclosed hsecond hg place
  refine ⟨left, middle + 1, right, hleft, hright, ?_⟩
  have htext : (linkedText word s t).toList =
      '(' :: s.toList ++ ')' :: ' ' :: (word.word.toList ++ ' ' :: ('(' :: t.toList ++ [')'])) := by
    simp [linkedText]
  rw [tokenize, htext, hl, scan_blank, hword, hr]
  simp [scan, Except.map]

theorem parse_conjunction (hs : parse limit s = .ok (some f)) (ht : parse limit t = .ok (some g)) :
    parse (limit.toNat + 1 : ℕ) (linkedText .and s t) = .ok (some (.node .and [f, g])) := by
  obtain ⟨left, place, right, hl, hr, htokens⟩ := tokenize_linkedText .and hs ht
  exact parse_of_derivation htokens
    (ConjunctionDerivation.run hl (.one rfl hr) (.several f g [])).disjunction

theorem parse_disjunction (hs : parse limit s = .ok (some f)) (ht : parse limit t = .ok (some g)) :
    parse (limit.toNat + 1 : ℕ) (linkedText .or s t) = .ok (some (.node .or [f, g])) := by
  obtain ⟨left, place, right, hl, hr, htokens⟩ := tokenize_linkedText .or hs ht
  exact parse_of_derivation htokens
    (.run hl.conjunction (.one rfl hr.conjunction) (.several f g []))

theorem parse_negation (hs : parse limit s = .ok (some f)) :
    parse (limit.toNat + 2 : ℕ) (negatedText s) = .ok (some (.node .not [f])) := by
  obtain ⟨tokens, htokens, hf⟩ := parse_eq_ok hs
  obtain ⟨place, hword⟩ := scan_word .not 0 ('(' :: s.toList ++ [')'])
  obtain ⟨taken, last, htaken, hl⟩ := scan_enclosed htokens hf place
  have htext : (negatedText s).toList =
      Keyword.not.word.toList ++ ' ' :: ('(' :: s.toList ++ [')']) := by
    simp [negatedText, Keyword.word]
  have hread : tokenize (negatedText s) = .ok (⟨.keyword .not, 0⟩ :: taken) := by
    rw [tokenize, htext, hword, hl]
    simp [scan, Except.map]
  have hnegation : UnaryDerivation (limit.toNat + 2) (⟨.keyword .not, 0⟩ :: taken)
      (.node .not [f]) := .negation rfl htaken
  exact parse_of_derivation hread hnegation.disjunction

end ScalarStore.Filter
