import ScalarStore.Proofs.Filter.Soundness

/-! # Where the readers of filters stop

A reader stops at a token of its input, or at its end. It has another reason than the form of the
tokens only in front of an integer too long to read. -/

namespace ScalarStore.Filter

/-- The place is one of the input, and an integer too long is seen there or later. -/
structure Stop.Within (tokens : List Token) (stopped : Stop) : Prop where
  suffix : stopped.tokens <:+ tokens
  long : ∀ digits, stopped.refusal = .longInteger digits →
    ∃ token ∈ stopped.tokens, token.lexeme.IsLongInteger ∧ token.lexeme.text.length = digits

namespace Stop.Within

variable {tokens : List Token} {stopped : Stop}

theorem of_unexpected (wanted : Expectation) {rest : List Token} (h : rest <:+ tokens) :
    Stop.Within tokens ⟨.unexpected wanted, rest⟩ :=
  ⟨h, nofun⟩

theorem of_stop {α : Type} {wanted : Expectation} {rest : List Token} (hr : rest <:+ tokens)
    (h : (stop wanted rest : Except Stop α) = .error stopped) : stopped.Within tokens := by
  cases h
  exact of_unexpected wanted hr

theorem cons (token : Token) (h : stopped.Within tokens) : stopped.Within (token :: tokens) :=
  ⟨h.suffix.trans (List.suffix_cons token tokens), h.long⟩

theorem of_eq_append {front rest : List Token} (h : stopped.Within rest)
    (he : tokens = front ++ rest) : stopped.Within tokens :=
  ⟨h.suffix.trans ⟨front, he.symm⟩, h.long⟩

end Stop.Within

variable {tokens : List Token} {stopped : Stop}

/-! ## Literals and lists -/

theorem numberValue_refused {negative : Bool} {spelling : List Char} {refusal : Refusal}
    (h : numberValue negative spelling = .error refusal) :
    (Lexeme.number spelling).IsLongInteger ∧ refusal = .longInteger spelling.length := by
  unfold numberValue at h
  split at h
  · next hd =>
      split at h
      · cases h
      · next fault hf =>
          cases h
          refine ⟨⟨hd, ?_⟩, rfl⟩
          simp only [Text.readDigits] at hf
          split at hf
          · next hlong => exact Nat.lt_of_lt_of_le hlong (List.length_filterMap_le _ _)
          · cases hf
  · cases h

theorem unsignedNumber_stops {negative : Bool}
    (h : unsignedNumber negative tokens = .error stopped) : stopped.Within tokens := by
  unfold unsignedNumber at h
  split at h
  · next spelling p rest =>
      split at h
      · cases h
      · next refusal hr =>
          cases h
          obtain ⟨hlong, rfl⟩ := numberValue_refused hr
          refine ⟨List.suffix_rfl, fun digits hdigits => ⟨_, List.mem_cons_self, hlong, ?_⟩⟩
          cases hdigits
          exact String.length_ofList
  · exact .of_stop List.suffix_rfl h

theorem literal_stops (h : literal tokens = .error stopped) : stopped.Within tokens := by
  unfold literal at h
  split at h
  · cases h
  · cases h
  · cases h
  · exact (unsignedNumber_stops (map_eq_error_iff.mp h)).cons _
  · exact (unsignedNumber_stops (map_eq_error_iff.mp h)).cons _
  · exact unsignedNumber_stops h

theorem listRest_stops (h : listRest tokens = .error stopped) : stopped.Within tokens := by
  fun_induction listRest tokens with
  | case1 => cases h
  | case2 p rest s hl =>
      cases h
      exact (literal_stops hl).cons _
  | case3 p rest first hf _ s hs ih =>
      cases h
      obtain ⟨items, he, -⟩ := literal_sound hf
      exact ((ih hs).of_eq_append he).cons _
  | case4 => cases h
  | case5 => exact .of_stop List.suffix_rfl h

theorem list_stops (h : list tokens = .error stopped) : stopped.Within tokens := by
  unfold list at h
  split at h
  · cases h
  · split at h
    · next hl =>
        cases h
        exact (literal_stops hl).cons _
    · next first hf =>
        split at h
        · next hs =>
            cases h
            obtain ⟨items, he, -⟩ := literal_sound hf
            exact ((listRest_stops hs).of_eq_append he).cons _
        · cases h
  · exact .of_stop List.suffix_rfl h

/-! ## Predicates -/

theorem afterName_stops {name : String} (h : afterName name tokens = .error stopped) :
    stopped.Within tokens := by
  unfold afterName at h
  split at h
  · exact ((list_stops (map_eq_error_iff.mp h)).cons _).cons _
  · exact (list_stops (map_eq_error_iff.mp h)).cons _
  · cases h
  · exact .of_stop (List.suffix_cons _ _) h
  · exact .of_stop (List.suffix_cons _ _) h
  · split at h
    · next hl =>
        cases h
        exact (literal_stops hl).cons _
    · next right hr =>
        split at h
        · obtain ⟨front, he, -⟩ := literal_sound hr
          exact ((Stop.Within.of_stop List.suffix_rfl h).of_eq_append he).cons _
        · cases h
  · cases h

theorem flippedName_stops (h : flippedName tokens = .error stopped) : stopped.Within tokens := by
  unfold flippedName at h
  split at h
  · cases h
  · exact .of_stop (List.suffix_cons _ _) h
  · exact .of_stop List.suffix_rfl h

theorem afterFlipped_stops {first : Comparison} {low : Value} {name : String}
    (h : afterFlipped first low name tokens = .error stopped) : stopped.Within tokens := by
  unfold afterFlipped at h
  split at h
  · split at h
    · exact (literal_stops (map_eq_error_iff.mp h)).cons _
    · cases h
      exact ⟨List.suffix_rfl, nofun⟩
  · cases h

theorem literalFirst_stops (h : literalFirst tokens = .error stopped) :
    stopped.Within tokens := by
  unfold literalFirst at h
  split at h
  · next hl =>
      cases h
      exact literal_stops hl
  · next low hlow =>
      obtain ⟨left, he, -⟩ := literal_sound hlow
      split at h
      · next hs =>
          cases h
          exact (flippedName_stops hs).of_eq_append he
      · next head hhead =>
          obtain ⟨p, q, he'⟩ := flippedName_sound hhead
          split at h
          · next hs =>
              cases h
              exact ((afterFlipped_stops hs).of_eq_append he').of_eq_append he
          · cases h

theorem predicate_stops (h : predicate tokens = .error stopped) : stopped.Within tokens := by
  unfold predicate at h
  split at h
  · exact (afterName_stops (map_eq_error_iff.mp h)).cons _
  · split at h
    · exact literalFirst_stops h
    · exact .of_stop List.suffix_rfl h

theorem closing_stops (h : closing tokens = .error stopped) : stopped.Within tokens := by
  unfold closing at h
  split at h
  · cases h
  · exact .of_stop List.suffix_rfl h

/-! ## Connectives -/

mutual

theorem disjunction_stops {limit : ℤ} {depth : ℕ} {tokens : List Token} {stopped : Stop}
    (h : disjunction limit depth tokens = .error stopped) : stopped.Within tokens := by
  rw [disjunction] at h
  split at h
  · next hs =>
      cases h
      exact conjunction_stops hs
  · next first hf =>
      have := first.shorter
      split at h
      · next hs =>
          cases h
          obtain ⟨start, he, -⟩ := conjunction_sound (n := limit.toNat) (by omega) hf
          exact (disjuncts_stops hs).of_eq_append he
      · cases h
termination_by (tokens.length, 3)

theorem disjuncts_stops {limit : ℤ} {depth : ℕ} {stopped : Stop} :
    ∀ {tokens : List Token}, disjuncts limit depth tokens = .error stopped →
      stopped.Within tokens
  | [], h => by
      rw [disjuncts] at h
      cases h
  | token :: rest, h => by
      rw [disjuncts] at h
      split at h
      · split at h
        · next hs =>
            cases h
            exact (conjunction_stops hs).cons token
        · next first hf =>
            have := first.shorter
            split at h
            · next hs =>
                cases h
                obtain ⟨start, he, -⟩ := conjunction_sound (n := limit.toNat) (by omega) hf
                exact ((disjuncts_stops hs).of_eq_append he).cons token
            · cases h
      · cases h
termination_by tokens => (tokens.length, 4)

theorem conjunction_stops {limit : ℤ} {depth : ℕ} {tokens : List Token} {stopped : Stop}
    (h : conjunction limit depth tokens = .error stopped) : stopped.Within tokens := by
  rw [conjunction] at h
  split at h
  · next hs =>
      cases h
      exact unary_stops hs
  · next first hf =>
      have := first.shorter
      split at h
      · next hs =>
          cases h
          obtain ⟨start, he, -⟩ := unary_sound (n := limit.toNat) (by omega) hf
          exact (conjuncts_stops hs).of_eq_append he
      · cases h
termination_by (tokens.length, 1)

theorem conjuncts_stops {limit : ℤ} {depth : ℕ} {stopped : Stop} :
    ∀ {tokens : List Token}, conjuncts limit depth tokens = .error stopped →
      stopped.Within tokens
  | [], h => by
      rw [conjuncts] at h
      cases h
  | token :: rest, h => by
      rw [conjuncts] at h
      split at h
      · split at h
        · next hs =>
            cases h
            exact (unary_stops hs).cons token
        · next first hf =>
            have := first.shorter
            split at h
            · next hs =>
                cases h
                obtain ⟨start, he, -⟩ := unary_sound (n := limit.toNat) (by omega) hf
                exact ((conjuncts_stops hs).of_eq_append he).cons token
            · cases h
      · cases h
termination_by tokens => (tokens.length, 2)

theorem unary_stops {limit : ℤ} {depth : ℕ} {stopped : Stop} :
    ∀ {tokens : List Token}, unary limit depth tokens = .error stopped → stopped.Within tokens
  | [], h => by
      rw [unary] at h
      exact predicate_stops h
  | token :: rest, h => by
      rw [unary] at h
      split at h
      · split at h
        · cases h
          exact ⟨List.suffix_rfl, nofun⟩
        · split at h
          · next hs =>
              cases h
              exact (unary_stops hs).cons token
          · cases h
      · split at h
        · split at h
          · cases h
            exact ⟨List.suffix_rfl, nofun⟩
          · split at h
            · next hs =>
                cases h
                exact (disjunction_stops hs).cons token
            · next f hf =>
                split at h
                · next hs =>
                    cases h
                    obtain ⟨front, he, -⟩ := disjunction_sound (n := limit.toNat) (by omega) hf
                    exact ((closing_stops hs).of_eq_append he).cons token
                · cases h
        · exact predicate_stops h
termination_by tokens => (tokens.length, 0)

end

theorem ofTokens_stops {limit : ℤ} (h : ofTokens limit tokens = .error stopped) :
    stopped.Within tokens := by
  unfold ofTokens at h
  split at h
  · next hs =>
      cases h
      exact disjunction_stops hs
  · next f hf =>
      split at h
      · cases h
      · obtain ⟨front, he, -⟩ := disjunction_sound (n := limit.toNat) (by omega) hf
        exact (Stop.Within.of_stop List.suffix_rfl h).of_eq_append he

end ScalarStore.Filter
