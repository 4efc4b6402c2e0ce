import Mathlib.Data.Int.Notation
import ScalarStore.Proofs.Filter.Derivation
import ScalarStore.Proofs.Outcome

/-! # What the readers of filters take is derived

Every reader takes tokens from the front of its input and leaves the others. The tokens it takes
derive the value it gives. -/

namespace ScalarStore

theorem append_eq_of_parts {α : Type} {whole first second middle rest : List α}
    (hf : whole = first ++ middle) (hs : middle = second ++ rest) :
    whole = (first ++ second) ++ rest := by
  rw [hf, hs, List.append_assoc]

namespace Filter

/-! ## Literals and lists -/

theorem unsignedNumber_sound {negative : Bool} {tokens : List Token} {r : Taken Value tokens}
    (h : unsignedNumber negative tokens = .ok r) :
    ∃ spelling p, tokens = ⟨.number spelling, p⟩ :: r.rest ∧
      numberValue negative spelling = .ok r.value := by
  unfold unsignedNumber at h
  split at h
  · next spelling p rest =>
      split at h
      · next value hv =>
          cases h
          exact ⟨spelling, p, rfl, hv⟩
      · cases h
  · cases h

theorem literal_sound {tokens : List Token} {r : Taken Value tokens} (h : literal tokens = .ok r) :
    ∃ taken, tokens = taken ++ r.rest ∧ LiteralDerivation taken r.value := by
  unfold literal at h
  split at h
  · next mark body p rest =>
      cases h
      exact ⟨_, rfl, .quoted mark body p⟩
  · next p rest =>
      cases h
      exact ⟨_, rfl, .isTrue p⟩
  · next p rest =>
      cases h
      exact ⟨_, rfl, .isFalse p⟩
  · next p rest =>
      obtain ⟨n, hn, rfl⟩ := map_eq_ok_iff.mp h
      obtain ⟨spelling, q, he, hv⟩ := unsignedNumber_sound hn
      exact ⟨[_, _], congrArg (_ :: ·) he, .plus p q hv⟩
  · next p rest =>
      obtain ⟨n, hn, rfl⟩ := map_eq_ok_iff.mp h
      obtain ⟨spelling, q, he, hv⟩ := unsignedNumber_sound hn
      exact ⟨[_, _], congrArg (_ :: ·) he, .minus p q hv⟩
  · obtain ⟨spelling, q, he, hv⟩ := unsignedNumber_sound h
    exact ⟨[_], he, .unsigned q hv⟩

theorem listRest_sound {tokens : List Token} {r : Taken (List Value) tokens}
    (h : listRest tokens = .ok r) :
    ∃ taken, tokens = taken ++ r.rest ∧ ItemsDerivation taken r.value := by
  fun_induction listRest tokens with
  | case1 p rest =>
      cases h
      exact ⟨_, rfl, .close p⟩
  | case2 => cases h
  | case3 => cases h
  | case4 p rest first hf _ more hm ih =>
      cases h
      obtain ⟨items, he, hi⟩ := literal_sound hf
      obtain ⟨others, he', ho⟩ := ih hm
      exact ⟨_, congrArg (_ :: ·) (append_eq_of_parts he he'), .cons p hi ho⟩
  | case5 => cases h

theorem list_sound {tokens : List Token} {r : Taken (List Value) tokens}
    (h : list tokens = .ok r) :
    ∃ taken, tokens = taken ++ r.rest ∧ ListDerivation taken r.value := by
  unfold list at h
  split at h
  · next p q rest =>
      cases h
      exact ⟨[_, _], rfl, .empty p q⟩
  · next p rest _ =>
      split at h
      · cases h
      · next first hf =>
          split at h
          · cases h
          · next more hm =>
              cases h
              obtain ⟨items, he, hi⟩ := literal_sound hf
              obtain ⟨others, he', ho⟩ := listRest_sound hm
              exact ⟨_, congrArg (_ :: ·) (append_eq_of_parts he he'), .cons p hi ho⟩
  · cases h

/-! ## Predicates -/

/-- A name and what follows it. -/
theorem afterName_sound {name : String} {p : ℕ} {tokens : List Token} {r : Maybe Filter tokens}
    (h : afterName name tokens = .ok r) :
    ∃ taken, tokens = taken ++ r.rest ∧ PredicateDerivation (⟨.name name, p⟩ :: taken) r.value := by
  unfold afterName at h
  split at h
  · next q s rest =>
      obtain ⟨l, hl, rfl⟩ := map_eq_ok_iff.mp h
      obtain ⟨taken, he, hd⟩ := list_sound hl
      exact ⟨_, congrArg (_ :: _ :: ·) he, .notIn name p q s hd⟩
  · next q rest =>
      obtain ⟨l, hl, rfl⟩ := map_eq_ok_iff.mp h
      obtain ⟨taken, he, hd⟩ := list_sound hl
      exact ⟨_, congrArg (_ :: ·) he, .isIn name p q hd⟩
  · next q mark body s rest =>
      cases h
      exact ⟨[_, _], rfl, .like name mark body p q s⟩
  · cases h
  · cases h
  · next c q rest _ =>
      split at h
      · cases h
      · next right hr =>
          split at h
          · cases h
          · cases h
            obtain ⟨taken, he, hd⟩ := literal_sound hr
            exact ⟨_, congrArg (_ :: ·) he, .compare name c p q hd⟩
  · cases h
    exact ⟨[], rfl, .flag name p⟩

theorem flippedName_sound {tokens : List Token} {r : Taken (Comparison × String) tokens}
    (h : flippedName tokens = .ok r) :
    ∃ p q, tokens = [⟨.symbol (.compare r.value.1), p⟩, ⟨.name r.value.2, q⟩] ++ r.rest := by
  unfold flippedName at h
  split at h
  · next c p name q rest =>
      cases h
      exact ⟨p, q, rfl⟩
  · cases h
  · cases h

/-- A literal, a comparison and a name, and what follows them. -/
theorem afterFlipped_sound {first : Comparison} {low : Value} {name : String} {p q : ℕ}
    {left tokens : List Token} {r : Maybe Filter tokens} (hl : LiteralDerivation left low)
    (h : afterFlipped first low name tokens = .ok r) :
    ∃ taken, tokens = taken ++ r.rest ∧
      PredicateDerivation (left ++ ⟨.symbol (.compare first), p⟩ :: ⟨.name name, q⟩ :: taken)
        r.value := by
  unfold afterFlipped at h
  split at h
  · next second s rest =>
      split at h
      · next hw =>
          obtain ⟨high, hh, rfl⟩ := map_eq_ok_iff.mp h
          obtain ⟨right, he, hr⟩ := literal_sound hh
          have hsame : first.SameWay second := by
            simpa [Comparison.SameWay] using hw
          exact ⟨_, congrArg (_ :: ·) he, .chain name first second p q s hl hr hsame⟩
      · cases h
  · cases h
    exact ⟨[], rfl, .flipped name first p q hl⟩

theorem literalFirst_sound {tokens : List Token} {r : Taken Filter tokens}
    (h : literalFirst tokens = .ok r) :
    ∃ taken, tokens = taken ++ r.rest ∧ PredicateDerivation taken r.value := by
  unfold literalFirst at h
  split at h
  · cases h
  · next low hlow =>
      split at h
      · cases h
      · next head hhead =>
          split at h
          · cases h
          · next f hf =>
              cases h
              obtain ⟨left, he, hl⟩ := literal_sound hlow
              obtain ⟨p, q, he'⟩ := flippedName_sound hhead
              obtain ⟨taken, he'', hd⟩ := afterFlipped_sound (p := p) (q := q) hl hf
              rw [he''] at he'
              exact ⟨_, append_eq_of_parts he he', hd⟩

theorem predicate_sound {tokens : List Token} {r : Taken Filter tokens}
    (h : predicate tokens = .ok r) :
    ∃ taken, tokens = taken ++ r.rest ∧ PredicateDerivation taken r.value := by
  unfold predicate at h
  split at h
  · next name p rest =>
      obtain ⟨f, hf, rfl⟩ := map_eq_ok_iff.mp h
      obtain ⟨taken, he, hd⟩ := afterName_sound hf
      exact ⟨_, congrArg (_ :: ·) he, hd⟩
  · split at h
    · exact literalFirst_sound h
    · cases h

theorem closing_sound {tokens : List Token} {r : Taken Unit tokens} (h : closing tokens = .ok r) :
    ∃ p, tokens = [⟨.symbol .closeParen, p⟩] ++ r.rest := by
  unfold closing at h
  split at h
  · next p rest =>
      cases h
      exact ⟨p, rfl⟩
  · cases h

/-! ## Connectives

At a depth, no more levels may still be opened than are missing to the limit. -/

mutual

theorem disjunction_sound {limit : ℤ} {depth n : ℕ} {tokens : List Token}
    {r : Taken Filter tokens} (hn : limit ≤ depth + n)
    (h : disjunction limit depth tokens = .ok r) :
    ∃ taken, tokens = taken ++ r.rest ∧ DisjunctionDerivation n taken r.value := by
  rw [disjunction] at h
  split at h
  · cases h
  · next first hf =>
      have := first.shorter
      split at h
      · cases h
      · next more hm =>
          cases h
          obtain ⟨start, he, hd⟩ := conjunction_sound hn hf
          obtain ⟨others, he', ho⟩ := disjuncts_sound hn hm
          exact ⟨_, append_eq_of_parts he he', .run hd ho (joinDerivation_iff.mpr rfl)⟩
termination_by (tokens.length, 3)

theorem disjuncts_sound {limit : ℤ} {depth n : ℕ} (hn : limit ≤ depth + n) :
    ∀ {tokens : List Token} {r : Maybe (List Filter) tokens},
      disjuncts limit depth tokens = .ok r →
        ∃ taken, tokens = taken ++ r.rest ∧ DisjunctsDerivation n taken r.value
  | [], _, h => by
      rw [disjuncts] at h
      cases h
      exact ⟨[], rfl, .nil n⟩
  | token :: rest, _, h => by
      rw [disjuncts] at h
      split at h
      · next hor =>
          split at h
          · cases h
          · next first hf =>
              have := first.shorter
              split at h
              · cases h
              · next more hm =>
                  cases h
                  obtain ⟨start, he, hd⟩ := conjunction_sound hn hf
                  obtain ⟨others, he', ho⟩ := disjuncts_sound hn hm
                  exact ⟨_, congrArg (_ :: ·) (append_eq_of_parts he he'), .cons hor hd ho⟩
      · cases h
        exact ⟨[], rfl, .nil n⟩
termination_by tokens => (tokens.length, 4)

theorem conjunction_sound {limit : ℤ} {depth n : ℕ} {tokens : List Token}
    {r : Taken Filter tokens} (hn : limit ≤ depth + n)
    (h : conjunction limit depth tokens = .ok r) :
    ∃ taken, tokens = taken ++ r.rest ∧ ConjunctionDerivation n taken r.value := by
  rw [conjunction] at h
  split at h
  · cases h
  · next first hf =>
      have := first.shorter
      split at h
      · cases h
      · next more hm =>
          cases h
          obtain ⟨start, he, hd⟩ := unary_sound hn hf
          obtain ⟨others, he', ho⟩ := conjuncts_sound hn hm
          exact ⟨_, append_eq_of_parts he he', .run hd ho (joinDerivation_iff.mpr rfl)⟩
termination_by (tokens.length, 1)

theorem conjuncts_sound {limit : ℤ} {depth n : ℕ} (hn : limit ≤ depth + n) :
    ∀ {tokens : List Token} {r : Maybe (List Filter) tokens},
      conjuncts limit depth tokens = .ok r →
        ∃ taken, tokens = taken ++ r.rest ∧ ConjunctsDerivation n taken r.value
  | [], _, h => by
      rw [conjuncts] at h
      cases h
      exact ⟨[], rfl, .nil n⟩
  | token :: rest, _, h => by
      rw [conjuncts] at h
      split at h
      · next hand =>
          split at h
          · cases h
          · next first hf =>
              have := first.shorter
              split at h
              · cases h
              · next more hm =>
                  cases h
                  obtain ⟨start, he, hd⟩ := unary_sound hn hf
                  obtain ⟨others, he', ho⟩ := conjuncts_sound hn hm
                  exact ⟨_, congrArg (_ :: ·) (append_eq_of_parts he he'), .cons hand hd ho⟩
      · cases h
        exact ⟨[], rfl, .nil n⟩
termination_by tokens => (tokens.length, 2)

theorem unary_sound {limit : ℤ} {depth n : ℕ} (hn : limit ≤ depth + n) :
    ∀ {tokens : List Token} {r : Taken Filter tokens}, unary limit depth tokens = .ok r →
      ∃ taken, tokens = taken ++ r.rest ∧ UnaryDerivation n taken r.value
  | [], _, h => by
      rw [unary] at h
      obtain ⟨taken, he, hd⟩ := predicate_sound h
      exact ⟨taken, he, .predicate n hd⟩
  | token :: rest, _, h => by
      rw [unary] at h
      split at h
      · next hnot =>
          split at h
          · cases h
          · obtain ⟨m, rfl⟩ : ∃ m, n = m + 1 := ⟨n - 1, by omega⟩
            split at h
            · cases h
            · next f hf =>
                cases h
                obtain ⟨taken, he, hd⟩ := unary_sound (n := m) (by push_cast at hn ⊢; omega) hf
                exact ⟨_, congrArg (_ :: ·) he, .negation hnot hd⟩
      · split at h
        · next hopen =>
            split at h
            · cases h
            · obtain ⟨m, rfl⟩ : ∃ m, n = m + 1 := ⟨n - 1, by omega⟩
              split at h
              · cases h
              · next f hf =>
                  split at h
                  · cases h
                  · next close hclose =>
                      cases h
                      obtain ⟨taken, he, hd⟩ :=
                        disjunction_sound (n := m) (by push_cast at hn ⊢; omega) hf
                      obtain ⟨q, he'⟩ := closing_sound hclose
                      obtain ⟨lexeme, p⟩ := token
                      cases hopen
                      exact ⟨_, congrArg (_ :: ·) (append_eq_of_parts he he'), .parentheses p q hd⟩
        · obtain ⟨taken, he, hd⟩ := predicate_sound h
          exact ⟨taken, he, .predicate n hd⟩
termination_by tokens => (tokens.length, 0)

end

end Filter

end ScalarStore
