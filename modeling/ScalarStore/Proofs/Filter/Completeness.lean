import ScalarStore.Proofs.Filter.Soundness

/-! # What is derived is read

A phrase in front of tokens that may follow it is read as a whole and gives its value. A reader
looks at one token beyond its phrase, so what follows must not continue the phrase. -/

namespace ScalarStore.Filter

/-! ## Literals and lists -/

theorem LiteralDerivation.startsLiteral {taken : List Token} {value : Value}
    (h : LiteralDerivation taken value) (rest : List Token) :
    startsLiteral (taken ++ rest) = true := by
  cases h <;> rfl

theorem LiteralDerivation.reads {taken : List Token} {value : Value}
    (h : LiteralDerivation taken value) (rest : List Token) :
    ∃ hs, literal (taken ++ rest) = .ok ⟨value, rest, hs⟩ := by
  cases h with
  | quoted mark body p => exact ⟨_, rfl⟩
  | isTrue p => exact ⟨_, rfl⟩
  | isFalse p => exact ⟨_, rfl⟩
  | unsigned p hv =>
      refine ⟨by simp, ?_⟩
      simp [literal, unsignedNumber, hv]
  | plus p q hv =>
      refine ⟨by simp only [List.length_append, List.length_cons]; omega, ?_⟩
      simp [literal, unsignedNumber, hv, Except.map]
  | minus p q hv =>
      refine ⟨by simp only [List.length_append, List.length_cons]; omega, ?_⟩
      simp [literal, unsignedNumber, hv, Except.map]

theorem ItemsDerivation.reads {taken : List Token} {values : List Value}
    (h : ItemsDerivation taken values) (rest : List Token) :
    ∃ hs, listRest (taken ++ rest) = .ok ⟨values, rest, hs⟩ := by
  induction h with
  | close p =>
      rw [List.cons_append, listRest]
      exact ⟨_, rfl⟩
  | @cons p first others value values hf _ ih =>
      obtain ⟨hs, hl⟩ := hf.reads (others ++ rest)
      obtain ⟨hs', hm⟩ := ih
      rw [List.cons_append, List.append_assoc, listRest]
      refine ⟨by simp only [List.length_append, List.length_cons]; omega, ?_⟩
      simp [hl, hm]

theorem ListDerivation.reads {taken : List Token} {values : List Value}
    (h : ListDerivation taken values) (rest : List Token) :
    ∃ hs, list (taken ++ rest) = .ok ⟨values, rest, hs⟩ := by
  cases h with
  | empty p q => exact ⟨_, rfl⟩
  | @cons p first others value values hf ho =>
      obtain ⟨hs, hl⟩ := hf.reads (others ++ rest)
      obtain ⟨hs', hm⟩ := ho.reads rest
      have hstart := hf.startsLiteral (others ++ rest)
      rw [List.cons_append, List.append_assoc, list]
      · refine ⟨by simp only [List.length_append, List.length_cons]; omega, ?_⟩
        simp [hl, hm]
      · intro q tokens he
        rw [he] at hstart
        cases hstart

/-! ## Predicates -/

/-- What may stand after a phrase: nothing, or a token that does not continue it. -/
def Follows (ends : Lexeme → Prop) (tokens : List Token) : Prop :=
  ∀ token ∈ tokens.head?, ends token.lexeme

def EndsDisjunction (lexeme : Lexeme) : Prop := lexeme = .symbol .closeParen

def EndsConjunction (lexeme : Lexeme) : Prop := isOr lexeme = true ∨ EndsDisjunction lexeme

def EndsUnary (lexeme : Lexeme) : Prop := isAnd lexeme = true ∨ EndsConjunction lexeme

theorem not_endsUnary_compare (c : Comparison) : ¬ EndsUnary (.symbol (.compare c)) := by
  simp [EndsUnary, EndsConjunction, EndsDisjunction, isAnd, isOr]

theorem not_endsUnary_keyword {k : Keyword} (h : k ≠ .and) (h' : k ≠ .or) :
    ¬ EndsUnary (.keyword k) := by
  cases k <;> simp_all [EndsUnary, EndsConjunction, EndsDisjunction, isAnd, isOr]

theorem startsComparison_of_follows {tokens : List Token} (h : Follows EndsUnary tokens) :
    startsComparison tokens = false := by
  unfold startsComparison
  split
  · exact absurd (h _ rfl) (not_endsUnary_compare _)
  · rfl

theorem afterName_compare (name : String) (c : Comparison) (p : ℕ) {tokens rest : List Token}
    {value : Value} {hs : rest.length < tokens.length} (hstart : startsLiteral tokens = true)
    (hl : literal tokens = .ok ⟨value, rest, hs⟩) (hr : startsComparison rest = false) :
    ∃ hs', afterName name (⟨.symbol (.compare c), p⟩ :: tokens) =
      .ok ⟨.leaf name (.compare c) value, rest, hs'⟩ := by
  refine ⟨by simp only [List.length_cons]; omega, ?_⟩
  rw [afterName]
  · simp [hl, hr]
  · intro second position more he
    rw [he] at hstart
    cases hstart

theorem afterName_flag (name : String) {rest : List Token} (h : Follows EndsUnary rest) :
    ∃ hs, afterName name rest =
      .ok ⟨.leaf name (.compare .eq) (.bool true), rest, hs⟩ := by
  refine ⟨Nat.le_refl _, ?_⟩
  unfold afterName
  split
  · exact absurd (h _ rfl) (not_endsUnary_keyword (by decide) (by decide))
  · exact absurd (h _ rfl) (not_endsUnary_keyword (by decide) (by decide))
  · exact absurd (h _ rfl) (not_endsUnary_keyword (by decide) (by decide))
  · exact absurd (h _ rfl) (not_endsUnary_keyword (by decide) (by decide))
  · exact absurd (h _ rfl) (not_endsUnary_compare _)
  · exact absurd (h _ rfl) (not_endsUnary_compare _)
  · rfl

theorem afterFlipped_single (first : Comparison) (low : Value) (name : String)
    {rest : List Token} (h : Follows EndsUnary rest) :
    ∃ hs, afterFlipped first low name rest =
      .ok ⟨.leaf name (.compare first.flip) low, rest, hs⟩ := by
  refine ⟨Nat.le_refl _, ?_⟩
  unfold afterFlipped
  split
  · exact absurd (h _ rfl) (not_endsUnary_compare _)
  · rfl

theorem predicate_of_startsLiteral {tokens : List Token} (h : startsLiteral tokens = true) :
    predicate tokens = literalFirst tokens := by
  unfold predicate
  split
  · cases h
  · rw [if_pos h]

theorem PredicateDerivation.reads {taken : List Token} {f : Filter}
    (h : PredicateDerivation taken f) {rest : List Token} (hr : Follows EndsUnary rest) :
    ∃ hs, predicate (taken ++ rest) = .ok ⟨f, rest, hs⟩ := by
  cases h with
  | isIn name p q hl =>
      obtain ⟨hs, hl⟩ := hl.reads rest
      refine ⟨by simp only [List.length_append, List.length_cons] at hs ⊢; omega, ?_⟩
      simp [predicate, afterName, hl, Except.map]
  | notIn name p q s hl =>
      obtain ⟨hs, hl⟩ := hl.reads rest
      refine ⟨by simp only [List.length_append, List.length_cons] at hs ⊢; omega, ?_⟩
      simp [predicate, afterName, hl, Except.map]
  | like name mark body p q s => exact ⟨_, rfl⟩
  | @compare name c p q tokens value hv =>
      obtain ⟨hs, hl⟩ := hv.reads rest
      obtain ⟨hs', ha⟩ := afterName_compare name c q (hv.startsLiteral rest) hl
        (startsComparison_of_follows hr)
      refine ⟨by simp only [List.length_append, List.length_cons] at hs ⊢; omega, ?_⟩
      simp [predicate, ha, Except.map]
  | @flipped name c p q tokens low hl =>
      obtain ⟨hs, hlow⟩ := hl.reads (⟨.symbol (.compare c), p⟩ :: ⟨.name name, q⟩ :: rest)
      obtain ⟨hs', ha⟩ := afterFlipped_single c low name hr
      rw [List.append_assoc, predicate_of_startsLiteral (hl.startsLiteral _)]
      refine ⟨by simp only [List.length_append, List.length_cons]; omega, ?_⟩
      simp [literalFirst, hlow, flippedName, ha]
  | @chain name first second p q s left right low high hl hh hw =>
      obtain ⟨hs, hlow⟩ := hl.reads (⟨.symbol (.compare first), p⟩ :: ⟨.name name, q⟩ ::
        ⟨.symbol (.compare second), s⟩ :: (right ++ rest))
      obtain ⟨hs', hhigh⟩ := hh.reads rest
      have hw : (first.ascending && second.ascending ||
          first.descending && second.descending) = true := by
        simpa [Comparison.SameWay] using hw
      rw [List.append_assoc, predicate_of_startsLiteral (hl.startsLiteral _)]
      refine ⟨by simp only [List.length_append, List.length_cons] at hs' ⊢; omega, ?_⟩
      simp [literalFirst, hlow, flippedName, afterFlipped, hhigh, hw, Except.map]
  | flag name p =>
      obtain ⟨hs, ha⟩ := afterName_flag name hr
      refine ⟨by simp, ?_⟩
      simp [predicate, ha, Except.map]

/-! ## Connectives -/

theorem unary_of_literalDerivation {taken : List Token} {value : Value}
    (h : LiteralDerivation taken value) (limit : ℤ) (depth : ℕ) (rest : List Token) :
    unary limit depth (taken ++ rest) = predicate (taken ++ rest) := by
  cases h <;> simp [unary, isNot]

/-- A predicate opens no level. -/
theorem unary_of_predicateDerivation {taken : List Token} {f : Filter}
    (h : PredicateDerivation taken f) (limit : ℤ) (depth : ℕ) (rest : List Token) :
    unary limit depth (taken ++ rest) = predicate (taken ++ rest) := by
  cases h with
  | flipped name c p q hl =>
      rw [List.append_assoc]
      exact unary_of_literalDerivation hl limit depth _
  | chain name first second p q s hl _ _ =>
      rw [List.append_assoc]
      exact unary_of_literalDerivation hl limit depth _
  | isIn | notIn | like | compare | flag => simp [unary, isNot]

theorem DisjunctsDerivation.follows {n : ℕ} {taken rest : List Token} {fs : List Filter}
    (h : DisjunctsDerivation n taken fs) (hr : Follows EndsDisjunction rest) :
    Follows EndsConjunction (taken ++ rest) := by
  cases h with
  | nil => exact fun token ht => .inr (hr token ht)
  | cons hor _ _ =>
      intro token ht
      cases ht
      exact .inl hor

theorem ConjunctsDerivation.follows {n : ℕ} {taken rest : List Token} {fs : List Filter}
    (h : ConjunctsDerivation n taken fs) (hr : Follows EndsConjunction rest) :
    Follows EndsUnary (taken ++ rest) := by
  cases h with
  | nil => exact fun token ht => .inr (hr token ht)
  | cons hand _ _ =>
      intro token ht
      cases ht
      exact .inl hand

theorem disjuncts_done {limit : ℤ} {depth : ℕ} {rest : List Token}
    (h : Follows EndsDisjunction rest) : ∃ hs, disjuncts limit depth rest = .ok ⟨[], rest, hs⟩ := by
  cases rest with
  | nil => exact ⟨Nat.le_refl _, by rw [disjuncts]⟩
  | cons token rest =>
      have ht : token.lexeme = .symbol .closeParen := h token rfl
      exact ⟨Nat.le_refl _, by simp [disjuncts, ht, isOr]⟩

theorem conjuncts_done {limit : ℤ} {depth : ℕ} {rest : List Token}
    (h : Follows EndsConjunction rest) : ∃ hs, conjuncts limit depth rest = .ok ⟨[], rest, hs⟩ := by
  cases rest with
  | nil => exact ⟨Nat.le_refl _, by rw [conjuncts]⟩
  | cons token rest =>
      have ht : isAnd token.lexeme = false := by
        rcases h token rfl with hor | hclose
        · revert hor
          cases token.lexeme with
          | keyword k => cases k <;> simp [isOr, isAnd]
          | symbol s => cases s <;> simp [isOr, isAnd]
          | _ => simp [isOr]
        · rw [hclose]
          rfl
      exact ⟨Nat.le_refl _, by simp [conjuncts, ht]⟩

mutual

theorem DisjunctionDerivation.reads : ∀ {n : ℕ} {taken : List Token} {f : Filter},
    DisjunctionDerivation n taken f → ∀ (limit : ℤ) (depth : ℕ) (rest : List Token),
      depth + n ≤ limit → Follows EndsDisjunction rest →
        ∃ hs, disjunction limit depth (taken ++ rest) = .ok ⟨f, rest, hs⟩
  | _, _, _, .run hc hd hj, limit, depth, rest, hn, hr => by
      obtain ⟨hs, hfirst⟩ := hc.reads limit depth _ hn (hd.follows hr)
      obtain ⟨hs', hmore⟩ := hd.reads limit depth rest hn hr
      rw [List.append_assoc, disjunction]
      refine ⟨by omega, ?_⟩
      simp [hfirst, hmore, joinDerivation_iff.mp hj]

theorem DisjunctsDerivation.reads : ∀ {n : ℕ} {taken : List Token} {fs : List Filter},
    DisjunctsDerivation n taken fs → ∀ (limit : ℤ) (depth : ℕ) (rest : List Token),
      depth + n ≤ limit → Follows EndsDisjunction rest →
        ∃ hs, disjuncts limit depth (taken ++ rest) = .ok ⟨fs, rest, hs⟩
  | _, _, _, .nil _, _, _, _, _, hr => disjuncts_done hr
  | _, _, _, .cons hor hc hd, limit, depth, rest, hn, hr => by
      obtain ⟨hs, hfirst⟩ := hc.reads limit depth _ hn (hd.follows hr)
      obtain ⟨hs', hmore⟩ := hd.reads limit depth rest hn hr
      rw [List.cons_append, List.append_assoc, disjuncts]
      refine ⟨by simp only [List.length_cons]; omega, ?_⟩
      simp [hor, hfirst, hmore]

theorem ConjunctionDerivation.reads : ∀ {n : ℕ} {taken : List Token} {f : Filter},
    ConjunctionDerivation n taken f → ∀ (limit : ℤ) (depth : ℕ) (rest : List Token),
      depth + n ≤ limit → Follows EndsConjunction rest →
        ∃ hs, conjunction limit depth (taken ++ rest) = .ok ⟨f, rest, hs⟩
  | _, _, _, .run hu hc hj, limit, depth, rest, hn, hr => by
      obtain ⟨hs, hfirst⟩ := hu.reads limit depth _ hn (hc.follows hr)
      obtain ⟨hs', hmore⟩ := hc.reads limit depth rest hn hr
      rw [List.append_assoc, conjunction]
      refine ⟨by omega, ?_⟩
      simp [hfirst, hmore, joinDerivation_iff.mp hj]

theorem ConjunctsDerivation.reads : ∀ {n : ℕ} {taken : List Token} {fs : List Filter},
    ConjunctsDerivation n taken fs → ∀ (limit : ℤ) (depth : ℕ) (rest : List Token),
      depth + n ≤ limit → Follows EndsConjunction rest →
        ∃ hs, conjuncts limit depth (taken ++ rest) = .ok ⟨fs, rest, hs⟩
  | _, _, _, .nil _, _, _, _, _, hr => conjuncts_done hr
  | _, _, _, .cons hand hu hc, limit, depth, rest, hn, hr => by
      obtain ⟨hs, hfirst⟩ := hu.reads limit depth _ hn (hc.follows hr)
      obtain ⟨hs', hmore⟩ := hc.reads limit depth rest hn hr
      rw [List.cons_append, List.append_assoc, conjuncts]
      refine ⟨by simp only [List.length_cons]; omega, ?_⟩
      simp [hand, hfirst, hmore]

theorem UnaryDerivation.reads : ∀ {n : ℕ} {taken : List Token} {f : Filter},
    UnaryDerivation n taken f → ∀ (limit : ℤ) (depth : ℕ) (rest : List Token),
      depth + n ≤ limit → Follows EndsUnary rest →
        ∃ hs, unary limit depth (taken ++ rest) = .ok ⟨f, rest, hs⟩
  | _, _, _, .predicate _ hp, limit, depth, rest, _, hr => by
      rw [unary_of_predicateDerivation hp]
      exact hp.reads hr
  | n + 1, _, _, .negation hnot hu, limit, depth, rest, hn, hr => by
      obtain ⟨hs, hf⟩ := hu.reads limit (depth + 1) rest (by push_cast at hn ⊢; omega) hr
      have hd : ¬ limit < depth + 1 := by push_cast at hn; omega
      rw [List.cons_append, unary]
      refine ⟨by simp only [List.length_cons]; omega, ?_⟩
      simp [hnot, hd, hf]
  | n + 1, _, _, .parentheses p q hd, limit, depth, rest, hn, hr => by
      have hclose : Follows EndsDisjunction (⟨.symbol .closeParen, q⟩ :: rest) := by
        intro token ht
        cases ht
        rfl
      obtain ⟨hs, hf⟩ := hd.reads limit (depth + 1) _ (by push_cast at hn ⊢; omega) hclose
      have hd : ¬ limit < depth + 1 := by push_cast at hn; omega
      rw [List.cons_append, List.append_assoc, unary]
      refine ⟨by simp only [List.length_append, List.length_cons]; omega, ?_⟩
      simp [isNot, hd, hf, closing]

end

/-! ## All tokens

A filter is read from tokens exactly if they derive it with no more open levels than allowed. -/

theorem DisjunctionDerivation.execution {n : ℕ} {tokens : List Token} {f : Filter}
    (h : DisjunctionDerivation n tokens f) {limit : ℤ} (hn : n ≤ limit) :
    ofTokens limit tokens = .ok f := by
  have hr := h.reads limit 0 [] (by omega) (by simp [Follows])
  rw [List.append_nil] at hr
  obtain ⟨hs, hr⟩ := hr
  simp [ofTokens, hr]

theorem ofTokens_iff (limit : ℕ) (tokens : List Token) (f : Filter) :
    ofTokens limit tokens = .ok f ↔ DisjunctionDerivation limit tokens f := by
  refine ⟨fun h => ?_, fun h => h.execution (Int.le_refl _)⟩
  unfold ofTokens at h
  split at h
  · cases h
  · next r hr =>
      split at h
      · next hrest =>
          cases h
          obtain ⟨taken, he, hd⟩ := disjunction_sound (n := limit) (by simp) hr
          rw [hrest, List.append_nil] at he
          exact he ▸ hd
      · cases h

/-- Tokens derive one filter at most, however many levels may be open. -/
theorem DisjunctionDerivation.unique {m n : ℕ} {tokens : List Token} {f g : Filter}
    (hf : DisjunctionDerivation m tokens f) (hg : DisjunctionDerivation n tokens g) : f = g := by
  have hm := hf.execution (Int.ofNat_le.mpr (Nat.le_max_left m n))
  rw [hg.execution (Int.ofNat_le.mpr (Nat.le_max_right m n))] at hm
  exact (Except.ok.inj hm).symm

end ScalarStore.Filter
