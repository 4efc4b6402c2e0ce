import Mathlib
import ScalarStore.Proofs.Filter.Completeness
import ScalarStore.Proofs.Filter.Refusal
import ScalarStore.Filter.Parse

/-! # Reading filter text -/

namespace ScalarStore.Filter

/-! ## Limits that no text reaches

Each open level takes a token, so a limit above the number of tokens left is never met. -/

mutual

theorem disjunction_limit {limit large : ℤ} {depth : ℕ} {tokens : List Token}
    (h : depth + tokens.length ≤ limit) (h' : depth + tokens.length ≤ large) :
    disjunction limit depth tokens = disjunction large depth tokens := by
  rw [disjunction, disjunction, conjunction_limit h h']
  cases conjunction large depth tokens with
  | error stopped => rfl
  | ok first =>
      have := first.shorter
      have hrest : disjuncts limit depth first.rest = disjuncts large depth first.rest :=
        disjuncts_limit (by omega) (by omega)
      simp only [hrest]
termination_by (tokens.length, 3)

theorem disjuncts_limit {limit large : ℤ} {depth : ℕ} :
    ∀ {tokens : List Token}, depth + tokens.length ≤ limit → depth + tokens.length ≤ large →
      disjuncts limit depth tokens = disjuncts large depth tokens
  | [], _, _ => by rw [disjuncts, disjuncts]
  | token :: rest, h, h' => by
      simp only [List.length_cons] at h h'
      have hfirst : conjunction limit depth rest = conjunction large depth rest :=
        conjunction_limit (by omega) (by omega)
      rw [disjuncts, disjuncts, hfirst]
      cases conjunction large depth rest with
      | error stopped => rfl
      | ok first =>
          have := first.shorter
          have hrest : disjuncts limit depth first.rest = disjuncts large depth first.rest :=
            disjuncts_limit (by omega) (by omega)
          simp only [hrest]
termination_by tokens => (tokens.length, 4)

theorem conjunction_limit {limit large : ℤ} {depth : ℕ} {tokens : List Token}
    (h : depth + tokens.length ≤ limit) (h' : depth + tokens.length ≤ large) :
    conjunction limit depth tokens = conjunction large depth tokens := by
  rw [conjunction, conjunction, unary_limit h h']
  cases unary large depth tokens with
  | error stopped => rfl
  | ok first =>
      have := first.shorter
      have hrest : conjuncts limit depth first.rest = conjuncts large depth first.rest :=
        conjuncts_limit (by omega) (by omega)
      simp only [hrest]
termination_by (tokens.length, 1)

theorem conjuncts_limit {limit large : ℤ} {depth : ℕ} :
    ∀ {tokens : List Token}, depth + tokens.length ≤ limit → depth + tokens.length ≤ large →
      conjuncts limit depth tokens = conjuncts large depth tokens
  | [], _, _ => by rw [conjuncts, conjuncts]
  | token :: rest, h, h' => by
      simp only [List.length_cons] at h h'
      have hfirst : unary limit depth rest = unary large depth rest :=
        unary_limit (by omega) (by omega)
      rw [conjuncts, conjuncts, hfirst]
      cases unary large depth rest with
      | error stopped => rfl
      | ok first =>
          have := first.shorter
          have hrest : conjuncts limit depth first.rest = conjuncts large depth first.rest :=
            conjuncts_limit (by omega) (by omega)
          simp only [hrest]
termination_by tokens => (tokens.length, 2)

theorem unary_limit {limit large : ℤ} {depth : ℕ} :
    ∀ {tokens : List Token}, depth + tokens.length ≤ limit → depth + tokens.length ≤ large →
      unary limit depth tokens = unary large depth tokens
  | [], _, _ => by rw [unary, unary]
  | token :: rest, h, h' => by
      simp only [List.length_cons] at h h'
      have hnot : unary limit (depth + 1) rest = unary large (depth + 1) rest :=
        unary_limit (by omega) (by omega)
      have hopen : disjunction limit (depth + 1) rest = disjunction large (depth + 1) rest :=
        disjunction_limit (by omega) (by omega)
      have hl : ¬ limit < depth + 1 := by omega
      have hl' : ¬ large < depth + 1 := by omega
      rw [unary, unary, hnot, hopen, if_neg hl, if_neg hl', if_neg hl, if_neg hl']
termination_by tokens => (tokens.length, 0)

end

theorem Stop.fault_eq_filter {tokens : List Token} {stopped : Stop} (text : String)
    (h : stopped.Within tokens) (hl : ∀ token ∈ tokens, ¬ token.lexeme.IsLongInteger) :
    ∃ reason position, stopped.fault text = .filter reason position text := by
  obtain ⟨refusal, place⟩ := stopped
  cases refusal with
  | longInteger digits =>
      obtain ⟨token, ht, hlong, -⟩ := h.long digits rfl
      exact absurd hlong (hl token (h.suffix.subset ht))
  | unexpected | mixedChain | tooDeep => exact ⟨_, _, rfl⟩

theorem parse_eq_ofTokens (limit : ℤ) {text : String} {tokens : List Token}
    (hb : Text.isBlankText text = false) (ht : tokenize text = .ok tokens) :
    parse limit text =
      match ofTokens limit tokens with
      | .error stopped => .error (stopped.fault text)
      | .ok f => .ok (some f) := by
  simp only [parse, hb, ht]
  rfl

end ScalarStore.Filter
