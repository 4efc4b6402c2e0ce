import ScalarStore.Proofs.Filter.Refusal
import ScalarStore.Proofs.Filter.Spelling

/-! # How reading a text ends

A lexeme is as long as the text it is read from, so positions count characters and every place
that a fault names lies within the text. Apart from its form, only an integer with too many digits
keeps a text from being read. -/

namespace ScalarStore.Filter

/-! ## Places in a text -/

theorem scan_positions {position : ℕ} {cs : List Char} {tokens : List Token}
    (h : scan position cs = .ok tokens) :
    ∀ token ∈ tokens, token.position < position + cs.length := by
  induction position, cs using scan_induction generalizing tokens with
  | nil =>
      rw [scan] at h
      cases h
      exact List.forall_mem_nil _
  | blank position c cs hblank ih =>
      rw [scan_isBlank hblank] at h
      intro token ht
      have := ih h token ht
      rw [List.length_cons]
      omega
  | lexeme position slice lexeme rest htakes ih =>
      rw [scan_takes htakes] at h
      obtain ⟨tail, htail, rfl⟩ := map_eq_ok_iff.mp h
      have hlength := List.length_pos_iff.mpr htakes.spelled.ne_nil
      rw [List.length_append]
      intro token ht
      rcases List.mem_cons.mp ht with rfl | ht
      · exact Nat.lt_add_of_pos_right (by omega)
      · have := ih htail token ht
        omega
  | stuck position c cs hblank hnone =>
      rw [scan_unreadable hblank hnone] at h
      cases h

theorem scan_fault_position {position place : ℕ} {cs : List Char} {fault : LexicalFault}
    (h : scan position cs = .error (fault, place)) : place < position + cs.length := by
  induction position, cs using scan_induction with
  | nil =>
      rw [scan] at h
      cases h
  | blank position c cs hblank ih =>
      rw [scan_isBlank hblank] at h
      have := ih h
      rw [List.length_cons]
      omega
  | lexeme position slice lexeme rest htakes ih =>
      rw [scan_takes htakes] at h
      have := ih (map_eq_error_iff.mp h)
      rw [List.length_append]
      omega
  | stuck position c cs hblank hnone =>
      rw [scan_unreadable hblank hnone] at h
      cases h
      exact Nat.lt_add_of_pos_right (Nat.succ_pos _)

/-- A stop is a fault at a place of the text, unless an integer is too long. -/
theorem Stop.fault_of_within {text : String} {tokens : List Token} {stopped : Stop}
    (ht : tokenize text = .ok tokens) (h : stopped.Within tokens) :
    (∃ reason position, position ≤ text.length ∧
        stopped.fault text = .filter reason position text) ∨
      ∃ token ∈ tokens, token.lexeme.IsLongInteger ∧
        stopped.fault text = .value (.integerTooLong token.lexeme.text.length) := by
  obtain ⟨refusal, left⟩ := stopped
  have hplace : (left.head?.map (·.position)).getD text.length ≤ text.length := by
    cases left with
    | nil => exact Nat.le_refl _
    | cons token left =>
        have hlt := scan_positions ht token (h.suffix.subset List.mem_cons_self)
        rw [Nat.zero_add, String.length_toList] at hlt
        exact Nat.le_of_lt hlt
  cases refusal with
  | longInteger digits =>
      obtain ⟨token, hmem, hlong, rfl⟩ := h.long digits rfl
      exact .inr ⟨token, h.suffix.subset hmem, hlong, rfl⟩
  | unexpected | mixedChain | tooDeep => exact .inl ⟨_, _, hplace, rfl⟩

/-! ## An integer of many digits -/

/-- A name compared with an integer that is written with some number of ones. -/
def onesText (digits : ℕ) : String := "f == " ++ String.ofList (List.replicate digits '1')

theorem Lexeme.digits_replicate (digits : ℕ) :
    Lexeme.digits (List.replicate digits '1') = (List.replicate digits '1', []) := by
  have hone : Text.isDigit '1' = true := by decide
  rw [Lexeme.digits, List.takeWhile_replicate, List.dropWhile_replicate, if_pos hone, if_pos hone]

theorem tokenize_onesText (digits : ℕ) :
    tokenize (onesText (digits + 1)) = .ok [⟨.name "f", 0⟩, ⟨.symbol (.compare .eq), 2⟩,
      ⟨.number (List.replicate (digits + 1) '1'), 5⟩] := by
  have heq (cs : List Char) :
      Lexeme.read? '=' ('=' :: cs) = .ok (.symbol (.compare .eq), cs) := rfl
  have hones : Lexeme.read? '1' (List.replicate digits '1') =
      .ok (.number (List.replicate (digits + 1) '1'), []) := by
    have hnumber : Lexeme.number? (List.replicate (digits + 1) '1') =
        some (List.replicate (digits + 1) '1', []) := by
      simp [Lexeme.number?, Lexeme.digits_replicate, Lexeme.fraction, Lexeme.exponent]
    rw [Lexeme.read?, if_neg (by decide), if_neg (by decide), ← List.replicate_succ, hnumber]
  have htext : (onesText (digits + 1)).toList =
      'f' :: ' ' :: '=' :: '=' :: ' ' :: '1' :: List.replicate digits '1' := by
    simp [onesText, List.replicate_succ]
  rw [tokenize, htext, scan_f, scan, if_neg (by decide), heq]
  simp only
  rw [scan_blank, scan, if_neg (by decide), hones]
  simp only [scan]
  rfl

theorem parse_onesText (limit : ℤ) {digits : ℕ} (h : Text.digitLimit < digits) :
    parse limit (onesText digits) = .error (.value (.integerTooLong digits)) := by
  obtain ⟨n, rfl⟩ : ∃ n, digits = n + 1 := ⟨digits - 1, by omega⟩
  have hblank : Text.isBlankText (onesText (n + 1)) = false := by
    simp [Text.isBlankText, onesText, Text.isBlank]
  have hvalue : numberValue false (List.replicate (n + 1) '1') = .error (.longInteger (n + 1)) := by
    have hdigits : (List.replicate (n + 1) '1').filterMap Text.digitValue? =
        List.replicate (n + 1) 1 := List.filterMap_replicate_of_some rfl
    have hall : (List.replicate (n + 1) '1').all Text.isDigit = true :=
      List.all_eq_true.mpr fun c hc => by rw [List.eq_of_mem_replicate hc]; rfl
    simp [numberValue, hall, Text.readDigits, hdigits, h]
  have hread : ofTokens limit [⟨.name "f", 0⟩, ⟨.symbol (.compare .eq), 2⟩,
      ⟨.number (List.replicate (n + 1) '1'), 5⟩] = .error ⟨.longInteger (n + 1),
        [⟨.number (List.replicate (n + 1) '1'), 5⟩]⟩ := by
    simp [ofTokens, disjunction, conjunction, unary, isNot, predicate, afterName, literal,
      unsignedNumber, hvalue, Except.map]
  rw [parse_eq_ofTokens limit hblank (tokenize_onesText n), hread]
  rfl

/-! ## The ways to end -/

/-- Under every limit a text gives nothing, which is when it is blank, or a filter, or a fault at
a place within it. The one other end is at an integer of more digits than are read. -/
theorem parse_outcome (limit : ℤ) (text : String) :
    (parse limit text = .ok none ↔ Text.isBlankText text = true) ∧
    ((∃ f, parse limit text = .ok f) ∨
      (∃ reason position, position ≤ text.length ∧
        parse limit text = .error (.filter reason position text)) ∨
      ∃ tokens, tokenize text = .ok tokens ∧ ∃ token ∈ tokens, token.lexeme.IsLongInteger ∧
        parse limit text = .error (.value (.integerTooLong token.lexeme.text.length))) := by
  refine ⟨parse_eq_none_iff, ?_⟩
  cases hblank : Text.isBlankText text with
  | true => exact .inl ⟨none, parse_eq_none_iff.mpr hblank⟩
  | false =>
      cases htokens : tokenize text with
      | error found =>
          obtain ⟨fault, place⟩ := found
          have hlt := scan_fault_position htokens
          rw [Nat.zero_add, String.length_toList] at hlt
          have hparse : parse limit text = .error (.filter (.lexical fault) place text) := by
            simp [parse, hblank, htokens]
          exact .inr (.inl ⟨_, place, Nat.le_of_lt hlt, hparse⟩)
      | ok tokens =>
          cases hread : ofTokens limit tokens with
          | ok f => exact .inl ⟨some f, by rw [parse_eq_ofTokens limit hblank htokens, hread]⟩
          | error stopped =>
              have hparse : parse limit text = .error (stopped.fault text) := by
                rw [parse_eq_ofTokens limit hblank htokens, hread]
              rw [hparse]
              rcases Stop.fault_of_within htokens (ofTokens_stops hread) with
                ⟨reason, position, hplace, hfault⟩ | ⟨token, hmem, hlong, hfault⟩
              · exact .inr (.inl ⟨reason, position, hplace, congrArg _ hfault⟩)
              · exact .inr (.inr ⟨tokens, rfl, token, hmem, hlong, congrArg _ hfault⟩)

theorem parse_onesText_unreadable :
    ¬ ((∃ f, parse defaultDepth (onesText 4301) = .ok f) ∨
      ∃ reason position, position ≤ (onesText 4301).length ∧
        parse defaultDepth (onesText 4301) =
          .error (.filter reason position (onesText 4301))) := by
  rw [parse_onesText defaultDepth (by decide)]
  simp

end ScalarStore.Filter
