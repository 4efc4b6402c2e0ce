import ScalarStore.Proofs.Filter.Boundary

/-! # The tokens of parts of a text

A text is scanned step by step: white space is passed over and lexemes are taken, as far as there
are any. So a text that has tokens has the same tokens further on in another one, in front of any
character that no lexeme goes on with. -/

namespace ScalarStore.Filter

/-! ## Steps

At the start of a text stands white space, a lexeme or a character where nothing can be read. -/

variable {position : ℕ} {c : Char} {cs slice rest : List Char} {lexeme : Lexeme}

theorem scan_isBlank (h : Text.isBlank c = true) (position : ℕ) (cs : List Char) :
    scan position (c :: cs) = scan (position + 1) cs := by
  rw [scan, if_pos h]

theorem scan_takes (h : Lexeme.Takes cs slice lexeme rest) (position : ℕ) :
    scan position cs = (scan (position + slice.length) rest).map (⟨lexeme, position⟩ :: ·) := by
  obtain ⟨c, tail, rfl⟩ := List.exists_cons_of_ne_nil h.spelled.ne_nil
  obtain rfl := h.split
  rw [List.cons_append] at h ⊢
  rw [scan, if_neg (by simp [h.spelled.isBlank_eq_false]), Lexeme.read?_eq_ok_iff.mpr ⟨_, h⟩,
    ← h.spelled.length_text]

theorem scan_unreadable (hblank : Text.isBlank c = false) (h : Lexeme.Unreadable (c :: cs))
    (position : ℕ) : scan position (c :: cs) = .error (Lexeme.faultAt c, position) := by
  rw [scan, if_neg (by simp [hblank]), Lexeme.read?_eq_error_iff.mpr ⟨h, rfl⟩]

/-- Induction along the scan of a text. -/
@[elab_as_elim]
theorem scan_induction {motive : ℕ → List Char → Prop}
    (nil : ∀ position, motive position [])
    (blank : ∀ position c cs, Text.isBlank c = true → motive (position + 1) cs →
      motive position (c :: cs))
    (lexeme : ∀ position slice lexeme rest, Lexeme.Takes (slice ++ rest) slice lexeme rest →
      motive (position + slice.length) rest → motive position (slice ++ rest))
    (stuck : ∀ position c cs, Text.isBlank c = false → Lexeme.Unreadable (c :: cs) →
      motive position (c :: cs)) (position : ℕ) (cs : List Char) : motive position cs := by
  fun_induction scan position cs with
  | case1 position => exact nil position
  | case2 position c cs hblank ih => exact blank position c cs hblank ih
  | case3 position c cs hblank fault hread =>
      exact stuck position c cs (Bool.not_eq_true _ ▸ hblank) (Lexeme.unreadable_of_read? hread).1
  | case4 position c cs hblank l rest hread ih =>
      obtain ⟨slice, htakes⟩ := Lexeme.takes_of_read? hread
      rw [htakes.spelled.length_text] at ih
      have hsplit := htakes.split
      rw [hsplit] at htakes ⊢
      exact lexeme position slice l rest htakes ih

/-! ## Tokens -/

/-- The token some places further on. -/
def Token.moved (places : ℕ) (token : Token) : Token :=
  ⟨token.lexeme, token.position + places⟩

/-- A text that starts further on has the same lexemes. -/
theorem scan_moved {position : ℕ} {cs : List Char} {tokens : List Token} (places : ℕ)
    (h : scan position cs = .ok tokens) :
    scan (position + places) cs = .ok (tokens.map (Token.moved places)) := by
  induction position, cs using scan_induction generalizing tokens with
  | nil =>
      rw [scan] at h
      cases h
      simp [scan]
  | blank position c cs hblank ih =>
      rw [scan_isBlank hblank] at h ⊢
      rw [Nat.add_right_comm]
      exact ih h
  | lexeme position slice lexeme rest htakes ih =>
      rw [scan_takes htakes] at h ⊢
      obtain ⟨tail, htail, rfl⟩ := map_eq_ok_iff.mp h
      rw [Nat.add_right_comm, ih htail]
      rfl
  | stuck position c cs hblank hnone =>
      rw [scan_unreadable hblank hnone] at h
      cases h

/-- In front of a character that no lexeme goes on with a text is read as it is alone. The
character and what follows it are read from there on. -/
theorem scan_append_cons {position : ℕ} {cs : List Char} {tokens : List Token}
    (h : scan position cs = .ok tokens) {d : Char} (hd : Lexeme.continues d = false)
    (more : List Char) :
    scan position (cs ++ d :: more) =
      (scan (position + cs.length) (d :: more)).map (tokens ++ ·) := by
  induction position, cs using scan_induction generalizing tokens with
  | nil position =>
      rw [scan] at h
      cases h
      cases hrest : scan position (d :: more) <;> simp [hrest, Except.map]
  | blank position c cs hblank ih =>
      rw [scan_isBlank hblank] at h
      rw [List.cons_append, scan_isBlank hblank, ih h, List.length_cons]
      ring_nf
  | lexeme position slice lexeme rest htakes ih =>
      rw [scan_takes htakes] at h
      obtain ⟨tail, htail, rfl⟩ := map_eq_ok_iff.mp h
      rw [scan_takes (htakes.append_cons hd more), ih htail, List.length_append, Nat.add_assoc]
      cases scan (position + (slice.length + rest.length)) (d :: more) <;> rfl
  | stuck position c cs hblank hnone =>
      rw [scan_unreadable hblank hnone] at h
      cases h

/-! ## What is written around a text -/

theorem scan_paren (position : ℕ) (cs : List Char) :
    scan position ('(' :: cs) =
        (scan (position + 1) cs).map (⟨.symbol .openParen, position⟩ :: ·) ∧
      scan position (')' :: cs) =
        (scan (position + 1) cs).map (⟨.symbol .closeParen, position⟩ :: ·) := by
  have hopen : Lexeme.read? '(' cs = .ok (.symbol .openParen, cs) := rfl
  have hclose : Lexeme.read? ')' cs = .ok (.symbol .closeParen, cs) := rfl
  constructor
  · rw [scan, if_neg (by decide), hopen]
    rfl
  · rw [scan, if_neg (by decide), hclose]
    rfl

theorem scan_blank (position : ℕ) (cs : List Char) :
    scan position (' ' :: cs) = scan (position + 1) cs := by
  rw [scan_isBlank (by decide)]

theorem scan_equality (position : ℕ) (cs : List Char) :
    scan position ('=' :: '=' :: ' ' :: cs) =
      (scan (position + 3) cs).map (⟨.symbol (.compare .eq), position⟩ :: ·) := by
  have hread : Lexeme.read? '=' ('=' :: ' ' :: cs) = .ok (.symbol (.compare .eq), ' ' :: cs) := rfl
  rw [scan, if_neg (by decide), hread]
  simp only
  rw [scan_blank]
  rfl

theorem ofWord_word (k : Keyword) : Lexeme.ofWord k.word.toList = .keyword k := by
  cases k <;> decide +kernel

/-- A word is a lexeme of its own in front of a blank. -/
theorem scan_ofWord {word : List Char} (hstart : Lexeme.isNameStart c = true)
    (hpart : word.all Lexeme.isNamePart = true) (position : ℕ) (cs : List Char) :
    scan position (c :: word ++ ' ' :: cs) =
      (scan (position + (Lexeme.ofWord (c :: word)).text.length + 1) cs).map
        (⟨Lexeme.ofWord (c :: word), position⟩ :: ·) := by
  have hall : ∀ d ∈ word, Lexeme.isNamePart d = true := List.all_eq_true.mp hpart
  have htakes : Lexeme.Takes (c :: word) _ _ _ := Lexeme.takes_word hstart
  rw [List.takeWhile_eq_self_iff.mpr hall, List.dropWhile_eq_nil_iff.mpr hall] at htakes
  rw [scan_takes (htakes.append_cons (by decide) cs), List.nil_append, scan_blank,
    htakes.spelled.length_text]

theorem scan_word (k : Keyword) (position : ℕ) (cs : List Char) :
    ∃ place, scan position (k.word.toList ++ ' ' :: cs) =
      (scan place cs).map (⟨.keyword k, position⟩ :: ·) := by
  obtain ⟨c, word, hword, hstart, hpart⟩ : ∃ c word, k.word.toList = c :: word ∧
      Lexeme.isNameStart c = true ∧ word.all Lexeme.isNamePart = true := by
    cases k <;> exact ⟨_, _, rfl, by decide⟩
  have hscan := scan_ofWord hstart hpart position cs
  rw [← hword, ofWord_word] at hscan
  exact ⟨_, hscan⟩

theorem ofWord_f : Lexeme.ofWord ['f'] = .name "f" := by decide +kernel

/-- The name `f`, which is no keyword. -/
theorem scan_f (position : ℕ) (cs : List Char) :
    scan position ('f' :: ' ' :: cs) =
      (scan (position + 2) cs).map (⟨.name "f", position⟩ :: ·) := by
  have hscan := @scan_ofWord 'f' [] (by decide) rfl position cs
  rwa [ofWord_f] at hscan

end ScalarStore.Filter
