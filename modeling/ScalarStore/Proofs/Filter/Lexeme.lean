import Mathlib
import ScalarStore.Filter.Token
import ScalarStore.Proofs.Outcome

/-! # The forms of lexemes

Every kind of lexeme has a form, which tells its spellings without an order in which kinds are
tried. What is read at a place is the longest front of the text that has a form, and reading fails
only where no front has one. -/

namespace ScalarStore.Filter.Lexeme

/-! ## Forms -/

/-- A point and digits, which may be missing, or nothing. -/
inductive FractionForm : List Char → Prop where
  | none : FractionForm []
  | point {places} (h : ∀ c ∈ places, Text.isDigit c = true) : FractionForm ('.' :: places)

/-- A letter, an optional sign and at least one digit, or nothing. -/
inductive ExponentForm : List Char → Prop where
  | none : ExponentForm []
  | power {e mark power} (he : e = 'e' ∨ e = 'E') (hm : mark ∈ [[], ['+'], ['-']])
      (hp : ∀ c ∈ power, Text.isDigit c = true) (hne : power ≠ []) :
      ExponentForm (e :: (mark ++ power))

/-- Digits, a fraction and an exponent, with a digit before or after the point. -/
inductive NumberForm : List Char → Prop where
  | mk {whole part power} (hw : ∀ c ∈ whole, Text.isDigit c = true) (hp : FractionForm part)
      (he : ExponentForm power) (h : whole ≠ [] ∨ 2 ≤ part.length) :
      NumberForm (whole ++ part ++ power)

/-- What may stand between two marks: characters other than the mark, and pairs of a backslash
and any character but a line feed. -/
inductive BodyForm (mark : Char) : List Char → Prop where
  | nil : BodyForm mark []
  | escape {c body} (hc : c ≠ '\n') : BodyForm mark body → BodyForm mark ('\\' :: c :: body)
  | plain {c body} (hm : c ≠ mark) (hb : c ≠ '\\') : BodyForm mark body → BodyForm mark (c :: body)

/-- The spellings of a lexeme. A keyword may have letters of both cases, and a name is a word that
spells no keyword. -/
inductive SpelledBy : Lexeme → List Char → Prop where
  | number {cs} (h : NumberForm cs) : SpelledBy (.number cs) cs
  | quoted {mark body} (hm : isQuote mark = true) (h : BodyForm mark body) :
      SpelledBy (.quoted mark body) (mark :: (body ++ [mark]))
  | symbol (s : Symbol) : SpelledBy (.symbol s) s.text.toList
  | keyword {k cs} (h : cs.map Char.toLower = k.word.toList) : SpelledBy (.keyword k) cs
  | name {c cs} (hc : isNameStart c = true) (hcs : ∀ d ∈ cs, isNamePart d = true)
      (h : ∀ k : Keyword, (c :: cs).map Char.toLower ≠ k.word.toList) :
      SpelledBy (.name (String.ofList (c :: cs))) (c :: cs)

/-- The lexeme at the start of a text: its slice is the longest front that spells any lexeme. -/
structure Takes (cs slice : List Char) (lexeme : Lexeme) (rest : List Char) : Prop where
  split : cs = slice ++ rest
  spelled : lexeme.SpelledBy slice
  longest : ∀ other longer, SpelledBy other longer → longer <+: cs → longer.length ≤ slice.length

/-! ## Numbers -/

theorem isDigit_of_mem_digits {cs : List Char} : ∀ c ∈ (digits cs).1, Text.isDigit c = true :=
  fun _ hc => List.mem_takeWhile_imp hc

theorem digits_of_append {ds : List Char} (h : ∀ c ∈ ds, Text.isDigit c = true)
    (rest : List Char) : digits (ds ++ rest) = (ds ++ (digits rest).1, (digits rest).2) := by
  simp only [digits, List.takeWhile_append_of_pos h, List.dropWhile_append_of_pos h]

theorem digits_cons_of_not {c : Char} (h : Text.isDigit c = false) (cs : List Char) :
    digits (c :: cs) = ([], c :: cs) := by
  simp [digits, h]

theorem fractionForm_fraction (cs : List Char) : FractionForm (fraction cs).1 := by
  unfold fraction
  split
  · exact .point isDigit_of_mem_digits
  · exact .none

theorem sign_mem (cs : List Char) : (sign cs).1 ∈ [[], ['+'], ['-']] := by
  unfold sign
  split <;> simp

theorem exponentForm_exponent (cs : List Char) : ExponentForm (exponent cs).1 := by
  cases cs with
  | nil => exact .none
  | cons e cs =>
      simp only [exponent]
      split
      · next h =>
          rw [List.cons_append]
          exact .power h.1 (sign_mem cs) isDigit_of_mem_digits h.2
      · exact .none

theorem numberForm_of_number? {cs spelling rest : List Char}
    (h : number? cs = some (spelling, rest)) : NumberForm spelling := by
  simp only [number?] at h
  split at h
  · cases h
  · next hsome =>
      cases h
      refine .mk isDigit_of_mem_digits (fractionForm_fraction _) (exponentForm_exponent _) ?_
      rw [Classical.not_and_iff_not_or_not, Nat.not_lt] at hsome
      exact hsome

/-- Neither a fraction nor an exponent starts with a digit. -/
theorem digits_of_exponentForm {power : List Char} (h : ExponentForm power) :
    power = [] ∨ ∀ rest, digits (power ++ rest) = ([], power ++ rest) := by
  cases h with
  | none => exact .inl rfl
  | power he hm hp hne =>
      refine .inr fun rest => digits_cons_of_not ?_ _
      rcases he with rfl | rfl <;> decide

theorem digits_of_forms {part power : List Char} (hp : FractionForm part)
    (he : ExponentForm power) :
    (part = [] ∧ power = []) ∨
      ∀ rest, digits (part ++ (power ++ rest)) = ([], part ++ (power ++ rest)) := by
  cases hp with
  | none =>
      rcases digits_of_exponentForm he with rfl | h
      · exact .inl ⟨rfl, rfl⟩
      · exact .inr h
  | point h => exact .inr fun rest => digits_cons_of_not (by decide) _

/-! An exponent, a fraction and a number that stand at the start of a text are no longer than what
their readers take. -/

theorem length_le_exponent {power : List Char} (h : ExponentForm power) (rest : List Char) :
    power.length ≤ (exponent (power ++ rest)).1.length := by
  cases h with
  | none => exact Nat.zero_le _
  | @power e mark power he hm hp hne =>
      have hdigits : (digits (power ++ rest)).1 = power ++ (digits rest).1 := by
        rw [digits_of_append hp]
      have hsign : sign (mark ++ (power ++ rest)) = (mark, power ++ rest) := by
        cases power with
        | nil => exact absurd rfl hne
        | cons d power =>
            -- The first digit is no sign.
            have hd : d ≠ '+' ∧ d ≠ '-' := by
              have hdigit := hp d List.mem_cons_self
              constructor <;> rintro rfl <;> revert hdigit <;> decide
            simp only [List.mem_cons, List.not_mem_nil, or_false] at hm
            rcases hm with rfl | rfl | rfl <;> simp [sign, hd]
      simp [exponent, hsign, he, hdigits, hne]

theorem length_le_fraction {part power : List Char} (hp : FractionForm part)
    (he : ExponentForm power) (rest : List Char) :
    part.length ≤ (fraction (part ++ (power ++ rest))).1.length ∧
      part.length + power.length ≤ (fraction (part ++ (power ++ rest))).1.length +
        (exponent (fraction (part ++ (power ++ rest))).2).1.length := by
  cases hp with
  | none =>
      have hnone : power = [] ∨ fraction (power ++ rest) = ([], power ++ rest) := by
        cases he with
        | none => exact .inl rfl
        | power he => rcases he with rfl | rfl <;> exact .inr rfl
      rcases hnone with rfl | hfraction
      · simp
      · have hlength := length_le_exponent he rest
        simpa [hfraction] using hlength
  | @point places h =>
      have hfraction : fraction ('.' :: (places ++ (power ++ rest))) =
          ('.' :: (places ++ (digits (power ++ rest)).1), (digits (power ++ rest)).2) := by
        rw [fraction, digits_of_append h]
      rw [List.cons_append, hfraction]
      rcases digits_of_exponentForm he with rfl | hdigits
      · simp
        omega
      · have hlength := length_le_exponent he rest
        simp only [hdigits, List.append_nil, List.length_cons]
        omega

theorem number?_of_numberForm {spelling : List Char} (h : NumberForm spelling) (rest : List Char) :
    ∃ taken left, number? (spelling ++ rest) = some (taken, left) ∧
      spelling.length ≤ taken.length := by
  obtain @⟨whole, part, power, hw, hp, he, hsome⟩ := h
  have hwhole : digits (whole ++ part ++ power ++ rest) =
      (whole ++ (digits (part ++ (power ++ rest))).1, (digits (part ++ (power ++ rest))).2) := by
    rw [List.append_assoc, List.append_assoc, digits_of_append hw]
  simp only [number?, hwhole]
  rcases digits_of_forms hp he with ⟨rfl, rfl⟩ | hdigits
  · have hne : whole ≠ [] := by simpa using hsome
    simp [hne]
  · obtain ⟨hpart, hboth⟩ := length_le_fraction hp he rest
    have hread : ¬ (whole = [] ∧ (fraction (part ++ (power ++ rest))).1.length < 2) := by
      rintro ⟨rfl, hshort⟩
      rcases hsome with hne | hlong
      · exact hne rfl
      · omega
    simp only [hdigits, List.append_nil, if_neg hread]
    refine ⟨_, _, rfl, ?_⟩
    simp only [List.length_append]
    omega

/-! ## Texts in quotes -/

variable {mark c : Char} {cs body slice rest : List Char} {lexeme : Lexeme}

theorem isQuote_iff : isQuote mark = true ↔ mark = '\x27' ∨ mark = '\x22' := by
  simp [isQuote]

theorem ne_backslash_of_isQuote (h : isQuote mark = true) : mark ≠ '\\' := by
  rintro rfl
  exact absurd h (by decide)

theorem bodyForm_of_quotedBody (h : quotedBody mark cs = some (body, rest)) :
    BodyForm mark body := by
  fun_induction quotedBody mark cs generalizing body rest with
  | case1 => cases h
  | case2 =>
      cases h
      exact .nil
  | case3 => cases h
  | case4 => cases h
  | case5 d cs hd ih =>
      obtain ⟨⟨inner, after⟩, hinner, he⟩ := Option.map_eq_some_iff.mp h
      cases he
      exact .escape hd (ih hinner)
  | case6 =>
      cases h
      exact .nil
  | case7 c d cs hc hne ih =>
      obtain ⟨⟨inner, after⟩, hinner, he⟩ := Option.map_eq_some_iff.mp h
      cases he
      exact .plain hne hc (ih hinner)

/-- A body ends at the first mark without a backslash. -/
theorem quotedBody_of_bodyForm (hm : mark ≠ '\\') (h : BodyForm mark body) (rest : List Char) :
    quotedBody mark (body ++ mark :: rest) = some (body, rest) := by
  induction h with
  | nil => cases rest <;> simp [quotedBody, hm]
  | escape hc _ ih => simp [quotedBody, hc, ih]
  | @plain c body hne hb _ ih =>
      obtain ⟨d, more, hmore⟩ : ∃ d more, body ++ mark :: rest = d :: more :=
        List.exists_cons_of_ne_nil (by simp)
      rw [hmore] at ih
      simp [quotedBody, hmore, hne, hb, ih]

/-! ## Words -/

/-- Letters that differ in their case alone are both letters; other characters have no case. -/
theorem eq_or_isAlpha_of_toLower_eq {c d : Char} (h : d.toLower = c.toLower) :
    d = c ∨ d.isAlpha = true ∧ c.isAlpha = true := by
  have halpha : d.isAlpha = c.isAlpha := by
    rw [← Char.isAlpha_toLower_eq_isAlpha d, h, Char.isAlpha_toLower_eq_isAlpha]
  cases hc : c.isAlpha with
  | true => exact .inr ⟨halpha.trans hc, rfl⟩
  | false =>
      have hplain : ∀ e : Char, e.isAlpha = false → e.toLower = e := by
        intro e he
        refine Char.toLower_eq_of_not_isUpper ?_
        rw [Char.isAlpha, Bool.or_eq_false_iff] at he
        simp [he.1]
      rw [hplain c hc, hplain d (halpha.trans hc)] at h
      exact .inl h

theorem eq_or_eq_of_toLower_eq_e (h : c.toLower = 'e') : c = 'e' ∨ c = 'E' := by
  unfold Char.toLower at h
  split at h
  · refine .inr (Char.ext ?_)
    have hval : c.val + ('a'.val - 'A'.val) = 'E'.val + ('a'.val - 'A'.val) := congrArg Char.val h
    exact (UInt32.add_left_inj _).mp hval
  · exact .inl h

theorem isAlpha_of_keyword {k : Keyword} (h : cs.map Char.toLower = k.word.toList) :
    cs ≠ [] ∧ ∀ c ∈ cs, c.isAlpha = true := by
  have hword : k.word.toList ≠ [] ∧ ∀ c ∈ k.word.toList, c.isAlpha = true := by
    cases k <;> simp [Keyword.word]
  refine ⟨fun hnil => hword.1 (by rw [← h, hnil, List.map_nil]), fun c hc => ?_⟩
  have hlower := hword.2 c.toLower (h ▸ List.mem_map_of_mem hc)
  rwa [Char.isAlpha_toLower_eq_isAlpha] at hlower

theorem ofWord?_eq_some_iff {s : String} {k : Keyword} :
    Keyword.ofWord? s = some k ↔ s.toList.map Char.toLower = k.word.toList := by
  have hlower : (Text.lower s).toList = s.toList.map Char.toLower := String.toList_map
  rw [← hlower, String.toList_inj]
  constructor
  · intro h
    have hword := List.find?_some h
    exact (beq_iff_eq.mp hword).symm
  · intro h
    rw [Keyword.ofWord?, h]
    cases k <;> rfl

theorem spelledBy_ofWord (hc : isNameStart c = true) (hcs : ∀ d ∈ cs, isNamePart d = true) :
    (ofWord (c :: cs)).SpelledBy (c :: cs) := by
  unfold ofWord
  split
  · next k hk =>
      rw [ofWord?_eq_some_iff, String.toList_ofList] at hk
      exact .keyword hk
  · next hnone =>
      refine .name hc hcs fun k hk => ?_
      have hsome : Keyword.ofWord? (String.ofList (c :: cs)) = some k := by
        rwa [ofWord?_eq_some_iff, String.toList_ofList]
      cases hsome.symm.trans hnone

theorem isNameStart_of_isAlpha {c : Char} (h : c.isAlpha = true) : isNameStart c = true := by
  simp [isNameStart, h]

theorem isNamePart_of_isAlpha {c : Char} (h : c.isAlpha = true) : isNamePart c = true := by
  simp [isNamePart, Char.isAlphanum, h]

theorem isNamePart_of_isNameStart {c : Char} (h : isNameStart c = true) :
    isNamePart c = true := by
  rw [isNameStart, Bool.or_eq_true] at h
  rcases h with h | h
  · exact isNamePart_of_isAlpha h
  · simp [isNamePart, h]

theorem length_le_takeWhile {p : Char → Bool} (h : ∀ d ∈ slice, p d = true)
    (hp : slice <+: cs) : slice.length ≤ (cs.takeWhile p).length := by
  obtain ⟨rest, rfl⟩ := hp
  rw [List.takeWhile_append_of_pos h, List.length_append]
  exact Nat.le_add_right _ _

/-! ## Symbols -/

theorem symbol?_eq_some (h : symbol? cs = some (lexeme, rest)) :
    ∃ s, lexeme = .symbol s ∧ cs = s.text.toList ++ rest := by
  unfold symbol? at h
  split at h <;> cases h <;> exact ⟨_, rfl, rfl⟩

/-- A symbol that is the start of a longer one is read as that if the text goes on so. -/
theorem symbol?_of_text (s : Symbol) (rest : List Char) :
    ∃ taken left, symbol? (s.text.toList ++ rest) = some (.symbol taken, left) ∧
      s.text.toList.length ≤ taken.text.toList.length := by
  have hnext : rest = [] ∨ (∃ more, rest = '=' :: more) ∨ ∃ d more, rest = d :: more ∧ d ≠ '=' := by
    cases rest with
    | nil => exact .inl rfl
    | cons d more =>
        by_cases hd : d = '='
        · exact .inr (.inl ⟨more, by rw [hd]⟩)
        · exact .inr (.inr ⟨d, more, rfl, hd⟩)
  rcases s with c | _ | _ | _ | _ | _ | _ | _ | _ | _ | _
  case compare =>
    cases c with
    | eq | ne | le | ge => exact ⟨_, _, rfl, Nat.le_refl _⟩
    | lt | gt =>
        rcases hnext with rfl | ⟨more, rfl⟩ | ⟨d, more, rfl, hd⟩
        · exact ⟨_, _, rfl, Nat.le_refl _⟩
        · exact ⟨_, _, rfl, by decide⟩
        · exact ⟨_, d :: more, by simp [Symbol.text, Comparison.symbol, symbol?, hd], Nat.le_refl _⟩
  case not =>
    rcases hnext with rfl | ⟨more, rfl⟩ | ⟨d, more, rfl, hd⟩
    · exact ⟨_, _, rfl, Nat.le_refl _⟩
    · exact ⟨_, _, rfl, by decide⟩
    · exact ⟨_, d :: more, by simp [Symbol.text, symbol?, hd], Nat.le_refl _⟩
  all_goals exact ⟨_, _, rfl, Nat.le_refl _⟩

/-! ## First characters

The first character tells the kind of a lexeme, but for numbers and symbols, which have different
ones. -/

theorem toNat_of_isNameStart (h : isNameStart c = true) :
    65 ≤ c.toNat ∧ c.toNat ≤ 90 ∨ c.toNat = 95 ∨ 97 ≤ c.toNat ∧ c.toNat ≤ 122 := by
  rw [isNameStart, Bool.or_eq_true, beq_iff_eq] at h
  rcases h with halpha | rfl
  · have hrange : 65 ≤ c.toNat ∧ c.toNat ≤ 90 ∨ 97 ≤ c.toNat ∧ c.toNat ≤ 122 := by
      simpa [Char.isAlpha, Char.isUpper, Char.isLower, UInt32.le_iff_toNat_le] using halpha
    omega
  · decide

theorem isBlank_of_isNameStart (h : isNameStart c = true) : Text.isBlank c = false := by
  have hrange := toNat_of_isNameStart h
  simp only [Text.isBlank, Bool.or_eq_false_iff, Bool.and_eq_false_iff, decide_eq_false_iff_not,
    beq_eq_false_iff_ne]
  omega

theorem isQuote_of_isNameStart (h : isNameStart c = true) : isQuote c = false := by
  rw [Bool.eq_false_iff, Ne, isQuote_iff]
  rintro (rfl | rfl) <;> revert h <;> decide

theorem isDigit_of_isNameStart (h : isNameStart c = true) : Text.isDigit c = false := by
  have hrange := toNat_of_isNameStart h
  have hdigit : c.isDigit = false := by
    rw [Bool.eq_false_iff]
    intro hdigit
    have : 48 ≤ c.toNat ∧ c.toNat ≤ 57 := by
      simpa [Char.isDigit, UInt32.le_iff_toNat_le] using hdigit
    omega
  rw [Text.isDigit, Text.digitValue?, if_pos (by omega), hdigit]
  rfl

/-- The characters that symbols start with. -/
def symbolStarts : List Char := ['<', '>', '=', '!', '&', '|', '(', ')', '[', ']', ',', '+', '-']

theorem exists_text_eq_cons (s : Symbol) : ∃ c cs, s.text.toList = c :: cs ∧ c ∈ symbolStarts := by
  rcases s with c | _ | _ | _ | _ | _ | _ | _ | _ | _ | _
  case compare => cases c <;> simp [Symbol.text, Comparison.symbol, symbolStarts]
  all_goals simp [Symbol.text, symbolStarts]

theorem NumberForm.starts (h : NumberForm (c :: cs)) : Text.isDigit c = true ∨ c = '.' := by
  generalize hslice : c :: cs = slice at h
  obtain @⟨whole, part, power, hw, hp, -, hsome⟩ := h
  cases whole with
  | cons d whole =>
      cases hslice
      exact .inl (hw c List.mem_cons_self)
  | nil =>
      cases hp with
      | none => simp at hsome
      | point =>
          cases hslice
          exact .inr rfl

theorem of_mem_symbolStarts {d : Char} (h : d ∈ symbolStarts) :
    Text.isDigit d = false ∧ d ≠ '.' ∧ isQuote d = false ∧ isNameStart d = false := by
  simp only [symbolStarts, List.mem_cons, List.not_mem_nil, or_false] at h
  rcases h with rfl | rfl | rfl | rfl | rfl | rfl | rfl | rfl | rfl | rfl | rfl | rfl | rfl <;>
    decide

theorem not_mem_symbolStarts (h : Text.isDigit c = true ∨ c = '.') : c ∉ symbolStarts := by
  intro hc
  obtain ⟨hdigit, hpoint, -⟩ := of_mem_symbolStarts hc
  rcases h with h | h
  · rw [hdigit] at h
    cases h
  · exact hpoint h

theorem NumberForm.ne_nil (h : NumberForm slice) : slice ≠ [] := by
  obtain @⟨whole, part, power, -, -, -, hsome⟩ := h
  rintro hnil
  simp only [List.append_eq_nil_iff] at hnil
  obtain ⟨⟨rfl, rfl⟩, -⟩ := hnil
  simp at hsome

namespace SpelledBy

theorem ne_nil (h : lexeme.SpelledBy slice) : slice ≠ [] := by
  cases h with
  | number h => exact h.ne_nil
  | quoted | name => exact List.cons_ne_nil _ _
  | symbol s =>
      obtain ⟨c, cs, hs, -⟩ := exists_text_eq_cons s
      rw [hs]
      exact List.cons_ne_nil _ _
  | keyword h => exact (isAlpha_of_keyword h).1

/-- A spelling that starts with a quote is a text in quotes, one that starts with a letter or an
underscore is a word, and any other is a number or a symbol. -/
theorem by_start (h : lexeme.SpelledBy (c :: cs)) :
    (isQuote c = true ∧ ∃ body, lexeme = .quoted c body ∧ cs = body ++ [c] ∧ BodyForm c body) ∨
    (isNameStart c = true ∧ (∀ d ∈ cs, isNamePart d = true) ∧ lexeme = ofWord (c :: cs)) ∨
    ((Text.isDigit c = true ∨ c = '.') ∧ lexeme = .number (c :: cs) ∧ NumberForm (c :: cs)) ∨
    (c ∈ symbolStarts ∧ ∃ s : Symbol, lexeme = .symbol s ∧ c :: cs = s.text.toList) := by
  generalize hslice : c :: cs = slice at h
  cases h with
  | number h =>
      subst hslice
      exact .inr (.inr (.inl ⟨h.starts, rfl, h⟩))
  | quoted hm h =>
      cases hslice
      exact .inl ⟨hm, _, rfl, rfl, h⟩
  | symbol s =>
      obtain ⟨d, ds, hs, hd⟩ := exists_text_eq_cons s
      obtain ⟨rfl, -⟩ := List.cons.inj (hslice.trans hs)
      exact .inr (.inr (.inr ⟨hd, s, rfl, rfl⟩))
  | @keyword k _ h =>
      subst hslice
      have halpha := (isAlpha_of_keyword h).2
      have hword : Keyword.ofWord? (String.ofList (c :: cs)) = some k := by
        rw [ofWord?_eq_some_iff, String.toList_ofList, h]
      refine .inr (.inl ⟨isNameStart_of_isAlpha (halpha c List.mem_cons_self), fun d hd =>
        isNamePart_of_isAlpha (halpha d (List.mem_cons_of_mem c hd)), ?_⟩)
      rw [ofWord, hword]
  | name hc hcs hne =>
      cases hslice
      refine .inr (.inl ⟨hc, hcs, ?_⟩)
      unfold ofWord
      split
      · next k hk =>
          rw [ofWord?_eq_some_iff, String.toList_ofList] at hk
          exact absurd hk (hne k)
      · rfl

end SpelledBy

theorem isQuote_of_starts (h : Text.isDigit c = true ∨ c = '.' ∨ c ∈ symbolStarts) :
    isQuote c = false := by
  rcases h with h | rfl | h
  · rw [Bool.eq_false_iff, Ne, isQuote_iff]
    rintro (rfl | rfl) <;> revert h <;> decide
  · decide
  · exact (of_mem_symbolStarts h).2.2.1

theorem isNameStart_of_starts (h : Text.isDigit c = true ∨ c = '.' ∨ c ∈ symbolStarts) :
    isNameStart c = false := by
  rcases h with h | rfl | h
  · rw [Bool.eq_false_iff]
    intro hstart
    rw [isDigit_of_isNameStart hstart] at h
    cases h
  · decide
  · exact (of_mem_symbolStarts h).2.2.2

namespace SpelledBy

theorem of_isQuote (hc : isQuote c = true) (h : lexeme.SpelledBy (c :: cs)) :
    ∃ body, lexeme = .quoted c body ∧ cs = body ++ [c] ∧ BodyForm c body := by
  rcases h.by_start with ⟨-, h⟩ | ⟨hname, -⟩ | ⟨hstart, -⟩ | ⟨hstart, -⟩
  · exact h
  · rw [isQuote_of_isNameStart hname] at hc
    cases hc
  · rw [isQuote_of_starts (hstart.imp_right .inl)] at hc
    cases hc
  · rw [isQuote_of_starts (.inr (.inr hstart))] at hc
    cases hc

theorem of_isNameStart (hc : isNameStart c = true) (h : lexeme.SpelledBy (c :: cs)) :
    lexeme = ofWord (c :: cs) ∧ ∀ d ∈ cs, isNamePart d = true := by
  rcases h.by_start with ⟨hquote, -⟩ | ⟨-, hcs, he⟩ | ⟨hstart, -⟩ | ⟨hstart, -⟩
  · rw [isQuote_of_isNameStart hc] at hquote
    cases hquote
  · exact ⟨he, hcs⟩
  · rw [isNameStart_of_starts (hstart.imp_right .inl)] at hc
    cases hc
  · rw [isNameStart_of_starts (.inr (.inr hstart))] at hc
    cases hc

theorem of_other (hquote : isQuote c = false) (hname : isNameStart c = false)
    (h : lexeme.SpelledBy (c :: cs)) :
    (lexeme = .number (c :: cs) ∧ NumberForm (c :: cs)) ∨
      c ∈ symbolStarts ∧ ∃ s : Symbol, lexeme = .symbol s ∧ c :: cs = s.text.toList := by
  rcases h.by_start with ⟨hc, -⟩ | ⟨hc, -⟩ | ⟨-, h⟩ | h
  · rw [hc] at hquote
    cases hquote
  · rw [hc] at hname
    cases hname
  · exact .inl h
  · exact .inr h

end SpelledBy

theorem symbol_inj {s t : Symbol} (h : s.text.toList = t.text.toList) : s = t := by
  have hread : ∀ u : Symbol, symbol? u.text.toList = some (.symbol u, []) := by
    rintro (c | _ | _ | _ | _ | _ | _ | _ | _ | _ | _)
    case compare => cases c <;> rfl
    all_goals rfl
  have hboth := (hread s).symm.trans (h ▸ hread t)
  simpa using hboth

/-- A body ends at the first mark without a backslash, so one text has one body at its start. -/
theorem bodyForm_unique {other : List Char} (hm : isQuote mark = true) (h : BodyForm mark body)
    (ho : BodyForm mark other) (hp : body ++ [mark] <+: cs) (hq : other ++ [mark] <+: cs) :
    body = other := by
  have hread : ∀ {front}, BodyForm mark front → front ++ [mark] <+: cs →
      (quotedBody mark cs).map Prod.fst = some front := by
    rintro front hfront ⟨rest, rfl⟩
    rw [List.append_assoc, List.singleton_append,
      quotedBody_of_bodyForm (ne_backslash_of_isQuote hm) hfront]
    rfl
  exact Option.some.inj ((hread h hp).symm.trans (hread ho hq))

theorem SpelledBy.unique {other : Lexeme} (h : lexeme.SpelledBy slice)
    (ho : other.SpelledBy slice) : lexeme = other := by
  obtain ⟨c, cs, rfl⟩ := List.exists_cons_of_ne_nil h.ne_nil
  cases hquote : isQuote c with
  | true =>
      obtain ⟨body, rfl, hcs, -⟩ := h.of_isQuote hquote
      obtain ⟨body', rfl, hcs', -⟩ := ho.of_isQuote hquote
      rw [List.append_cancel_right (hcs.symm.trans hcs')]
  | false =>
      cases hname : isNameStart c with
      | true => rw [(h.of_isNameStart hname).1, (ho.of_isNameStart hname).1]
      | false =>
          rcases h.of_other hquote hname with ⟨rfl, hnum⟩ | ⟨hc, s, rfl, hs⟩ <;>
            rcases ho.of_other hquote hname with ⟨rfl, hnum'⟩ | ⟨hc', s', rfl, hs'⟩
          · rfl
          · exact absurd hc' (not_mem_symbolStarts hnum.starts)
          · exact absurd hc (not_mem_symbolStarts hnum'.starts)
          · rw [symbol_inj (hs.symm.trans hs')]

/-- The text of a lexeme is its spelling, with keywords in lower case. -/
theorem SpelledBy.text_eq (h : lexeme.SpelledBy slice) : lexeme.text.toList =
    match lexeme with
    | .keyword _ => slice.map Char.toLower
    | _ => slice := by
  cases h with
  | number => exact String.toList_ofList
  | quoted => exact String.toList_ofList
  | symbol => rfl
  | keyword h => exact h.symm
  | name => exact String.toList_ofList

theorem SpelledBy.length_text (h : lexeme.SpelledBy slice) : lexeme.text.length = slice.length := by
  have htext := congrArg List.length h.text_eq
  rw [String.length_toList] at htext
  rw [htext]
  cases h <;> simp

namespace Takes

variable {other : Lexeme} {slice' rest' : List Char}

theorem unique (h : Takes cs slice lexeme rest) (h' : Takes cs slice' other rest') :
    slice = slice' ∧ lexeme = other ∧ rest = rest' := by
  have hlength : slice.length = slice'.length :=
    Nat.le_antisymm (h'.longest _ _ h.spelled ⟨rest, h.split.symm⟩)
      (h.longest _ _ h'.spelled ⟨rest', h'.split.symm⟩)
  obtain ⟨rfl, rfl⟩ := List.append_inj (h.split.symm.trans h'.split) hlength
  exact ⟨rfl, h.spelled.unique h'.spelled, rfl⟩

end Takes

/-- A front of a text that spells a lexeme starts with the first character of the text. -/
theorem exists_cons_of_prefix {longer : List Char} (h : lexeme.SpelledBy longer)
    (hp : longer <+: c :: cs) : ∃ ds, longer = c :: ds ∧ ds <+: cs := by
  obtain ⟨d, ds, rfl⟩ := List.exists_cons_of_ne_nil h.ne_nil
  obtain ⟨rfl, hds⟩ := List.cons_prefix_cons.mp hp
  exact ⟨ds, rfl, hds⟩

theorem takes_quoted (hquote : isQuote c = true) (h : quotedBody c cs = some (body, rest)) :
    Takes (c :: cs) (c :: (body ++ [c])) (.quoted c body) rest := by
  have hform := bodyForm_of_quotedBody h
  have hsplit : body ++ [c] ++ rest = cs := by simp [quotedBody_append h]
  refine ⟨by rw [← hsplit]; rfl, .quoted hquote hform, fun other longer hother hp => ?_⟩
  obtain ⟨ds, rfl, hds⟩ := exists_cons_of_prefix hother hp
  obtain ⟨body', -, rfl, hform'⟩ := hother.of_isQuote hquote
  rw [bodyForm_unique hquote hform' hform hds ⟨rest, hsplit⟩]

theorem takes_word (hname : isNameStart c = true) :
    Takes (c :: cs) (c :: cs.takeWhile isNamePart) (ofWord (c :: cs.takeWhile isNamePart))
      (cs.dropWhile isNamePart) := by
  have hparts : ∀ d ∈ cs.takeWhile isNamePart, isNamePart d = true :=
    fun _ hd => List.mem_takeWhile_imp hd
  refine ⟨by simp, spelledBy_ofWord hname hparts, fun other longer hother hp => ?_⟩
  obtain ⟨ds, rfl, hds⟩ := exists_cons_of_prefix hother hp
  exact Nat.succ_le_succ (length_le_takeWhile (hother.of_isNameStart hname).2 hds)

theorem takes_number (hquote : isQuote c = false) (hname : isNameStart c = false)
    (h : number? (c :: cs) = some (slice, rest)) : Takes (c :: cs) slice (.number slice) rest := by
  have hform := numberForm_of_number? h
  have hsplit := (number?_append h).1
  refine ⟨hsplit.symm, .number hform, fun other longer hother hp => ?_⟩
  obtain ⟨ds, rfl, -⟩ := exists_cons_of_prefix hother hp
  obtain ⟨left, hp⟩ := hp
  rcases hother.of_other hquote hname with ⟨-, hlonger⟩ | ⟨hc, -⟩
  · obtain ⟨taken, _, htaken, hle⟩ := number?_of_numberForm hlonger left
    rw [hp, h] at htaken
    cases htaken
    exact hle
  · obtain ⟨es, rfl, -⟩ := exists_cons_of_prefix (.number hform) ⟨rest, hsplit⟩
    exact absurd hc (not_mem_symbolStarts hform.starts)

theorem not_numberForm_of_number? (h : number? cs = none) (hp : slice <+: cs) :
    ¬ NumberForm slice := by
  intro hform
  obtain ⟨left, rfl⟩ := hp
  obtain ⟨_, _, htaken, -⟩ := number?_of_numberForm hform left
  cases h.symm.trans htaken

theorem takes_symbol (hquote : isQuote c = false) (hname : isNameStart c = false)
    (hnumber : number? (c :: cs) = none) (h : symbol? (c :: cs) = some (lexeme, rest)) :
    ∃ slice, Takes (c :: cs) slice lexeme rest := by
  obtain ⟨s, rfl, hsplit⟩ := symbol?_eq_some h
  refine ⟨s.text.toList, hsplit, .symbol s, fun other longer hother hp => ?_⟩
  obtain ⟨ds, rfl, -⟩ := exists_cons_of_prefix hother hp
  rcases hother.of_other hquote hname with ⟨-, hlonger⟩ | ⟨-, t, -, ht⟩
  · exact absurd hlonger (not_numberForm_of_number? hnumber hp)
  · obtain ⟨left, hp⟩ := hp
    obtain ⟨taken, _, htaken, hle⟩ := symbol?_of_text t left
    rw [← ht, hp, h] at htaken
    cases htaken
    rw [ht]
    exact hle

/-- What is read is the longest spelling at the start of the text. -/
theorem takes_of_read? (h : read? c cs = .ok (lexeme, rest)) :
    ∃ slice, Takes (c :: cs) slice lexeme rest := by
  unfold read? at h
  split at h
  · next hquote =>
      split at h
      · next hbody =>
          cases h
          exact ⟨_, takes_quoted hquote hbody⟩
      · cases h
  · next hquote =>
      split at h
      · next hname =>
          cases h
          exact ⟨_, takes_word hname⟩
      · next hname =>
          rw [Bool.not_eq_true] at hquote hname
          split at h
          · next hnumber =>
              cases h
              exact ⟨_, takes_number hquote hname hnumber⟩
          · next hnumber hsymbol =>
              cases h
              exact takes_symbol hquote hname hnumber hsymbol
          · cases h

/-- Why nothing is read in front of a character. -/
def faultAt (c : Char) : LexicalFault := if isQuote c = true then .unterminated else .unexpected c

/-- No front of a text spells a lexeme. -/
def Unreadable (cs : List Char) : Prop :=
  ∀ lexeme slice, SpelledBy lexeme slice → ¬ slice <+: cs

theorem unreadable_of_read? {fault : LexicalFault} (h : read? c cs = .error fault) :
    Unreadable (c :: cs) ∧ fault = faultAt c := by
  unfold read? at h
  split at h
  · next hquote =>
      split at h
      · cases h
      · next hbody =>
          cases h
          refine ⟨fun lexeme slice hs hp => ?_, (if_pos hquote).symm⟩
          obtain ⟨ds, rfl, rest, hds⟩ := exists_cons_of_prefix hs hp
          obtain ⟨body, -, rfl, hform⟩ := hs.of_isQuote hquote
          rw [List.append_assoc, List.singleton_append] at hds
          have hread := quotedBody_of_bodyForm (ne_backslash_of_isQuote hquote) hform rest
          rw [hds, hbody] at hread
          cases hread
  · next hquote =>
      split at h
      · cases h
      · next hname =>
          split at h
          · cases h
          · cases h
          · next hnumber hsymbol =>
              cases h
              refine ⟨fun lexeme slice hs hp => ?_, (if_neg hquote).symm⟩
              rw [Bool.not_eq_true] at hquote hname
              obtain ⟨ds, rfl, -⟩ := exists_cons_of_prefix hs hp
              rcases hs.of_other hquote hname with ⟨-, hform⟩ | ⟨-, t, -, ht⟩
              · exact not_numberForm_of_number? hnumber hp hform
              · obtain ⟨left, hp⟩ := hp
                obtain ⟨_, _, htaken, -⟩ := symbol?_of_text t left
                rw [← ht, hp, hsymbol] at htaken
                cases htaken

theorem read?_eq_ok_iff :
    read? c cs = .ok (lexeme, rest) ↔ ∃ slice, Takes (c :: cs) slice lexeme rest := by
  refine ⟨takes_of_read?, ?_⟩
  rintro ⟨slice, h⟩
  cases hread : read? c cs with
  | error fault =>
      exact absurd ⟨rest, h.split.symm⟩ ((unreadable_of_read? hread).1 _ _ h.spelled)
  | ok found =>
      obtain ⟨_, hfound⟩ := takes_of_read? hread
      obtain ⟨-, hlexeme, hrest⟩ := h.unique hfound
      rw [hlexeme, hrest]

theorem read?_eq_error_iff {fault : LexicalFault} :
    read? c cs = .error fault ↔ Unreadable (c :: cs) ∧ fault = faultAt c := by
  refine ⟨unreadable_of_read?, ?_⟩
  rintro ⟨hnone, rfl⟩
  cases hread : read? c cs with
  | error fault => rw [(unreadable_of_read? hread).2]
  | ok found =>
      obtain ⟨_, hfound⟩ := takes_of_read? hread
      exact absurd ⟨found.2, hfound.split.symm⟩ (hnone _ _ hfound.spelled)

end ScalarStore.Filter.Lexeme
