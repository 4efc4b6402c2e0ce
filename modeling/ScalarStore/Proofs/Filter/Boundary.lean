import ScalarStore.Proofs.Filter.Lexeme

/-! # Where lexemes end

A lexeme outside quotes goes on with few characters, none of them white space. So it stays what it
is when the text ends behind it, when another character follows, and when letters behind it or its
own change their case. -/

namespace ScalarStore.Filter.Lexeme

variable {mark c : Char} {cs body slice rest : List Char} {lexeme : Lexeme}

/-! ## What may follow a lexeme -/

/-- The characters that a lexeme may go on with outside quotes. -/
def continues (c : Char) : Bool :=
  isNamePart c || Text.isDigit c || ['.', '+', '-', '=', '&', '|'].contains c

theorem NumberForm.continues (h : NumberForm slice) : ∀ d ∈ slice, Lexeme.continues d = true := by
  have hdigits : ∀ {ds : List Char}, (∀ d ∈ ds, Text.isDigit d = true) →
      ∀ d ∈ ds, Lexeme.continues d = true := by
    intro ds h d hd
    simp [Lexeme.continues, h d hd]
  obtain @⟨whole, part, power, hw, hp, he, -⟩ := h
  rw [List.forall_mem_append, List.forall_mem_append]
  refine ⟨⟨hdigits hw, ?_⟩, ?_⟩
  · cases hp with
    | none => simp
    | point h => exact List.forall_mem_cons.mpr ⟨by decide, hdigits h⟩
  · cases he with
    | none => simp
    | power he hm hp =>
        refine List.forall_mem_cons.mpr ⟨by rcases he with rfl | rfl <;> decide, ?_⟩
        refine List.forall_mem_append.mpr ⟨?_, hdigits hp⟩
        simp only [List.mem_cons, List.not_mem_nil, or_false] at hm
        rcases hm with rfl | rfl | rfl
        · simp
        · simpa using show Lexeme.continues '+' = true by decide
        · simpa using show Lexeme.continues '-' = true by decide

theorem SpelledBy.continues (h : lexeme.SpelledBy (c :: cs)) (hquote : isQuote c = false) :
    ∀ d ∈ cs, Lexeme.continues d = true := by
  cases hname : isNameStart c with
  | true =>
      intro d hd
      simp [Lexeme.continues, (h.of_isNameStart hname).2 d hd]
  | false =>
      rcases h.of_other hquote hname with ⟨-, hform⟩ | ⟨-, s, -, hs⟩
      · exact fun d hd => hform.continues d (List.mem_cons_of_mem c hd)
      · rcases s with c | _ | _ | _ | _ | _ | _ | _ | _ | _ | _
        case compare => cases c <;> simp_all [Symbol.text, Comparison.symbol] <;> decide
        all_goals simp_all [Symbol.text] <;> decide

namespace Takes

/-- What stands at the start of a text does not depend on the end of the text. -/
theorem truncate {back : List Char}
    (h : Takes (slice ++ rest ++ back) slice lexeme (rest ++ back)) :
    Takes (slice ++ rest) slice lexeme rest :=
  ⟨rfl, h.spelled, fun other longer hother hp =>
    h.longest other longer hother (hp.trans (List.prefix_append _ _))⟩

/-- A lexeme is the same in front of a character that no lexeme goes on with. -/
theorem append_cons (h : Takes cs slice lexeme rest) {d : Char} (hd : continues d = false)
    (more : List Char) : Takes (cs ++ d :: more) slice lexeme (rest ++ d :: more) := by
  refine ⟨by rw [h.split, List.append_assoc], h.spelled, fun other longer hother hp => ?_⟩
  by_cases hlong : longer.length ≤ cs.length
  · exact h.longest other longer hother
      (List.prefix_of_prefix_length_le hp (List.prefix_append _ _) hlong)
  obtain ⟨c, slice, rfl⟩ := List.exists_cons_of_ne_nil h.spelled.ne_nil
  rw [h.split, List.append_assoc, List.cons_append] at hp
  obtain ⟨ds, rfl, hds⟩ := exists_cons_of_prefix hother hp
  cases hquote : isQuote c with
  | true =>
      obtain ⟨body, -, rfl, hform⟩ := h.spelled.of_isQuote hquote
      obtain ⟨body', -, rfl, hform'⟩ := hother.of_isQuote hquote
      rw [bodyForm_unique hquote hform' hform hds (List.prefix_append _ _)]
  | false =>
      -- The longer spelling holds the character, and not in the first place.
      have hshort : slice ++ rest ++ [d] <+: slice ++ (rest ++ d :: more) := ⟨more, by simp⟩
      have hfront : slice ++ rest ++ [d] <+: ds := by
        refine List.prefix_of_prefix_length_le hshort hds ?_
        rw [h.split] at hlong
        simp at hlong ⊢
        omega
      have hmem : d ∈ ds := hfront.subset (by simp)
      rw [hother.continues hquote d hmem] at hd
      cases hd

end Takes

/-! ## White space -/

/-- The code points of white space. -/
def blankPoints : List ℕ := [9, 10, 11, 12, 13, 28, 29, 30, 31, 32, 0x85, 0xA0, 0x1680, 0x2000,
  0x2001, 0x2002, 0x2003, 0x2004, 0x2005, 0x2006, 0x2007, 0x2008, 0x2009, 0x200A, 0x2028, 0x2029,
  0x202F, 0x205F, 0x3000]

theorem mem_blankPoints (h : Text.isBlank c = true) : c.toNat ∈ blankPoints := by
  simp only [Text.isBlank, Bool.or_eq_true, Bool.and_eq_true, decide_eq_true_eq, beq_iff_eq] at h
  simp only [blankPoints, List.mem_cons, List.not_mem_nil, or_false]
  omega

theorem continues_of_isBlank (h : Text.isBlank c = true) : continues c = false := by
  have hall : ∀ n ∈ blankPoints, continues (Char.ofNat n) = false := by
    simp only [blankPoints, List.forall_mem_cons]
    decide
  have hc := hall c.toNat (mem_blankPoints h)
  rwa [Char.ofNat_toNat] at hc

theorem SpelledBy.isBlank_eq_false (h : lexeme.SpelledBy (c :: cs)) : Text.isBlank c = false := by
  rcases h.by_start with ⟨hquote, -⟩ | ⟨hname, -⟩ | ⟨hdigit | rfl, -⟩ | ⟨hsymbol, -⟩
  · rcases isQuote_iff.mp hquote with rfl | rfl <;> decide
  · exact isBlank_of_isNameStart hname
  · rw [Bool.eq_false_iff]
    intro hblank
    have hcontinues := continues_of_isBlank hblank
    simp [Lexeme.continues, hdigit] at hcontinues
  · decide
  · simp only [symbolStarts, List.mem_cons, List.not_mem_nil, or_false] at hsymbol
    rcases hsymbol with rfl | rfl | rfl | rfl | rfl | rfl | rfl | rfl | rfl | rfl | rfl | rfl |
      rfl <;> decide

/-! ## Letters of the other case -/

/-- Texts that differ in the case of their letters alone. -/
def SameLetters (cs ds : List Char) : Prop := cs.map Char.toLower = ds.map Char.toLower

namespace SameLetters

variable {ds : List Char}

theorem of_append {front back : List Char} (h : SameLetters cs (front ++ back)) :
    ∃ start tail, cs = start ++ tail ∧ SameLetters start front ∧ SameLetters tail back := by
  rw [SameLetters, List.map_append, List.map_eq_append_iff] at h
  exact h

theorem append {front back cs' : List Char} (h : SameLetters cs front)
    (h' : SameLetters cs' back) : SameLetters (cs ++ cs') (front ++ back) := by
  rw [SameLetters, List.map_append, List.map_append, h, h']

theorem of_cons (h : SameLetters cs (c :: ds)) :
    ∃ d tail, cs = d :: tail ∧ d.toLower = c.toLower ∧ SameLetters tail ds := by
  rw [SameLetters, List.map_cons, List.map_eq_cons_iff] at h
  exact h

theorem length_eq (h : SameLetters cs ds) : cs.length = ds.length := by
  simpa using congrArg List.length h

theorem eq_of_not_isAlpha (h : SameLetters cs ds) (hd : ∀ d ∈ ds, d.isAlpha = false) : cs = ds := by
  induction ds generalizing cs with
  | nil => exact List.map_eq_nil_iff.mp h
  | cons d ds ih =>
      obtain ⟨c, tail, rfl, hc, htail⟩ := h.of_cons
      rw [List.forall_mem_cons] at hd
      rcases eq_or_isAlpha_of_toLower_eq hc with rfl | ⟨-, halpha⟩
      · rw [ih htail hd.2]
      · rw [hd.1] at halpha
        cases halpha

end SameLetters

theorem not_isAlpha_of_isDigit (h : Text.isDigit c = true) : c.isAlpha = false := by
  rw [Bool.eq_false_iff]
  intro halpha
  rw [isDigit_of_isNameStart (isNameStart_of_isAlpha halpha)] at h
  cases h

theorem FractionForm.recase {part : List Char} (h : FractionForm part) (hs : SameLetters cs part) :
    FractionForm cs := by
  have hplain : ∀ d ∈ part, d.isAlpha = false := by
    cases h with
    | none => simp
    | point h =>
        exact List.forall_mem_cons.mpr ⟨by decide, fun d hd => not_isAlpha_of_isDigit (h d hd)⟩
  rwa [hs.eq_of_not_isAlpha hplain]

theorem ExponentForm.recase {power : List Char} (h : ExponentForm power)
    (hs : SameLetters cs power) : ExponentForm cs := by
  cases h with
  | none => rw [hs.eq_of_not_isAlpha (by simp)]; exact .none
  | @power e mark power he hm hp hne =>
      obtain ⟨e', tail, rfl, he', htail⟩ := hs.of_cons
      have hplain : ∀ d ∈ mark ++ power, d.isAlpha = false := by
        refine List.forall_mem_append.mpr ⟨?_, fun d hd => not_isAlpha_of_isDigit (hp d hd)⟩
        simp only [List.mem_cons, List.not_mem_nil, or_false] at hm
        rcases hm with rfl | rfl | rfl <;> simp
      rw [htail.eq_of_not_isAlpha hplain]
      refine .power (eq_or_eq_of_toLower_eq_e (he'.trans ?_)) hm hp hne
      rcases he with rfl | rfl <;> decide

theorem NumberForm.recase (h : NumberForm slice) (hs : SameLetters cs slice) : NumberForm cs := by
  obtain @⟨whole, part, power, hw, hp, he, hsome⟩ := h
  obtain ⟨front, power', rfl, hfront, hpower⟩ := hs.of_append
  obtain ⟨whole', part', rfl, hwhole, hpart⟩ := hfront.of_append
  have hplain : ∀ d ∈ whole, d.isAlpha = false := fun d hd => not_isAlpha_of_isDigit (hw d hd)
  rw [hwhole.eq_of_not_isAlpha hplain]
  exact .mk hw (hp.recase hpart) (he.recase hpower) (by rwa [hpart.length_eq])

theorem BodyForm.recase (hm : isQuote mark = true) (h : BodyForm mark body)
    (hs : SameLetters cs body) : BodyForm mark cs := by
  have hkeep : ∀ {c d e : Char}, d.toLower = c.toLower → c ≠ e → e.isAlpha = false → d ≠ e := by
    rintro c d e hcase hne halpha rfl
    rcases eq_or_isAlpha_of_toLower_eq hcase with rfl | ⟨h, -⟩
    · exact hne rfl
    · rw [halpha] at h
      cases h
  have hmark : mark.isAlpha = false := by
    rcases isQuote_iff.mp hm with rfl | rfl <;> decide
  induction h generalizing cs with
  | nil => rw [hs.eq_of_not_isAlpha (by simp)]; exact .nil
  | escape hc _ ih =>
      obtain ⟨slash, tail, rfl, hslash, htail⟩ := hs.of_cons
      obtain ⟨d, tail, rfl, hd, hrest⟩ := htail.of_cons
      rcases eq_or_isAlpha_of_toLower_eq hslash with rfl | ⟨-, halpha⟩
      · exact .escape (hkeep hd hc (by decide)) (ih hrest)
      · exact absurd halpha (by decide)
  | plain hne hb _ ih =>
      obtain ⟨d, tail, rfl, hd, htail⟩ := hs.of_cons
      exact .plain (hkeep hd hne hmark) (hkeep hd hb (by decide)) (ih htail)

theorem isNamePart_of_toLower_eq {d : Char} (h : d.toLower = c.toLower)
    (hc : isNamePart c = true) : isNamePart d = true := by
  rcases eq_or_isAlpha_of_toLower_eq h with rfl | ⟨halpha, -⟩
  · exact hc
  · exact isNamePart_of_isAlpha halpha

theorem isNameStart_of_toLower_eq {d : Char} (h : d.toLower = c.toLower)
    (hc : isNameStart c = true) : isNameStart d = true := by
  rcases eq_or_isAlpha_of_toLower_eq h with rfl | ⟨halpha, -⟩
  · exact hc
  · exact isNameStart_of_isAlpha halpha

theorem SameLetters.forall_isNamePart {ds : List Char} (h : SameLetters cs ds)
    (hd : ∀ d ∈ ds, isNamePart d = true) : ∀ c ∈ cs, isNamePart c = true := by
  induction ds generalizing cs with
  | nil => simp [h.eq_of_not_isAlpha (by simp)]
  | cons d ds ih =>
      obtain ⟨c, tail, rfl, hc, htail⟩ := h.of_cons
      rw [List.forall_mem_cons] at hd ⊢
      exact ⟨isNamePart_of_toLower_eq hc hd.1, ih htail hd.2⟩

theorem not_isAlpha_of_symbol (s : Symbol) : ∀ d ∈ s.text.toList, d.isAlpha = false := by
  rcases s with c | _ | _ | _ | _ | _ | _ | _ | _ | _ | _
  case compare => cases c <;> simp [Symbol.text, Comparison.symbol]
  all_goals simp [Symbol.text]

/-- What spells a lexeme spells one, perhaps another, also with letters of the other case. -/
theorem SpelledBy.recase (h : lexeme.SpelledBy slice) (hs : SameLetters cs slice) :
    ∃ other, SpelledBy other cs := by
  cases h with
  | number h => exact ⟨_, .number (h.recase hs)⟩
  | @quoted mark body hm h =>
      have hmark : mark.isAlpha = false := by
        rcases isQuote_iff.mp hm with rfl | rfl <;> decide
      obtain ⟨c, tail, rfl, hc, htail⟩ := hs.of_cons
      obtain ⟨body', close, rfl, hbody, hclose⟩ := htail.of_append
      rw [hclose.eq_of_not_isAlpha (by simpa using hmark)]
      rcases eq_or_isAlpha_of_toLower_eq hc with rfl | ⟨-, halpha⟩
      · exact ⟨_, .quoted hm (h.recase hm hbody)⟩
      · rw [hmark] at halpha
        cases halpha
  | symbol s => exact ⟨.symbol s, hs.eq_of_not_isAlpha (not_isAlpha_of_symbol s) ▸ .symbol s⟩
  | keyword h => exact ⟨_, .keyword (hs.trans h)⟩
  | name hc hcs hne =>
      obtain ⟨d, tail, rfl, hd, htail⟩ := hs.of_cons
      exact ⟨_, spelledBy_ofWord (isNameStart_of_toLower_eq hd hc) (htail.forall_isNamePart hcs)⟩

/-- The lexeme at the start of a text ends at the same place whatever the case of the letters. -/
theorem Takes.recase {slice' rest' : List Char} (h : Takes cs slice lexeme rest)
    (hs : SameLetters slice' slice) (hr : SameLetters rest' rest)
    (hspelled : lexeme.SpelledBy slice') : Takes (slice' ++ rest') slice' lexeme rest' := by
  refine ⟨rfl, hspelled, ?_⟩
  rintro other longer hother ⟨left, hleft⟩
  have hwhole : SameLetters cs (longer ++ left) := by
    rw [hleft, h.split]
    exact (hs.append hr).symm
  obtain ⟨front, back, rfl, hfront, -⟩ := hwhole.of_append
  obtain ⟨_, hspelled'⟩ := hother.recase hfront
  have hlength := h.longest _ _ hspelled' (List.prefix_append _ _)
  rwa [hfront.length_eq, ← hs.length_eq] at hlength

end ScalarStore.Filter.Lexeme
