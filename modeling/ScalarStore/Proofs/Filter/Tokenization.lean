import ScalarStore.Proofs.Filter.Scan

/-! # Tokens and the text they come from

The tokens of a text and the white space between them make it up. So the tokens stay when the
white space between their slices is another, and when the letters of keywords change their case.
Scanning ends before the end of a text only in front of a character where no form starts. -/

namespace ScalarStore.Filter

/-! ## Where tokens stand -/

def Lexeme.isKeyword : Lexeme → Bool
  | .keyword _ => true
  | _ => false

namespace Token

/-- A place is one of those of the characters that a token takes. -/
def Covers (token : Token) (place : ℕ) : Prop :=
  token.position ≤ place ∧ place < token.position + token.lexeme.text.length

/-- The characters that a token takes of a text of which the first has a position. -/
def slice (start : ℕ) (cs : List Char) (token : Token) : List Char :=
  (cs.drop (token.position - start)).take token.lexeme.text.length

end Token

/-- A text is made up of tokens and white space. Every token spells its lexeme at its position,
and ends where the next one stands or before. -/
structure Lossless (start : ℕ) (cs : List Char) (tokens : List Token) : Prop where
  increasing : ((tokens.map (·.position)) ++ [start + cs.length]).Pairwise (· < ·)
  from_start : ∀ token ∈ tokens, start ≤ token.position
  apart : tokens.Pairwise fun first second =>
    first.position + first.lexeme.text.length ≤ second.position
  spelled : ∀ token ∈ tokens, token.lexeme.SpelledBy (token.slice start cs)
  value : ∀ token ∈ tokens, token.lexeme.text.toList =
    if token.lexeme.isKeyword then (token.slice start cs).map Char.toLower else token.slice start cs
  gaps : ∀ i c, cs[i]? = some c →
    Text.isBlank c = true ∨ ∃ token ∈ tokens, token.Covers (start + i)

variable {position place : ℕ} {c : Char} {cs slice rest : List Char} {lexeme : Lexeme}
  {tokens : List Token}

theorem Lexeme.SpelledBy.value (h : lexeme.SpelledBy slice) : lexeme.text.toList =
    if lexeme.isKeyword then slice.map Char.toLower else slice := by
  rw [h.text_eq]
  cases lexeme <;> rfl

namespace Lossless

theorem nil (position : ℕ) : Lossless position [] [] :=
  ⟨by simp, by simp, .nil, by simp, by simp, by simp⟩

theorem blank (hc : Text.isBlank c = true) (h : Lossless (position + 1) cs tokens) :
    Lossless position (c :: cs) tokens := by
  have hslice : ∀ token ∈ tokens,
      token.slice position (c :: cs) = token.slice (position + 1) cs := by
    intro token ht
    have hstart := h.from_start token ht
    rw [Token.slice, Token.slice, show token.position - position =
      token.position - (position + 1) + 1 by omega, List.drop_succ_cons]
  refine ⟨?_, fun token ht => Nat.le_of_succ_le (h.from_start token ht), h.apart,
    fun token ht => ?_, fun token ht => ?_, fun i d hd => ?_⟩
  · rw [List.length_cons, show position + (cs.length + 1) = position + 1 + cs.length by omega]
    exact h.increasing
  · rw [hslice token ht]
    exact h.spelled token ht
  · rw [hslice token ht]
    exact h.value token ht
  · cases i with
    | zero =>
        cases hd
        exact .inl hc
    | succ i =>
        rw [show position + (i + 1) = position + 1 + i by omega]
        exact h.gaps i d hd

theorem cons (hl : lexeme.SpelledBy slice) (h : Lossless (position + slice.length) rest tokens) :
    Lossless position (slice ++ rest) (⟨lexeme, position⟩ :: tokens) := by
  have hlength := hl.length_text
  have hpos := List.length_pos_iff.mpr hl.ne_nil
  have hfirst : Token.slice position (slice ++ rest) ⟨lexeme, position⟩ = slice := by
    simp [Token.slice, hlength]
  have hslice : ∀ token ∈ tokens,
      token.slice position (slice ++ rest) = token.slice (position + slice.length) rest := by
    intro token ht
    have hstart := h.from_start token ht
    rw [Token.slice, Token.slice, show token.position - position =
      slice.length + (token.position - (position + slice.length)) by omega, ← List.drop_drop,
      List.drop_left]
  refine ⟨?_, List.forall_mem_cons.mpr ⟨Nat.le_refl _, fun token ht => ?_⟩, ?_,
    List.forall_mem_cons.mpr ⟨?_, fun token ht => ?_⟩,
    List.forall_mem_cons.mpr ⟨?_, fun token ht => ?_⟩, fun i c hc => ?_⟩
  · rw [List.map_cons, List.cons_append, List.length_append, ← Nat.add_assoc, List.pairwise_cons]
    refine ⟨fun place hplace => ?_, h.increasing⟩
    rcases List.mem_append.mp hplace with hplace | hplace
    · obtain ⟨token, ht, rfl⟩ := List.mem_map.mp hplace
      have hstart := h.from_start token ht
      simp only
      omega
    · rw [List.mem_singleton.mp hplace]
      simp only
      omega
  · have hstart := h.from_start token ht
    omega
  · refine List.pairwise_cons.mpr ⟨fun token ht => ?_, h.apart⟩
    rw [hlength]
    exact h.from_start token ht
  · rwa [hfirst]
  · rw [hslice token ht]
    exact h.spelled token ht
  · rw [hfirst]
    exact hl.value
  · rw [hslice token ht]
    exact h.value token ht
  · by_cases hi : i < slice.length
    · refine .inr ⟨_, List.mem_cons_self, Nat.le_add_right _ _, ?_⟩
      simp only [hlength]
      omega
    · rw [List.getElem?_append_right (by omega)] at hc
      rcases h.gaps _ c hc with hblank | ⟨token, ht, hcovers⟩
      · exact .inl hblank
      · rw [show position + slice.length + (i - slice.length) = position + i by omega] at hcovers
        exact .inr ⟨token, List.mem_cons_of_mem _ ht, hcovers⟩

end Lossless

/-- The tokens of a text and white space make it up. -/
theorem scan_lossless (h : scan position cs = .ok tokens) : Lossless position cs tokens := by
  induction position, cs using scan_induction generalizing tokens with
  | nil position =>
      rw [scan] at h
      cases h
      exact .nil position
  | blank position c cs hblank ih =>
      rw [scan_isBlank hblank] at h
      exact (ih h).blank hblank
  | lexeme position slice lexeme rest htakes ih =>
      rw [scan_takes htakes] at h
      obtain ⟨tail, htail, rfl⟩ := map_eq_ok_iff.mp h
      exact (ih htail).cons htakes.spelled
  | stuck position c cs hblank hnone =>
      rw [scan_unreadable hblank hnone] at h
      cases h

/-! ## Other white space -/

/-- Slices one after the other, with white space between each two and perhaps around them. -/
inductive Spaced : List (List Char) → List Char → Prop where
  | nil : Spaced [] []
  | blank {c slices cs} (hc : Text.isBlank c = true) :
      Spaced slices cs → Spaced slices (c :: cs)
  | slice {slices cs} (slice : List Char) (hcs : ∀ c ∈ cs.head?, Text.isBlank c = true) :
      Spaced slices cs → Spaced (slice :: slices) (slice ++ cs)

/-- A spelling is taken as a whole at the end of a text and in front of white space. -/
theorem Lexeme.SpelledBy.takes (h : lexeme.SpelledBy slice)
    (hrest : ∀ c ∈ rest.head?, Text.isBlank c = true) :
    Lexeme.Takes (slice ++ rest) slice lexeme rest := by
  have halone : Lexeme.Takes slice slice lexeme [] :=
    ⟨(List.append_nil slice).symm, h, fun _ _ _ hp => hp.length_le⟩
  cases rest with
  | nil => rwa [List.append_nil]
  | cons c rest => exact halone.append_cons (Lexeme.continues_of_isBlank (hrest c rfl)) rest

theorem scan_spaced {slices : List (List Char)} {lexemes : List Lexeme} (h : Spaced slices cs)
    (hs : List.Forall₂ Lexeme.SpelledBy lexemes slices) (position : ℕ) :
    ∃ tokens, scan position cs = .ok tokens ∧ tokens.map (·.lexeme) = lexemes := by
  induction h generalizing lexemes position with
  | nil =>
      cases hs
      exact ⟨[], by rw [scan], rfl⟩
  | blank hc _ ih =>
      rw [scan_isBlank hc]
      exact ih hs (position + 1)
  | slice slice hcs _ ih =>
      cases hs with
      | @cons lexeme _ lexemes _ hfirst hs =>
          obtain ⟨tokens, htokens, rfl⟩ := ih hs (position + slice.length)
          rw [scan_takes (hfirst.takes hcs), htokens]
          exact ⟨_, rfl, rfl⟩

/-! ## Keywords in letters of either case -/

/-- A text with the letters of keywords in perhaps another case. -/
structure Recased (start : ℕ) (tokens : List Token) (cs ds : List Char) : Prop where
  letters : Lexeme.SameLetters ds cs
  elsewhere : ∀ i, (∀ token ∈ tokens, token.lexeme.isKeyword = true → ¬ token.Covers (start + i)) →
    ds[i]? = cs[i]?

/-- The slice of a token and the text behind it are each recased. -/
theorem Recased.of_cons {ds : List Char} (hl : lexeme.SpelledBy slice)
    (hstart : ∀ token ∈ tokens, position + slice.length ≤ token.position)
    (h : Recased position (⟨lexeme, position⟩ :: tokens) (slice ++ rest) ds) :
    ∃ slice' rest', ds = slice' ++ rest' ∧ Lexeme.SameLetters slice' slice ∧
      lexeme.SpelledBy slice' ∧ Recased (position + slice.length) tokens rest rest' := by
  have hlength := hl.length_text
  obtain ⟨slice', rest', rfl, hslice, hrest⟩ := h.letters.of_append
  refine ⟨slice', rest', rfl, hslice, ?_, hrest, fun i hi => ?_⟩
  · cases hk : lexeme.isKeyword with
    | true =>
        cases hl with
        | keyword hword => exact .keyword (hslice.trans hword)
        | number | quoted | symbol | name => cases hk
    | false =>
        -- No keyword stands here, so all characters are the same.
        have hsame : slice' = slice := by
          refine List.ext_getElem hslice.length_eq fun i hi' hi => ?_
          have hchar := h.elsewhere i (List.forall_mem_cons.mpr ⟨by simp [hk], ?_⟩)
          · rw [List.getElem?_append_left hi', List.getElem?_append_left hi] at hchar
            simpa [hi, hi'] using hchar
          · rintro token ht - ⟨hle, -⟩
            have := hstart token ht
            omega
        rwa [hsame]
  · have hchar := h.elsewhere (slice.length + i) (List.forall_mem_cons.mpr ⟨?_, ?_⟩)
    · rw [← hslice.length_eq, List.getElem?_append_right (Nat.le_add_right _ _),
        hslice.length_eq, List.getElem?_append_right (Nat.le_add_right _ _)] at hchar
      simpa using hchar
    · rintro - ⟨-, hlt⟩
      simp only [hlength] at hlt
      omega
    · rwa [← Nat.add_assoc]

theorem scan_recased {ds : List Char} (h : scan position cs = .ok tokens)
    (hr : Recased position tokens cs ds) : scan position ds = .ok tokens := by
  induction position, cs using scan_induction generalizing tokens ds with
  | nil position =>
      have hnil : ds = [] := List.map_eq_nil_iff.mp hr.letters
      rwa [hnil]
  | blank position c cs hblank ih =>
      have hstart := (scan_lossless (scan_isBlank hblank position cs ▸ h)).from_start
      obtain ⟨d, ds, rfl, -, hletters⟩ := hr.letters.of_cons
      have hfirst : (d :: ds)[0]? = (c :: cs)[0]? := by
        refine hr.elsewhere 0 fun token ht _ hcovers => ?_
        have := hstart token ht
        have := hcovers.1
        omega
      cases hfirst
      rw [scan_isBlank hblank] at h ⊢
      refine ih h ⟨hletters, fun i hi => hr.elsewhere (i + 1) ?_⟩
      rwa [show position + (i + 1) = position + 1 + i by omega]
  | lexeme position slice lexeme rest htakes ih =>
      rw [scan_takes htakes] at h
      obtain ⟨tail, htail, rfl⟩ := map_eq_ok_iff.mp h
      obtain ⟨slice', rest', rfl, hslice, hspelled, hrest⟩ :=
        hr.of_cons htakes.spelled (scan_lossless htail).from_start
      rw [scan_takes (htakes.recase hslice hrest.letters hspelled), hslice.length_eq,
        ih htail hrest]
      rfl
  | stuck position c cs hblank hnone =>
      rw [scan_unreadable hblank hnone] at h
      cases h

/-! ## Where scanning ends -/

/-- A scan from one place on passes over white space and takes tokens until it stands at
another. -/
inductive Reaches : ℕ → List Char → List Token → ℕ → List Char → Prop where
  | here (position : ℕ) (cs : List Char) : Reaches position cs [] position cs
  | blank {position place : ℕ} {c : Char} {cs rest : List Char} {tokens : List Token}
      (hc : Text.isBlank c = true) :
      Reaches (position + 1) cs tokens place rest → Reaches position (c :: cs) tokens place rest
  | token {position place : ℕ} {cs slice after rest : List Char} {lexeme : Lexeme}
      {tokens : List Token} (h : Lexeme.Takes cs slice lexeme after) :
      Reaches (position + slice.length) after tokens place rest →
        Reaches position cs (⟨lexeme, position⟩ :: tokens) place rest

/-- Scanning fails in front of a character that is no white space and where no form starts. -/
theorem scan_eq_error_iff {fault : LexicalFault} :
    scan position cs = .error (fault, place) ↔
      ∃ tokens c rest, Reaches position cs tokens place (c :: rest) ∧ Text.isBlank c = false ∧
        Lexeme.Unreadable (c :: rest) ∧ fault = Lexeme.faultAt c := by
  constructor
  · intro h
    induction position, cs using scan_induction with
    | nil =>
        rw [scan] at h
        cases h
    | blank position c cs hblank ih =>
        rw [scan_isBlank hblank] at h
        obtain ⟨tokens, d, rest, hreach, hd⟩ := ih h
        exact ⟨tokens, d, rest, .blank hblank hreach, hd⟩
    | lexeme position slice lexeme rest htakes ih =>
        rw [scan_takes htakes] at h
        obtain ⟨tokens, d, rest, hreach, hd⟩ := ih (map_eq_error_iff.mp h)
        exact ⟨_, d, rest, .token htakes hreach, hd⟩
    | stuck position c cs hblank hnone =>
        rw [scan_unreadable hblank hnone] at h
        cases h
        exact ⟨[], c, cs, .here _ _, hblank, hnone, rfl⟩
  · rintro ⟨tokens, c, rest, hreach, hblank, hnone, rfl⟩
    generalize hend : c :: rest = left at hreach
    induction hreach with
    | here position cs =>
        obtain rfl := hend
        exact scan_unreadable hblank hnone position
    | blank hc _ ih =>
        rw [scan_isBlank hc]
        exact ih hend
    | token htakes _ ih =>
        rw [scan_takes htakes]
        exact map_eq_error_iff.mpr (ih hend)

/-! ## Listed tokens -/

/-- What an entry is and its text, wherever it stands. -/
def Entry.content (entry : Entry) : EntryKind × String := (entry.kind, entry.text)

theorem listing_of_tokenize {text : String} (h : tokenize text = .ok tokens) :
    listing text = .ok (tokens.map Token.entry ++ [⟨.last, "", text.length⟩]) := by
  rw [listing, h]
  rfl

theorem listing_eq_ok {text : String} {entries : List Entry} (h : listing text = .ok entries) :
    ∃ tokens, tokenize text = .ok tokens ∧
      entries = tokens.map Token.entry ++ [⟨.last, "", text.length⟩] := by
  obtain ⟨tokens, htokens, he⟩ := bind_eq_ok_iff.mp h
  exact ⟨tokens, htokens, (Except.ok.inj he).symm⟩

theorem listing_eq_error_iff {text : String} {fault : LexicalFault × ℕ} :
    listing text = .error fault ↔ tokenize text = .error fault := by
  refine bind_eq_error_iff.trans (or_iff_left ?_)
  rintro ⟨tokens, -, he⟩
  cases he

/-- The contents of the entries of a text are told by the lexemes of its tokens. -/
theorem content_of_lexemes {others : List Token} {m n : ℕ}
    (h : others.map (·.lexeme) = tokens.map (·.lexeme)) :
    (others.map Token.entry ++ [Entry.mk .last "" m]).map Entry.content =
      (tokens.map Token.entry ++ [Entry.mk .last "" n]).map Entry.content := by
  have hcontent (list : List Token) : (list.map Token.entry).map Entry.content =
      (list.map (·.lexeme)).map fun lexeme => (lexeme.kind, lexeme.text) := by
    rw [List.map_map, List.map_map]
    rfl
  rw [List.map_append, List.map_append, hcontent, hcontent, h, List.map_singleton,
    List.map_singleton, Entry.content, Entry.content]

/-- The entries of a text are its tokens and its end, at increasing places. The tokens lose nothing
of the text but white space. Every text with other white space around their slices has entries of
the same contents, and every text with other letters in its keywords the same entries. A text
without entries is scanned up to a character that is no white space and where no form starts. -/
theorem listing_outcome (text : String) :
    (∀ entries, listing text = .ok entries → ∃ tokens, tokenize text = .ok tokens ∧
      entries = tokens.map Token.entry ++ [⟨.last, "", text.length⟩] ∧
      (entries.map (·.position)).Pairwise (· < ·) ∧ Lossless 0 text.toList tokens ∧
      (∀ spaced : String, Spaced (tokens.map (·.slice 0 text.toList)) spaced.toList →
        ∃ others, listing spaced = .ok others ∧
          others.map Entry.content = entries.map Entry.content) ∧
      ∀ recased : String, Recased 0 tokens text.toList recased.toList →
        listing recased = .ok entries) ∧
    ∀ fault place, listing text = .error (fault, place) ↔
      ∃ tokens c rest, Reaches 0 text.toList tokens place (c :: rest) ∧ Text.isBlank c = false ∧
        Lexeme.Unreadable (c :: rest) ∧ fault = Lexeme.faultAt c := by
  refine ⟨fun entries h => ?_, fun fault place => listing_eq_error_iff.trans scan_eq_error_iff⟩
  obtain ⟨tokens, htokens, rfl⟩ := listing_eq_ok h
  have hlossless : Lossless 0 text.toList tokens := scan_lossless htokens
  refine ⟨tokens, htokens, rfl, ?_, hlossless, fun spaced hspaced => ?_, fun recased hr => ?_⟩
  · have hincreasing := hlossless.increasing
    rw [Nat.zero_add, String.length_toList] at hincreasing
    simpa [Function.comp_def, Token.entry] using hincreasing
  · have hspelled : List.Forall₂ Lexeme.SpelledBy (tokens.map (·.lexeme))
        (tokens.map (·.slice 0 text.toList)) := by
      rw [List.forall₂_map_left_iff, List.forall₂_map_right_iff, List.forall₂_same]
      exact hlossless.spelled
    obtain ⟨others, hothers, hsame⟩ := scan_spaced hspaced hspelled 0
    exact ⟨_, listing_of_tokenize hothers, content_of_lexemes hsame⟩
  · have hlength : recased.length = text.length := by
      rw [← String.length_toList, ← String.length_toList]
      exact hr.letters.length_eq
    rw [listing_of_tokenize (scan_recased htokens hr), hlength]

/-- Lexemes without white space between them, among them a number that ends in front of a word. -/
theorem listing_outcome_dense : ∃ tokens entries, listing "f<=1.e5AND'\\''" = .ok entries ∧
    entries = tokens.map Token.entry ++ [⟨.last, "", 14⟩] ∧
    entries.map (·.position) = [0, 1, 3, 7, 10, 14] ∧
    Lossless 0 "f<=1.e5AND'\\''".toList tokens ∧
    (∃ others, listing "f <=\t1.e5 AND '\\''" = .ok others ∧
      others.map Entry.content = entries.map Entry.content) ∧
    listing "f<=1.e5aNd'\\''" = .ok entries := by
  have htokens : tokenize "f<=1.e5AND'\\''" = .ok [⟨.name "f", 0⟩, ⟨.symbol (.compare .le), 1⟩,
    ⟨.number "1.e5".toList, 3⟩, ⟨.keyword .and, 7⟩, ⟨.quoted '\x27' "\\'".toList, 10⟩] := by cbv
  have hletters : "f<=1.e5aNd'\\''".toList.map Char.toLower =
    "f<=1.e5AND'\\''".toList.map Char.toLower := by decide +kernel
  have hentries := listing_of_tokenize htokens
  obtain ⟨tokens, hsame, he, -, hlossless, hspaced, hrecased⟩ :=
    (listing_outcome "f<=1.e5AND'\\''").1 _ hentries
  cases htokens.symm.trans hsame
  refine ⟨_, _, hentries, he, rfl, hlossless, hspaced _ ?_,
    hrecased _ ⟨hletters, fun i hi => ?_⟩⟩
  · have hblank : Text.isBlank ' ' = true ∧ Text.isBlank '\t' = true := by decide
    have hspaced : Spaced ["f".toList, "<=".toList, "1.e5".toList, "AND".toList, "'\\''".toList]
        ("f".toList ++ (' ' :: ("<=".toList ++ ('\t' :: ("1.e5".toList ++ (' ' :: ("AND".toList ++
          (' ' :: ("'\\''".toList ++ []))))))))) :=
      .slice _ (by simp [hblank]) (.blank hblank.1 (.slice _ (by simp [hblank])
        (.blank hblank.2 (.slice _ (by simp [hblank]) (.blank hblank.1 (.slice _ (by simp [hblank])
          (.blank hblank.1 (.slice _ (by simp) .nil))))))))
    exact hspaced
  · have hword : ¬ (7 ≤ i ∧ i < 10) := by
      rintro ⟨hle, hlt⟩
      refine hi ⟨.keyword .and, 7⟩ (by simp) rfl ⟨by simpa using hle, ?_⟩
      rw [Nat.zero_add]
      exact hlt
    have hall : ∀ i < 14, ¬ (7 ≤ i ∧ i < 10) →
        "f<=1.e5aNd'\\''".toList[i]? = "f<=1.e5AND'\\''".toList[i]? := by decide +kernel
    rcases Nat.lt_or_ge i 14 with hshort | hlong
    · exact hall i hshort hword
    · rw [List.getElem?_eq_none hlong, List.getElem?_eq_none hlong]

end ScalarStore.Filter
