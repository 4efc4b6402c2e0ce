import ScalarStore.Filter.Build
import ScalarStore.Proofs.Filter.FieldName
import ScalarStore.Proofs.Like.Paths
import ScalarStore.Proofs.Query.Composition

/-! # Texts in quotes and in patterns

A text is quoted by a backslash in front of every backslash and of every closing mark, and it is
put into a pattern by a backslash in front of every character that is special there. Reading
undoes each of them, so a filter with a quoted text means that very text. -/

namespace ScalarStore

/-! ## Patterns -/

namespace Pattern

/-- An escaped text stands in front of what is matched, whatever characters it has. -/
theorem ofChars_escapePattern_append (s : String) (pattern : List Char) :
    ofChars ((Filter.escapePattern s).toList ++ pattern) =
      s.toList.map .exact ++ ofChars pattern := by
  rw [Filter.escapePattern, String.toList_ofList]
  induction s.toList with
  | nil => rfl
  | cons c cs ih =>
      rw [List.flatMap_cons, List.map_cons, List.cons_append, ← ih]
      by_cases hc : c = '\\' ∨ c = '%' ∨ c = '_'
      · have hspecial : isSpecial c = true := by rcases hc with rfl | rfl | rfl <;> rfl
        rw [if_pos hc]
        exact ofChars_escaped c _ hspecial
      · have hplain : isSpecial c = false := by
          simp only [not_or] at hc
          simp [isSpecial, hc]
        rw [if_neg hc]
        exact ofChars_exact c _ (standsForItself_of_plain _ hplain)

theorem matches_exact_append_iff (cs : List Char) (pattern : Pattern) (text : List Char) :
    Matches (cs.map .exact ++ pattern) text ↔ ∃ rest, text = cs ++ rest ∧ Matches pattern rest := by
  induction cs generalizing text with
  | nil => simp
  | cons c cs ih => simp [Matches, ih]

theorem likeDerivation_escapePattern_append_iff (s : String) (pattern text : List Char) :
    LikeDerivation ((Filter.escapePattern s).toList ++ pattern) text ↔
      ∃ rest, text = s.toList ++ rest ∧ LikeDerivation pattern rest := by
  simp only [likeDerivation_iff, test_iff, ofChars_escapePattern_append, matches_exact_append_iff]

theorem likeDerivation_escapePattern_iff (s : String) (text : List Char) :
    LikeDerivation (Filter.escapePattern s).toList text ↔ text = s.toList := by
  have hnil : ∀ rest, LikeDerivation [] rest ↔ rest = [] :=
    fun rest => likeDerivation_plain_iff [] rest nofun
  simpa [hnil] using likeDerivation_escapePattern_append_iff s [] text

/-- In front of a wildcard an escaped text asks for a start. -/
theorem likeDerivation_escapePattern_run_iff (s : String) (text : List Char) :
    LikeDerivation ((Filter.escapePattern s).toList ++ ['%']) text ↔ s.toList <+: text := by
  have hrun : ∀ rest, LikeDerivation ['%'] rest :=
    fun rest => (likeDerivation_start_iff [] rest nofun).mpr (List.nil_prefix)
  rw [likeDerivation_escapePattern_append_iff]
  constructor
  · rintro ⟨rest, rfl, -⟩
    exact List.prefix_append s.toList rest
  · rintro ⟨rest, rfl⟩
    exact ⟨rest, rfl, hrun rest⟩

end Pattern

namespace Filter

/-! ## Quotes -/

namespace Lexeme

/-- The body of a text in quotes, with a backslash before every backslash and closing mark. -/
def quoteBody (mark : Char) (cs : List Char) : List Char :=
  cs.flatMap fun c => if c = '\\' ∨ c = mark then ['\\', c] else [c]

variable {mark : Char}

theorem bodyForm_quoteBody (hm : isQuote mark = true) (cs : List Char) :
    BodyForm mark (quoteBody mark cs) := by
  have hline : mark ≠ '\n' := by
    rcases isQuote_iff.mp hm with rfl | rfl <;> decide
  induction cs with
  | nil => exact .nil
  | cons c cs ih =>
      rw [quoteBody, List.flatMap_cons, ← quoteBody]
      by_cases hc : c = '\\' ∨ c = mark
      · have hne : c ≠ '\n' := by rcases hc with rfl | rfl <;> simp [hline]
        rw [if_pos hc]
        exact .escape hne ih
      · rw [if_neg hc]
        rw [not_or] at hc
        exact .plain hc.2 hc.1 ih

/-- Behind a backslash stand a backslash or a quote only, and these are read as themselves. -/
theorem unescape_quoteBody (hm : isQuote mark = true) (cs : List Char) :
    unescape (quoteBody mark cs) = cs := by
  induction cs with
  | nil => rfl
  | cons c cs ih =>
      rw [quoteBody, List.flatMap_cons, ← quoteBody]
      by_cases hc : c = '\\' ∨ c = mark
      · rw [if_pos hc]
        rcases hc with rfl | rfl
        · simp [unescape, ih]
        · rcases isQuote_iff.mp hm with rfl | rfl <;> simp [unescape, ih]
      · simp only [not_or] at hc
        simp [hc, unescape, ih]

end Lexeme

/-- A text in quotes. -/
def quotedText (mark : Char) (s : String) : String :=
  String.ofList (mark :: Lexeme.quoteBody mark s.toList ++ [mark])

variable {mark : Char} {s : String}

theorem scan_quotedText (hm : Lexeme.isQuote mark = true) (s : String) (position : ℕ) :
    scan position (quotedText mark s).toList =
      .ok [⟨.quoted mark (Lexeme.quoteBody mark s.toList), position⟩] := by
  have hbody := Lexeme.quotedBody_of_bodyForm (Lexeme.ne_backslash_of_isQuote hm)
    (Lexeme.bodyForm_quoteBody hm s.toList) []
  rw [quotedText, String.toList_ofList, List.cons_append, scan_takes (Lexeme.takes_quoted hm hbody)]
  simp [scan, Except.map]

/-! ## Names in front of an operator -/

/-- The name of a field that is one word is that word also in front of a blank. -/
theorem scan_name {f : Field} (h : tokenize f.name = .ok [⟨.name f.name, 0⟩]) (cs : List Char) :
    ∃ place, scan 0 (f.name.toList ++ ' ' :: cs) =
      (scan place cs).map (⟨.name f.name, 0⟩ :: ·) := by
  refine ⟨f.name.toList.length + 1, ?_⟩
  rw [scan_append_cons h (by decide), scan_blank, Nat.zero_add]
  rfl

/-! ## Filters of quoted texts -/

variable {schema : Schema} {f : Field}

theorem chooses_eq (hf : f ∈ schema.fields) (ht : f.type = .varchar) (s : String) :
    Chooses schema f.name (.leaf f.name (.compare .eq) (.str s)) (· = s) := by
  have hcompile : compileLeaf f (.compare .eq) (.str s) = .ok (ask f (.compare .eq (.str s))) := by
    simp [compileLeaf, compileComparison, ht, DataType.fits, DataType.isNumeric,
      DataType.isInteger, DataType.integerBounds?, Value.kind]
  refine chooses_of_compileLeaf hf hcompile fun v => ⟨v == s, ?_, beq_iff_eq⟩
  rw [Test.run, Comparison.run_texts]
  rfl

theorem parse_equality_quoted (hname : tokenize f.name = .ok [⟨.name f.name, 0⟩])
    (hm : Lexeme.isQuote mark = true) (s : String) (limit : ℕ) :
    parse limit (f.name ++ " == " ++ quotedText mark s) =
      .ok (some (.leaf f.name (.compare .eq) (.str s))) := by
  have hliteral := LiteralDerivation.quoted mark (Lexeme.quoteBody mark s.toList) 0
  rw [Lexeme.unescape_quoteBody hm, String.ofList_toList] at hliteral
  exact parse_comparison hname (scan_quotedText hm s 0) hliteral limit

theorem parse_like_quoted (hname : tokenize f.name = .ok [⟨.name f.name, 0⟩])
    (hm : Lexeme.isQuote mark = true) (s : String) (limit : ℕ) :
    parse limit (f.name ++ " like " ++ quotedText mark s) =
      .ok (some (.leaf f.name .like (.str s))) := by
  have htext : (f.name ++ " like " ++ quotedText mark s).toList =
      f.name.toList ++ ' ' :: (Keyword.like.word.toList ++ ' ' :: (quotedText mark s).toList) := by
    simp [Keyword.word]
  obtain ⟨place, hfront⟩ :=
    scan_name hname (Keyword.like.word.toList ++ ' ' :: (quotedText mark s).toList)
  obtain ⟨last, hword⟩ := scan_word .like place (quotedText mark s).toList
  have htokens : tokenize (f.name ++ " like " ++ quotedText mark s) =
      .ok [⟨.name f.name, 0⟩, ⟨.keyword .like, place⟩,
        ⟨.quoted mark (Lexeme.quoteBody mark s.toList), last⟩] := by
    rw [tokenize, htext, hfront, hword, scan_quotedText hm]
    rfl
  have hderivation := PredicateDerivation.like f.name mark (Lexeme.quoteBody mark s.toList) 0
    place last
  rw [Lexeme.unescape_quoteBody hm, String.ofList_toList] at hderivation
  exact parse_of_derivation htokens (hderivation.disjunction limit)

/-- The start of a text is matched as it is; a text in quotes is read as it is; and a filter that
compares a field with a text in quotes, or with the pattern of that text, means that text. -/
theorem quoted_exact (hf : f ∈ schema.fields) (ht : f.type = .varchar)
    (hname : tokenize f.name = .ok [⟨.name f.name, 0⟩]) (hm : Lexeme.isQuote mark = true)
    (start s : String) :
    (∃ e, startsWith f.name (.str start) = .ok e ∧
      Chooses schema f.name e fun v => start.toList <+: v.toList) ∧
    (∃ body, tokenize (quotedText mark s) = .ok [⟨.quoted mark body, 0⟩] ∧
      String.ofList (unescape body) = s) ∧
    (∃ e, (∀ limit : ℕ, parse limit (f.name ++ " == " ++ quotedText mark s) = .ok (some e)) ∧
      Chooses schema f.name e (· = s)) ∧
    ∃ e, (∀ limit : ℕ, parse limit (f.name ++ " like " ++ quotedText mark (escapePattern s)) =
        .ok (some e)) ∧
      Chooses schema f.name e (· = s) := by
  refine ⟨⟨_, rfl, ?_⟩, ⟨_, scan_quotedText hm s 0, ?_⟩,
    ⟨_, parse_equality_quoted hname hm s, chooses_eq hf ht s⟩,
    ⟨_, parse_like_quoted hname hm (escapePattern s), ?_⟩⟩
  · refine (chooses_like hf ht _).congr fun v => ?_
    rw [String.toList_append]
    exact Pattern.likeDerivation_escapePattern_run_iff start v.toList
  · rw [Lexeme.unescape_quoteBody hm, String.ofList_toList]
  · refine (chooses_like hf ht _).congr fun v => ?_
    rw [Pattern.likeDerivation_escapePattern_iff, String.toList_inj]

/-- A text with a backslash, the mark itself and wildcards, and a start that ends in a backslash. -/
theorem quoted_exact_title : ∃ f ∈ titleSchema.fields, f.name = "title" ∧ f.type = .varchar ∧
    tokenize "title" = .ok [⟨.name "title", 0⟩] ∧
    quotedText '\x27' "\\n_'%" = "'\\\\n_\\'%'" ∧
    (∃ e, startsWith "title" (.str "%\\") = .ok e ∧
      Chooses titleSchema "title" e fun v => "%\\".toList <+: v.toList) ∧
    ∃ e, parse 0 ("title like " ++ quotedText '\x27' (escapePattern "\\n_'%")) = .ok (some e) ∧
      Chooses titleSchema "title" e (· = "\\n_'%") := by
  obtain ⟨f, hf, hname, ht⟩ : ∃ f ∈ titleSchema.fields, f.name = "title" ∧ f.type = .varchar :=
    ⟨_, List.mem_cons_of_mem _ List.mem_cons_self, rfl, rfl⟩
  have htoken : tokenize "title" = .ok [⟨.name "title", 0⟩] := by cbv
  have hquoted : quotedText '\x27' "\\n_'%" = "'\\\\n_\\'%'" := by decide +kernel
  obtain ⟨hstart, -, -, e, hparse, hlike⟩ :=
    quoted_exact hf ht (hname ▸ htoken) (show Lexeme.isQuote '\x27' = true by decide) "%\\"
      "\\n_'%"
  rw [hname] at hstart hlike hparse
  exact ⟨f, hf, hname, ht, htoken, hquoted, hstart, e, hparse 0, hlike⟩

end Filter

end ScalarStore
