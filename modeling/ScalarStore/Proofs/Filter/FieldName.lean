import ScalarStore.Proofs.Filter.Composition
import ScalarStore.Proofs.Filter.Tokenization
import ScalarStore.Proofs.Schema.Row

/-! # Fields and the names in texts

The name of a field is one word, which a line feed may follow. A text can only name the word. So it
names every field whose name is one, and none whose name has the line feed. -/

namespace ScalarStore.Filter

variable {tokens : List Token} {f : Filter}

/-! ## The names of a filter -/

/-- Every name in a filter is a lexeme. -/
def NamedBy (lexemes : List Lexeme) (names : List String) : Prop :=
  ∀ name ∈ names, Lexeme.name name ∈ lexemes

theorem NamedBy.append {lexemes others : List Lexeme} {names more : List String}
    (h : NamedBy lexemes names) (h' : NamedBy others more) :
    NamedBy (lexemes ++ others) (names ++ more) := by
  intro name hname
  rw [List.mem_append] at hname ⊢
  exact hname.imp (h name) (h' name)

theorem NamedBy.mono {lexemes others : List Lexeme} {names : List String}
    (h : NamedBy lexemes names) (hs : lexemes ⊆ others) : NamedBy others names :=
  fun name hname => hs (h name hname)

theorem JoinDerivation.leafFields {connective : Connective} {fs : List Filter} {g : Filter}
    (h : JoinDerivation connective fs g) : g.leafFields = leafFieldsOf fs := by
  cases h with
  | one => simp [leafFieldsOf]
  | several f g fs => rfl

theorem PredicateDerivation.named (h : PredicateDerivation tokens f) :
    NamedBy (tokens.map (·.lexeme)) f.leafFields := by
  cases h with
  | isIn | notIn | like | compare | flipped | chain | flag =>
      simp [NamedBy, leafFields, leafFieldsOf]

mutual

theorem DisjunctionDerivation.named : ∀ {n : ℕ} {tokens : List Token} {f : Filter},
    DisjunctionDerivation n tokens f → NamedBy (tokens.map (·.lexeme)) f.leafFields
  | _, _, _, .run hfirst hrest hj => by
      rw [hj.leafFields, leafFieldsOf, List.map_append]
      exact hfirst.named.append hrest.named

theorem DisjunctsDerivation.named : ∀ {n : ℕ} {tokens : List Token} {fs : List Filter},
    DisjunctsDerivation n tokens fs → NamedBy (tokens.map (·.lexeme)) (leafFieldsOf fs)
  | _, _, _, .nil _ => nofun
  | _, _, _, .cons _ hfirst hrest => by
      rw [leafFieldsOf, List.map_cons, List.map_append]
      exact (hfirst.named.append hrest.named).mono (List.subset_cons_self _ _)

theorem ConjunctionDerivation.named : ∀ {n : ℕ} {tokens : List Token} {f : Filter},
    ConjunctionDerivation n tokens f → NamedBy (tokens.map (·.lexeme)) f.leafFields
  | _, _, _, .run hfirst hrest hj => by
      rw [hj.leafFields, leafFieldsOf, List.map_append]
      exact hfirst.named.append hrest.named

theorem ConjunctsDerivation.named : ∀ {n : ℕ} {tokens : List Token} {fs : List Filter},
    ConjunctsDerivation n tokens fs → NamedBy (tokens.map (·.lexeme)) (leafFieldsOf fs)
  | _, _, _, .nil _ => nofun
  | _, _, _, .cons _ hfirst hrest => by
      rw [leafFieldsOf, List.map_cons, List.map_append]
      exact (hfirst.named.append hrest.named).mono (List.subset_cons_self _ _)

theorem UnaryDerivation.named : ∀ {n : ℕ} {tokens : List Token} {f : Filter},
    UnaryDerivation n tokens f → NamedBy (tokens.map (·.lexeme)) f.leafFields
  | _, _, _, .predicate _ h => h.named
  | _, _, _, .negation _ hf => by
      rw [leafFields, leafFieldsOf, leafFieldsOf, List.append_nil, List.map_cons]
      exact hf.named.mono (List.subset_cons_self _ _)
  | _, _, _, .parentheses _ _ hf => by
      rw [List.map_cons, List.map_append]
      exact hf.named.mono (List.subset_cons_of_subset _ (List.subset_append_left _ _))

end

/-- The names in a text have no character but letters, digits and underscores. -/
theorem isNamePart_of_parse {limit : ℤ} {text name : String}
    (h : parse limit text = .ok (some f)) (hname : name ∈ f.leafFields) :
    ∀ c ∈ name.toList, Lexeme.isNamePart c = true := by
  obtain ⟨tokens, htokens, hf⟩ := parse_eq_ok h
  obtain ⟨token, ht, hlexeme⟩ := List.mem_map.mp (hf.named name hname)
  have hspelled := (scan_lossless htokens).spelled token ht
  rw [hlexeme] at hspelled
  generalize token.slice 0 text.toList = slice at hspelled
  cases hspelled with
  | name hc hcs =>
      rw [String.toList_ofList]
      exact List.forall_mem_cons.mpr ⟨Lexeme.isNamePart_of_isNameStart hc, hcs⟩

/-! ## The names of fields -/

/-- A line feed at the end of a text is passed over. -/
theorem tokenize_line_feed {text : String} {tokens : List Token} (h : tokenize text = .ok tokens) :
    tokenize (text ++ "\n") = .ok tokens := by
  have hend : ∀ place, scan place ['\n'] = .ok [] := by
    intro place
    rw [scan_isBlank (by decide), scan]
  have htext : (text ++ "\n").toList = text.toList ++ ['\n'] := by simp
  rw [tokenize, htext, scan_append_cons h (by decide), hend]
  simp [Except.map]

theorem tokenize_word {c : Char} {cs : List Char} (hc : Lexeme.isNameStart c = true)
    (hcs : ∀ d ∈ cs, Lexeme.isNamePart d = true) :
    tokenize (String.ofList (c :: cs)) = .ok [⟨Lexeme.ofWord (c :: cs), 0⟩] := by
  have htakes : Lexeme.Takes (c :: cs) _ _ _ := Lexeme.takes_word hc
  rw [List.takeWhile_eq_self_iff.mpr hcs, List.dropWhile_eq_nil_iff.mpr hcs] at htakes
  rw [tokenize, String.toList_ofList, scan_takes htakes, scan]
  rfl

/-- The name of a field is a word, which a line feed may follow. -/
theorem exists_word (f : Field) : ∃ word : String,
    tokenize word = .ok [⟨Lexeme.ofWord word.toList, 0⟩] ∧ '\n' ∉ word.toList ∧
      (f.name = word ∨ f.name = word ++ "\n") := by
  have hnamed := f.named
  unfold isFieldName at hnamed
  split at hnamed
  · cases hnamed
  · next c cs hname =>
      rw [Bool.and_eq_true, Bool.or_eq_true, beq_iff_eq, beq_iff_eq] at hnamed
      obtain ⟨hc, htail⟩ := hnamed
      have hstart := Lexeme.isNameStart_of_isAlpha hc
      have hparts : ∀ d ∈ cs.takeWhile Lexeme.isNamePart, Lexeme.isNamePart d = true :=
        fun _ hd => List.mem_takeWhile_imp hd
      refine ⟨String.ofList (c :: cs.takeWhile Lexeme.isNamePart), ?_, ?_, ?_⟩
      · rw [String.toList_ofList]
        exact tokenize_word hstart hparts
      · rw [String.toList_ofList]
        intro hline
        rcases List.mem_cons.mp hline with rfl | hline
        · exact absurd hc (by decide)
        · exact absurd (hparts _ hline) (by decide)
      · rw [← String.toList_inj, ← String.toList_inj, String.toList_append, String.toList_ofList,
          hname]
        have hsplit := List.takeWhile_append_dropWhile (p := Lexeme.isNamePart) (l := cs)
        refine htail.imp (fun h => ?_) fun h => ?_
        · rw [h, List.append_nil] at hsplit
          rw [hsplit]
        · rw [h] at hsplit
          rw [List.cons_append, show "\n".toList = ['\n'] from rfl, hsplit]

theorem ofWord_eq_name {word name : String} (h : Lexeme.ofWord word.toList = .name name) :
    word = name := by
  unfold Lexeme.ofWord at h
  split at h
  · cases h
  · cases h
    exact String.ofList_toList.symm

theorem ofWord_of_notKeyword {word : String} (h : Keyword.ofWord? word = none) :
    Lexeme.ofWord word.toList = .name word := by
  rw [Lexeme.ofWord, String.ofList_toList, h]

/-- A name is compared with a literal. -/
theorem parse_comparison {name field text : String} {v : Value}
    (hname : tokenize name = .ok [⟨.name field, 0⟩]) (ht : tokenize text = .ok tokens)
    (hv : LiteralDerivation tokens v) (limit : ℕ) :
    parse limit (name ++ " == " ++ text) = .ok (some (.leaf field (.compare .eq) v)) := by
  have htext : (name ++ " == " ++ text).toList =
      name.toList ++ ' ' :: '=' :: '=' :: ' ' :: text.toList := by simp
  let place := name.toList.length + 1
  have hmoved := scan_moved (place + 3) ht
  rw [Nat.zero_add] at hmoved
  have htokens : tokenize (name ++ " == " ++ text) =
      .ok ([⟨.name field, 0⟩] ++ ⟨.symbol (.compare .eq), place⟩ ::
        tokens.map (Token.moved (place + 3))) := by
    rw [tokenize, htext, scan_append_cons hname (by decide), Nat.zero_add, scan_blank,
      scan_equality, hmoved]
    rfl
  have hderivation := PredicateDerivation.compare field .eq 0 place (hv.moved (place + 3))
  exact parse_of_derivation htokens (hderivation.disjunction limit)

/-! ## Which fields a text can name -/

/-- The name of a field is read as that name alone if it has no line feed. -/
theorem tokenize_name_iff (f : Field) :
    tokenize f.name = .ok [⟨.name f.name, 0⟩] ↔ '\n' ∉ f.name.toList := by
  obtain ⟨word, hword, hline, hname⟩ := exists_word f
  rcases hname with hname | hname
  · have hnotKeyword := f.notKeyword
    rw [hname] at hnotKeyword ⊢
    rw [hword, ofWord_of_notKeyword hnotKeyword]
    exact iff_of_true rfl hline
  · rw [hname, tokenize_line_feed hword]
    refine iff_of_false (fun h => ?_) fun h => h (by simp)
    have hsame := ofWord_eq_name (congrArg Token.lexeme (List.cons.inj (Except.ok.inj h)).1)
    have hlength := congrArg String.length hsame
    simp at hlength

/-- One entry for a name is one token. -/
theorem listing_name_iff {text name : String} :
    listing text = .ok [⟨.name, name, 0⟩, ⟨.last, "", text.length⟩] ↔
      tokenize text = .ok [⟨.name name, 0⟩] := by
  refine ⟨fun h => ?_, fun h => listing_of_tokenize h⟩
  obtain ⟨tokens, htokens, he⟩ := listing_eq_ok h
  have hsplit : [Entry.mk .name name 0] ++ [Entry.mk .last "" text.length] =
      tokens.map Token.entry ++ [Entry.mk .last "" text.length] := he
  have hentries := List.append_cancel_right hsplit
  obtain ⟨⟨lexeme, position⟩, rest, rfl, htoken, hrest⟩ := List.map_eq_cons_iff.mp hentries.symm
  obtain rfl := List.map_eq_nil_iff.mp hrest
  cases lexeme with
  | name =>
      cases htoken
      exact htokens
  | number | quoted | symbol | keyword => cases htoken

/-- Of the fields, a text can name those without a line feed in their names. The name of such a
field is read as that name, and so is the name with a line feed behind it but no other one, and a
comparison of either with a literal is one of that field. -/
theorem field_named_iff (f : Field) :
    (listing f.name = .ok [⟨.name, f.name, 0⟩, ⟨.last, "", f.name.length⟩] ↔
      '\n' ∉ f.name.toList) ∧
    ((∃ (limit : ℤ) (text : String) (e : Filter),
      parse limit text = .ok (some e) ∧ f.name ∈ e.leafFields) ↔ '\n' ∉ f.name.toList) ∧
    ('\n' ∉ f.name.toList →
      (∀ (limit : ℕ) (text : String) (tokens : List Token) (v : Value),
        tokenize text = .ok tokens → LiteralDerivation tokens v →
          parse limit (f.name ++ " == " ++ text) = .ok (some (.leaf f.name (.compare .eq) v)) ∧
          parse limit (f.name ++ "\n" ++ " == " ++ text) =
            .ok (some (.leaf f.name (.compare .eq) v))) ∧
      ∀ g : Field, tokenize g.name = tokenize f.name ↔
        g.name = f.name ∨ g.name = f.name ++ "\n") := by
  have hiff := tokenize_name_iff f
  refine ⟨listing_name_iff.trans hiff, ⟨?_, fun hline => ?_⟩, fun hline => ?_⟩
  · rintro ⟨limit, text, e, hparse, hmem⟩ hline
    exact absurd (isNamePart_of_parse hparse hmem _ hline) (by decide)
  · have htrue : tokenize "true" = .ok [⟨.keyword .true, 0⟩] := by cbv
    have hparse := parse_comparison (hiff.mpr hline) htrue (.isTrue 0) 0
    exact ⟨_, _, _, hparse, List.mem_singleton_self _⟩
  · have hname := hiff.mpr hline
    refine ⟨fun limit text tokens v ht hv => ⟨parse_comparison hname ht hv limit,
      parse_comparison (tokenize_line_feed hname) ht hv limit⟩, fun g => ⟨fun h => ?_, ?_⟩⟩
    · obtain ⟨word, hword, -, hg⟩ := exists_word g
      have hread : tokenize g.name = .ok [⟨Lexeme.ofWord word.toList, 0⟩] := by
        rcases hg with hg | hg
        · rw [hg, hword]
        · rw [hg, tokenize_line_feed hword]
      rw [hread, hname] at h
      have hsame := ofWord_eq_name (congrArg Token.lexeme (List.cons.inj (Except.ok.inj h)).1)
      rwa [hsame] at hg
    · rintro (hg | hg)
      · rw [hg]
      · rw [hg, tokenize_line_feed hname, hname]

/-- A name that starts with a keyword. -/
theorem field_named_iff_order : ∃ f : Field, f.name = "order" ∧ '\n' ∉ "order".toList ∧
    listing "order" = .ok [⟨.name, "order", 0⟩, ⟨.last, "", "order".length⟩] ∧
    ∀ limit : ℕ, parse limit "order == 'x'" =
      .ok (some (.leaf "order" (.compare .eq) (.str "x"))) := by
  let f : Field := ⟨"order", .varchar, false, none, .null, by decide,
    (Keyword.ofWord?_eq_none_iff _).mpr (by decide), fun h => absurd h Bool.false_ne_true,
    fun _ => rfl, positive_of_none⟩
  have hline : '\n' ∉ "order".toList := by decide
  obtain ⟨hname, -, hcompare⟩ := field_named_iff f
  have htext : tokenize "'x'" = .ok [⟨.quoted '\x27' ['x'], 0⟩] := by cbv
  have hliteral : LiteralDerivation [⟨.quoted '\x27' ['x'], 0⟩] (.str "x") := .quoted _ _ _
  exact ⟨f, rfl, hline, hname.mpr hline, fun limit =>
    ((hcompare hline).1 limit _ _ _ htext hliteral).1⟩

/-- A schema with a field whose name is that of the key and a line feed. -/
def lineFeedSchema : Schema :=
  textSchema "id\n" (by decide) ((Keyword.ofWord?_eq_none_iff _).mpr (by decide)) (by decide)

/-- The name with a line feed is read as that of the key, and a comparison of it is one of the
key. -/
theorem lineFeed_field_misread : ∃ f ∈ lineFeedSchema.fields, ∃ g ∈ lineFeedSchema.fields,
    f.name = "id" ∧ g.name = "id\n" ∧
    listing g.name ≠ .ok [⟨.name, g.name, 0⟩, ⟨.last, "", g.name.length⟩] ∧
    tokenize g.name = tokenize f.name ∧
    parse 0 (g.name ++ " == 'x'") = .ok (some (.leaf f.name (.compare .eq) (.str "x"))) := by
  have hid : tokenize "id" = .ok [⟨.name "id", 0⟩] := by cbv
  have hline : tokenize "id\n" = .ok [⟨.name "id", 0⟩] := tokenize_line_feed hid
  have htext : tokenize "'x'" = .ok [⟨.quoted '\x27' ['x'], 0⟩] := by cbv
  have hliteral : LiteralDerivation [⟨.quoted '\x27' ['x'], 0⟩] (.str "x") := .quoted _ _ _
  refine ⟨_, List.mem_cons_self, _, List.mem_cons_of_mem _ List.mem_cons_self, rfl, rfl, ?_,
    hline.trans hid.symm, parse_comparison hline htext hliteral 0⟩
  exact (listing_name_iff.trans (tokenize_name_iff _)).not.mpr (by decide)

end ScalarStore.Filter
