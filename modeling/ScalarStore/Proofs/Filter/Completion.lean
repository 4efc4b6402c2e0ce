import ScalarStore.Proofs.Filter.Spelling
import ScalarStore.Proofs.Filter.Tokenization

/-! # What may follow in front of a refusal

Where a reader stops, the tokens in front of that place can be completed: some more tokens make
them a phrase of the kind that is read, with no more levels open than may be. So a text with a
fault can go on otherwise from there and be a filter. -/

namespace ScalarStore.Filter

/-! ## Completions -/

/-- Some text spells a lexeme. -/
def Lexeme.Spellable (lexeme : Lexeme) : Prop := ∃ slice, lexeme.SpelledBy slice

/-- One token of a lexeme. -/
def Lexeme.IsOne (lexeme : Lexeme) (tokens : List Token) : Prop := ∃ p, tokens = [⟨lexeme, p⟩]

/-- The tokens in front of the rest, and any tokens of some lexemes after them, make a phrase. -/
def Completable (phrase : List Token → Prop) (tokens rest : List Token) : Prop :=
  ∃ before lexemes, tokens = before ++ rest ∧ (∀ lexeme ∈ lexemes, lexeme.Spellable) ∧
    ∀ added : List Token, added.map (·.lexeme) = lexemes → phrase (before ++ added)

namespace Completable

variable {phrase whole : List Token → Prop} {tokens rest : List Token}

/-- What is in front already is a phrase. -/
theorem done {front : List Token} (he : tokens = front ++ rest) (h : phrase front) :
    Completable phrase tokens rest := by
  refine ⟨front, [], he, by simp, fun added hadded => ?_⟩
  rwa [List.map_eq_nil_iff.mp hadded, List.append_nil]

/-- A part of the input is completed, and the part in front of it is kept. -/
theorem after (front : List Token) (h : Completable phrase tokens rest)
    (hw : ∀ l, phrase l → whole (front ++ l)) : Completable whole (front ++ tokens) rest := by
  obtain ⟨before, lexemes, rfl, hs, hp⟩ := h
  refine ⟨front ++ before, lexemes, (List.append_assoc _ _ _).symm, hs, fun added hadded => ?_⟩
  rw [List.append_assoc]
  exact hw _ (hp added hadded)

/-- A part of a phrase is completed, and one more lexeme completes the phrase. -/
theorem next {lexeme : Lexeme} (hs : lexeme.Spellable) (h : Completable phrase tokens rest)
    (hw : ∀ l p, phrase l → whole (l ++ [⟨lexeme, p⟩])) : Completable whole tokens rest := by
  obtain ⟨before, lexemes, rfl, hlexemes, hp⟩ := h
  refine ⟨before, lexemes ++ [lexeme], rfl, ?_, fun added hadded => ?_⟩
  · simpa [or_imp, forall_and] using ⟨hlexemes, hs⟩
  · obtain ⟨start, last, rfl, hstart, hlast⟩ := List.map_eq_append_iff.mp hadded
    obtain ⟨⟨last, p⟩, tail, rfl, rfl, htail⟩ := List.map_eq_cons_iff.mp hlast
    rw [List.map_eq_nil_iff.mp htail, ← List.append_assoc]
    exact hw _ p (hp start hstart)

theorem imp (h : Completable phrase tokens rest) (hw : ∀ l, phrase l → whole l) :
    Completable whole tokens rest :=
  h.after [] hw

/-- A part between others is completed, and one more lexeme completes the phrase. -/
theorem between (front : List Token) {lexeme : Lexeme} (hs : lexeme.Spellable)
    (h : Completable phrase tokens rest)
    (hw : ∀ l p, phrase l → whole (front ++ (l ++ [⟨lexeme, p⟩]))) :
    Completable whole (front ++ tokens) rest := by
  have hclosed : Completable (fun l => whole (front ++ l)) tokens rest := h.next hs hw
  exact hclosed.after front fun l hl => hl

/-- One lexeme is missing. -/
theorem one {lexeme : Lexeme} (hs : lexeme.Spellable) (h : ∀ p, phrase [⟨lexeme, p⟩]) :
    Completable phrase tokens tokens := by
  have hnil : Completable (· = []) tokens tokens := done (List.nil_append _).symm rfl
  refine hnil.next hs ?_
  rintro _ p rfl
  exact h p

theorem missing {lexeme : Lexeme} (hs : lexeme.Spellable) :
    Completable lexeme.IsOne tokens tokens :=
  one hs fun p => ⟨p, rfl⟩

end Completable

namespace Lexeme

theorem spellable_symbol (s : Symbol) : (Lexeme.symbol s).Spellable := ⟨_, .symbol s⟩

theorem spellable_one : (Lexeme.number ['1']).Spellable := by
  have hread : read? '1' [] = .ok (.number ['1'], []) := by cbv
  obtain ⟨slice, h⟩ := takes_of_read? hread
  exact ⟨slice, h.spelled⟩

theorem spellable_empty : (Lexeme.quoted '\x27' []).Spellable := ⟨_, .quoted (by decide) .nil⟩

theorem spellable_f : (Lexeme.name "f").Spellable :=
  ⟨['f'], ofWord_f ▸ spelledBy_ofWord (by decide) (by simp)⟩

end Lexeme

variable {tokens : List Token} {stopped : Stop}

/-! ## Literals and lists -/

def IsLiteral (tokens : List Token) : Prop := ∃ value, LiteralDerivation tokens value

def AreItems (tokens : List Token) : Prop := ∃ values, ItemsDerivation tokens values

def IsList (tokens : List Token) : Prop := ∃ values, ListDerivation tokens values

theorem numberValue_one (negative : Bool) :
    numberValue negative ['1'] = .ok (.int (if negative then -1 else 1)) := by
  cases negative <;> cbv

theorem unsignedNumber_tokens {negative : Bool}
    (h : unsignedNumber negative tokens = .error stopped) : stopped.tokens = tokens := by
  unfold unsignedNumber at h
  split at h
  · split at h <;> cases h
    rfl
  · cases h
    rfl

/-- A number is missing, behind a sign or none. -/
theorem unsignedNumber_completable {negative : Bool}
    (h : unsignedNumber negative tokens = .error stopped) :
    Completable (Lexeme.number ['1']).IsOne tokens stopped.tokens := by
  rw [unsignedNumber_tokens h]
  exact .missing Lexeme.spellable_one

theorem literal_completable (h : literal tokens = .error stopped) :
    Completable IsLiteral tokens stopped.tokens := by
  unfold literal at h
  split at h
  · cases h
  · cases h
  · cases h
  · next p rest =>
      refine (unsignedNumber_completable (map_eq_error_iff.mp h)).after [⟨.symbol .plus, p⟩] ?_
      rintro _ ⟨q, rfl⟩
      exact ⟨_, .plus p q (numberValue_one false)⟩
  · next p rest =>
      refine (unsignedNumber_completable (map_eq_error_iff.mp h)).after [⟨.symbol .minus, p⟩] ?_
      rintro _ ⟨q, rfl⟩
      exact ⟨_, .minus p q (numberValue_one true)⟩
  · refine (unsignedNumber_completable h).imp ?_
    rintro _ ⟨p, rfl⟩
    exact ⟨_, .unsigned p (numberValue_one false)⟩

theorem listRest_completable (h : listRest tokens = .error stopped) :
    Completable AreItems tokens stopped.tokens := by
  fun_induction listRest tokens with
  | case1 => cases h
  | case2 p rest s hl =>
      cases h
      refine (literal_completable hl).between [⟨.symbol .comma, p⟩]
        (Lexeme.spellable_symbol .closeBracket) ?_
      rintro l q ⟨value, hvalue⟩
      have hitems : ItemsDerivation (_ :: (l ++ [_])) _ := .cons p hvalue (.close q)
      exact ⟨_, hitems⟩
  | case3 p rest first hf _ s hs ih =>
      cases h
      obtain ⟨items, he, hi⟩ := literal_sound hf
      rw [he]
      refine (ih hs).after (⟨.symbol .comma, p⟩ :: items) ?_
      rintro l ⟨values, hvalues⟩
      exact ⟨_, .cons p hi hvalues⟩
  | case4 => cases h
  | case5 =>
      cases h
      exact .one (Lexeme.spellable_symbol .closeBracket) fun p => ⟨_, .close p⟩

theorem list_completable (h : list tokens = .error stopped) :
    Completable IsList tokens stopped.tokens := by
  unfold list at h
  split at h
  · cases h
  · next p rest _ =>
      split at h
      · next hl =>
          cases h
          refine (literal_completable hl).between [⟨.symbol .openBracket, p⟩]
            (Lexeme.spellable_symbol .closeBracket) ?_
          rintro l q ⟨value, hvalue⟩
          have hlist : ListDerivation (_ :: (l ++ [_])) _ := .cons p hvalue (.close q)
          exact ⟨_, hlist⟩
      · next first hf =>
          split at h
          · next hs =>
              cases h
              obtain ⟨items, he, hi⟩ := literal_sound hf
              rw [he]
              refine (listRest_completable hs).after (⟨.symbol .openBracket, p⟩ :: items) ?_
              rintro l ⟨values, hvalues⟩
              exact ⟨_, .cons p hi hvalues⟩
          · cases h
  · cases h
    have hopen : Completable (Lexeme.symbol .openBracket).IsOne tokens tokens :=
      .missing (Lexeme.spellable_symbol .openBracket)
    refine hopen.next (Lexeme.spellable_symbol .closeBracket) ?_
    rintro _ q ⟨p, rfl⟩
    exact ⟨_, .empty p q⟩

/-! ## Predicates -/

def IsPredicate (tokens : List Token) : Prop := ∃ f, PredicateDerivation tokens f

theorem afterName_completable {name : String} (p : ℕ) (h : afterName name tokens = .error stopped) :
    Completable (fun l => IsPredicate (⟨.name name, p⟩ :: l)) tokens stopped.tokens := by
  unfold afterName at h
  split at h
  · next q r rest =>
      refine (list_completable (map_eq_error_iff.mp h)).after
        [⟨.keyword .not, q⟩, ⟨.keyword .in, r⟩] ?_
      rintro l ⟨values, hvalues⟩
      exact ⟨_, .notIn name p q r hvalues⟩
  · next q rest =>
      refine (list_completable (map_eq_error_iff.mp h)).after [⟨.keyword .in, q⟩] ?_
      rintro l ⟨values, hvalues⟩
      exact ⟨_, .isIn name p q hvalues⟩
  · cases h
  · next q rest _ =>
      cases h
      refine (Completable.missing Lexeme.spellable_empty).after [⟨.keyword .like, q⟩] ?_
      rintro _ ⟨r, rfl⟩
      exact ⟨_, .like name '\x27' [] p q r⟩
  · next c q second r rest =>
      cases h
      refine (Completable.missing Lexeme.spellable_one).after [⟨.symbol (.compare c), q⟩] ?_
      rintro _ ⟨s, rfl⟩
      exact ⟨_, .compare name c p q (.unsigned s (numberValue_one false))⟩
  · next c q rest _ =>
      split at h
      · next hl =>
          cases h
          refine (literal_completable hl).after [⟨.symbol (.compare c), q⟩] ?_
          rintro l ⟨value, hvalue⟩
          exact ⟨_, .compare name c p q hvalue⟩
      · next right hr =>
          split at h
          · cases h
            obtain ⟨front, he, hd⟩ := literal_sound hr
            exact .done (congrArg (_ :: ·) he) ⟨_, .compare name c p q hd⟩
          · cases h
  · cases h

/-- A comparison and a name. -/
def IsHead (tokens : List Token) : Prop :=
  ∃ c name p q, tokens = [⟨.symbol (.compare c), p⟩, ⟨.name name, q⟩]

theorem flippedName_completable (h : flippedName tokens = .error stopped) :
    Completable IsHead tokens stopped.tokens := by
  unfold flippedName at h
  split at h
  · cases h
  · next c p rest _ =>
      cases h
      refine (Completable.missing Lexeme.spellable_f).after [⟨.symbol (.compare c), p⟩] ?_
      rintro _ ⟨q, rfl⟩
      exact ⟨c, "f", p, q, rfl⟩
  · cases h
    have hcompare : Completable (Lexeme.symbol (.compare .eq)).IsOne tokens tokens :=
      .missing (Lexeme.spellable_symbol _)
    refine hcompare.next Lexeme.spellable_f ?_
    rintro _ q ⟨p, rfl⟩
    exact ⟨.eq, "f", p, q, rfl⟩

theorem afterFlipped_completable {first : Comparison} {low : Value} {name : String}
    {left : List Token} (p q : ℕ) (hl : LiteralDerivation left low)
    (h : afterFlipped first low name tokens = .error stopped) :
    Completable
      (fun l => IsPredicate (left ++ ⟨.symbol (.compare first), p⟩ :: ⟨.name name, q⟩ :: l))
      tokens stopped.tokens := by
  unfold afterFlipped at h
  split at h
  · next second r rest =>
      split at h
      · next hw =>
          have hsame : first.SameWay second := by simpa [Comparison.SameWay] using hw
          refine (literal_completable (map_eq_error_iff.mp h)).after
            [⟨.symbol (.compare second), r⟩] ?_
          rintro l ⟨value, hvalue⟩
          exact ⟨_, .chain name first second p q r hl hvalue hsame⟩
      · cases h
        exact .done (List.nil_append _).symm ⟨_, .flipped name first p q hl⟩
  · cases h

theorem literalFirst_completable (h : literalFirst tokens = .error stopped) :
    Completable IsPredicate tokens stopped.tokens := by
  unfold literalFirst at h
  split at h
  · next hs =>
      cases h
      have hcompare : Completable (fun l => ∃ left p, IsLiteral left ∧
          l = left ++ [⟨.symbol (.compare .eq), p⟩]) tokens stopped.tokens :=
        (literal_completable hs).next (Lexeme.spellable_symbol _) fun l p hl => ⟨l, p, hl, rfl⟩
      refine hcompare.next Lexeme.spellable_f ?_
      rintro _ q ⟨left, p, ⟨value, hvalue⟩, rfl⟩
      rw [List.append_assoc]
      exact ⟨_, .flipped "f" .eq p q hvalue⟩
  · next low hlow =>
      obtain ⟨left, he, hl⟩ := literal_sound hlow
      split at h
      · next hs =>
          cases h
          rw [he]
          refine (flippedName_completable hs).after left ?_
          rintro _ ⟨c, name, p, q, rfl⟩
          exact ⟨_, .flipped name c p q hl⟩
      · next head hhead =>
          obtain ⟨p, q, he'⟩ := flippedName_sound hhead
          split at h
          · next hs =>
              cases h
              rw [he, he', ← List.append_assoc]
              refine (afterFlipped_completable p q hl hs).after _ fun l hp => ?_
              rw [List.append_assoc]
              exact hp
          · cases h

theorem predicate_completable (h : predicate tokens = .error stopped) :
    Completable IsPredicate tokens stopped.tokens := by
  unfold predicate at h
  split at h
  · next name p rest =>
      exact (afterName_completable p (map_eq_error_iff.mp h)).after [⟨.name name, p⟩] fun l hl => hl
  · split at h
    · exact literalFirst_completable h
    · cases h
      exact .one Lexeme.spellable_f fun p => ⟨_, .flag "f" p⟩

theorem closing_completable (h : closing tokens = .error stopped) :
    Completable (Lexeme.symbol .closeParen).IsOne tokens stopped.tokens := by
  unfold closing at h
  split at h
  · cases h
  · cases h
    exact .missing (Lexeme.spellable_symbol .closeParen)

/-! ## Connectives

In front of a level too many, a name completes what is open. -/

def IsDisjunction (n : ℕ) (tokens : List Token) : Prop := ∃ f, DisjunctionDerivation n tokens f

def AreDisjuncts (n : ℕ) (tokens : List Token) : Prop := ∃ fs, DisjunctsDerivation n tokens fs

def IsConjunction (n : ℕ) (tokens : List Token) : Prop := ∃ f, ConjunctionDerivation n tokens f

def AreConjuncts (n : ℕ) (tokens : List Token) : Prop := ∃ fs, ConjunctsDerivation n tokens fs

def IsUnary (n : ℕ) (tokens : List Token) : Prop := ∃ f, UnaryDerivation n tokens f

theorem isUnary_f (n p : ℕ) : IsUnary n [⟨.name "f", p⟩] := ⟨_, .predicate n (.flag "f" p)⟩

mutual

theorem disjunction_completable {limit : ℤ} {depth n : ℕ} {tokens : List Token} {stopped : Stop}
    (hn : limit ≤ depth + n) (h : disjunction limit depth tokens = .error stopped) :
    Completable (IsDisjunction n) tokens stopped.tokens := by
  rw [disjunction] at h
  split at h
  · next hs =>
      cases h
      exact (conjunction_completable hn hs).imp fun _ ⟨f, hf⟩ => ⟨f, hf.disjunction⟩
  · next first hf =>
      have := first.shorter
      split at h
      · next hs =>
          cases h
          obtain ⟨start, he, hd⟩ := conjunction_sound hn hf
          rw [he]
          refine (disjuncts_completable hn hs).after start ?_
          rintro l ⟨fs, hfs⟩
          exact ⟨_, .run hd hfs (joinDerivation_iff.mpr rfl)⟩
      · cases h
termination_by (tokens.length, 3)

theorem disjuncts_completable {limit : ℤ} {depth n : ℕ} {stopped : Stop}
    (hn : limit ≤ depth + n) :
    ∀ {tokens : List Token}, disjuncts limit depth tokens = .error stopped →
      Completable (AreDisjuncts n) tokens stopped.tokens
  | [], h => by
      rw [disjuncts] at h
      cases h
  | token :: rest, h => by
      rw [disjuncts] at h
      split at h
      · next hor =>
          split at h
          · next hs =>
              cases h
              refine (conjunction_completable hn hs).after [token] ?_
              rintro l ⟨f, hf⟩
              exact ⟨[f], .one hor hf⟩
          · next first hf =>
              have := first.shorter
              split at h
              · next hs =>
                  cases h
                  obtain ⟨start, he, hd⟩ := conjunction_sound hn hf
                  rw [he]
                  refine (disjuncts_completable hn hs).after (token :: start) ?_
                  rintro l ⟨fs, hfs⟩
                  exact ⟨_, .cons hor hd hfs⟩
              · cases h
      · cases h
termination_by tokens => (tokens.length, 4)

theorem conjunction_completable {limit : ℤ} {depth n : ℕ} {tokens : List Token} {stopped : Stop}
    (hn : limit ≤ depth + n) (h : conjunction limit depth tokens = .error stopped) :
    Completable (IsConjunction n) tokens stopped.tokens := by
  rw [conjunction] at h
  split at h
  · next hs =>
      cases h
      exact (unary_completable hn hs).imp fun _ ⟨f, hf⟩ => ⟨f, hf.conjunction⟩
  · next first hf =>
      have := first.shorter
      split at h
      · next hs =>
          cases h
          obtain ⟨start, he, hd⟩ := unary_sound hn hf
          rw [he]
          refine (conjuncts_completable hn hs).after start ?_
          rintro l ⟨fs, hfs⟩
          exact ⟨_, .run hd hfs (joinDerivation_iff.mpr rfl)⟩
      · cases h
termination_by (tokens.length, 1)

theorem conjuncts_completable {limit : ℤ} {depth n : ℕ} {stopped : Stop}
    (hn : limit ≤ depth + n) :
    ∀ {tokens : List Token}, conjuncts limit depth tokens = .error stopped →
      Completable (AreConjuncts n) tokens stopped.tokens
  | [], h => by
      rw [conjuncts] at h
      cases h
  | token :: rest, h => by
      rw [conjuncts] at h
      split at h
      · next hand =>
          split at h
          · next hs =>
              cases h
              refine (unary_completable hn hs).after [token] ?_
              rintro l ⟨f, hf⟩
              exact ⟨[f], .one hand hf⟩
          · next first hf =>
              have := first.shorter
              split at h
              · next hs =>
                  cases h
                  obtain ⟨start, he, hd⟩ := unary_sound hn hf
                  rw [he]
                  refine (conjuncts_completable hn hs).after (token :: start) ?_
                  rintro l ⟨fs, hfs⟩
                  exact ⟨_, .cons hand hd hfs⟩
              · cases h
      · cases h
termination_by tokens => (tokens.length, 2)

theorem unary_completable {limit : ℤ} {depth n : ℕ} {stopped : Stop} (hn : limit ≤ depth + n) :
    ∀ {tokens : List Token}, unary limit depth tokens = .error stopped →
      Completable (IsUnary n) tokens stopped.tokens
  | [], h => by
      rw [unary] at h
      exact (predicate_completable h).imp fun _ ⟨f, hf⟩ => ⟨f, .predicate n hf⟩
  | token :: rest, h => by
      rw [unary] at h
      split at h
      · next hnot =>
          split at h
          · cases h
            exact .one Lexeme.spellable_f (isUnary_f n)
          · obtain ⟨m, rfl⟩ : ∃ m, n = m + 1 := ⟨n - 1, by omega⟩
            split at h
            · next hs =>
                cases h
                have hm : limit ≤ (depth + 1 : ℕ) + m := by push_cast at hn ⊢; omega
                refine (unary_completable hm hs).after [token] ?_
                rintro l ⟨f, hf⟩
                exact ⟨_, .negation hnot hf⟩
            · cases h
      · split at h
        · next hopen =>
            obtain ⟨lexeme, p⟩ := token
            cases hopen
            split at h
            · cases h
              exact .one Lexeme.spellable_f (isUnary_f n)
            · obtain ⟨m, rfl⟩ : ∃ m, n = m + 1 := ⟨n - 1, by omega⟩
              have hm : limit ≤ (depth + 1 : ℕ) + m := by push_cast at hn ⊢; omega
              split at h
              · next hs =>
                  cases h
                  refine (disjunction_completable hm hs).between [⟨.symbol .openParen, p⟩]
                    (Lexeme.spellable_symbol .closeParen) ?_
                  rintro l q ⟨f, hf⟩
                  exact ⟨_, .parentheses p q hf⟩
              · next f hf =>
                  split at h
                  · next hs =>
                      cases h
                      obtain ⟨front, he, hd⟩ := disjunction_sound hm hf
                      rw [he]
                      refine (closing_completable hs).after (⟨.symbol .openParen, p⟩ :: front) ?_
                      rintro _ ⟨q, rfl⟩
                      exact ⟨_, .parentheses p q hd⟩
                  · cases h
        · exact (predicate_completable h).imp fun _ ⟨f, hf⟩ => ⟨f, .predicate n hf⟩
termination_by tokens => (tokens.length, 0)

end

theorem ofTokens_completable {limit : ℕ} (h : ofTokens limit tokens = .error stopped) :
    Completable (IsDisjunction limit) tokens stopped.tokens := by
  unfold ofTokens at h
  have hn : (limit : ℤ) ≤ (0 : ℕ) + limit := by simp
  split at h
  · next hs =>
      cases h
      exact disjunction_completable hn hs
  · next f hf =>
      split at h
      · cases h
      · cases h
        obtain ⟨front, he, hd⟩ := disjunction_sound hn hf
        exact .done he ⟨_, hd⟩

/-! ## Texts that go on otherwise -/

/-- A text ends in front of any of its tokens with the tokens before that one. -/
theorem scan_front {position : ℕ} {cs : List Char} {before after : List Token}
    (h : scan position cs = .ok (before ++ after)) :
    ∃ front back, cs = front ++ back ∧ scan position front = .ok before ∧
      (after.head?.map (·.position)).getD (position + cs.length) = position + front.length := by
  induction position, cs using scan_induction generalizing before with
  | nil position =>
      rw [scan] at h
      obtain ⟨rfl, rfl⟩ := List.nil_eq_append_iff.mp (Except.ok.inj h)
      exact ⟨[], [], rfl, by rw [scan], rfl⟩
  | blank position c cs hblank ih =>
      rw [scan_isBlank hblank] at h
      obtain ⟨front, back, rfl, hfront, hplace⟩ := ih h
      refine ⟨c :: front, back, rfl, by rwa [scan_isBlank hblank], ?_⟩
      rw [List.length_cons, List.length_cons, ← Nat.add_assoc, Nat.add_right_comm, hplace]
      exact Nat.add_right_comm _ _ _
  | lexeme position slice lexeme rest htakes ih =>
      rw [scan_takes htakes] at h
      obtain ⟨tail, htail, he⟩ := map_eq_ok_iff.mp h
      cases before with
      | nil => exact ⟨[], _, rfl, by rw [scan], by rw [List.nil_append] at he; rw [← he]; rfl⟩
      | cons token before =>
          obtain ⟨rfl, rfl⟩ := List.cons.inj he
          obtain ⟨front, back, rfl, hfront, hplace⟩ := ih htail
          refine ⟨slice ++ front, back, (List.append_assoc _ _ _).symm, ?_, ?_⟩
          · rw [← List.append_assoc] at htakes
            rw [scan_takes htakes.truncate, hfront]
            rfl
          · rw [List.length_append, ← Nat.add_assoc, hplace, List.length_append, Nat.add_assoc]
  | stuck position c cs hblank hnone =>
      rw [scan_unreadable hblank hnone] at h
      cases h

theorem exists_spaced {lexemes : List Lexeme} (h : ∀ lexeme ∈ lexemes, lexeme.Spellable) :
    ∃ slices cs, List.Forall₂ Lexeme.SpelledBy lexemes slices ∧ Spaced slices (' ' :: cs) := by
  have hblank : Text.isBlank ' ' = true := by decide
  induction lexemes with
  | nil => exact ⟨[], [], .nil, .blank hblank .nil⟩
  | cons lexeme lexemes ih =>
      rw [List.forall_mem_cons] at h
      obtain ⟨⟨slice, hslice⟩, hrest⟩ := h
      obtain ⟨slices, cs, hslices, hspaced⟩ := ih hrest
      have hhead : ∀ c ∈ (' ' :: cs).head?, Text.isBlank c = true := by simp [hblank]
      exact ⟨_, _, .cons hslice hslices, .blank hblank (.slice slice hhead hspaced)⟩

/-- In front of one of its tokens, or at its end, a text can go on with lexemes of any kinds. -/
theorem exists_tokenize_append {text : String} {before after : List Token}
    {lexemes : List Lexeme} (ht : tokenize text = .ok (before ++ after))
    (hs : ∀ lexeme ∈ lexemes, lexeme.Spellable) :
    ∃ more added, added.map (·.lexeme) = lexemes ∧
      tokenize (String.ofList (text.toList.take
        ((after.head?.map (·.position)).getD text.length)) ++ more) = .ok (before ++ added) := by
  obtain ⟨front, back, hcs, hfront, hplace⟩ := scan_front ht
  obtain ⟨slices, cs, hslices, hspaced⟩ := exists_spaced hs
  obtain ⟨added, hadded, rfl⟩ := scan_spaced hspaced hslices front.length
  refine ⟨String.ofList (' ' :: cs), added, rfl, ?_⟩
  rw [Nat.zero_add, Nat.zero_add, String.length_toList] at hplace
  rw [hplace, hcs, List.take_left, tokenize, String.toList_append, String.toList_ofList,
    String.toList_ofList, scan_append_cons hfront (by decide), Nat.zero_add, hadded]
  rfl

/-- What a fault of a text says of its place. -/
theorem Stop.place_of_fault {text source : String} {reason : FilterFault} {place : ℕ}
    (h : stopped.fault text = .filter reason place source) :
    source = text ∧ place = (stopped.tokens.head?.map (·.position)).getD text.length := by
  obtain ⟨refusal, tokens⟩ := stopped
  cases refusal with
  | longInteger => cases h
  | unexpected | mixedChain | tooDeep =>
      cases h
      exact ⟨rfl, rfl⟩

/-- A fault in the form of a text has the place of one of its tokens or of its end. The tokens in
front of it can be completed to a filter under the same limit, and so can the text up to there. -/
theorem completion_of_parse {limit : ℕ} {text source : String} {tokens : List Token}
    {reason : FilterFault} {place : ℕ} (ht : tokenize text = .ok tokens)
    (h : parse limit text = .error (.filter reason place source)) :
    source = text ∧ ∃ before after, tokens = before ++ after ∧
      place = (after.head?.map (·.position)).getD text.length ∧
      ∃ added f more, ofTokens limit (before ++ added) = .ok f ∧
        tokenize (String.ofList (text.toList.take place) ++ more) = .ok (before ++ added) ∧
        parse limit (String.ofList (text.toList.take place) ++ more) = .ok (some f) := by
  have hblank : Text.isBlankText text = false := by
    rw [← Bool.not_eq_true, ← parse_eq_none_iff, h]
    exact nofun
  rw [parse_eq_ofTokens limit hblank ht] at h
  split at h
  · next stopped hstop =>
      obtain ⟨rfl, rfl⟩ := Stop.place_of_fault (Except.error.inj h)
      obtain ⟨before, lexemes, rfl, hs, hphrase⟩ := ofTokens_completable hstop
      obtain ⟨more, added, hadded, hmore⟩ := exists_tokenize_append ht hs
      obtain ⟨f, hf⟩ := hphrase added hadded
      exact ⟨rfl, before, stopped.tokens, rfl, rfl, added, f, more,
        (ofTokens_iff limit _ f).mpr hf, hmore, parse_of_derivation hmore hf⟩
  · cases h

/-- A third level where two may be open. -/
theorem completion_of_parse_deep :
    parse 2 "(not (f))" = .error (.filter (.tooDeep 2) 5 "(not (f))") ∧
      ∃ more f, parse 2 ("(not " ++ more) = .ok (some f) := by
  have htokens : tokenize "(not (f))" = .ok [⟨.symbol .openParen, 0⟩, ⟨.keyword .not, 1⟩,
      ⟨.symbol .openParen, 5⟩, ⟨.name "f", 6⟩, ⟨.symbol .closeParen, 7⟩,
      ⟨.symbol .closeParen, 8⟩] := by cbv
  have hparse : parse (2 : ℕ) "(not (f))" =
      .error (.filter (.tooDeep 2) 5 "(not (f))") := by
    rw [parse_eq_ofTokens _ (by decide +kernel) htokens]
    simp [ofTokens, disjunction, conjunction, unary, isNot, Stop.fault]
  obtain ⟨-, before, after, -, -, added, f, more, -, -, hmore⟩ :=
    completion_of_parse htokens hparse
  exact ⟨hparse, more, f, hmore⟩

end ScalarStore.Filter
