import ScalarStore.Proofs.Predicate.Walk
import ScalarStore.Proofs.Value.Same

/-! # Filters of the same content

Filters of the same content are refused alike. Their lists may hold a truth value and a number at
the same place, though, of which no field takes both. Apart from that, they run alike. -/

namespace ScalarStore

/-! ## Literals of the same content -/

namespace Comparison

theorem holds_congr_right {m n : Number} (h : m.exactValue? = n.exactValue?) (c : Comparison)
    (k : Number) : c.holds k m = c.holds k n := by
  have heq : (k.compare? m == some .eq) = (k.compare? n == some .eq) := by
    rw [Bool.eq_iff_iff, beq_iff_eq, beq_iff_eq]
    exact Number.compare?_eq_eq_congr h k
  cases c with
  | eq => exact heq
  | ne => exact congrArg Bool.not heq
  | lt => exact Number.lt_congr_right h k
  | le => exact Number.le_congr_right h k
  | gt => exact Number.lt_congr_left h k
  | ge => exact Number.le_congr_left h k

theorem overRange?_congr {m n : Number} (h : m.exactValue? = n.exactValue?) (c : Comparison)
    (low high : ℤ) : c.overRange? m low high = c.overRange? n low high := by
  rw [overRange?, overRange?, Number.lt_congr_right h, Number.lt_congr_left h]

/-- Only numbers and texts have an order. -/
theorem run_unordered {c : Comparison} (hc : ¬ (c = .eq ∨ c = .ne)) {u v : Value}
    (h : u.number? = none ∨ v.number? = none) (htext : ∀ t, v ≠ .str t) :
    c.run u v = .error (.kind (.notOrdered c.symbol u.kind v.kind)) := by
  cases c with
  | eq => exact absurd (.inl rfl) hc
  | ne => exact absurd (.inr rfl) hc
  | _ =>
      simp only [run]
      split
      · next hu hv => rw [hu, hv] at h; rcases h with h | h <;> cases h
      · next t _ => exact absurd rfl (htext t)
      · rfl

/-- The kinds of two values are part of the fault if they have no order. -/
theorem run_congr_right {v w : Value} (hkey : v.isKey = true) (htuple : ∀ items, v ≠ .tuple items)
    (hkind : v.kind = w.kind) (h : v.same w = true) (c : Comparison) (u : Value) :
    c.run u v = c.run u w := by
  by_cases hc : c = .eq ∨ c = .ne
  · have hsame := (Value.oneKey_of_same v hkey h).congr u
    rcases hc with rfl | rfl <;> rw [run, run, hsame]
  · rcases Value.key_of_same hkey htuple h with rfl | ⟨a, b, rfl, rfl, -⟩ | ⟨m, n, hm, hn, he⟩
    · rfl
    · have htext (c : Moment) (t : String) : Value.moment c ≠ .str t := Value.noConfusion
      rw [run_unordered hc (.inr rfl) (htext a), run_unordered hc (.inr rfl) (htext b)]
      rfl
    · have htext {v : Value} {m : Number} (hv : v.number? = some m) : ∀ t, v ≠ .str t := by
        rintro t rfl
        cases hv
      cases hu : u.number? with
      | none =>
          rw [run_unordered hc (.inl hu) (htext hm), run_unordered hc (.inl hu) (htext hn), hkind]
      | some k =>
          have hholds := holds_congr_right he c k
          cases c with
          | eq | ne => simp at hc
          | _ => simp only [run, hu, hm, hn, hholds]

end Comparison

namespace Value

variable {v w : Value}

theorem numeric?_of_same (hkind : v.kind = w.kind) (h : v.same w = true) :
    v.numeric? = none ∧ w.numeric? = none ∨
      ∃ m n, v.numeric? = some m ∧ w.numeric? = some n ∧ m.exactValue? = n.exactValue? := by
  cases hv : v.numeric? with
  | none => cases v <;> cases w <;> simp_all [numeric?, kind]
  | some m =>
      obtain ⟨n, hn, he⟩ := number?_of_same h (number?_of_numeric? hv)
      refine .inr ⟨m, n, rfl, ?_, he⟩
      cases v <;> cases w <;> simp_all [numeric?, number?, kind]

/-- The places of a list or a tuple at which truth values stand. -/
def truthPlaces (v : Value) : List Bool :=
  (v.sequence?.getD []).map fun item => item.kind == .bool

/-- Sequences of the same content and of one kind have items that coincide. -/
theorem sequence?_of_same (hkind : v.kind = w.kind) (h : v.same w = true) :
    v.sequence? = none ∧ w.sequence? = none ∨
      ∃ items others, v.sequence? = some items ∧ w.sequence? = some others ∧
        sameItems items others = true := by
  cases v with
  | list items | tuple items =>
      cases w <;> first | exact .inr ⟨_, _, rfl, rfl, h⟩ | cases hkind
  | _ => cases w <;> first | exact .inl ⟨rfl, rfl⟩ | cases hkind

theorem fits_of_number? {m : Number} (hv : v.number? = some m) (type : DataType) :
    type.fits v = if type = .bool then v.kind == .bool else type.isNumeric && v.kind != .bool := by
  cases v with
  | bool b | int n | float x =>
      unfold DataType.fits
      cases type.isNumeric <;> rfl
  | _ => cases hv

theorem fits_congr (h : v.same w = true) (htruth : (v.kind == .bool) = (w.kind == .bool))
    (type : DataType) : type.fits v = type.fits w := by
  rcases kind_of_same h with hkind | ⟨m, n, hm, hn⟩
  · simp only [DataType.fits, hkind]
  · rw [fits_of_number? hm, fits_of_number? hn, bne, bne, htruth]

theorem fits_congr_of_coincides (h : v.coincides w = true)
    (htruth : (v.kind == .bool) = (w.kind == .bool)) (type : DataType) :
    type.fits v = type.fits w := by
  rcases coincides_iff.mp h with hsame | hnan
  · exact fits_congr hsame htruth type
  · rw [eq_of_isOneNan hnan]

theorem isKey_of_fits {type : DataType} (h : type.fits v = true) : v.isKey = true := by
  cases v with
  | list items | tuple items | map entries => simp [DataType.fits, kind] at h
  | _ => rfl

theorem ne_tuple_of_fits {type : DataType} (h : type.fits v = true) (items : List Value) :
    v ≠ .tuple items := by
  rintro rfl
  simp [DataType.fits, kind] at h

/-- The items that a type takes agree on what is asked of keys alone. -/
theorem any_fits_congr {items others : List Value} (h : sameItems items others = true)
    (hplaces : (items.map fun item => item.kind == .bool) =
      others.map fun item => item.kind == .bool) (type : DataType)
    {ask : Value → Bool} (hask : ∀ v w, v.isKey = true → v.coincides w = true → ask v = ask w) :
    (items.filter type.fits).any ask = (others.filter type.fits).any ask := by
  induction items generalizing others with
  | nil =>
      cases others with
      | nil => rfl
      | cons w others => cases h
  | cons v rest ih =>
      cases others with
      | nil => cases h
      | cons w others =>
          rw [sameItems_cons, Bool.and_eq_true] at h
          obtain ⟨hhead, hrest⟩ := List.cons.inj hplaces
          have hfits := fits_congr_of_coincides h.1 hhead type
          cases hv : type.fits v with
          | false =>
              rw [List.filter_cons_of_neg (by simp [hv]),
                List.filter_cons_of_neg (by simp [← hfits, hv]), ih h.2 hrest]
          | true =>
              rw [List.filter_cons_of_pos hv, List.filter_cons_of_pos (hfits ▸ hv), List.any_cons,
                List.any_cons, hask v w (isKey_of_fits hv) h.1, ih h.2 hrest]

end Value

/-! ## Leaves -/

section

variable {v w : Value} (hkind : v.kind = w.kind) (h : v.same w = true)

include hkind

theorem Operator.suits_congr (operator : Operator) (type : DataType) :
    operator.Suits type v ↔ operator.Suits type w := by
  cases operator <;> simp only [Suits, hkind]

include h

theorem Field.known_congr (hplaces : v.truthPlaces = w.truthPlaces) (f : Field)
    (operator : Operator) : f.known operator v = f.known operator w := by
  have hany {items others : List Value} (hv : v.sequence? = some items)
      (hw : w.sequence? = some others) (hsame : Value.sameItems items others = true) :
      items.any f.type.fits = others.any f.type.fits := by
    rw [Value.truthPlaces, Value.truthPlaces, hv, hw] at hplaces
    have hfilter : (items.filter f.type.fits).any (fun _ => true) =
        (others.filter f.type.fits).any fun _ => true :=
      Value.any_fits_congr hsame hplaces f.type fun _ _ _ _ => rfl
    simpa [List.any_filter] using hfilter
  cases operator with
  | compare c =>
      rcases Value.numeric?_of_same hkind h with ⟨hv, hw⟩ | ⟨m, n, hm, hn, he⟩
      · simp only [known, hv, hw]
      · simp only [known, hm, hn, Option.bind_some, Option.bind_eq_bind, c.overRange?_congr he]
  | isIn | notIn =>
      rcases Value.sequence?_of_same hkind h with ⟨hv, hw⟩ | ⟨items, others, hv, hw, hsame⟩
      · simp only [known, hv, hw]
      · simp only [known, hv, hw, Option.bind_some, Option.bind_eq_bind, hany hv hw hsame]
  | like => rfl
  | other symbol unknown => rfl

/-- What a leaf asks of a value has one answer for literals of the same content. -/
theorem Field.test?_congr (hplaces : v.truthPlaces = w.truthPlaces) {f : Field}
    {operator : Operator} (hsuits : operator.Suits f.type v) {t : Test}
    (ht : f.test? operator v = some t) :
    ∃ t', f.test? operator w = some t' ∧ ∀ u, t'.run u = t.run u := by
  have hamong {items others : List Value} (hv : v.sequence? = some items)
      (hw : w.sequence? = some others) (hsame : Value.sameItems items others = true) (u : Value) :
      Test.isAmong (others.filter f.type.fits) u = Test.isAmong (items.filter f.type.fits) u := by
    rw [Value.truthPlaces, Value.truthPlaces, hv, hw] at hplaces
    simp only [Test.isAmong, Value.any_fits_congr hsame hplaces f.type fun _ _ hkey hs =>
      (Value.oneKey_of_coincides hkey hs).congr _]
  cases operator with
  | compare c =>
      cases ht
      have hfits := ((Filter.suits_compare_iff f.type c v).mp hsuits).1
      have hkey := Value.isKey_of_fits hfits
      exact ⟨_, rfl, fun u =>
        (c.run_congr_right hkey (Value.ne_tuple_of_fits hfits) hkind h u).symm⟩
  | like =>
      cases v with
      | str s =>
          cases w with
          | str t =>
              obtain rfl : s = t := by simpa [Value.same] using h
              exact ⟨_, ht, fun _ => rfl⟩
          | _ => cases hkind
      | _ => cases ht
  | isIn | notIn =>
      rcases Value.sequence?_of_same hkind h with ⟨hv, -⟩ | ⟨items, others, hv, hw, hsame⟩
      · rw [Field.test?, hv] at ht
        cases ht
      · rw [Field.test?, hv] at ht
        cases ht
        exact ⟨_, by rw [Field.test?, hw]; rfl, fun u => by
          simp only [Test.run, hamong hv hw hsame u]⟩
  | other symbol unknown => cases ht

end

/-- Two faults are one fault, except that they may spell literals of the same content. -/
inductive Fault.Alike : Fault → Fault → Prop where
  | refl (fault : Fault) : Alike fault fault
  | literal (name : String) (type : DataType) {v w : Value} (hkind : v.kind = w.kind)
      (h : v.same w = true) :
      Alike (.fieldType name type (.literal v)) (.fieldType name type (.literal w))

namespace Filter

theorem objection_alike {v w : Value} (hkind : v.kind = w.kind) (h : v.same w = true)
    (hdistinct : v.hasDistinctKeys = true) (f : Field) (operator : Operator) :
    (f.objection v operator).Alike (f.objection w operator) := by
  cases operator with
  | compare c =>
      have hfits : f.type.fits v = f.type.fits w := by simp only [DataType.fits, hkind]
      rw [Field.objection, Field.objection, ← hfits, ← Value.hasLongInteger_of_same hdistinct h]
      split
      · exact .refl _
      · split
        · exact .refl _
        · exact .literal _ _ hkind h
  | like | isIn | notIn | other symbol unknown => exact .refl _

theorem leafOffences_alike {v w : Value} (hkind : v.kind = w.kind) (h : v.same w = true)
    (hdistinct : v.hasDistinctKeys = true) (f : Field) (operator : Operator) :
    List.Forall₂ Fault.Alike (leafOffences f operator v) (leafOffences f operator w) := by
  have hsuits := Operator.suits_congr hkind operator f.type
  by_cases hs : operator.Suits f.type v
  · rw [leafOffences, leafOffences, if_pos hs, if_pos (hsuits.mp hs)]
    exact .nil
  · rw [leafOffences, leafOffences, if_neg hs, if_neg (mt hsuits.mpr hs)]
    exact .cons (objection_alike hkind h hdistinct f operator) .nil

/-! ## Trees -/

mutual

/-- Whether the keys of all maps in the literals of a filter are distinct. -/
def hasDistinctKeys : Filter → Bool
  | .leaf _ _ literal => literal.hasDistinctKeys
  | .node _ children => childrenHaveDistinctKeys children
  | .bare => true
  | .absent => true

def childrenHaveDistinctKeys : List Filter → Bool
  | [] => true
  | child :: rest => hasDistinctKeys child && childrenHaveDistinctKeys rest

end

mutual

/-- Whether lists at the same place of two filters have their truth values at the same places. -/
def aligned : Filter → Filter → Bool
  | .leaf _ _ v, .leaf _ _ w => v.truthPlaces == w.truthPlaces
  | .node _ children, .node _ others => childrenAligned children others
  | _, _ => true

def childrenAligned : List Filter → List Filter → Bool
  | child :: rest, other :: others => aligned child other && childrenAligned rest others
  | _, _ => true

end

variable {schema : Schema} {record : Record} {collection : Option String} {limit : Option ℤ}

theorem same_leaf_iff {name : String} {operator : Operator} {v : Value} {b : Filter} :
    (leaf name operator v).same b = true ↔
      ∃ w, b = .leaf name operator w ∧ v.same w = true ∧ v.kind = w.kind := by
  cases b <;> simp [same]
  grind

theorem same_node_iff {connective : Connective} {children : List Filter} {b : Filter} :
    (node connective children).same b = true ↔
      ∃ others, b = .node connective others ∧ sameChildren children others = true := by
  cases b <;> simp [same]
  grind

theorem length_of_sameChildren {children others : List Filter}
    (h : sameChildren children others = true) : children.length = others.length := by
  induction children generalizing others with
  | nil =>
      cases others with
      | nil => rfl
      | cons other others => cases h
  | cons child rest ih =>
      cases others with
      | nil => cases h
      | cons other others =>
          rw [sameChildren, Bool.and_eq_true] at h
          rw [List.length_cons, List.length_cons, ih h.2]

mutual

/-- Filters of the same content have the same offences, in the same order. -/
theorem offences_alike (depth : ℕ) : (a : Filter) → {b : Filter} → a.same b = true →
    a.hasDistinctKeys = true →
      List.Forall₂ Fault.Alike (a.offences schema collection limit depth)
        (b.offences schema collection limit depth)
  | .leaf name operator v, b, h, hdistinct => by
      obtain ⟨w, rfl, hs, hkind⟩ := same_leaf_iff.mp h
      rw [offences, offences]
      cases schema.field? name with
      | none => exact .cons (.refl _) .nil
      | some f => exact leafOffences_alike hkind hs hdistinct f operator
  | .node connective children, b, h, hdistinct => by
      obtain ⟨others, rfl, hs⟩ := same_node_iff.mp h
      rw [offences, offences, ← length_of_sameChildren hs]
      have hchildren := offencesOf_alike (depth + 1) children hs hdistinct
      exact List.rel_append
        (List.rel_append (List.forall₂_same.mpr fun fault _ => .refl fault) hchildren)
        (List.forall₂_same.mpr fun fault _ => .refl fault)
  | .bare, b, h, _ => by cases h
  | .absent, b, h, _ => by
      cases b with
      | absent => exact .cons (.refl _) .nil
      | _ => cases h

theorem offencesOf_alike (depth : ℕ) : (children : List Filter) → {others : List Filter} →
    sameChildren children others = true → childrenHaveDistinctKeys children = true →
      List.Forall₂ Fault.Alike (offencesOf schema collection limit depth children)
        (offencesOf schema collection limit depth others)
  | [], [], _, _ => .nil
  | [], _ :: _, h, _ => by cases h
  | _ :: _, [], h, _ => by cases h
  | child :: rest, other :: others, h, hdistinct => by
      rw [sameChildren, Bool.and_eq_true] at h
      rw [childrenHaveDistinctKeys, Bool.and_eq_true] at hdistinct
      rw [offencesOf, offencesOf]
      exact List.rel_append (offences_alike depth child h.1 hdistinct.1)
        (offencesOf_alike depth rest h.2 hdistinct.2)

end

mutual

theorem kleene_congr : (a : Filter) → {b : Filter} → a.same b = true → a.aligned b = true →
    a.kleene schema.known = b.kleene schema.known
  | .leaf name operator v, b, h, haligned => by
      obtain ⟨w, rfl, hs, hkind⟩ := same_leaf_iff.mp h
      rw [kleene, kleene, Schema.known, Schema.known]
      cases schema.field? name with
      | none => rfl
      | some f => exact Field.known_congr hkind hs (beq_iff_eq.mp haligned) f operator
  | .node connective children, b, h, haligned => by
      obtain ⟨others, rfl, hs⟩ := same_node_iff.mp h
      have heach := kleeneEach_congr children hs haligned
      cases connective <;> simp only [kleene, heach]
  | .bare, b, h, _ => by cases h
  | .absent, b, h, _ => by
      cases b with
      | absent => rfl
      | _ => cases h

theorem kleeneEach_congr : (children : List Filter) → {others : List Filter} →
    sameChildren children others = true → childrenAligned children others = true →
      kleeneEach schema.known children = kleeneEach schema.known others
  | [], [], _, _ => rfl
  | [], _ :: _, h, _ => by cases h
  | _ :: _, [], h, _ => by cases h
  | child :: rest, other :: others, h, haligned => by
      rw [sameChildren, Bool.and_eq_true] at h
      rw [childrenAligned, Bool.and_eq_true] at haligned
      rw [kleeneEach, kleeneEach, kleene_congr child h.1 haligned.1,
        kleeneEach_congr rest h.2 haligned.2]

end

mutual

/-- A walk through a legal filter goes through every filter of the same content likewise. -/
theorem WalkDerivation.of_same {a b : Filter} {names : List String} {result : Except Fault Bool} :
    WalkDerivation schema record a names result → a.Legal schema → a.same b = true →
      a.aligned b = true → WalkDerivation schema record b names result
  | .known hk, _, h, haligned => .known ((kleene_congr a h haligned).symm.trans hk)
  | .missing hf hk hv, _, h, haligned => by
      obtain ⟨w, rfl, hs, hkind⟩ := same_leaf_iff.mp h
      exact .missing hf ((Field.known_congr hkind hs (beq_iff_eq.mp haligned) _ _).symm.trans hk) hv
  | .asked hf hk ht hv, hlegal, h, haligned => by
      obtain ⟨w, rfl, hs, hkind⟩ := same_leaf_iff.mp h
      obtain ⟨f, hf', hsuits⟩ := legal_leaf_iff.mp hlegal
      cases hf.symm.trans hf'
      have hplaces := beq_iff_eq.mp haligned
      obtain ⟨t', ht', hrun⟩ := Field.test?_congr hkind hs hplaces hsuits ht
      rw [← hrun]
      exact .asked hf ((Field.known_congr hkind hs hplaces _ _).symm.trans hk) ht' hv
  | .not hk hwalk, hlegal, h, haligned => by
      have hk' := (kleene_congr _ h haligned).symm.trans hk
      obtain ⟨others, rfl, hs⟩ := same_node_iff.mp h
      obtain ⟨other, rfl⟩ := List.length_eq_one_iff.mp (length_of_sameChildren hs).symm
      rw [sameChildren, Bool.and_eq_true] at hs
      rw [aligned, childrenAligned, Bool.and_eq_true] at haligned
      have hchild := (legal_node_iff.mp hlegal).1 _ (List.mem_singleton_self _)
      exact .not hk' (hwalk.of_same hchild hs.1 haligned.1)
  | .all hk hwalk, hlegal, h, haligned => by
      have hk' := (kleene_congr _ h haligned).symm.trans hk
      obtain ⟨others, rfl, hs⟩ := same_node_iff.mp h
      exact .all hk' (hwalk.of_same (legal_node_iff.mp hlegal).1 hs haligned)
  | .any hk hwalk, hlegal, h, haligned => by
      have hk' := (kleene_congr _ h haligned).symm.trans hk
      obtain ⟨others, rfl, hs⟩ := same_node_iff.mp h
      exact .any hk' (hwalk.of_same (legal_node_iff.mp hlegal).1 hs haligned)

theorem WalkEachDerivation.of_same {b : Bool} {children others : List Filter}
    {names : List String} {result : Except Fault Bool} :
    WalkEachDerivation schema record b children names result →
      (∀ child ∈ children, child.Legal schema) → sameChildren children others = true →
        childrenAligned children others = true →
          WalkEachDerivation schema record b others names result
  | .nil b, _, h, _ => by
      cases others with
      | nil => exact .nil b
      | cons other others => cases h
  | .goes hwalk hrest, hlegal, h, haligned => by
      cases others with
      | nil => cases h
      | cons other others =>
          obtain ⟨hlegal, hlegals⟩ := List.forall_mem_cons.mp hlegal
          rw [sameChildren, Bool.and_eq_true] at h
          rw [childrenAligned, Bool.and_eq_true] at haligned
          exact .goes (hwalk.of_same hlegal h.1 haligned.1)
            (hrest.of_same hlegals h.2 haligned.2)
  | .stops hwalk hne, hlegal, h, haligned => by
      cases others with
      | nil => cases h
      | cons other others =>
          rw [sameChildren, Bool.and_eq_true] at h
          rw [childrenAligned, Bool.and_eq_true] at haligned
          exact .stops (hwalk.of_same (hlegal _ List.mem_cons_self) h.1 haligned.1) hne

end

/-- Filters of the same content are refused for the same reason or both compile, and then they run
alike on every record unless a list of one has a truth value where the other has a number. -/
theorem compile_of_same {a b : Filter} (h : a.same b = true)
    (hdistinct : a.hasDistinctKeys = true) (schema : Schema) (collection : Option String)
    (limit : Option ℤ) :
    (∃ p q, compile schema collection limit (some a) = .ok p ∧
      compile schema collection limit (some b) = .ok q ∧
      (a.aligned b = true → p.constant? = q.constant? ∧
        ∀ record, p.run record = q.run record)) ∨
    ∃ fault fault', compile schema collection limit (some a) = .error fault ∧
      compile schema collection limit (some b) = .error fault' ∧ fault.Alike fault' := by
  have hoffences : List.Forall₂ Fault.Alike (a.offences schema collection limit 0)
      (b.offences schema collection limit 0) := offences_alike 0 a h hdistinct
  cases ha : a.offences schema collection limit 0 with
  | nil =>
      rw [ha, List.forall₂_nil_left_iff] at hoffences
      have hlegal := (offences_eq_nil_iff 0 a).mp ha
      obtain ⟨p, hp⟩ := compile_eq_ok_iff.mpr hlegal
      obtain ⟨q, hq⟩ := compile_eq_ok_iff.mpr ((offences_eq_nil_iff 0 b).mp hoffences)
      refine .inl ⟨p, q, hp, hq, fun haligned => ⟨?_, fun record => ?_⟩⟩
      · rw [constant?_compileAt 0 a hp, constant?_compileAt 0 b hq, kleene_congr a h haligned]
      · have hp : RunsAs schema record a p := runsAs_compileAt 0 a hp
        have hq : RunsAs schema record b q := runsAs_compileAt 0 b hq
        have hwalk := (hp _ _).mpr rfl
        exact ((hq _ _).mp (hwalk.of_same hlegal.1 h haligned)).symm
  | cons fault rest =>
      rw [ha, List.forall₂_cons_left_iff] at hoffences
      obtain ⟨fault', rest', halike, -, hb⟩ := hoffences
      exact .inr ⟨fault, fault', compile_eq_error_iff.mpr (by rw [ha]; rfl),
        compile_eq_error_iff.mpr (by rw [hb]; rfl), halike⟩

/-- Zero is written as an integer or as a real number. -/
def unrated (zero : Value) : Filter :=
  .node .and [.leaf "stars" .isIn (.list [zero, .bool true]),
    .leaf "id" (.compare .ne) (.str "a")]

theorem compile_of_same_unrated :
    (unrated (.int 0)).same (unrated (.float (.zero true))) = true ∧
      ∃ p q, compile starsSchema none none (some (unrated (.int 0))) = .ok p ∧
        compile starsSchema none none (some (unrated (.float (.zero true)))) = .ok q ∧
        ∀ record, p.run record = q.run record := by
  have hsame : (unrated (.int 0)).same (unrated (.float (.zero true))) = true := by decide +kernel
  refine ⟨hsame, ?_⟩
  rcases compile_of_same hsame rfl starsSchema none none with
    ⟨p, q, hp, hq, hruns⟩ | ⟨fault, -, hfault, -⟩
  · exact ⟨p, q, hp, hq, (hruns rfl).2⟩
  · cases hfault

/-- A truth value is the same as a number, but a number of stars is among numbers only. -/
theorem one_among_numbers_only :
    (leaf "stars" .isIn (.list [.int 1])).same (.leaf "stars" .isIn (.list [.bool true])) = true ∧
      ∃ p q, compile starsSchema none none
          (some (.leaf "stars" .isIn (.list [.int 1]))) = .ok p ∧
        compile starsSchema none none
          (some (.leaf "stars" .isIn (.list [.bool true]))) = .ok q ∧
        starsSchema.records none [.map [(.str "id", .str "a"), (.str "stars", .int 1)]] =
          .ok [[("id", .str "a"), ("stars", .int 1)]] ∧
        p.test [("id", .str "a"), ("stars", .int 1)] = .ok true ∧
        q.test [("id", .str "a"), ("stars", .int 1)] = .ok false := by
  have hone : (Value.int 1).coincides (.int 1) = true := by decide +kernel
  have hamong : Test.isAmong [.int 1] (.int 1) = .ok true := congrArg Except.ok (by simp [hone])
  exact ⟨by decide +kernel, _, _, rfl, rfl, rfl, hamong, rfl⟩

end Filter

end ScalarStore
