import ScalarStore.Proofs.CommandLine.Alter
import ScalarStore.Proofs.CommandLine.Words
import ScalarStore.Proofs.Filter.Spelling
import ScalarStore.Proofs.Query.Count

/-! # Checking a filter and counting with it

A check reads a filter text under the usual limit of levels, a count under the limits that the
environment sets. Apart from this they judge a text alike: what a check accepts is counted, unless
the rows themselves cannot be told, and what it refuses ends a count with the same exit code. -/

namespace ScalarStore

/-! ## Faults of a filter -/

namespace CommandLine

variable {fault : Fault} {text : String}

/-- A fault of reading a text is one of the text, or of an integer in it that is too long. -/
theorem ofRequestFault_of_parse {limit : ℤ} (h : Filter.parse limit text = .error fault) :
    Outcome.ofRequestFault fault = Outcome.ofFault .misused fault := by
  unfold Filter.parse at h
  split at h
  · cases h
  · split at h
    · cases h
      rfl
    · split at h
      · next stopped _ =>
          cases h
          obtain ⟨refusal, tokens⟩ := stopped
          cases refusal <;> rfl
      · cases h

mutual

/-- What compilation refuses is no fault of the text. -/
theorem isFilterFault_of_offences {schema : Schema} {collection : Option String}
    {limit : Option ℤ} (depth : ℕ) : (filter : Filter) →
    ∀ fault ∈ filter.offences schema collection limit depth, isFilterFault fault = false
  | .leaf name operator literal => by
      rw [Filter.offences]
      split
      · exact List.forall_mem_singleton.mpr rfl
      · intro fault hfault
        rcases Filter.mem_leafOffences hfault with ⟨reason, rfl⟩ | rfl <;> rfl
  | .node connective children => by
      rw [Filter.offences]
      refine List.forall_mem_append.mpr ⟨List.forall_mem_append.mpr ⟨fun fault hdepth => ?_,
        isFilterFault_of_offencesOf (depth + 1) children⟩, fun fault hconnective => ?_⟩
      · obtain ⟨n, -, rfl⟩ := Filter.mem_depthOffences hdepth
        rfl
      · obtain ⟨reason, rfl⟩ := Filter.mem_connectiveOffences hconnective
        rfl
  | .bare => List.forall_mem_singleton.mpr rfl
  | .absent => List.forall_mem_singleton.mpr rfl

theorem isFilterFault_of_offencesOf {schema : Schema} {collection : Option String}
    {limit : Option ℤ} (depth : ℕ) : (children : List Filter) →
    ∀ fault ∈ Filter.offencesOf schema collection limit depth children,
      isFilterFault fault = false
  | [] => List.forall_mem_nil _
  | child :: rest => by
      rw [Filter.offencesOf]
      exact List.forall_mem_append.mpr
        ⟨isFilterFault_of_offences depth child, isFilterFault_of_offencesOf depth rest⟩

end

theorem ofRequestFault_of_compile {schema : Schema} {collection : Option String}
    {limit : Option ℤ} {filter : Option Filter}
    (h : Filter.compile schema collection limit filter = .error fault) :
    Outcome.ofRequestFault fault = Outcome.ofFault .refused fault := by
  have hfault : isFilterFault fault = false := by
    cases filter with
    | none => cases h
    | some f =>
        have hfirst := List.mem_of_head? (Filter.compile_eq_error_iff.mp h)
        exact isFilterFault_of_offences 0 f fault hfirst
  rw [Outcome.ofRequestFault, hfault]
  rfl

/-! ## Reading a text for a collection -/

/-- The predicate that a filter text stands for in a collection, under a limit of levels, or the
exit code of the fault that there is instead. -/
def reading (c : Collection) (limit : ℤ) (text : String) : Except ℕ Predicate :=
  match Filter.parse limit text with
  | .error fault => .error (Outcome.ofFault .misused fault).status.exitCode
  | .ok filter =>
      (Filter.compile c.schema (some c.name) none filter).mapError fun fault =>
        (Outcome.ofFault .refused fault).status.exitCode

variable {s : Surroundings} {globals : Globals} {path : String} {l : Loaded} {c : Collection}
  {asked : Settings} {p : Predicate}

theorem Surroundings.ofDocument_of_openData (h : s.openData globals = .ok (path, l)) :
    ∃ asked d, settings s.environment = .ok asked ∧
      Loaded.ofDocument asked s.loadedAt d = .ok l := by
  unfold openData at h
  split at h
  · cases h
  · split at h
    · next hload =>
        cases h
        unfold load at hload
        split at hload
        · cases hload
        · split at hload
          · cases hload
          · next d _ =>
              have hloaded := mapError_eq_ok_iff.mp hload
              obtain ⟨asked, hasked, hl⟩ := bind_eq_ok_iff.mp hloaded
              exact ⟨asked, d, hasked, hl⟩
    · cases h

/-! ## The check -/

theorem exitCode_ofFault_ne_zero (status : Status) (hstatus : status.exitCode ≠ 0) (fault : Fault) :
    (Outcome.ofFault status fault).status.exitCode ≠ 0 := by
  unfold Outcome.ofFault
  split
  · exact hstatus
  · nofun

/-- An answer without long integers is printed. -/
theorem exitCode_told {json : Value} (h : Json.obstacle? json = none) (report : String) :
    (told globals json (.ofText report)).status.exitCode = 0 := by
  unfold told toldAsJson
  rw [h]
  split <;> rfl

theorem exitCode_told_le (json : Value) (report : String) :
    (told globals json (.ofText report)).status.exitCode ≤ 1 := by
  unfold told toldAsJson
  split
  · split
    · exact le_rfl
    · exact zero_le_one
  · exact zero_le_one

theorem itemsObstacle?_texts (texts : List String) :
    Json.itemsObstacle? (texts.map Value.str) = none := by
  induction texts with
  | nil => rfl
  | cons text rest ih =>
      rw [List.map_cons, Json.itemsObstacle?, ih]
      rfl

theorem exitCode_toldFilter {f : Filter} (hf : f.Writable) (checked : Option (Option Bool)) :
    (Outcome.settle (toldFilter globals f checked)).status.exitCode = 0 := by
  obtain ⟨tree, htree, hnone⟩ := hf
  rw [toldFilter, htree]
  have hfields := itemsObstacle?_texts f.fieldNames
  refine exitCode_told ?_ _
  rcases checked with _ | _ | b <;>
    simp [Json.obstacle?, Json.entriesObstacle?, Json.keyObstacle?, Value.hasLongInteger,
      constantValue, hnone, hfields]

theorem checkFilter_eq (hopen : s.openData globals = .ok (path, l)) (hc : l.collection = .ok c)
    (f : Filter) : checkFilter s globals f =
      (orElse (.ofFault .refused) (Filter.compile c.schema (some c.name) none (some f))).map
        Predicate.constant? := by
  rw [checkFilter, hopen]
  simp only [bind, Except.bind, hc, orElse, Except.mapError]
  cases Filter.compile c.schema (some c.name) none (some f) <;> rfl

/-- A check of a filter tells it with what was found. -/
theorem runParse_of_parse {f : Filter}
    (hparse : Filter.parse Filter.defaultDepth text = .ok (some f)) :
    runParse s globals text true =
      checkFilter s globals f >>= fun found => toldFilter globals f (some found) := by
  rw [runParse, hparse]
  rfl

theorem reading_ne_error_zero {limit : ℤ} : reading c limit text ≠ .error 0 := by
  unfold reading
  split
  · exact fun h => exitCode_ofFault_ne_zero .misused nofun _ (Except.error.inj h)
  · next filter _ =>
      intro h
      cases hcompile : Filter.compile c.schema (some c.name) none filter with
      | error fault =>
          rw [hcompile] at h
          exact exitCode_ofFault_ne_zero .refused nofun _ (Except.error.inj h)
      | ok p =>
          rw [hcompile] at h
          cases h

/-- What a text stands for under one limit it stands for under another, unless it has a fault of
its own there. -/
theorem reading_of_reading {limit : ℤ} (h : reading c limit text = .ok p) (other : ℤ) :
    reading c other text = .ok p ∨ reading c other text = .error Status.misused.exitCode := by
  unfold reading at h
  split at h
  · cases h
  · next filter hparse =>
      have hcompile := mapError_eq_ok_iff.mp h
      cases filter with
      | none =>
          left
          rw [reading, Filter.parse_eq_none_iff.mpr (Filter.parse_eq_none_iff.mp hparse)]
          exact h
      | some f =>
          rcases Filter.parse_of_parse hparse other with hsame | ⟨reason, position, hfault⟩
          · left
            rw [reading, hsame]
            exact h
          · right
            rw [reading, hfault]
            rfl

/-- What is read under the usual limit decides how a check ends. -/
theorem exitCode_check (hopen : s.openData globals = .ok (path, l)) (hc : l.collection = .ok c)
    (text : String) : (Order.run (.parse text true) s globals).status.exitCode =
      match reading c Filter.defaultDepth text with
      | .error code => code
      | .ok _ => 0 := by
  rw [Order.run, reading]
  cases hparse : Filter.parse Filter.defaultDepth text with
  | error fault =>
      dsimp only [runParse]
      rw [hparse]
      rfl
  | ok filter =>
      cases filter with
      | none =>
          dsimp only [runParse]
          rw [hparse]
          exact exitCode_told rfl _
      | some f =>
          dsimp only
          rw [runParse_of_parse hparse, checkFilter_eq hopen hc]
          cases Filter.compile c.schema (some c.name) none (some f) with
          | error fault => rfl
          | ok p => exact exitCode_toldFilter (Filter.writable_of_parse hparse) _

/-! ## The count -/

/-- The answer to a count. -/
def toldCount (globals : Globals) (n : ℕ) : Outcome :=
  told globals (.list [Loaded.recordDocument [(Request.countAll, .int n)]])
    (.ofText (Report.grid none Report.rowLabel [[(Request.countAll, .int n)]]))

theorem obstacle?_count (n : ℕ) :
    Json.obstacle? (.list [Loaded.recordDocument [(Request.countAll, .int n)]]) =
      if n < 10 ^ Text.digitLimit then none else some .longInteger := by
  have hshort : (Value.int n).hasLongInteger Text.digitLimit = false ↔ n < 10 ^ Text.digitLimit :=
    Value.hasLongInteger_int (by decide) n
  have hobstacle : Json.obstacle? (.list [Loaded.recordDocument [(Request.countAll, .int n)]]) =
      if (Value.int n).hasLongInteger Text.digitLimit then some .longInteger else none := by
    simp [Loaded.recordDocument, Json.obstacle?, Json.itemsObstacle?, Json.entriesObstacle?,
      Json.keyObstacle?, Value.hasLongInteger]
  rw [hobstacle]
  by_cases hn : n < 10 ^ Text.digitLimit
  · rw [if_pos hn, hshort.mpr hn]
    rfl
  · rw [if_neg hn, if_pos (by simpa using mt hshort.mp hn)]

/-- As JSON a count is printed only with as many digits as can be written. -/
theorem exitCode_toldCount (globals : Globals) (n : ℕ) :
    (toldCount globals n).status.exitCode = 0 ↔
      (globals.json = true → n < 10 ^ Text.digitLimit) := by
  rw [toldCount, told]
  by_cases hjson : globals.json = true
  · rw [if_pos hjson, toldAsJson, obstacle?_count]
    by_cases hn : n < 10 ^ Text.digitLimit
    · rw [if_pos hn]
      exact iff_of_true rfl fun _ => hn
    · rw [if_neg hn]
      exact iff_of_false Nat.one_ne_zero fun h => hn (h hjson)
  · rw [if_neg hjson]
    exact iff_of_true rfl fun h => absurd h hjson

/-- How counting the rows on which a predicate holds ends. -/
def counted (s : Surroundings) (globals : Globals) (c : Collection) (p : Predicate) : Outcome :=
  match c.count s.now p with
  | .error fault => .ofRequestFault fault
  | .ok n => toldCount globals n

/-- Rows that cannot be counted are a fault that is not expected. -/
theorem exitCode_counted {seconds : ℤ} {limit : ℤ} (hinvariant : c.Invariant)
    (httl : c.ttl = .ok seconds) (hp : reading c limit text = .ok p) :
    (counted s globals c p).status.exitCode ≤ 1 ∧
      ((counted s globals c p).status.exitCode = 0 ↔
        ∃ n, c.count s.now p = .ok n ∧ (globals.json = true → n < 10 ^ Text.digitLimit)) := by
  unfold reading at hp
  split at hp
  · cases hp
  · next filter _ =>
      have hcompile := mapError_eq_ok_iff.mp hp
      unfold counted
      cases hcount : c.count s.now p with
      | ok n =>
          refine ⟨exitCode_told_le _ _, (exitCode_toldCount globals n).trans ?_⟩
          simp
      | error fault =>
          have hfailed : Outcome.ofRequestFault fault = .fail fault := by
            rcases Collection.error_of_count hinvariant httl hcompile hcount with
              ⟨-, rfl⟩ | ⟨-, rfl⟩ <;> rfl
          dsimp only
          rw [hfailed]
          exact ⟨le_rfl, iff_of_false nofun nofun⟩

theorem request_countOrder (name text : String) :
    (countOrder text).request name .bounded [] = .ok (.counting name text) := by
  have hword : Consistency.ofWord? Consistency.bounded.word = some .bounded := by decide +kernel
  have hnegative : (Number.whole 0).lt (.whole 0) = false := by decide +kernel
  simp only [QueryOrder.request, Request.ofArguments, Request.make, Consistency.ofValue, hword,
    Request.limitOf, Request.nonNegative, Value.number?, hnegative, countOrder, bind, Except.bind]
  rfl

theorem run_countOrder (hopen : s.openData globals = .ok (path, l)) (text : String) :
    (countOrder text).run s globals = (do
      let records ← orElse .ofRequestFault
        (l.store.query s.now (.counting l.name text)).1
      return told globals (.list (records.map Loaded.recordDocument))
        (.ofText (Report.grid none Report.rowLabel records))) := by
  have hlevel : Consistency.ofWord? (Text.upper "BOUNDED") = some .bounded := by decide +kernel
  have hids : readIds (countOrder text).ids = .ok [] := rfl
  rw [QueryOrder.run, show (countOrder text).consistency = "BOUNDED" from rfl, hlevel]
  simp only [hids, hopen, request_countOrder, bind, Except.bind, Except.mapError, orElse]

/-- What is read under the limit of the settings decides how a count ends, unless the text is too
long or the rows cannot be counted. -/
theorem run_query_countOrder {texts : List String} {others : List Value}
    (hopen : s.openData globals = .ok (path, .single asked c texts others))
    (hnodup : (c.name :: texts).Nodup) (hsettings : c.settings = asked) (text : String) :
    Order.run (.query (countOrder text)) s globals =
      if asked.maxFilterLength < text.length then
        .ofRequestFault (.parameter (.filterTooLong text.length asked.maxFilterLength))
      else
        match Filter.parse asked.maxDepth text with
        | .error fault => .ofRequestFault fault
        | .ok filter =>
            match Filter.compile c.schema (some c.name) none filter with
            | .error fault => .ofRequestFault fault
            | .ok p => counted s globals c p := by
  have hquery := Store.query_counting hnodup hsettings s.now text
  rw [Order.run, run_countOrder hopen, show (Loaded.single asked c texts others).store =
    Store.single asked c texts from rfl, show (Loaded.single asked c texts others).name = c.name
    from rfl, hquery]
  split
  · rfl
  · cases Filter.parse asked.maxDepth text with
    | error fault => rfl
    | ok filter =>
        dsimp only [bind, Except.bind]
        cases Filter.compile c.schema (some c.name) none filter with
        | error fault => rfl
        | ok p =>
            dsimp only [counted]
            cases c.count s.now p <;> rfl

theorem exitCode_count {texts : List String} {others : List Value}
    (hopen : s.openData globals = .ok (path, .single asked c texts others))
    (hnodup : (c.name :: texts).Nodup) (hsettings : c.settings = asked) (text : String) :
    (Order.run (.query (countOrder text)) s globals).status.exitCode =
      if asked.maxFilterLength < text.length then Status.refused.exitCode
      else
        match reading c asked.maxDepth text with
        | .error code => code
        | .ok p => (counted s globals c p).status.exitCode := by
  rw [run_query_countOrder hopen hnodup hsettings, reading]
  split
  · rfl
  · cases hparse : Filter.parse asked.maxDepth text with
    | error fault =>
        dsimp only
        rw [ofRequestFault_of_parse hparse]
    | ok filter =>
        dsimp only
        cases hcompile : Filter.compile c.schema (some c.name) none filter with
        | error fault =>
            dsimp only [Except.mapError]
            rw [ofRequestFault_of_compile hcompile]
        | ok p => rfl

/-! ## Both together -/

theorem check_iff_count {texts : List String} {others : List Value} {seconds : ℤ}
    (hopen : s.openData globals = .ok (path, .single asked c texts others))
    (hnodup : (c.name :: texts).Nodup) (hsettings : c.settings = asked)
    (hinvariant : c.Invariant) (httl : c.ttl = .ok seconds) (text : String) :
    (Order.run (.parse text true) s globals).status.exitCode =
        (Order.run (.query (countOrder text)) s globals).status.exitCode ↔
      if asked.maxFilterLength < text.length then
        reading c Filter.defaultDepth text = .error Status.refused.exitCode
      else
        reading c Filter.defaultDepth text = reading c asked.maxDepth text ∧
          ∀ p, reading c asked.maxDepth text = .ok p →
            ∃ n, c.count s.now p = .ok n ∧ (globals.json = true → n < 10 ^ Text.digitLimit) := by
  have hcollection : (Loaded.single asked c texts others).collection = .ok c :=
    Store.collection_single hnodup
  rw [exitCode_check hopen hcollection, exitCode_count hopen hnodup hsettings]
  by_cases hlong : asked.maxFilterLength < text.length
  · rw [if_pos hlong, if_pos hlong]
    cases reading c Filter.defaultDepth text with
    | error code => simp
    | ok p => exact iff_of_false nofun nofun
  · rw [if_neg hlong, if_neg hlong]
    cases hlimited : reading c asked.maxDepth text with
    | error code =>
        cases reading c Filter.defaultDepth text with
        | error other => simp
        | ok p =>
            refine iff_of_false (fun h => ?_) fun h => nomatch h.1
            exact reading_ne_error_zero (hlimited.trans (congrArg _ h.symm))
    | ok p =>
        have hcounted : (counted s globals c p).status.exitCode ≤ 1 ∧ _ :=
          exitCode_counted hinvariant httl hlimited
        obtain ⟨hle, hzero⟩ := hcounted
        rcases reading_of_reading hlimited Filter.defaultDepth with hsame | hfault
        · rw [hsame]
          dsimp only
          rw [eq_comm, hzero]
          simp
        · rw [hfault]
          refine iff_of_false (fun h => ?_) fun h => nomatch h.1
          have hcode : Status.misused.exitCode = (counted s globals c p).status.exitCode := h
          rw [← hcode] at hle
          exact absurd hle (by decide)

/-- If a check finds a filter constant, a count that succeeds gives the number of live rows, or
zero. -/
theorem count_of_constant {texts : List String} {others : List Value} {f : Filter} {b : Bool}
    (hopen : s.openData globals = .ok (path, .single asked c texts others))
    (hnodup : (c.name :: texts).Nodup) (hsettings : c.settings = asked)
    (hparse : Filter.parse Filter.defaultDepth text = .ok (some f))
    (hchecked : checkFilter s globals f = .ok (some b))
    (hdone : (Order.run (.query (countOrder text)) s globals).status.exitCode = 0) :
    ∃ rows, c.snapshot s.now [] = .ok rows ∧
      Order.run (.query (countOrder text)) s globals =
        toldCount globals (if b then rows.length else 0) := by
  have hcollection : (Loaded.single asked c texts others).collection = .ok c :=
    Store.collection_single hnodup
  rw [checkFilter_eq hopen hcollection] at hchecked
  obtain ⟨p, hcompile, hp⟩ := map_eq_ok_iff.mp hchecked
  have hcompile := orElse_eq_ok_iff.mp hcompile
  have hconstant : p = .constant b := by
    cases p with
    | constant a => exact congrArg _ (Option.some.inj hp)
    | live circuit => cases hp
  subst hconstant
  have hrun := run_query_countOrder hopen hnodup hsettings text
  have hfault (fault : Fault) : (Outcome.ofRequestFault fault).status.exitCode ≠ 0 := by
    refine exitCode_ofFault_ne_zero _ ?_ fault
    split <;> nofun
  split at hrun
  · exact absurd hdone (hrun ▸ hfault _)
  · rcases Filter.parse_of_parse hparse asked.maxDepth with hsame | ⟨reason, position, herror⟩
    · rw [hsame] at hrun
      dsimp only at hrun
      rw [hcompile] at hrun
      dsimp only [counted] at hrun
      cases hcount : c.count s.now (.constant b) with
      | error fault =>
          rw [hcount] at hrun
          exact absurd hdone (hrun ▸ hfault fault)
      | ok n =>
          obtain ⟨rows, hrows⟩ := Collection.snapshot_of_count hcount
          cases hcount.symm.trans (Collection.count_constant hrows b)
          rw [hcount] at hrun
          exact ⟨rows, hrows, hrun⟩
    · rw [herror] at hrun
      exact absurd hdone (hrun ▸ hfault _)

/-- A check of a filter text and a count with it, on one data file in one environment, end with
the same exit code exactly if the text is not too long and stands for the same under the usual
limit of levels and under the one that is set, and its rows can be counted; or if it is too long
and the check refuses it too. Rows can be counted unless the time to live lies beyond the finite
numbers or the schema declares the field that takes no value. If the check finds the filter
constant, a count that succeeds gives the number of live rows, or zero. -/
theorem check_and_count_agree_iff {front : List String}
    (hfront : readGlobals s.environment front = .order (globals, []))
    (hlevel : isLogLevel globals.logLevel = true) (hasked : settings s.environment = .ok asked)
    (hopen : s.openData globals = .ok (path, l)) :
    ∃ c seconds, l.collection = .ok c ∧ c.ttl = .ok seconds ∧
      (∀ text, (run s (front ++ checkWords text)).status.exitCode =
          (run s (front ++ countWords text)).status.exitCode ↔
        if asked.maxFilterLength < text.length then
          reading c Filter.defaultDepth text = .error Status.refused.exitCode
        else
          reading c Filter.defaultDepth text = reading c asked.maxDepth text ∧
            ∀ p, reading c asked.maxDepth text = .ok p →
              ∃ n, c.count s.now p = .ok n ∧ (globals.json = true → n < 10 ^ Text.digitLimit)) ∧
      (∀ text p, reading c asked.maxDepth text = .ok p → seconds < Binary64.integerBound →
        Schema.settingsName ∉ c.schema.fieldNames → ∃ n, c.count s.now p = .ok n) ∧
      ∀ text f b, Filter.parse Filter.defaultDepth text = .ok (some f) →
        checkFilter s globals f = .ok (some b) →
        run s (front ++ checkWords text) = .settle (toldFilter globals f (some (some b))) ∧
        ((run s (front ++ countWords text)).status.exitCode = 0 →
          ∃ rows, c.snapshot s.now [] = .ok rows ∧
            run s (front ++ countWords text) =
              toldCount globals (if b then rows.length else 0)) := by
  obtain ⟨found, d, hfound, hl⟩ := Surroundings.ofDocument_of_openData hopen
  cases hasked.symm.trans hfound
  obtain ⟨c, texts, others, rfl, hnodup, hsettings, hinvariant, htimed⟩ :=
    Loaded.invariant_of_ofDocument hl
  obtain ⟨seconds, -, httl⟩ := Collection.ttl_of_timed htimed
  have hcheck (text : String) :
      run s (front ++ checkWords text) = Order.run (.parse text true) s globals :=
    run_append hfront hlevel rfl rfl (read_checkWords text)
  have hcount (text : String) :
      run s (front ++ countWords text) = Order.run (.query (countOrder text)) s globals :=
    run_append hfront hlevel rfl rfl (read_countWords text)
  refine ⟨c, seconds, Store.collection_single hnodup, httl, fun text => ?_,
    fun text p hp hlt hs => ?_, fun text f b hparse hchecked => ⟨?_, fun hdone => ?_⟩⟩
  · rw [hcheck, hcount]
    exact check_iff_count hopen hnodup hsettings hinvariant httl text
  · unfold reading at hp
    split at hp
    · cases hp
    · exact Collection.count_eq_ok hinvariant httl hlt hs (mapError_eq_ok_iff.mp hp)
  · rw [hcheck, Order.run, runParse_of_parse hparse, hchecked]
    rfl
  · rw [hcount] at hdone ⊢
    exact count_of_constant hopen hnodup hsettings hparse hchecked hdone

/-! ## A library in a file -/

/-- The text of a file that holds the library. -/
def libraryText : String :=
  "\x7b\x22collection_name\x22: \x22c\x22, \x22schema\x22: \x7b\x22fields\x22: " ++
    "[\x7b\x22name\x22: \x22id\x22, \x22dtype\x22: \x22VARCHAR\x22, " ++
    "\x22is_primary\x22: true\x7d, \x7b\x22name\x22: \x22title\x22, " ++
    "\x22dtype\x22: \x22VARCHAR\x22\x7d]\x7d, \x22partitions\x22: " ++
    "\x7b\x22_default\x22: [\x7b\x22id\x22: \x22a\x22, \x22title\x22: \x22x\x22\x7d]\x7d\x7d"

set_option maxRecDepth 10000 in
theorem readValue_libraryText : DataFile.readValue .json libraryText =
    .ok (.map [(.str "collection_name", .str "c"), (.str "schema", bookSchema.document),
      (.str "partitions", library.partitions)]) := by
  cbv

theorem format_c : DataFile.format "c" = .json := by
  have hsplit : "c".splitOn "/" = ["c"] := by
    rw [String.splitOn, if_neg (by decide +kernel), String.splitOnAux.eq_1,
      if_neg (by decide +kernel), if_neg (by decide +kernel), String.splitOnAux.eq_1,
      if_pos (by decide +kernel)]
    decide +kernel
  rw [DataFile.format, DataFile.suffix, DataFile.parts, hsplit]
  decide +kernel

theorem read_libraryText : DataFile.read "c" libraryText = .ok library := by
  rw [DataFile.read, format_c, readValue_libraryText]
  rfl

/-- Surroundings in which every file holds the library. -/
def desk (environment : String → Option String) : Surroundings where
  environment
  files := fun _ => some libraryText
  loadedAt := .zero false
  now := .zero false

/-- The options for all commands that name a data file. -/
def libraryGlobals : Globals := ⟨some "c", false, "WARNING"⟩

theorem openData_desk {environment : String → Option String} {asked : Settings} {l : Loaded}
    (hasked : settings environment = .ok asked)
    (hl : Loaded.ofDocument asked (.zero false) library = .ok l) :
    (desk environment).openData libraryGlobals = .ok ("c", l) := by
  have hload : (desk environment).load "c" = .ok l := by
    simp only [Surroundings.load, desk, read_libraryText, hasked, hl, bind, Except.bind,
      Except.mapError]
  have hdata : nonEmpty libraryGlobals.data = some "c" := by decide +kernel
  rw [Surroundings.openData, hdata]
  simp only [hload]

theorem settings_none : settings (fun _ => none) = .ok {} := rfl

/-- The words that name the file. -/
def libraryWords : List String := ["--data", "c"]

theorem readGlobals_libraryWords (environment : String → Option String)
    (h : environment "SCALARQ_LOG_LEVEL" = none) :
    readGlobals environment libraryWords = .order (libraryGlobals, []) := by
  have hread : globalOptions.read false libraryWords = some ([.data "c"], []) := rfl
  rw [readGlobals, hread]
  simp [information?, globals, last?, every, h, nonEmpty, libraryGlobals]

theorem isLogLevel_libraryGlobals : isLogLevel libraryGlobals.logLevel = true := by decide +kernel

/-- Under the usual settings a check and a count of the library end alike. -/
theorem check_and_count_agree_iff_library :
    (run (desk fun _ => none) (libraryWords ++ checkWords "title == 'x'")).status.exitCode =
      (run (desk fun _ => none) (libraryWords ++ countWords "title == 'x'")).status.exitCode := by
  have hopen := openData_desk settings_none ofDocument_library
  obtain ⟨c, seconds, hc, httl, hiff, hcounts, -⟩ :=
    check_and_count_agree_iff (readGlobals_libraryWords _ rfl) isLogLevel_libraryGlobals
      settings_none hopen
  have hlibrary : c = libraryCollection :=
    Except.ok.inj (hc.symm.trans (Store.collection_single (List.nodup_singleton _)))
  subst hlibrary
  cases httl
  rw [hiff, if_neg (by decide +kernel)]
  refine ⟨rfl, fun p hp => ?_⟩
  obtain ⟨n, hn⟩ := hcounts _ p hp (by decide +kernel) (by decide +kernel)
  exact ⟨n, hn, nofun⟩

/-- An environment that lets no level be opened. -/
def shallow (name : String) : Option String :=
  if name = "SCALARQ_MAX_EXPRESSION_DEPTH" then some "0" else none

theorem settings_shallow : settings shallow = .ok { maxDepth := 0 } := by
  have hread : Text.readInteger "0" = .ok 0 := by decide +kernel
  simp [settings, variableInteger, shallow, hread, bind, Except.bind]
  rfl

/-- The collection of the library with no level to be opened. -/
def shallowCollection : Collection := { libraryCollection with settings := { maxDepth := 0 } }

theorem ofDocument_shallow : Loaded.ofDocument { maxDepth := 0 } (.zero false) library =
    .ok (.single { maxDepth := 0 } shallowCollection [] []) :=
  Loaded.ofDocument_eq_ok_iff.mpr ⟨bookSchema, "c", _, shallowCollection, _, [],
    Schema.ofDocument_document Schema.described_bookSchema, rfl, rfl, rfl, rfl, rfl, rfl⟩

/-- The tokens of `(id == 'a')`. -/
def enclosedTokens : List Filter.Token :=
  [⟨.symbol .openParen, 0⟩, ⟨.name "id", 1⟩, ⟨.symbol (.compare .eq), 4⟩,
    ⟨.quoted '\x27' ['a'], 7⟩, ⟨.symbol .closeParen, 10⟩]

theorem tokenize_enclosed : Filter.tokenize "(id == 'a')" = .ok enclosedTokens := by cbv

theorem parse_enclosed (n : ℕ) : Filter.parse (n + 1 : ℕ) "(id == 'a')" =
    .ok (some (.leaf "id" (.compare .eq) (.str "a"))) := by
  have hpredicate := Filter.PredicateDerivation.compare "id" .eq 1 4 (.quoted '\x27' ['a'] 7)
  have henclosed := Filter.UnaryDerivation.parentheses 0 10 (hpredicate.disjunction n)
  exact Filter.parse_of_derivation tokenize_enclosed henclosed.disjunction

theorem parse_enclosed_zero : ∃ reason position,
    Filter.parse 0 "(id == 'a')" = .error (.filter reason position "(id == 'a')") := by
  have hrefused : Filter.ofTokens 0 enclosedTokens = .error ⟨.tooDeep 0, enclosedTokens⟩ := by
    cbv
  rw [Filter.parse_eq_ofTokens 0 (by decide) tokenize_enclosed, hrefused]
  exact ⟨_, _, rfl⟩

/-- A check opens levels that the environment forbids, and accepts what a count refuses. -/
theorem check_shallow_differs :
    settings shallow = .ok { maxDepth := 0 } ∧
      (desk shallow).openData libraryGlobals =
        .ok ("c", .single { maxDepth := 0 } shallowCollection [] []) ∧
      (run (desk shallow) (libraryWords ++ checkWords "(id == 'a')")).status.exitCode = 0 ∧
      (run (desk shallow) (libraryWords ++ countWords "(id == 'a')")).status.exitCode = 2 := by
  have hopen := openData_desk settings_shallow ofDocument_shallow
  have hglobals := readGlobals_libraryWords shallow rfl
  obtain ⟨reason, position, hrefused⟩ := parse_enclosed_zero
  refine ⟨settings_shallow, hopen, ?_, ?_⟩
  · have hc : (Loaded.single { maxDepth := 0 } shallowCollection [] []).collection =
        .ok shallowCollection := Store.collection_single (List.nodup_singleton _)
    rw [checkWords, run_append hglobals isLogLevel_libraryGlobals rfl rfl (read_checkWords _),
      exitCode_check hopen hc, reading, show Filter.defaultDepth = (127 + 1 : ℕ) from rfl,
      parse_enclosed 127]
    rfl
  · rw [countWords, run_append hglobals isLogLevel_libraryGlobals rfl rfl (read_countWords _),
      exitCode_count hopen (List.nodup_singleton _) rfl, if_neg (by decide +kernel), reading]
    dsimp only
    rw [hrefused]
    rfl

end CommandLine

end ScalarStore
