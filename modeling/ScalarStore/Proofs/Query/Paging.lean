import ScalarStore.Proofs.Numeric.Digits
import ScalarStore.Proofs.Query.Evaluation
import ScalarStore.Proofs.Session.Failure

/-! # Counts and pages of an answer

A request with a limit shows a part of what it shows without one, and the same request for the
number of rows counts them. Both stay within the window of the settings: the end of a page may not
lie beyond it, whether a page is shown or counted. -/

namespace ScalarStore

namespace Request

variable {c : Collection} {now : Binary64} {r : Request} {filter : Option Filter}
  {depthLimit : Option ℤ} {rows : List StoredRow} {records : List Record}

/-- A request for one page. -/
def paged (r : Request) (offset size : ℕ) : Request :=
  { r with limit := some (.whole size), offset := .whole offset }

/-- Requests for pages of given sizes, each from where the one before ends. -/
def pages (r : Request) (offset : ℕ) : List ℕ → List Request
  | [] => []
  | size :: rest => r.paged offset size :: r.pages (offset + size) rest

/-- A request for the number of rows. -/
def counted (r : Request) (limit : Option ℕ) (offset : ℕ) : Request :=
  { r with
    output := .ok [.str countAll]
    limit := limit.map fun size => .whole size
    offset := .whole offset }

theorem of_mem_pages {page : Request} {offset : ℕ} {sizes : List ℕ}
    (h : page ∈ r.pages offset sizes) :
    page.collection = r.collection ∧ page.filter = r.filter := by
  induction sizes generalizing offset with
  | nil => cases h
  | cons size rest ih =>
      rcases List.mem_cons.mp h with rfl | h
      · exact ⟨rfl, rfl⟩
      · exact ih h

/-! ## The window -/

/-- The end of a page must lie within the window. The fault tells it, unless it has too many digits
to be written. -/
theorem checkWindow_of_whole {offset size : ℕ} (hoffset : r.offset = .whole offset)
    (hlimit : r.limit = some (.whole size)) (window : ℤ) : r.checkWindow window =
      if ((offset + size : ℕ) : ℤ) ≤ window then .ok ()
      else if offset + size < 10 ^ Text.digitLimit then
        refuse (.windowExceeded (.whole (offset + size : ℕ)) window)
      else .error (.value .integerUnwritable) := by
  have hadd : (Number.whole offset).add? (.whole size) = some (.whole (offset + size : ℕ)) := rfl
  have hlong : (Number.whole (offset + size : ℕ)).toValue.hasLongInteger Text.digitLimit = false ↔
      offset + size < 10 ^ Text.digitLimit :=
    Value.hasLongInteger_int (by decide) ((offset + size : ℕ) : ℤ)
  rw [checkWindow, hlimit, hoffset]
  dsimp only
  rw [hadd]
  refine if_congr (by simp [Number.lt_whole]) rfl ?_
  by_cases hshort : offset + size < 10 ^ Text.digitLimit
  · rw [if_pos hshort, hlong.mpr hshort]
    rfl
  · rw [if_neg hshort, if_pos (by simpa using mt hlong.mp hshort)]

theorem checkWindow_beyond {offset size : ℕ} (hoffset : r.offset = .whole offset)
    (hlimit : r.limit = some (.whole size)) {window : ℤ}
    (hwindow : window < ((offset + size : ℕ) : ℤ)) (hshort : offset + size < 10 ^ Text.digitLimit) :
    r.checkWindow window =
      .error (.parameter (.windowExceeded (.whole (offset + size : ℕ)) window)) := by
  rw [checkWindow_of_whole hoffset hlimit, if_neg (not_le.mpr hwindow), if_pos hshort]
  rfl

theorem checkWindow_long {offset size : ℕ} (hoffset : r.offset = .whole offset)
    (hlimit : r.limit = some (.whole size)) {window : ℤ}
    (hwindow : window < ((offset + size : ℕ) : ℤ)) (hlong : 10 ^ Text.digitLimit ≤ offset + size) :
    r.checkWindow window = .error (.value .integerUnwritable) := by
  rw [checkWindow_of_whole hoffset hlimit, if_neg (not_le.mpr hwindow), if_neg (not_lt.mpr hlong)]

/-! ## What is found before a page is taken -/

/-- A request finds the rows of its partitions and keys on which its filter holds, whatever its
output, limit and offset are. -/
def Finds (r : Request) (c : Collection) (now : Binary64) (filter : Option Filter)
    (depthLimit : Option ℤ) (rows : List StoredRow) : Prop :=
  ∃ p names live candidates, Filter.compile c.schema (some c.name) depthLimit filter = .ok p ∧
    r.partitions = .ok names ∧ c.snapshot now names = .ok live ∧
    restrict c r.ids live = .ok candidates ∧ matching p candidates = .ok rows

/-- The full answer of a request that is no count shows all rows that it finds. -/
theorem finds_of_answer (h : r.answer c now filter depthLimit = .ok records)
    (hlimit : r.limit = none) (hoffset : r.offset.isZero = true) (hcount : r.isCount ≠ .ok true) :
    ∃ rows output fields, r.Finds c now filter depthLimit rows ∧ r.isCount = .ok false ∧
      r.output = .ok output ∧ outputFields c output = .ok fields ∧
      rows.mapM (project fields) = .ok records := by
  obtain ⟨isCount, p, names, live, candidates, matched, hisCount, hp, hnames, hlive, hids,
    hmatched, hout⟩ := answer_eq_ok h
  cases isCount with
  | true => exact absurd hisCount hcount
  | false =>
      obtain ⟨output, fields, rows, houtput, hfields, hpage, hproject⟩ := hout
      rw [hlimit] at hpage
      obtain rfl := page_eq_ok hoffset hpage
      exact ⟨rows, output, fields, ⟨p, names, live, candidates, hp, hnames, hlive, hids, hmatched⟩,
        hisCount, houtput, hfields, hproject⟩

/-- A count within the window tells the number of rows found. -/
theorem Finds.answer_count (h : r.Finds c now filter depthLimit rows)
    (hcount : r.isCount = .ok true) (hwindow : r.checkWindow c.settings.maxWindow = .ok ()) :
    r.answer c now filter depthLimit = .ok [[(countAll, .int rows.length)]] := by
  obtain ⟨p, names, live, candidates, hp, hnames, hlive, hids, hmatched⟩ := h
  simp [answer, hcount, hwindow, hp, hnames, hlive, hids, hmatched, bind, Except.bind, pure,
    Except.pure]

/-- A page within the window shows its part of the rows found. -/
theorem Finds.answer_page (h : r.Finds c now filter depthLimit rows)
    (hcount : r.isCount = .ok false) (hlimit : r.limit.isNone = false)
    (hwindow : r.checkWindow c.settings.maxWindow = .ok ()) {output : List Value}
    {fields : List String} (houtput : r.output = .ok output)
    (hfields : outputFields c output = .ok fields) : r.answer c now filter depthLimit = (do
      (← page r.offset r.limit rows).mapM (project fields)) := by
  obtain ⟨p, names, live, candidates, hp, hnames, hlive, hids, hmatched⟩ := h
  simp [answer, hcount, hlimit, hwindow, hp, hnames, hlive, hids, hmatched, houtput, hfields, bind,
    Except.bind]

/-- Rows are projected one by one, so that a part of them gives that part of the records. -/
theorem mapM_project_slice {fields : List String}
    (h : rows.mapM (project fields) = .ok records) (offset size : ℕ) :
    ((rows.drop offset).take size).mapM (project fields) =
      .ok ((records.drop offset).take size) :=
  mapM_eq_ok_iff.mpr (List.forall₂_take size (List.forall₂_drop offset (mapM_eq_ok_iff.mp h)))

/-! ## Counts and pages of a full answer -/

variable {parsed : Except Fault (Option Filter)}

/-- The window is checked when the filter has been read, before it is compiled. -/
theorem run_of_checkWindow {other : Request} {isCount : Bool} {fault : Fault}
    (h : r.run c now parsed = .ok records) (hfilter : other.filter = r.filter)
    (hcount : other.isCount = .ok isCount) (hlimit : other.limit.isNone = false)
    (hwindow : other.checkWindow c.settings.maxWindow = .error fault) :
    other.run c now parsed = .error fault := by
  obtain ⟨⟨filter, depthLimit⟩, hread, -⟩ := bind_eq_ok_iff.mp h
  have hanswer : other.answer c now filter depthLimit = .error fault := by
    simp [answer, hcount, hlimit, hwindow, bind, Except.bind]
  rw [run, hfilter, hread]
  exact hanswer

section

variable (h : r.run c now parsed = .ok records)
  (hlimit : r.limit = none) (hoffset : r.offset.isZero = true) (hcount : r.isCount ≠ .ok true)

include h hlimit hoffset hcount

theorem run_counted (limit : Option ℕ) (offset : ℕ) (hwindow : ∀ size, limit = some size →
      ((offset + size : ℕ) : ℤ) ≤ c.settings.maxWindow) :
    (r.counted limit offset).run c now parsed = .ok [[(countAll, .int records.length)]] := by
  obtain ⟨⟨filter, depthLimit⟩, hread, ha⟩ := bind_eq_ok_iff.mp h
  obtain ⟨rows, _, _, hfinds, -, -, -, hproject⟩ := finds_of_answer ha hlimit hoffset hcount
  have hlength : rows.length = records.length := (mapM_eq_ok_iff.mp hproject).length_eq
  have hcheck : (r.counted limit offset).checkWindow c.settings.maxWindow = .ok () := by
    cases limit with
    | none => rfl
    | some size => rw [checkWindow_of_whole rfl rfl, if_pos (hwindow size rfl)]
  have hfound : (r.counted limit offset).Finds c now filter depthLimit rows := hfinds
  refine bind_eq_ok_iff.mpr ⟨(filter, depthLimit), hread, ?_⟩
  rw [← hlength]
  exact hfound.answer_count (isCount_of_output rfl) hcheck

theorem run_paged {offset size : ℕ}
    (hwindow : ((offset + size : ℕ) : ℤ) ≤ c.settings.maxWindow) :
    (r.paged offset size).run c now parsed = .ok ((records.drop offset).take size) := by
  obtain ⟨⟨filter, depthLimit⟩, hread, ha⟩ := bind_eq_ok_iff.mp h
  obtain ⟨rows, output, fields, hfinds, hfalse, houtput, hfields, hproject⟩ :=
    finds_of_answer ha hlimit hoffset hcount
  have hcheck : (r.paged offset size).checkWindow c.settings.maxWindow = .ok () := by
    rw [checkWindow_of_whole rfl rfl, if_pos hwindow]
  have hfound : (r.paged offset size).Finds c now filter depthLimit rows := hfinds
  refine bind_eq_ok_iff.mpr ⟨(filter, depthLimit), hread, ?_⟩
  refine (hfound.answer_page hfalse rfl hcheck houtput hfields).trans ?_
  exact mapM_project_slice hproject offset size

/-- Beyond the window a page and a count fail alike. -/
theorem run_beyond {offset size : ℕ}
    (hwindow : c.settings.maxWindow < ((offset + size : ℕ) : ℤ))
    (hshort : offset + size < 10 ^ Text.digitLimit) :
    (r.paged offset size).run c now parsed =
        refuse (.windowExceeded (.whole (offset + size : ℕ)) c.settings.maxWindow) ∧
      (r.counted (some size) offset).run c now parsed =
        refuse (.windowExceeded (.whole (offset + size : ℕ)) c.settings.maxWindow) := by
  obtain ⟨⟨filter, depthLimit⟩, -, ha⟩ := bind_eq_ok_iff.mp h
  obtain ⟨_, _, _, -, hfalse, -, -, -⟩ := finds_of_answer ha hlimit hoffset hcount
  have hpage : (r.paged offset size).isCount = .ok false := hfalse
  exact ⟨run_of_checkWindow h rfl hpage rfl (checkWindow_beyond rfl rfl hwindow hshort),
    run_of_checkWindow h rfl (isCount_of_output rfl) rfl
      (checkWindow_beyond rfl rfl hwindow hshort)⟩

/-- Pages one after another, joined, are the front of the full answer. -/
theorem run_pages (offset : ℕ) (sizes : List ℕ)
    (hwindow : ((offset + sizes.sum : ℕ) : ℤ) ≤ c.settings.maxWindow) :
    ∃ parts : List (List Record),
      (r.pages offset sizes).map (fun page => page.run c now parsed) = parts.map .ok ∧
      parts.flatten = (records.drop offset).take sizes.sum := by
  induction sizes generalizing offset with
  | nil => exact ⟨[], rfl, by simp⟩
  | cons size rest ih =>
      rw [List.sum_cons, ← Nat.add_assoc] at hwindow
      obtain ⟨parts, hparts, hjoined⟩ := ih (offset + size) hwindow
      have hfirst : ((offset + size : ℕ) : ℤ) ≤ c.settings.maxWindow := by omega
      refine ⟨(records.drop offset).take size :: parts, ?_, ?_⟩
      · rw [pages, List.map_cons, List.map_cons, hparts,
          run_paged h hlimit hoffset hcount hfirst]
      · rw [List.flatten_cons, hjoined, List.sum_cons, List.take_add, List.drop_drop]

end

end Request

/-! ## Queries one after another -/

/-- What the parse cache holds makes no difference to the answer of a query. -/
theorem Store.Invariant.query_withCache {settings : Settings} {s : Store} {cache : ParseCache}
    (h : s.Invariant settings) (hc : { s with cache := cache }.Invariant settings) (now : Binary64)
    (r : Request) : ({ s with cache := cache }.query now r).1 = (s.query now r).1 := by
  cases hcollection : s.collection r.collection none with
  | error fault =>
      have hsame : { s with cache := cache }.collection r.collection none = .error fault :=
        hcollection
      rw [Store.query, Store.query, hcollection, hsame]
  | ok c => rw [h.query_of_collection now hcollection, hc.query_of_collection now hcollection]

namespace Session

variable {settings : Settings} {start : Binary64} {commands : List Command} {s : Session}

/-- Queries of one session are answered as if each of them were the first. -/
theorem run_queries (h : s.store.Invariant settings) (requests : List Request) :
    (s.run (requests.map .query)).1 =
      requests.map fun r => (s.store.query s.clock r).1.map .records := by
  induction requests generalizing s with
  | nil => rfl
  | cons r rest ih =>
      -- The other queries meet a session that differs from this one in its parse cache alone.
      have hafter := h.query s.clock r
      have hrun : (s.run ((r :: rest).map .query)).1 = (s.step (.query r)).1 ::
          ((s.step (.query r)).2.run (rest.map .query)).1 := rfl
      rw [hrun, ih hafter, List.map_cons]
      refine congrArg _ (List.map_congr_left fun other _ => congrArg (Except.map Answer.records) ?_)
      have hcache := s.store.query_snd s.clock r
      rw [hcache] at hafter
      exact (congrArg (fun t => (Store.query t s.clock other).1) hcache).trans
        (h.query_withCache hafter s.clock other)

/-- Queries with one filter on one collection are answered from the same reading of the filter. -/
theorem exists_run_of_query {r : Request} {records : List Record}
    (hs : ((new settings start).run commands).2 = s)
    (hq : (s.store.query s.clock r).1 = .ok records) :
    ∃ c parsed, c.settings = settings ∧ ∀ other : Request, other.collection = r.collection →
      other.filter = r.filter → (s.store.query s.clock other).1 = other.run c s.clock parsed := by
  have hinv : s.store.Invariant settings := hs ▸ invariant_run settings start commands
  obtain ⟨c, -, -, hc, -, -⟩ := hinv.query_eq_ok hq
  refine ⟨c, r.filter.parsed s.store.settings.maxDepth, settings_of_run hs hc,
    fun other hcollection hfilter => ?_⟩
  rw [hinv.query_of_collection s.clock (hcollection ▸ hc), hfilter]

/-- Counts and pages of a request tell of its full answer: the count is its length, a page within
the window is its part from the offset on, pages one after another make up its front, and so all
of it if they reach its end. A limit beyond the window is refused. -/
theorem paging_of_query {r : Request} {records : List Record}
    (hs : ((new settings start).run commands).2 = s)
    (hq : (s.store.query s.clock r).1 = .ok records) (hlimit : r.limit = none)
    (hoffset : r.offset.isZero = true) (hcount : r.isCount ≠ .ok true) :
    (∀ offset, (s.store.query s.clock (r.counted none offset)).1 =
      .ok [[(Request.countAll, .int records.length)]]) ∧
    (∀ offset size : ℕ, ((offset + size : ℕ) : ℤ) ≤ settings.maxWindow →
      (s.store.query s.clock (r.counted (some size) offset)).1 =
          .ok [[(Request.countAll, .int records.length)]] ∧
        (s.store.query s.clock (r.paged offset size)).1 =
          .ok ((records.drop offset).take size)) ∧
    (∀ sizes : List ℕ, ((sizes.sum : ℕ) : ℤ) ≤ settings.maxWindow → ∃ parts : List (List Record),
      (s.run ((r.pages 0 sizes).map .query)).1 = parts.map (fun part => .ok (.records part)) ∧
        parts.flatten = records.take sizes.sum) ∧
    ∀ offset size : ℕ, settings.maxWindow < ((offset + size : ℕ) : ℤ) →
      offset + size < 10 ^ Text.digitLimit →
      (s.store.query s.clock (r.paged offset size)).1 =
          refuse (.windowExceeded (.whole (offset + size : ℕ)) settings.maxWindow) ∧
        (s.store.query s.clock (r.counted (some size) offset)).1 =
          refuse (.windowExceeded (.whole (offset + size : ℕ)) settings.maxWindow) := by
  obtain ⟨c, parsed, rfl, hquery⟩ := exists_run_of_query hs hq
  rw [hquery r rfl rfl] at hq
  refine ⟨fun offset => ?_, fun offset size hwithin => ⟨?_, ?_⟩, fun sizes hwithin => ?_,
    fun offset size hbeyond hshort => ?_⟩
  · rw [hquery (r.counted none offset) rfl rfl]
    exact Request.run_counted hq hlimit hoffset hcount none offset nofun
  · rw [hquery (r.counted (some size) offset) rfl rfl]
    refine Request.run_counted hq hlimit hoffset hcount (some size) offset ?_
    rintro _ ⟨⟩
    exact hwithin
  · rw [hquery (r.paged offset size) rfl rfl]
    exact Request.run_paged hq hlimit hoffset hcount hwithin
  · obtain ⟨parts, hparts, hjoined⟩ :=
      Request.run_pages hq hlimit hoffset hcount 0 sizes (by rwa [Nat.zero_add])
    refine ⟨parts, ?_, hjoined⟩
    calc (s.run ((r.pages 0 sizes).map .query)).1
        = (r.pages 0 sizes).map fun page => (s.store.query s.clock page).1.map .records :=
          run_queries (hs ▸ invariant_run _ start commands) _
      _ = ((r.pages 0 sizes).map fun page =>
            page.run c s.clock parsed).map (Except.map .records) := by
          rw [List.map_map]
          refine List.map_congr_left fun page hpage => ?_
          obtain ⟨hcollection, hfilter⟩ := Request.of_mem_pages hpage
          rw [hquery page hcollection hfilter]
          rfl
      _ = parts.map fun part => .ok (.records part) := by
          rw [hparts, List.map_map]
          rfl
  · rw [hquery (r.paged offset size) rfl rfl, hquery (r.counted (some size) offset) rfl rfl]
    exact Request.run_beyond hq hlimit hoffset hcount hbeyond hshort

/-- A request for both rows of the shelf. -/
def shelved : Request :=
  { titled with filter := .tree (.leaf "title" (.compare .ne) (.str "z")) }

theorem isZero_zero : (Number.whole 0).isZero = true :=
  beq_iff_eq.mpr ((Number.compare?_eq_eq_iff _ _).mpr ⟨_, _, rfl, rfl, rfl⟩)

theorem paging_of_query_shelved :
    ∃ s, ((new {} (.zero false)).run shelf).2 = s ∧
      (s.store.query s.clock shelved).1 = .ok [[("id", .str "a")], [("id", .str "b")]] ∧
      shelved.limit = none ∧ shelved.offset.isZero = true ∧ shelved.isCount ≠ .ok true ∧
      (s.store.query s.clock (shelved.counted none 0)).1 =
        .ok [[(Request.countAll, .int 2)]] ∧
      (s.store.query s.clock (shelved.paged 1 1)).1 = .ok [[("id", .str "b")]] := by
  obtain ⟨s, hs⟩ : ∃ s, ((new {} (.zero false)).run shelf).2 = s := ⟨_, rfl⟩
  have hq : (s.store.query s.clock shelved).1 =
      .ok [[("id", .str "a")], [("id", .str "b")]] := by
    subst hs
    rfl
  have hcount : shelved.isCount ≠ .ok true := by simp [show shelved.isCount = .ok false from rfl]
  obtain ⟨htotal, hwithin, -, -⟩ := paging_of_query hs hq rfl isZero_zero hcount
  exact ⟨s, hs, hq, rfl, isZero_zero, hcount, htotal 0, (hwithin 1 1 (by decide)).2⟩

/-- A request for the number of rows shows one entry, but counts the rows behind it, and all its
pages show that entry. An end of a page that is too long to be written is another fault. -/
theorem paging_counted_differs :
    ∃ s, ((new {} (.zero false)).run shelf).2 = s ∧
      (s.store.query s.clock (shelved.counted none 0)).1 = .ok [[(Request.countAll, .int 2)]] ∧
      (s.store.query s.clock ((shelved.counted none 0).counted none 0)).1 ≠
        .ok [[(Request.countAll, .int 1)]] ∧
      (s.store.query s.clock ((shelved.counted none 0).paged 1 1)).1 ≠ .ok [] ∧
      (s.store.query s.clock (shelved.paged (10 ^ Text.digitLimit - 1) 1)).1 =
        .error (.value .integerUnwritable) := by
  obtain ⟨s, hs⟩ : ∃ s, ((new {} (.zero false)).run shelf).2 = s := ⟨_, rfl⟩
  have hq : (s.store.query s.clock shelved).1 =
      .ok [[("id", .str "a")], [("id", .str "b")]] := by
    subst hs
    rfl
  obtain ⟨c, parsed, hsettings, hquery⟩ := exists_run_of_query hs hq
  have hfalse : shelved.isCount = .ok false := rfl
  have hcount : shelved.isCount ≠ .ok true := by simp [hfalse]
  rw [hquery shelved rfl rfl] at hq
  have hcounted (limit : Option ℕ) (offset : ℕ)
      (h : ∀ size, limit = some size → ((offset + size : ℕ) : ℤ) ≤ c.settings.maxWindow) :
      (s.store.query s.clock (shelved.counted limit offset)).1 =
        .ok [[(Request.countAll, .int 2)]] := by
    rw [hquery (shelved.counted limit offset) rfl rfl]
    exact Request.run_counted hq rfl isZero_zero hcount limit offset h
  have hpage : (shelved.counted none 0).paged 1 1 = shelved.counted (some 1) 1 := rfl
  have hwindow : c.settings.maxWindow = (16384 : ℕ) := by rw [hsettings]; rfl
  have hlong (offset : ℕ) (hdigits : 10 ^ Text.digitLimit ≤ offset + 1) :
      (s.store.query s.clock (shelved.paged offset 1)).1 = .error (.value .integerUnwritable) := by
    have hfalse' : (shelved.paged offset 1).isCount = .ok false := hfalse
    have hbeyond : 10 ^ 5 ≤ offset + 1 :=
      (Nat.pow_le_pow_right (by decide) (by decide)).trans hdigits
    rw [hquery (shelved.paged offset 1) rfl rfl]
    exact Request.run_of_checkWindow hq rfl hfalse' rfl
      (Request.checkWindow_long rfl rfl (by omega) hdigits)
  refine ⟨s, hs, hcounted none 0 nofun, ?_, ?_, ?_⟩
  · rw [show (shelved.counted none 0).counted none 0 = shelved.counted none 0 from rfl,
      hcounted none 0 nofun]
    simp
  · rw [hpage, hcounted (some 1) 1 (by rintro _ ⟨⟩; rw [hwindow]; decide)]
    simp
  · exact hlong (10 ^ Text.digitLimit - 1) le_tsub_add

end Session

end ScalarStore
