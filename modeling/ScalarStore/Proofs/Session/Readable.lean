import ScalarStore.Proofs.Collection.Expiry
import ScalarStore.Proofs.Session.Standing

/-! # What can be read of every collection

After any run the time to live of every collection is told. Its rows can be read exactly as long
as that time is within the finite numbers. -/

namespace ScalarStore

/-- The commands that read the rows of a collection, from partitions that are there. -/
inductive Command.ReadsRows (c : Collection) (name : String) (database : Option String) :
    Command → Prop
  | rowCount : ReadsRows c name database (.rowCount name database)
  | describe : ReadsRows c name database (.describe name database)
  | snapshot (partitions : List String)
      (h : ∀ partition ∈ partitions, c.hasPartition partition = true) :
      ReadsRows c name database (.snapshot name (partitions.map .str) database)

namespace Session

variable {settings : Settings} {start : Binary64} {commands : List Command} {s : Session}
  {name : String} {database : Option String} {c : Collection} {command : Command} {seconds : Int}

/-- Each of these commands makes a snapshot first, and nothing that can fail after it. -/
theorem step_of_readsRows (hc : s.store.collection name database = .ok c)
    (h : command.ReadsRows c name database) :
    ∃ partitions : List String, (∀ partition ∈ partitions, c.hasPartition partition = true) ∧
      ∃ answer, (s.step command).1 = (c.snapshot s.clock (partitions.map .str)).map answer := by
  cases h with
  | rowCount =>
      refine ⟨[], nofun, fun rows => .rowCount rows.length, ?_⟩
      simp only [step, look, Store.rowCount, hc, bind, Except.bind, Collection.size, List.map_nil]
      cases c.snapshot s.clock [] <;> rfl
  | describe =>
      obtain ⟨db, hdb, hr⟩ := Store.collection_eq_ok hc
      refine ⟨[], nofun, fun rows =>
        .described ⟨c, rows.length, db.aliasNames (some c.name)⟩, ?_⟩
      simp only [step, look, Store.describe, hdb, Database.describe, hr, bind, Except.bind,
        Collection.describe, Collection.size, List.map_nil]
      cases c.snapshot s.clock [] <;> rfl
  | snapshot partitions h =>
      refine ⟨partitions, h, .rows, ?_⟩
      simp only [step, look, hc, bind, Except.bind]
      cases c.snapshot s.clock (partitions.map .str) <;> rfl

theorem timed_of_run (hs : ((new settings start).run commands).2 = s)
    (hc : s.store.collection name database = .ok c) : c.properties.Timed := by
  obtain ⟨a, hat⟩ := Store.at?_of_collection hc
  exact forall_collections_of_run (P := fun c => c.properties.Timed) hs
    (fun _ _ _ _ _ _ hnew => Collection.timed_of_new hnew)
    (fun _ _ _ ht hu => Clocked.timed_step ht hu) hat

/-- After any run every collection tells its time to live, which is not negative. If it is less
than the bound of the finite numbers, every reading of rows is answered; else every one is a
fault. -/
theorem readable_of_run (hs : ((new settings start).run commands).2 = s)
    (hc : s.store.collection name database = .ok c) :
    ∃ seconds, 0 ≤ seconds ∧ (s.step (.ttl name database)).1 = .ok (.ttl seconds) ∧
      ∀ command, command.ReadsRows c name database →
        (seconds < Binary64.integerBound → ∃ answer, (s.step command).1 = .ok answer) ∧
        (Binary64.integerBound ≤ seconds →
          (s.step command).1 = .error (.overflow .integerBeyondReals)) := by
  obtain ⟨seconds, hpos, httl⟩ := Collection.ttl_of_timed (timed_of_run hs hc)
  refine ⟨seconds, hpos, ?_, fun command hreads => ?_⟩
  · simp only [step, look, hc, bind, Except.bind, httl]
    rfl
  · obtain ⟨partitions, hpartitions, answer, hanswer⟩ := step_of_readsRows hc hreads
    rw [hanswer]
    constructor
    · intro hlt
      obtain ⟨rows, hrows⟩ := Collection.snapshot_of_lt hpartitions httl hlt
      exact ⟨answer rows, by rw [hrows]; rfl⟩
    · intro hle
      rw [Collection.snapshot_of_le hpartitions httl hle]
      rfl

/-- A collection whose rows live for a number of seconds, which is given as a text. -/
def lasting (seconds : String) : List Command :=
  [.createCollection "c" titleSchema .null .null none,
    .alter ⟨"c", .null, Table.ofList [(Property.ttlKey, seconds)]⟩]

theorem readable_of_run_minute : ∃ s, ((new {} (.zero false)).run (lasting "60")).2 = s ∧
    (s.step (.ttl "c" none)).1 = .ok (.ttl 60) ∧
    ∃ answer, (s.step (.snapshot "c" [.str "_default"] none)).1 = .ok answer := by
  obtain ⟨s, hs⟩ : ∃ s, ((new {} (.zero false)).run (lasting "60")).2 = s := ⟨_, rfl⟩
  obtain ⟨c, hc⟩ : ∃ c, s.store.collection "c" none = .ok c := by
    subst hs
    exact ⟨_, rfl⟩
  have hminute : (s.step (.ttl "c" none)).1 = .ok (.ttl 60) := by
    subst hs
    rfl
  obtain ⟨seconds, -, httl, hreads⟩ := readable_of_run hs hc
  cases hminute.symm.trans httl
  have hpartition : ∀ partition ∈ ["_default"], c.hasPartition partition = true := by
    subst hs
    cases hc
    decide
  exact ⟨s, hs, hminute, (hreads _ (.snapshot ["_default"] hpartition)).1 (by decide +kernel)⟩

/-- Any time to live that can be read is accepted. -/
theorem collection_lasting {seconds : String} {n : Int}
    (h : Property.readTtl (.str seconds) = .ok n) : ∃ c,
    ((new {} (.zero false)).run (lasting seconds)).2.store.collection "c" none = .ok c ∧
      c.ttl = .ok n := by
  obtain ⟨s, hs⟩ : ∃ s, ((new {} (.zero false)).run
    [.createCollection "c" titleSchema .null .null none]).2 = s := ⟨_, rfl⟩
  obtain ⟨c, hat⟩ : ∃ c, s.store.at? ⟨"default", "c"⟩ = some c := by
    subst hs
    exact ⟨_, rfl⟩
  let a : Alteration := ⟨"c", .null, Table.ofList [(Property.ttlKey, seconds)]⟩
  have ha : s.store.addressee (.alter a) = some ⟨"default", "c"⟩ := by
    subst hs
    rfl
  have hcheck : Property.check (Properties.find (Table.ofList [(Property.ttlKey, seconds)])) =
      .ok () := by
    have hread : Properties.find (Table.ofList [(Property.ttlKey, seconds)]) Property.ttlKey =
      some (.str seconds) := rfl
    rw [Property.check, hread]
    simp only [h]
    rfl
  have hact : (Command.alter a).act (s.around ⟨"default", "c"⟩) c =
      .ok (.done, { c with properties := c.properties.put Property.ttlKey seconds }) := by
    have htexts : Property.ofEntries a.entries =
        .ok (Table.ofList [(Property.ttlKey, seconds)]) := Property.ofEntries_texts _
    rw [Command.act, Collection.alterProperties, htexts]
    simp only [bind, Except.bind, hcheck]
    rfl
  have hrun : ((new {} (.zero false)).run (lasting seconds)).2 =
      s.afterContent ⟨"default", "c"⟩ c (.alter a) := by
    have hstep := step_of_addressee (hs ▸ invariant_run {} _ _) rfl ha hat
    subst hs
    exact congrArg Prod.snd hstep
  refine ⟨{ c with properties := c.properties.put Property.ttlKey seconds }, ?_, ?_⟩
  · rw [hrun, afterContent, Command.left, hact]
    refine Store.collection_of_address (a := ⟨"default", "c"⟩) ?_
      ((Store.at?_putAt hat _ _).trans (if_pos rfl))
    subst hs
    cases hat
    rfl
  · rw [Collection.ttl, Properties.ttl?, Table.get?_put, if_pos rfl]
    simp only [h]
    rfl

/-- A time to live that is accepted, and after which the rows cannot be counted. -/
theorem lasting_unreadable : ∃ s c,
    ((new {} (.zero false)).run (lasting (String.ofList ('1' :: List.replicate 309 '0')))).2 = s ∧
    s.store.collection "c" none = .ok c ∧ c.ttl = .ok (10 ^ 309) ∧
    (s.step (.rowCount "c" none)).1 = .error (.overflow .integerBeyondReals) := by
  have hread : Property.readTtl (.str (String.ofList ('1' :: List.replicate 309 '0'))) =
      .ok (10 ^ 309) := by
    have hdigits : Text.readInteger (String.ofList ('1' :: List.replicate 309 '0')) =
        .ok (10 ^ 309) := by
      rw [Text.readInteger, String.toList_ofList]
      decide +kernel
    exact Property.readTtl_of_readInteger hdigits (by decide +kernel)
  obtain ⟨c, hc, httl⟩ := collection_lasting hread
  refine ⟨_, c, rfl, hc, httl, ?_⟩
  obtain ⟨partitions, hpartitions, answer, hanswer⟩ := step_of_readsRows hc .rowCount
  rw [hanswer, Collection.snapshot_of_le hpartitions httl (by decide +kernel)]
  rfl

end Session

end ScalarStore
