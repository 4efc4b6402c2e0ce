import ScalarStore.Proofs.Collection.Expiry
import ScalarStore.Proofs.Numeric.Digits
import ScalarStore.Proofs.Session.Content
import ScalarStore.Proofs.Session.Failure

/-! # Drafts in use

A draft is written in place by one call after another, and any number of alterations are built from
it on the way. What it holds is told by the calls that succeeded alone: the last value for each name
and for each key. An alteration holds what the draft held when it was built, and puts that over the
properties of a collection. -/

namespace ScalarStore

open MonadExcept (ofExcept)

/-! ## Calls -/

namespace Alteration

/-- What is asked of a draft. All arguments are any values. -/
inductive Call
  | withCollection (name : Value)
  | withDatabase (name : Value)
  | withTtl (seconds : Value)
  | withMmap (enabled : Value)
  | withProperty (key value : Value)
  | build

/-- A draft, and the alterations that were built from it so far. -/
structure Bench where
  draft : Draft
  built : List Alteration

def Bench.new : Bench := ⟨.new, []⟩

/-- What a call that succeeds does. -/
def Bench.step (b : Bench) : Call → Except Fault Bench
  | .withCollection name => (b.draft.withCollection name).map fun d => { b with draft := d }
  | .withDatabase name => .ok { b with draft := b.draft.withDatabase name }
  | .withTtl seconds => (b.draft.withTtl seconds).map fun d => { b with draft := d }
  | .withMmap enabled => (b.draft.withMmap enabled).map fun d => { b with draft := d }
  | .withProperty key value => (b.draft.withProperty key value).map fun d => { b with draft := d }
  | .build => b.draft.build.map fun a => { b with built := b.built ++ [a] }

end Alteration

namespace InPlace

open Alteration (Draft Bench Call)

def setCollection (name : Value) : InPlace Draft Unit := do
  if name = .null then throw (.parameter .nameMissing)
  modify fun d => { d with collection := name }

def setDatabase (name : Value) : InPlace Draft Unit :=
  modify fun d => { d with database := name }

/-- The value is written as a text before anything is put. -/
def setProperty (key value : Value) : InPlace Draft Unit := do
  if key = .null ∨ value = .null then throw (.parameter .propertyMissing)
  match key with
  | .str k => do
      if Text.isBlankText k then throw (.parameter .propertyKeyBlank)
      let text ← ofExcept value.written
      modify fun d => { d with properties := d.properties.put k text }
  | _ => throw (.parameter .propertyKeyBlank)

def setTtl (seconds : Value) : InPlace Draft Unit :=
  match seconds with
  | .int n => do
      if n < 0 then throw (.parameter .ttlNegative)
      setProperty (.str Property.ttlKey) (.int n)
  | _ => throw (.parameter .ttlKind)

def setMmap (enabled : Value) : InPlace Draft Unit :=
  match enabled with
  | .bool b => setProperty (.str Property.mmapKey) (.str (if b then "true" else "false"))
  | v => throw (.parameter (.mmapKind v.kind))

def onDraft (p : InPlace Draft Unit) : InPlace Bench Unit :=
  within Bench.draft (fun draft b => { b with draft := draft }) p

/-- The program of a call. -/
def ofCall : Call → InPlace Bench Unit
  | .withCollection name => onDraft (setCollection name)
  | .withDatabase name => onDraft (setDatabase name)
  | .withTtl seconds => onDraft (setTtl seconds)
  | .withMmap enabled => onDraft (setMmap enabled)
  | .withProperty key value => onDraft (setProperty key value)
  | .build => do
      let a ← ofExcept (← get).draft.build
      modify fun b => { b with built := b.built ++ [a] }

theorem exec_setCollection (name : Value) (d : Draft) :
    exec (setCollection name) d = settle d (do return ((), ← d.withCollection name)) :=
  exec_guard fun _ => rfl

theorem exec_setProperty (key value : Value) (d : Draft) :
    exec (setProperty key value) d = settle d (do return ((), ← d.withProperty key value)) := by
  refine exec_guard fun _ => ?_
  cases key with
  | str k =>
      refine exec_guard fun _ => ?_
      rw [bind_assoc]
      exact exec_check fun text _ => rfl
  | _ => rfl

theorem exec_setTtl (seconds : Value) (d : Draft) :
    exec (setTtl seconds) d = settle d (do return ((), ← d.withTtl seconds)) := by
  cases seconds with
  | int n => exact exec_guard fun _ => exec_setProperty ..
  | _ => rfl

theorem exec_setMmap (enabled : Value) (d : Draft) :
    exec (setMmap enabled) d = settle d (do return ((), ← d.withMmap enabled)) := by
  cases enabled with
  | bool b =>
      exact exec_setProperty (.str Property.mmapKey) (.str (if b then "true" else "false")) d
  | _ => rfl

theorem exec_onDraft {p : InPlace Draft Unit} {f : Draft → Except Fault Draft} {b : Bench}
    (h : exec p b.draft = settle b.draft (do return ((), ← f b.draft))) :
    exec (onDraft p) b =
      settle b (do return ((), ← (f b.draft).map fun d => { b with draft := d })) := by
  rw [onDraft, exec_within, h]
  cases f b.draft <;> rfl

/-- A call is done as a whole or not at all. -/
theorem exec_ofCall (call : Call) (b : Bench) :
    exec (ofCall call) b = settle b (do return ((), ← b.step call)) := by
  cases call with
  | withCollection name => exact exec_onDraft (f := (·.withCollection name)) (exec_setCollection ..)
  | withDatabase name => rfl
  | withTtl seconds => exact exec_onDraft (f := (·.withTtl seconds)) (exec_setTtl ..)
  | withMmap enabled => exact exec_onDraft (f := (·.withMmap enabled)) (exec_setMmap ..)
  | withProperty key value =>
      exact exec_onDraft (f := (·.withProperty key value)) (exec_setProperty ..)
  | build =>
      rw [ofCall, exec_get_bind, Bench.step]
      cases hb : b.draft.build with
      | error fault => rfl
      | ok a => rfl

end InPlace

namespace Alteration

/-! ## What a call sets -/

namespace Call

def name? : Call → Option Value
  | .withCollection name => some name
  | _ => none

def database? : Call → Option Value
  | .withDatabase name => some name
  | _ => none

/-- The property that a call puts if it succeeds. -/
def entry? : Call → Option (String × String)
  | .withTtl (.int n) => some (Property.ttlKey, intText n)
  | .withMmap (.bool b) => some (Property.mmapKey, if b then "true" else "false")
  | .withProperty (.str key) value => some (key, value.plain)
  | _ => none

/-- The arguments with which a call sets something, whatever the draft holds. -/
def Proper : Call → Prop
  | .withCollection name => name ≠ .null
  | .withDatabase _ => True
  | .withTtl seconds => ∃ n : ℕ, seconds = .int n ∧ n < 10 ^ Text.digitLimit
  | .withMmap enabled => ∃ on, enabled = .bool on
  | .withProperty key value => ∃ k, key = .str k ∧ Text.isBlankText k = false ∧ value ≠ .null ∧
      value.hasLongInteger Text.digitLimit = false
  | .build => False

/-- Among some calls one is the last that puts a property at a key. -/
def Decides (key : String) (call : Call) (calls : List Call) : Prop :=
  ∃ before after, calls = before ++ call :: after ∧
    (∃ text, call.entry? = some (key, text)) ∧
    ∀ later ∈ after, ∀ entry ∈ later.entry?, entry.1 ≠ key

end Call

namespace Draft

variable {d e : Draft}

/-- The draft with all that some calls set. -/
def setAll (d : Draft) (calls : List Call) : Draft where
  collection := ((calls.filterMap Call.name?).getLast?).getD d.collection
  database := ((calls.filterMap Call.database?).getLast?).getD d.database
  properties := d.properties.putAll (calls.filterMap Call.entry?)

/-- What later calls set stands over what earlier ones set. -/
theorem setAll_append (d : Draft) (first second : List Call) :
    d.setAll (first ++ second) = (d.setAll first).setAll second := by
  have hlast {α : Type} (f : Call → Option α) (x : α) :
      (((first ++ second).filterMap f).getLast?).getD x =
        ((second.filterMap f).getLast?).getD (((first.filterMap f).getLast?).getD x) := by
    rw [List.filterMap_append, List.getLast?_append]
    cases (second.filterMap f).getLast? <;> rfl
  simp only [setAll, hlast]
  rw [List.filterMap_append, Table.putAll, List.foldl_append]
  rfl

theorem withTtl_eq_ok_iff {seconds : Value} : d.withTtl seconds = .ok e ↔
    ∃ n : ℕ, seconds = .int n ∧ n < 10 ^ Text.digitLimit ∧
      e = { d with properties := d.properties.put Property.ttlKey (intText n) } := by
  have hblank : Text.isBlankText Property.ttlKey = false := by decide
  have hshort (n : ℕ) : (Value.int n).hasLongInteger Text.digitLimit = false ↔
      n < 10 ^ Text.digitLimit :=
    Value.hasLongInteger_int (by decide) n
  unfold withTtl
  constructor
  · intro h
    split at h
    · next m =>
        split at h
        · cases h
        · next hm =>
            obtain ⟨n, rfl⟩ := Int.eq_ofNat_of_zero_le (Int.not_lt.mp hm)
            obtain ⟨_, hkey, -, -, hlong, rfl⟩ := withProperty_eq_ok_iff.mp h
            cases hkey
            exact ⟨n, rfl, (hshort n).mp hlong, rfl⟩
    · cases h
  · rintro ⟨n, rfl, hn, rfl⟩
    dsimp only
    rw [if_neg (Int.not_lt.mpr (Int.natCast_nonneg n))]
    exact withProperty_eq_ok_iff.mpr ⟨_, rfl, hblank, nofun, (hshort n).mpr hn, rfl⟩

theorem withMmap_eq_ok_iff {enabled : Value} : d.withMmap enabled = .ok e ↔
    ∃ b, enabled = .bool b ∧ e = { d with
      properties := d.properties.put Property.mmapKey (if b then "true" else "false") } := by
  have hblank : Text.isBlankText Property.mmapKey = false := by decide
  unfold withMmap
  constructor
  · intro h
    split at h
    · next b =>
        obtain ⟨_, hkey, -, -, -, rfl⟩ := withProperty_eq_ok_iff.mp h
        cases hkey
        exact ⟨b, rfl, rfl⟩
    · cases h
  · rintro ⟨b, rfl, rfl⟩
    exact withProperty_eq_ok_iff.mpr ⟨_, rfl, hblank, nofun, rfl, rfl⟩

theorem build_eq_ok_iff {a : Alteration} : d.build = .ok a ↔ ∃ name, d.collection = .str name ∧
    Text.isBlankText name = false ∧ a = ⟨name, d.database, d.properties⟩ := by
  unfold build
  constructor
  · intro h
    split at h
    · cases h
    · next name hname =>
        split at h
        · cases h
        · next hblank =>
            cases h
            exact ⟨name, hname, Bool.not_eq_true _ ▸ hblank, rfl⟩
    · cases h
  · rintro ⟨name, hname, hblank, rfl⟩
    simp [hname, hblank]

end Draft

/-! ## Runs -/

namespace Bench

variable {b t : Bench} {call : Call} {calls : List Call} {fault : Fault}

/-- Whether a call that sets something succeeds is told by its arguments. -/
theorem exists_step_iff (b : Bench) (hcall : call ≠ .build) :
    (∃ t, b.step call = .ok t) ↔ call.Proper := by
  cases call with
  | withCollection name =>
      by_cases hname : name = .null <;>
        simp [step, map_eq_ok_iff, Draft.withCollection, Call.Proper, hname, refuse]
  | withDatabase name => simp [step, Call.Proper]
  | withTtl seconds => simp [step, map_eq_ok_iff, Draft.withTtl_eq_ok_iff, Call.Proper]
  | withMmap enabled =>
      simp only [step, map_eq_ok_iff, Draft.withMmap_eq_ok_iff, Call.Proper]
      constructor
      · rintro ⟨t, d, ⟨on, hon, -⟩, -⟩
        exact ⟨on, hon⟩
      · rintro ⟨on, hon⟩
        exact ⟨_, _, ⟨on, hon, rfl⟩, rfl⟩
  | withProperty key value =>
      simp [step, map_eq_ok_iff, Draft.withProperty_eq_ok_iff, Call.Proper]
  | build => exact absurd rfl hcall

/-- A call that succeeds sets what it says. -/
theorem draft_of_step (h : b.step call = .ok t) : t.draft = b.draft.setAll [call] := by
  cases call with
  | withCollection name =>
      obtain ⟨d, hd, rfl⟩ := map_eq_ok_iff.mp h
      unfold Draft.withCollection at hd
      split at hd
      · cases hd
      · cases hd
        rfl
  | withDatabase name =>
      cases h
      rfl
  | withTtl seconds =>
      obtain ⟨d, hd, rfl⟩ := map_eq_ok_iff.mp h
      obtain ⟨n, rfl, -, rfl⟩ := Draft.withTtl_eq_ok_iff.mp hd
      rfl
  | withMmap enabled =>
      obtain ⟨d, hd, rfl⟩ := map_eq_ok_iff.mp h
      obtain ⟨on, rfl, rfl⟩ := Draft.withMmap_eq_ok_iff.mp hd
      rfl
  | withProperty key value =>
      obtain ⟨d, hd, rfl⟩ := map_eq_ok_iff.mp h
      obtain ⟨k, rfl, -, -, -, rfl⟩ := Draft.withProperty_eq_ok_iff.mp hd
      rfl
  | build =>
      obtain ⟨a, -, rfl⟩ := map_eq_ok_iff.mp h
      rfl

theorem built_of_step (h : b.step call = .ok t) : b.built <+: t.built := by
  cases call with
  | withDatabase name =>
      cases h
      exact List.prefix_refl _
  | build =>
      obtain ⟨a, -, rfl⟩ := map_eq_ok_iff.mp h
      exact List.prefix_append _ _
  | _ =>
      obtain ⟨d, -, rfl⟩ := map_eq_ok_iff.mp h
      exact List.prefix_refl _

/-- What a call leaves, whether it fails or not. -/
def next (b : Bench) (call : Call) : Bench := ((InPlace.ofCall call).exec b).2

def run (b : Bench) (calls : List Call) : Bench := calls.foldl next b

/-- The calls that succeed when all are made one after another. -/
def accepted (b : Bench) : List Call → List Call
  | [] => []
  | call :: rest =>
      match ((InPlace.ofCall call).exec b).1 with
      | .ok () => call :: (b.next call).accepted rest
      | .error _ => (b.next call).accepted rest

theorem exec_eq_ok_iff : (InPlace.ofCall call).exec b = (.ok (), t) ↔ b.step call = .ok t := by
  rw [InPlace.exec_ofCall]
  cases b.step call <;> simp [InPlace.settle, bind, Except.bind, pure, Except.pure]

/-- A call that fails leaves everything as it was. -/
theorem exec_eq_error_iff : (InPlace.ofCall call).exec b = (.error fault, t) ↔
    b.step call = .error fault ∧ t = b := by
  rw [InPlace.exec_ofCall]
  cases b.step call <;> simp [InPlace.settle, bind, Except.bind, pure, Except.pure, eq_comm]

theorem next_of_ok (h : b.step call = .ok t) (calls : List Call) :
    b.next call = t ∧ b.accepted (call :: calls) = call :: t.accepted calls := by
  simp only [accepted, next, exec_eq_ok_iff.mpr h, and_self]

theorem next_of_error (h : b.step call = .error fault) (calls : List Call) :
    b.next call = b ∧ b.accepted (call :: calls) = b.accepted calls := by
  simp only [accepted, next, exec_eq_error_iff.mpr ⟨h, rfl⟩, and_self]

/-- The draft after some calls has what was set by those that succeeded. -/
theorem draft_run (b : Bench) (calls : List Call) :
    (b.run calls).draft = b.draft.setAll (b.accepted calls) := by
  induction calls generalizing b with
  | nil => rfl
  | cons call rest ih =>
      have hrun : b.run (call :: rest) = (b.next call).run rest := rfl
      cases hs : b.step call with
      | error fault =>
          obtain ⟨hnext, haccepted⟩ := next_of_error hs rest
          rw [hrun, hnext, haccepted, ih]
      | ok t =>
          obtain ⟨hnext, haccepted⟩ := next_of_ok hs rest
          rw [hrun, hnext, haccepted, ih, draft_of_step hs, ← Draft.setAll_append]
          rfl

/-- Later calls leave the alterations that were built as they are. -/
theorem built_run (b : Bench) (calls : List Call) : b.built <+: (b.run calls).built := by
  induction calls generalizing b with
  | nil => exact List.prefix_refl _
  | cons call rest ih =>
      have hnext : b.built <+: (b.next call).built := by
        cases hs : b.step call with
        | error fault => rw [(next_of_error hs rest).1]
        | ok t =>
            rw [(next_of_ok hs rest).1]
            exact built_of_step hs
      exact hnext.trans (ih (b.next call))

theorem step_of_mem_accepted (h : call ∈ b.accepted calls) :
    ∃ c t : Bench, c.step call = .ok t := by
  induction calls generalizing b with
  | nil => cases h
  | cons first rest ih =>
      cases hs : b.step first with
      | error fault =>
          rw [(next_of_error hs rest).2] at h
          exact ih h
      | ok t =>
          rw [(next_of_ok hs rest).2] at h
          rcases List.mem_cons.mp h with rfl | h
          · exact ⟨b, t, hs⟩
          · exact ih h

end Bench

/-! ## What an alteration holds -/

/-- An alteration has the names and the properties that some calls set last, with the keys in the
order in which they were first set. A time to live and a flag that were set last by their own calls
are read from it as they were given. -/
structure HasLast (a : Alteration) (calls : List Call) : Prop where
  collection : (calls.filterMap Call.name?).getLast? = some (.str a.collection)
  database : a.database = ((calls.filterMap Call.database?).getLast?).getD .null
  property : ∀ key, a.properties.get? key = (calls.filterMap Call.entry?).reverse.lookup key
  keys : a.properties.keys = ((calls.filterMap Call.entry?).map (·.1)).eraseDups
  ttl : ∀ n, (Call.withTtl (.int n)).Decides Property.ttlKey calls → a.ttl? = .ok (some n)
  mmap : ∀ on, (Call.withMmap (.bool on)).Decides Property.mmapKey calls →
    a.mmap? = .ok (some on)

theorem lookup_of_decides {key text : String} {call : Call} {calls : List Call}
    (h : call.Decides key calls) (he : call.entry? = some (key, text)) :
    (calls.filterMap Call.entry?).reverse.lookup key = some text := by
  obtain ⟨before, after, rfl, -, hafter⟩ := h
  have hnone : (after.filterMap Call.entry?).reverse.lookup key = none := by
    refine lookup_eq_none_iff_not_mem.mpr fun hm => ?_
    obtain ⟨entry, hentry, hkey⟩ := List.mem_map.mp hm
    obtain ⟨later, hlater, hsome⟩ := List.mem_filterMap.mp (List.mem_reverse.mp hentry)
    exact hafter later hlater entry hsome hkey
  simp [List.filterMap_append, he, List.lookup_append, hnone]

variable {b : Bench} {calls : List Call} {a : Alteration}

/-- A call for a time to live has succeeded only with a number that is read as it is written. -/
theorem readTtl_of_mem_accepted {n : ℤ} (h : Call.withTtl (.int n) ∈ b.accepted calls) :
    Property.readTtl (.str (intText n)) = .ok n := by
  obtain ⟨c, t, hstep⟩ := Bench.step_of_mem_accepted h
  obtain ⟨d, hd, -⟩ := map_eq_ok_iff.mp hstep
  obtain ⟨m, hm, hshort, -⟩ := Draft.withTtl_eq_ok_iff.mp hd
  cases hm
  exact Property.readTtl_of_readInteger (Text.readInteger_intText hshort) (Int.natCast_nonneg m)

theorem readMmap_word (on : Bool) :
    Property.readMmap (.str (if on then "true" else "false")) = .ok on := by
  have hlower : Text.lower (if on then "true" else "false") = if on then "true" else "false" := by
    cases on <;> decide +kernel
  have hwritten (text : String) : (Value.str text).written = .ok text := rfl
  simp only [Property.readMmap, hwritten, ok_bind, hlower]
  cases on <;> rfl

/-- What is built from the draft of a run. -/
theorem build_run_eq_ok_iff (calls : List Call) :
    (Bench.new.run calls).draft.build = .ok a ↔ ∃ name,
      ((Bench.new.accepted calls).filterMap Call.name?).getLast? = some (.str name) ∧
        Text.isBlankText name = false ∧
        a = ⟨name, (Draft.new.setAll (Bench.new.accepted calls)).database,
          (Draft.new.setAll (Bench.new.accepted calls)).properties⟩ := by
  rw [Bench.draft_run, Draft.build_eq_ok_iff]
  simp only [Bench.new, Draft.setAll, Draft.new]
  cases ((Bench.accepted _ calls).filterMap Call.name?).getLast? <;> simp

theorem hasLast_of_build (h : (Bench.new.run calls).draft.build = .ok a) :
    a.HasLast (Bench.new.accepted calls) := by
  obtain ⟨name, hname, -, rfl⟩ := (build_run_eq_ok_iff calls).mp h
  have hget (key : String) :
      (Draft.new.setAll (Bench.new.accepted calls)).properties.get? key =
        ((Bench.new.accepted calls).filterMap Call.entry?).reverse.lookup key :=
    (Table.get?_putAll_last _ _ key).trans (Option.or_none ..)
  refine ⟨hname, rfl, hget, Table.keys_putAll _ _, fun n hn => ?_, fun on hon => ?_⟩
  · have hlookup := lookup_of_decides hn rfl
    obtain ⟨before, after, hcalls, -⟩ := hn
    have hmem : Call.withTtl (.int n) ∈ Bench.new.accepted calls := hcalls ▸ by simp
    rw [ttl?, Properties.ttl?, hget, hlookup]
    simp only [readTtl_of_mem_accepted hmem]
    rfl
  · rw [mmap?, Properties.mmap?, hget, lookup_of_decides hon rfl]
    simp only [readMmap_word]
    rfl

end Alteration

/-! ## What an alteration does -/

namespace Properties

/-- The time to live comes from the new properties if they have one. -/
theorem ttl?_putAll (p : Properties) {q : Properties} {seconds : Option ℤ}
    (h : q.ttl? = .ok seconds) :
    ttl? (p.putAll q.entries) = if seconds.isSome then q.ttl? else p.ttl? := by
  have hget := p.get?_putAll q.distinct Property.ttlKey
  have hsome : seconds.isSome = (q.get? Property.ttlKey).isSome := by
    unfold ttl? at h
    split at h
    · next hnone =>
        cases h
        rw [hnone]
        rfl
    · next s hs =>
        obtain ⟨n, -, rfl⟩ := map_eq_ok_iff.mp h
        rw [hs]
        rfl
  rw [hsome]
  cases hq : q.get? Property.ttlKey with
  | none =>
      rw [show q.entries.lookup Property.ttlKey = none from hq, Option.none_or] at hget
      simp only [ttl?, hget, Option.isSome_none, Bool.false_eq_true, if_false]
  | some s =>
      rw [show q.entries.lookup Property.ttlKey = some s from hq, Option.some_or] at hget
      simp only [ttl?, hget, hq, Option.isSome_some, if_true]

end Properties

namespace Store

/-- An alteration that succeeds has put its properties over those of the collection that it names,
and its time to live, if it has one, is that of the collection. -/
theorem alter_eq_ok {s t : Store} {a : Alteration} (h : s.alter a = .ok t) :
    ∃ database c d seconds, alteredDatabase a.database = .ok database ∧
      s.collection a.collection database = .ok c ∧ t.collection a.collection database = .ok d ∧
      d = { c with properties := c.properties.putAll a.properties.entries } ∧
      a.ttl? = .ok seconds ∧ d.ttl = seconds.elim c.ttl .ok := by
  obtain ⟨database, hdatabase, h⟩ := bind_eq_ok_iff.mp h
  obtain ⟨⟨⟨⟩, _⟩, hupdate, h⟩ := bind_eq_ok_iff.mp h
  cases h
  obtain ⟨c, d, hc, hchange, hd⟩ := collection_of_updateCollection hupdate
  obtain ⟨_, hchange, he⟩ := bind_eq_ok_iff.mp hchange
  cases he
  obtain ⟨hchecked, rfl⟩ := Collection.alterProperties_eq_ok_iff.mp hchange
  obtain ⟨seconds, hseconds, -⟩ := Properties.timed_of_check hchecked
  refine ⟨database, c, _, seconds, hdatabase, hc, hd, rfl, hseconds, ?_⟩
  rw [Collection.ttl, Properties.ttl?_putAll _ hseconds, hseconds]
  cases seconds <;> rfl

end Store

namespace Alteration

/-- On a draft that any calls were made on, a call that fails changes nothing, and its arguments
alone tell whether a call that sets something fails. An alteration can be built from the draft
exactly if the last name of a collection that was set is a text that is not blank; it has all that
was set last by the calls that succeeded, and no later call changes it. An alteration that is
applied puts its properties over those of the collection, whose time to live is then the one that
it has. -/
theorem drafting_of_run {calls done : List Call} {b : Bench} (hb : Bench.new.run calls = b)
    (hdone : Bench.new.accepted calls = done) :
    (∀ call fault t, (InPlace.ofCall call).exec b = (.error fault, t) → t = b) ∧
    (∀ call, call ≠ .build → ((∃ t, (InPlace.ofCall call).exec b = (.ok (), t)) ↔ call.Proper)) ∧
    ((∃ t, (InPlace.ofCall .build).exec b = (.ok (), t)) ↔
      ∃ name, (done.filterMap Call.name?).getLast? = some (.str name) ∧
        Text.isBlankText name = false) ∧
    (∀ t, (InPlace.ofCall .build).exec b = (.ok (), t) →
      ∃ a : Alteration, t = ⟨b.draft, b.built ++ [a]⟩ ∧ a.HasLast done) ∧
    (∀ later, b.built <+: (b.run later).built) ∧
    ∀ (s t : Store) (a : Alteration), s.alter a = .ok t →
      ∃ database c d seconds, Store.alteredDatabase a.database = .ok database ∧
        s.collection a.collection database = .ok c ∧ t.collection a.collection database = .ok d ∧
        d = { c with properties := c.properties.putAll a.properties.entries } ∧
        (∀ key, d.properties.get? key = (a.properties.get? key).or (c.properties.get? key)) ∧
        a.ttl? = .ok seconds ∧ d.ttl = seconds.elim c.ttl .ok := by
  subst hb hdone
  refine ⟨fun call fault t ht => (Bench.exec_eq_error_iff.mp ht).2, fun call hcall => ?_, ?_,
    fun t ht => ?_, Bench.built_run _, fun s t a ht => ?_⟩
  · simp only [Bench.exec_eq_ok_iff]
    exact Bench.exists_step_iff _ hcall
  · simp only [Bench.exec_eq_ok_iff, Bench.step, map_eq_ok_iff, build_run_eq_ok_iff]
    constructor
    · rintro ⟨t, a, ⟨name, hname, hblank, -⟩, -⟩
      exact ⟨name, hname, hblank⟩
    · rintro ⟨name, hname, hblank⟩
      exact ⟨_, _, ⟨name, hname, hblank, rfl⟩, rfl⟩
  · obtain ⟨a, ha, rfl⟩ := map_eq_ok_iff.mp (Bench.exec_eq_ok_iff.mp ht)
    exact ⟨a, rfl, hasLast_of_build ha⟩
  · obtain ⟨database, c, d, seconds, hdatabase, hc, hd, rfl, hrest⟩ := Store.alter_eq_ok ht
    exact ⟨database, c, _, seconds, hdatabase, hc, hd, rfl,
      c.properties.get?_putAll a.properties.distinct, hrest⟩

/-- Calls of which the second one fails. -/
def minuteCalls : List Call :=
  [.withCollection (.str "c"), .withTtl (.int (-1)), .withTtl (.int 60)]

theorem run_minuteCalls :
    Bench.new.run minuteCalls = ⟨⟨.str "c", .null, Table.ofList [(Property.ttlKey, "60")]⟩, []⟩ ∧
      Bench.new.accepted minuteCalls = [.withCollection (.str "c"), .withTtl (.int 60)] := by
  have hshort : 60 < 10 ^ Text.digitLimit := Nat.lt_of_lt_of_le (by decide : 60 < 10 ^ 2)
    (Nat.pow_le_pow_right (by decide) (by decide))
  have hfirst : Bench.new.step (.withCollection (.str "c")) =
      .ok ⟨⟨.str "c", .null, .empty⟩, []⟩ := rfl
  have hsecond : Bench.step ⟨⟨.str "c", .null, .empty⟩, []⟩ (.withTtl (.int (-1))) =
      .error (.parameter .ttlNegative) := rfl
  have hthird : Bench.step ⟨⟨.str "c", .null, .empty⟩, []⟩ (.withTtl (.int 60)) =
      .ok ⟨⟨.str "c", .null, Table.ofList [(Property.ttlKey, "60")]⟩, []⟩ :=
    map_eq_ok_iff.mpr ⟨_, Draft.withTtl_eq_ok_iff.mpr ⟨60, rfl, hshort, rfl⟩, rfl⟩
  constructor
  · simp only [Bench.run, minuteCalls, List.foldl_cons, List.foldl_nil,
      (Bench.next_of_ok hfirst []).1, (Bench.next_of_error hsecond []).1,
      (Bench.next_of_ok hthird []).1]
  · rw [minuteCalls, (Bench.next_of_ok hfirst _).2, (Bench.next_of_error hsecond _).2,
      (Bench.next_of_ok hthird _).2]
    rfl

theorem drafting_of_run_minute :
    ∃ s t c d a, Store.collection s "c" none = .ok c ∧ s.alter a = .ok t ∧
      (InPlace.ofCall .build).exec (Bench.new.run minuteCalls) =
        (.ok (), ⟨(Bench.new.run minuteCalls).draft, [a]⟩) ∧
      a.ttl? = .ok (some 60) ∧ t.collection "c" none = .ok d ∧ d.ttl = .ok 60 := by
  obtain ⟨hrun, hdone⟩ := run_minuteCalls
  obtain ⟨-, -, -, hbuilt, -, happlied⟩ := drafting_of_run hrun hdone
  have hstep : Bench.step ⟨⟨.str "c", .null, Table.ofList [(Property.ttlKey, "60")]⟩, []⟩ .build =
      .ok ⟨⟨.str "c", .null, Table.ofList [(Property.ttlKey, "60")]⟩,
        [⟨"c", .null, Table.ofList [(Property.ttlKey, "60")]⟩]⟩ := rfl
  have hexec := Bench.exec_eq_ok_iff.mpr hstep
  obtain ⟨a, he, hlast⟩ := hbuilt _ hexec
  cases he
  have httl := hlast.ttl 60 ⟨[.withCollection (.str "c")], [], rfl, ⟨_, rfl⟩, by simp⟩
  obtain ⟨s, hs⟩ : ∃ s, ((Session.new {} (.zero false)).run
      [.createCollection "c" titleSchema .null .null none]).2.store = s := ⟨_, rfl⟩
  obtain ⟨t, ht⟩ : ∃ t, s.alter ⟨"c", .null, Table.ofList [(Property.ttlKey, "60")]⟩ = .ok t := by
    subst hs
    exact ⟨_, rfl⟩
  obtain ⟨database, c, d, seconds, hdatabase, hc, hd, -, -, hseconds, hsame⟩ := happlied s t _ ht
  cases hdatabase
  cases httl.symm.trans hseconds
  exact ⟨s, t, c, d, _, hc, ht, hrun ▸ hexec, httl, hd, hsame⟩

end Alteration

end ScalarStore
