import ScalarStore.Proofs.Query.Selection
import ScalarStore.Proofs.Session.Linked

/-! # The size of the parse cache

No command but the one that tells of the cache answers otherwise if the cache keeps more filters,
fewer or none: a filter that is found in it is what its text parses to. The settings that
collections carry with them are all that differs. -/

namespace ScalarStore

def Settings.withCacheSize (settings : Settings) (size : Option Int) : Settings :=
  { settings with cacheSize := size }

namespace Collection

variable {size : Option Int} {c : Collection}

def withCacheSize (size : Option Int) (c : Collection) : Collection :=
  { c with settings := c.settings.withCacheSize size }

theorem describe_withCacheSize (now : Binary64) (aliases : List String) :
    (c.withCacheSize size).describe now aliases =
      (c.describe now aliases).map (Description.map (withCacheSize size)) := by
  have hsize : (c.withCacheSize size).size now = c.size now := rfl
  rw [describe, describe, hsize]
  cases c.size now <;> rfl

theorem createPartition_withCacheSize (name : String) :
    (c.withCacheSize size).createPartition name =
      (c.createPartition name).map (withCacheSize size) := by
  have hpartition : (c.withCacheSize size).hasPartition name = c.hasPartition name := rfl
  unfold createPartition
  rw [hpartition]
  split
  · rfl
  · split <;> rfl

theorem dropPartition_withCacheSize (name : String) :
    (c.withCacheSize size).dropPartition name =
      (c.dropPartition name).map (withCacheSize size) := by
  have hdefault : (c.withCacheSize size).settings.defaultPartition =
      c.settings.defaultPartition := rfl
  have hrows : (c.withCacheSize size).partitions = c.partitions := rfl
  unfold dropPartition
  rw [hdefault, hrows]
  split
  · rfl
  · cases c.partitions.get? name <;> rfl

theorem alterProperties_withCacheSize (entries : List (Value × Value)) :
    (c.withCacheSize size).alterProperties entries =
      (c.alterProperties entries).map (withCacheSize size) := by
  unfold alterProperties
  cases Property.ofEntries entries with
  | error fault => rfl
  | ok updates =>
      simp only [bind, Except.bind]
      cases Property.check updates.find <;> rfl

theorem new_withCacheSize (settings : Settings) (name : String) (schema : Schema)
    (properties description : Value) :
    new (settings.withCacheSize size) name schema properties description =
      (new settings name schema properties description).map (withCacheSize size) := by
  have hfault : newFault? (settings.withCacheSize size) name schema =
      newFault? settings name schema := rfl
  unfold new
  rw [hfault]
  cases newFault? settings name schema with
  | some fault => rfl
  | none =>
      cases properties.entriesOrNone with
      | error fault => rfl
      | ok entries =>
          have halter (c : Collection) : (c.withCacheSize size).alterProperties entries =
              (c.alterProperties entries).map (withCacheSize size) :=
            alterProperties_withCacheSize entries
          exact halter ⟨name, schema, description, settings,
            Table.empty.put settings.defaultPartition [], [], .empty⟩

theorem insert_withCacheSize (now : Binary64) (rows : List Value) (partition : Option String) :
    (c.withCacheSize size).insert now rows partition =
      (c.insert now rows partition).map fun done => (done.1, done.2.withCacheSize size) := by
  have hkey : (c.withCacheSize size).keyFrom = c.keyFrom := rfl
  have htarget : (c.withCacheSize size).targetPartition partition = c.targetPartition partition :=
    rfl
  have hrecords : (c.withCacheSize size).schema.records
      (c.withCacheSize size).settings.defaultLength rows =
        c.schema.records c.settings.defaultLength rows := rfl
  have hheld : (c.withCacheSize size).partitions = c.partitions := rfl
  have htaken : (c.withCacheSize size).keys = c.keys := rfl
  unfold insert
  rw [hkey, htarget, hrecords, hheld, htaken]
  cases c.schema.records c.settings.defaultLength rows with
  | error fault => rfl
  | ok records =>
      simp only [bind, Except.bind]
      cases records.mapM c.keyFrom with
      | error fault => rfl
      | ok keys =>
          dsimp only
          cases c.partitions.get? (c.targetPartition partition) with
          | none => rfl
          | some held =>
              dsimp only
              cases firstTaken c.keys keys <;> rfl

end Collection

namespace Command

variable {size : Option Int} {around : Surroundings} {c : Collection}

/-- What a command does with a collection does not depend on the size of the cache. -/
theorem act_withCacheSize (command : Command) :
    command.act around (c.withCacheSize size) = (command.act around c).map fun done =>
      (done.1.map (Collection.withCacheSize size), done.2.withCacheSize size) := by
  cases command with
  | describe _ _ =>
      rw [act, act, Collection.describe_withCacheSize]
      cases c.describe around.now around.aliases <;> rfl
  | rowCount _ _ =>
      have hsize : (c.withCacheSize size).size around.now = c.size around.now := rfl
      rw [act, act, hsize]
      cases c.size around.now <;> rfl
  | createPartition _ partition =>
      rw [act, act, Collection.createPartition_withCacheSize]
      cases c.createPartition partition <;> rfl
  | dropPartition _ partition =>
      rw [act, act, Collection.dropPartition_withCacheSize]
      cases c.dropPartition partition <;> rfl
  | insert _ data partition =>
      rw [act, act]
      cases Rows.ensure data with
      | error fault => rfl
      | ok rows =>
          simp only [bind, Except.bind, Collection.insert_withCacheSize]
          cases c.insert around.now rows partition <;> rfl
  | query request =>
      have hrun : request.run (c.withCacheSize size) around.now
          (request.filter.parsed around.depth) =
            request.run c around.now (request.filter.parsed around.depth) := rfl
      rw [act, act, hrun]
      cases request.run c around.now (request.filter.parsed around.depth) <;> rfl
  | alter a =>
      rw [act, act, Collection.alterProperties_withCacheSize]
      cases c.alterProperties a.entries <;> rfl
  | alterByValues name properties =>
      rw [act, act]
      cases Alteration.ofValues name properties with
      | error fault => rfl
      | ok a =>
          simp only [bind, Except.bind, Collection.alterProperties_withCacheSize]
          cases c.alterProperties a.entries <;> rfl
  | ttl _ _ =>
      have httl : (c.withCacheSize size).ttl = c.ttl := rfl
      rw [act, act, httl]
      cases c.ttl <;> rfl
  | snapshot _ selected _ =>
      have hsnapshot : (c.withCacheSize size).snapshot around.now selected =
        c.snapshot around.now selected := rfl
      rw [act, act, hsnapshot]
      cases c.snapshot around.now selected <;> rfl
  | _ => rfl

theorem left_withCacheSize (command : Command) :
    command.left around (c.withCacheSize size) = (command.left around c).withCacheSize size := by
  rw [left, left, act_withCacheSize]
  cases command.act around c <;> rfl

end Command

/-! ## Sessions that differ in the size of the cache -/

/-- A collection and the same with the size of the cache changed in its settings. -/
def Resized (size : Option Int) (_ : Address) (c d : Collection) : Prop := d = c.withCacheSize size

theorem Database.describe_of_linked {size : Option Int} {a : String} {db eb : Database}
    (h : db.Linked (fun collection => Resized size ⟨a, collection⟩) eb) (now : Binary64)
    (name : String) : eb.describe now name =
      (db.describe now name).map (Description.map (Collection.withCacheSize size)) := by
  unfold Database.describe
  rcases (h.resolve name).eq_or_eq with ⟨c, d, hc, hd, rfl⟩ | ⟨fault, hc, hd⟩
  · rw [hc, hd]
    simp only [bind, Except.bind, h.aliasNames, Collection.describe_withCacheSize]
    rfl
  · rw [hc, hd]
    rfl

namespace Session

variable {settings : Settings} {size : Option Int} {s t : Session} {command : Command}

/-- What is told of all collections is the same but for the settings in it. -/
theorem state_withCacheSize (h : s.Linked (Resized size) t) :
    t.store.state t.clock = (s.store.state s.clock).map (List.map fun entry =>
      (entry.1, entry.2.map (Description.map (Collection.withCacheSize size)))) := by
  rw [Store.state, Store.state, h.clock]
  refine mapM_eq_map h.store.databases.entries ?_
  rintro ⟨name, db⟩ ⟨other, eb⟩ ⟨rfl, hlinked⟩
  have hdescribe : eb.collections.keys.mapM (eb.describe s.clock) =
      (db.collections.keys.mapM (db.describe s.clock)).map
        (List.map (Description.map (Collection.withCacheSize size))) := by
    rw [hlinked.collections.keys]
    refine mapM_eq_map (R := Eq) (List.forall₂_same.mpr fun _ _ => rfl) ?_
    rintro given _ rfl
    exact Database.describe_of_linked hlinked s.clock given
  dsimp only
  rw [hdescribe]
  cases db.collections.keys.mapM (db.describe s.clock) <;> rfl

theorem step_withCacheSize (h : s.Linked (Resized size) t) (hs : s.store.Invariant settings)
    (ht : t.store.Invariant (settings.withCacheSize size)) (command : Command) :
    (s.step command).2.Linked (Resized size) (t.step command).2 ∧
      (command ≠ .cacheInfo →
        (t.step command).1 =
          (s.step command).1.map (Answer.map (Collection.withCacheSize size))) := by
  rcases command.content_or_registry with hc | hc | rfl | rfl
  · constructor
    · refine h.after_content hs ht hc ?_
      rintro a c d - - - rfl
      exact Command.left_withCacheSize command
    · intro _
      refine h.answer_content hs ht hc ?_
      rintro a c d - - - rfl
      rw [Command.act_withCacheSize]
      cases command.act (s.around a) c <;> rfl
  · have hnew : ∀ name schema properties description,
        Collection.new t.store.settings name schema properties description =
          (Collection.new s.store.settings name schema properties description).map
            (Collection.withCacheSize size) := by
      rw [hs.configured, ht.configured]
      exact fun name => Collection.new_withCacheSize settings name
    obtain ⟨hanswer, hlinked⟩ := h.step_registry hnew (fun _ _ => rfl) hc
    exact ⟨hlinked, fun _ => hanswer⟩
  · exact ⟨h, fun hne => absurd rfl hne⟩
  · refine ⟨h, fun _ => ?_⟩
    simp only [step, look, state_withCacheSize h]
    cases s.store.state s.clock <;> rfl

/-- Sessions that differ in the size of the cache answer alike, whatever they have run before. -/
theorem run_withCacheSize (h : s.Linked (Resized size) t) (hs : s.store.Invariant settings)
    (ht : t.store.Invariant (settings.withCacheSize size)) (commands : List Command) {i : Nat}
    (hi : commands[i]? = some command) (hc : command ≠ .cacheInfo) :
    ∃ answer, (s.run commands).1[i]? = some answer ∧
      (t.run commands).1[i]? = some (answer.map (Answer.map (Collection.withCacheSize size))) := by
  induction commands generalizing s t i with
  | nil => cases hi
  | cons first rest ih =>
      obtain ⟨hlinked, hanswer⟩ := step_withCacheSize h hs ht first
      cases i with
      | zero =>
          cases hi
          exact ⟨_, rfl, congrArg some (hanswer hc)⟩
      | succ i => exact ih hlinked (invariant_step hs first) (invariant_step ht first) hi

theorem linked_new (settings : Settings) (size : Option Int) (start : Binary64) :
    (new settings start).Linked (Resized size) (new (settings.withCacheSize size) start) where
  clock := rfl
  store := ⟨rfl, rfl, rfl, Table.Linked.empty.put .empty⟩

/-- Run from the start with two sizes of the parse cache, the same commands give the same answers
and the same faults, but for the one that tells of the cache. -/
theorem answers_of_cacheSize (settings : Settings) (size : Option Int) (start : Binary64)
    (commands : List Command) (i : Nat) (command : Command) (hi : commands[i]? = some command)
    (hc : command ≠ .cacheInfo) :
    ∃ answer, ((new settings start).run commands).1[i]? = some answer ∧
      ((new (settings.withCacheSize size) start).run commands).1[i]? =
        some (answer.map (Answer.map (Collection.withCacheSize size))) :=
  run_withCacheSize (linked_new settings size start) (Store.invariant_new settings)
    (Store.invariant_new _) commands hi hc

/-- A request whose filter is a text. -/
def titledByText : Request := { titled with filter := .text "title == 'x'" }

/-- The request is made twice, with room for its filter in the cache and without. -/
theorem answers_of_cacheSize_twice :
    let commands := shelf ++ [.query titledByText, .query titledByText]
    commands[3]? = some (.query titledByText) ∧ Command.query titledByText ≠ .cacheInfo ∧
      ∃ answer, ((new {} (.zero false)).run commands).1[3]? = some answer ∧
        ((new (Settings.withCacheSize {} (some 0)) (.zero false)).run commands).1[3]? =
          some (answer.map (Answer.map (Collection.withCacheSize (some 0)))) :=
  ⟨rfl, nofun, answers_of_cacheSize {} (some 0) (.zero false) _ 3 _ rfl nofun⟩

end Session

end ScalarStore
