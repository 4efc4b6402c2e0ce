import ScalarStore.Proofs.Session.Content

/-! # What holds of all collections of a session

Every collection of a session was made new under a name that is not blank, and then changed by
actions only. What holds of new collections and what actions keep holds of all of them. -/

namespace ScalarStore

namespace Store

variable {settings : Settings} {s t : Store} {name : String} {database : Option String}
  {a : Address} {c d : Collection} {db : Database}

theorem at?_putDatabase (s : Store) (name : String) (db : Database) (a : Address) :
    ({ s with databases := s.databases.put name db } : Store).at? a =
      if a.database = name then db.collections.get? a.collection else s.at? a := by
  simp only [at?, Table.get?_put]
  split <;> rfl

/-- A new store has no collection. -/
theorem at?_new (settings : Settings) (a : Address) : (Store.new settings).at? a = none := by
  simp only [at?, Store.new, Table.get?_put]
  split <;> rfl

theorem at?_createDatabase (h : s.createDatabase name = .ok t) (hat : t.at? a = some c) :
    s.at? a = some c := by
  obtain ⟨-, rfl⟩ := createDatabase_eq_ok h
  rw [at?_putDatabase] at hat
  split at hat
  · cases hat
  · exact hat

theorem at?_dropDatabase (h : s.dropDatabase name = .ok t) (hat : t.at? a = some c) :
    s.at? a = some c := by
  obtain ⟨-, -, rfl⟩ := dropDatabase_eq_ok h
  simp only [at?, Table.get?_erase] at hat
  split at hat
  · cases hat
  · exact hat

theorem at?_useDatabase (h : s.useDatabase name = .ok t) (hat : t.at? a = some c) :
    s.at? a = some c := by
  unfold useDatabase at h
  split at h
  · cases h
    exact hat
  · cases h

/-- A change of a database that puts no collection in it. -/
theorem at?_updateDatabase {change : Database → Except Fault Database}
    (hchange : ∀ db after, change db = .ok after → ∀ name c,
      after.collections.get? name = some c → db.collections.get? name = some c)
    (h : s.updateDatabase database change = .ok t) (hat : t.at? a = some c) :
    s.at? a = some c := by
  obtain ⟨db, after, hdb, hafter, rfl⟩ := updateDatabase_eq_ok h
  rw [at?_putDatabase] at hat
  split at hat
  · next he =>
      exact at?_eq_some_iff.mpr
        ⟨db, he ▸ database_eq_ok_iff.mp hdb, hchange db after hafter _ _ hat⟩
  · exact hat

theorem at?_dropCollection (h : s.dropCollection name database = .ok t)
    (hat : t.at? a = some c) : s.at? a = some c := by
  refine at?_updateDatabase (fun db after hafter other found hfound => ?_) h hat
  obtain ⟨-, -, rfl⟩ := Database.dropCollection_eq_ok hafter
  dsimp only at hfound
  rw [Table.get?_erase] at hfound
  split at hfound
  · cases hfound
  · exact hfound

theorem at?_createAlias {other : String} (h : s.createAlias name other = .ok t)
    (hat : t.at? a = some c) : s.at? a = some c := by
  refine at?_updateDatabase (fun db after hafter found e hfound => ?_) h hat
  obtain ⟨-, -, -, rfl⟩ := Database.createAlias_eq_ok hafter
  exact hfound

theorem at?_alterAlias {other : String} (h : s.alterAlias name other = .ok t)
    (hat : t.at? a = some c) : s.at? a = some c := by
  refine at?_updateDatabase (fun db after hafter found e hfound => ?_) h hat
  obtain ⟨-, -, rfl⟩ := Database.alterAlias_eq_ok hafter
  exact hfound

theorem at?_dropAlias {other : String} (h : s.dropAlias other = .ok t) (hat : t.at? a = some c) :
    s.at? a = some c := by
  refine at?_updateDatabase (fun db after hafter found e hfound => ?_) h hat
  obtain ⟨-, rfl⟩ := Database.dropAlias_eq_ok hafter
  exact hfound

/-- A collection is there already, or it has just been created. -/
theorem at?_createCollection {schema : Schema} {properties description : Value}
    (h : s.createCollection name schema properties description database = .ok (d, t))
    (hat : t.at? a = some c) : s.at? a = some c ∨ Text.isBlankText name = false ∧
      Collection.new s.settings name schema properties description = .ok c := by
  have hblank : Text.isBlankText name = false := by
    rw [← Bool.not_eq_true]
    intro hb
    rw [createCollection, if_pos hb] at h
    cases h
  obtain ⟨db, after, hdb, hafter, rfl⟩ := createCollection_eq_ok h
  obtain ⟨-, -, hnew, rfl⟩ := Database.createCollection_eq_ok hafter
  rw [at?_putDatabase] at hat
  split at hat
  · next he =>
      rw [Table.get?_put] at hat
      split at hat
      · cases hat
        exact .inr ⟨hblank, hnew⟩
      · exact .inl (at?_eq_some_iff.mpr ⟨db, he ▸ database_eq_ok_iff.mp hdb, hat⟩)
  · exact .inl hat

end Store

/-- Whether a command sets the clock. -/
def Command.movesClock : Command → Bool
  | .setClock _ | .advanceClock _ => true
  | _ => false

namespace Session

variable {settings : Settings} {s : Session} {command : Command} {P : Collection → Prop}

/-- A change that puts no new collection anywhere. -/
theorem forall_change {outcome : Except Fault Store}
    (ho : ∀ {t a c}, outcome = .ok t → t.at? a = some c → s.store.at? a = some c)
    (hs : ∀ a c, s.store.at? a = some c → P c) (a : Address) (c : Collection)
    (hat : (s.change (quietly outcome)).2.store.at? a = some c) : P c :=
  change_induction (P := fun store => store.at? a = some c → P c) (hs a c)
    (fun _ _ ht hat => hs a c (ho (quietly_eq_ok ht) hat)) hat

/-- A command keeps what new collections have and what actions keep. -/
theorem forall_step (h : s.store.Invariant settings)
    (hnew : ∀ name schema properties description c, Text.isBlankText name = false →
      Collection.new settings name schema properties description = .ok c → P c)
    (hstep : ∀ c d action, P c →
      (Clocked.mk c s.clock).step action = .ok ⟨d, s.clock⟩ → P d)
    (hs : ∀ a c, s.store.at? a = some c → P c) (a : Address) (c : Collection)
    (hat : (s.step command).2.store.at? a = some c) : P c := by
  by_cases hc : command.isContent = true
  -- A command on content changes the collection at one address, by an action if at all.
  · cases ha : s.store.addressee command with
    | none =>
        obtain ⟨fault, hsearch⟩ := Store.search_of_no_addressee hc ha
        rw [step_of_search_error hc hsearch] at hat
        exact hs a c hat
    | some found =>
        obtain ⟨e, he⟩ := Store.at?_of_addressee ha
        rw [step_of_addressee h hc ha he] at hat
        have hput : (s.store.putAt found (command.left (s.around found) e)).at? a = some c := hat
        rw [Store.at?_putAt he] at hput
        split at hput
        · cases hput
          have hfound := hs found e he
          exact Command.left_induction hfound fun action d => hstep e d action hfound
        · exact hs a c hput
  · cases command with
    | createDatabase name => exact forall_change Store.at?_createDatabase hs a c hat
    | useDatabase name => exact forall_change Store.at?_useDatabase hs a c hat
    | dropDatabase name => exact forall_change Store.at?_dropDatabase hs a c hat
    | dropCollection name database => exact forall_change Store.at?_dropCollection hs a c hat
    | createAlias name other => exact forall_change Store.at?_createAlias hs a c hat
    | alterAlias name other => exact forall_change Store.at?_alterAlias hs a c hat
    | dropAlias other => exact forall_change Store.at?_dropAlias hs a c hat
    | createCollection name schema properties description database =>
        refine change_induction (P := fun store => store.at? a = some c → P c) (hs a c)
          (fun _ _ ht hat => ?_) hat
        obtain ⟨⟨made, store⟩, hmade, he⟩ := map_eq_ok_iff.mp ht
        cases he
        rcases Store.at?_createCollection hmade hat with hold | ⟨hblank, hnewly⟩
        · exact hs a c hold
        · exact hnew name schema properties description c hblank (h.configured ▸ hnewly)
    | describe _ _ | rowCount _ _ | createPartition _ _ | hasPartition _ _ | dropPartition _ _
    | partitions _ | insert _ _ _ | query _ | alter _ | alterByValues _ _ | dropProperties _ _
    | ttl _ _ | snapshot _ _ _ => exact absurd rfl hc
    | _ => exact hs a c hat

/-- What holds of new collections and what actions keep holds of every collection of a session
after any run. -/
theorem forall_collections_of_run {start : Binary64} {commands : List Command}
    (hs : ((new settings start).run commands).2 = s)
    (hnew : ∀ name schema properties description c, Text.isBlankText name = false →
      Collection.new settings name schema properties description = .ok c → P c)
    (hstep : ∀ s t action, P s.collection → Clocked.step s action = .ok t → P t.collection)
    {a : Address} {c : Collection} (hat : s.store.at? a = some c) : P c := by
  have hrun : s.store.Invariant settings ∧ ∀ a c, s.store.at? a = some c → P c := by
    rw [← hs]
    refine run_induction (P := fun s => s.store.Invariant settings ∧
      ∀ a c, s.store.at? a = some c → P c) (fun s command hs => ?_) ⟨?_, ?_⟩ commands
    · exact ⟨invariant_step hs.1 command,
        forall_step hs.1 hnew (fun c d action => hstep ⟨c, _⟩ ⟨d, _⟩ action) hs.2⟩
    · exact Store.invariant_new settings
    · exact fun a c hat => absurd (hat.symm.trans (Store.at?_new settings a)) nofun
  exact hrun.2 a c hat

/-! ## Runs at one reading of the clock -/

theorem clock_change (s : Session) (outcome : Except Fault (Answer × Store)) :
    (s.change outcome).2.clock = s.clock := by
  unfold change
  split <;> rfl

theorem clock_step (h : command.movesClock = false) : (s.step command).2.clock = s.clock := by
  cases command with
  | setClock now => cases h
  | advanceClock elapsed => cases h
  | createDatabase _ | useDatabase _ | dropDatabase _ | createCollection _ _ _ _ _
    | dropCollection _ _ | createPartition _ _ | dropPartition _ _ | createAlias _ _
    | alterAlias _ _ | dropAlias _ | insert _ _ _ | alter _ | alterByValues _ _
    | dropProperties _ _ => exact clock_change s _
  | _ => rfl

/-- As long as the clock stands, actions need to keep a condition at its reading alone. -/
theorem forall_collections_of_clock {start : Binary64} {commands : List Command}
    (hclock : ∀ command ∈ commands, command.movesClock = false)
    (hs : ((new settings start).run commands).2 = s)
    (hnew : ∀ name schema properties description c, Text.isBlankText name = false →
      Collection.new settings name schema properties description = .ok c → P c)
    (hstep : ∀ c d action, P c → (Clocked.mk c start).step action = .ok ⟨d, start⟩ → P d)
    {a : Address} {c : Collection} (hat : s.store.at? a = some c) : P c := by
  have hrun : ∀ (commands : List Command) (t : Session),
      (∀ command ∈ commands, command.movesClock = false) → t.store.Invariant settings →
      t.clock = start → (∀ a c, t.store.at? a = some c → P c) →
      ∀ a c, (t.run commands).2.store.at? a = some c → P c := by
    intro commands
    induction commands with
    | nil => exact fun _ _ _ _ hall => hall
    | cons command rest ih =>
        intro t hstill ht hstart hall
        obtain ⟨hcommand, hrest⟩ := List.forall_mem_cons.mp hstill
        refine ih (t.step command).2 hrest (invariant_step ht command) ?_ ?_
        · exact (clock_step hcommand).trans hstart
        · exact forall_step ht hnew (hstart ▸ hstep) hall
  subst hs
  exact hrun commands (new settings start) hclock (Store.invariant_new settings) rfl
    (fun a c hc => absurd (hc.symm.trans (Store.at?_new settings a)) nofun) a c hat

end Session

end ScalarStore
