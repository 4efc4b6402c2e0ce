import ScalarStore.Proofs.Session.Linked

/-! # Collections do not see each other

A collection is known by its address and by how many collections have been dropped there before
it. From a run, commands on the content of other collections can be deleted, or such as find none:
what is left over of the run answers the same wherever it is about this collection, or about
databases, names and aliases, and leaves the collection the same. What is another collection is
decided by what a name stands for when the command is run. -/

namespace ScalarStore

/-- Which collection is meant by a name may change along a run; this does not. -/
structure Identity where
  address : Address
  generation : Nat
deriving DecidableEq

/-- A session, and how many collections have been dropped at each address. -/
structure Chronicle where
  session : Session
  dropped : Address → Nat

namespace Chronicle

def start (settings : Settings) (now : Binary64) : Chronicle := ⟨.new settings now, fun _ => 0⟩

def step (h : Chronicle) (command : Command) : Chronicle :=
  let next := (h.session.step command).2
  ⟨next, fun a =>
    if (h.session.store.at? a).isSome ∧ next.store.at? a = none then h.dropped a + 1
    else h.dropped a⟩

def run (h : Chronicle) (commands : List Command) : Chronicle := commands.foldl step h

/-- The collection to which a command is addressed. -/
def addressee (h : Chronicle) (command : Command) : Option Identity :=
  (h.session.store.addressee command).map fun a => ⟨a, h.dropped a⟩

/-- A collection, as long as it is there. -/
def find (h : Chronicle) (who : Identity) : Option Collection :=
  if h.dropped who.address = who.generation then h.session.store.at? who.address else none

/-- A command that is addressed to a collection, or that is about databases, names and aliases. -/
def Concerns (h : Chronicle) (who : Identity) (command : Command) : Prop :=
  command.isRegistry = true ∨ h.addressee command = some who

/-- Of the commands of a run, those that are not marked may be deleted: each one is on content,
and when it is run it is not addressed to the collection. -/
def Deletable (who : Identity) : Chronicle → List (Command × Bool) → Prop
  | _, [] => True
  | h, (command, kept) :: rest =>
      (kept = false → command.isContent = true ∧ h.addressee command ≠ some who) ∧
        Deletable who (h.step command) rest

/-- All commands of a marked run. -/
def full (steps : List (Command × Bool)) : List Command := steps.map (·.1)

/-- The marked commands of a run. -/
def remaining (steps : List (Command × Bool)) : List Command := full (steps.filter (·.2))

end Chronicle

namespace Session

/-- The answer of a command in a run is that of the session which the commands before it leave. -/
theorem answer_run_append (s : Session) (before after : List Command) (command : Command) :
    (s.run (before ++ command :: after)).1[before.length]? =
      some ((s.run before).2.step command).1 := by
  induction before generalizing s with
  | nil => rfl
  | cons first rest ih => exact ih (s.step first).2

end Session

namespace Chronicle

variable {settings : Settings} {who : Identity} {h k : Chronicle} {command : Command}

theorem session_run (h : Chronicle) (commands : List Command) :
    (h.run commands).session = (h.session.run commands).2 := by
  induction commands generalizing h with
  | nil => rfl
  | cons command rest ih => exact ih (h.step command)

/-! ## Two chronicles side by side -/

/-- Nothing is asked of two collections at an address, unless they are the one that is meant. -/
def Same (who : Identity) (dropped : Address → Nat) (a : Address) (c d : Collection) : Prop :=
  a = who.address → dropped a = who.generation → d = c

/-- Two chronicles in which one collection is the same, and all names and aliases are. -/
structure Agree (settings : Settings) (who : Identity) (h k : Chronicle) : Prop where
  linked : h.session.Linked (Same who h.dropped) k.session
  dropped : k.dropped = h.dropped
  left : h.session.store.Invariant settings
  right : k.session.store.Invariant settings

/-- Where a collection is there after a step, none has been dropped by it. -/
theorem dropped_step {a : Address} (ha : (h.session.step command).2.store.at? a ≠ none) :
    (h.step command).dropped a = h.dropped a :=
  if_neg fun hdrop => ha hdrop.2

/-- What is the same before a step may be counted on after it: a collection that is still there
has not been dropped by the step. -/
theorem linked_step {t : Session}
    (hl : (h.session.step command).2.Linked (Same who h.dropped) t) :
    (h.step command).session.Linked (Same who (h.step command).dropped) t := by
  refine hl.mono fun a c d hat _ hcd he hgeneration => hcd he ?_
  rwa [dropped_step (by rw [hat]; nofun)] at hgeneration

namespace Agree

/-- A step of both chronicles, after which what agreed before still agrees. -/
theorem step (ha : Agree settings who h k)
    (hl : (h.session.step command).2.Linked (Same who h.dropped) (k.session.step command).2) :
    Agree settings who (h.step command) (k.step command) where
  linked := linked_step hl
  dropped := by
    -- The same addresses are taken before and after the step, so the counts grow alike.
    funext a
    have hbefore := ha.linked.store.at?_eq_none_iff a
    have hafter := hl.store.at?_eq_none_iff a
    simp only [Chronicle.step, ha.dropped, Option.isSome_iff_ne_none, ne_eq, hbefore, hafter]
  left := Session.invariant_step ha.left command
  right := Session.invariant_step ha.right command

/-- A step of the first chronicle alone. -/
theorem step_left (ha : Agree settings who h k)
    (hl : (h.session.step command).2.Linked (Same who h.dropped) k.session) :
    Agree settings who (h.step command) k where
  linked := linked_step hl
  dropped := by
    -- The second chronicle has the addresses of the first one before the step and after it.
    funext a
    rw [ha.dropped]
    have hbefore := ha.linked.store.at?_eq_none_iff a
    have hafter := hl.store.at?_eq_none_iff a
    refine (if_neg ?_).symm
    rintro ⟨hsome, hnone⟩
    rw [Option.isSome_iff_ne_none] at hsome
    exact hsome (hbefore.mp (hafter.mpr hnone))
  left := Session.invariant_step ha.left command
  right := ha.right

theorem find (ha : Agree settings who h k) : k.find who = h.find who := by
  unfold Chronicle.find
  rw [ha.dropped]
  split
  · next hgeneration =>
      rcases ha.linked.store.at? who.address with ⟨hs, ht⟩ | ⟨c, d, hs, ht, hcd⟩
      · rw [hs, ht]
      · rw [hs, ht, hcd rfl hgeneration]
  · rfl

/-- What is done to the collection that is meant is done to the same collection in both. -/
theorem same_of_addressee (ha : Agree settings who h k) {a : Address} {c d : Collection}
    (hwho : h.addressee command = some who) (hcommand : h.session.store.addressee command = some a)
    (hcd : Same who h.dropped a c d) : d = c := by
  rw [Chronicle.addressee, hcommand, Option.map_some, Option.some.injEq] at hwho
  subst hwho
  exact hcd rfl rfl

theorem registry (ha : Agree settings who h k) (hc : command.isRegistry = true) :
    Session.Linked.Steps (Same who h.dropped) id (h.session.step command)
      (k.session.step command) := by
  refine ha.linked.step_registry (fun name schema properties description => ?_)
    (fun _ _ _ _ => rfl) hc
  rw [ha.left.configured, ha.right.configured]
  cases Collection.new settings name schema properties description <;> rfl

/-- Every command keeps the agreement if both run it. -/
theorem both (ha : Agree settings who h k) (command : Command) :
    Agree settings who (h.step command) (k.step command) := by
  refine ha.step ?_
  rcases command.content_or_registry with hc | hc | rfl | rfl
  · refine ha.linked.after_content ha.left ha.right hc ?_
    intro a c d _ _ _ hcd he hgeneration
    rw [hcd he hgeneration]
  · exact (ha.registry hc).2
  · exact ha.linked
  · exact ha.linked

/-- A command on the content of another collection, or of none, keeps the agreement if only the
first one runs it. -/
theorem deleted (ha : Agree settings who h k) (hc : command.isContent = true)
    (hwho : h.addressee command ≠ some who) : Agree settings who (h.step command) k := by
  refine ha.step_left (ha.linked.after_content_left ha.left hc ?_)
  intro a c d hcommand _ _ _ he hgeneration
  refine absurd ?_ hwho
  rw [Chronicle.addressee, hcommand, Option.map_some, hgeneration, he]

/-- A command that concerns the collection is answered alike. -/
theorem answer (ha : Agree settings who h k) (hc : h.Concerns who command) :
    (k.session.step command).1 = (h.session.step command).1 := by
  have hid (r : Except Fault Answer) : r.map (Answer.map id) = r := by
    cases r with
    | error fault => rfl
    | ok answer => exact congrArg Except.ok answer.map_id
  rcases hc with hregistry | hwho
  · rw [(ha.registry hregistry).1, hid]
  · rcases command.content_or_registry with hcontent | hregistry | rfl | rfl
    · rw [← hid (h.session.step command).1]
      refine ha.linked.answer_content ha.left ha.right hcontent ?_
      intro a c d hcommand _ _ hcd
      rw [ha.same_of_addressee hwho hcommand hcd, hid]
    · rw [(ha.registry hregistry).1, hid]
    · cases hwho
    · cases hwho

/-- What is left over of a run agrees with the whole run. -/
theorem run (ha : Agree settings who h k) (steps : List (Command × Bool))
    (hd : Deletable who h steps) :
    Agree settings who (h.run (full steps)) (k.run (remaining steps)) := by
  -- Induction on the marked run; the whole run goes on with every step, the rest with kept ones.
  induction steps generalizing h k with
  | nil => exact ha
  | cons step rest ih =>
      obtain ⟨command, kept⟩ := step
      obtain ⟨hdelete, hrest⟩ := hd
      cases kept with
      | true => exact ih (ha.both command) hrest
      | false =>
          obtain ⟨hcontent, hwho⟩ := hdelete rfl
          exact ih (ha.deleted hcontent hwho) hrest

end Agree

theorem agree_start (settings : Settings) (who : Identity) (now : Binary64) :
    Agree settings who (start settings now) (start settings now) where
  linked := ⟨rfl, rfl, rfl, rfl, Table.Linked.empty.put .empty⟩
  dropped := rfl
  left := Store.invariant_new settings
  right := Store.invariant_new settings

theorem deletable_append {before after : List (Command × Bool)}
    (hd : Deletable who h (before ++ after)) :
    Deletable who h before ∧ Deletable who (h.run (full before)) after := by
  induction before generalizing h with
  | nil => exact ⟨trivial, hd⟩
  | cons step rest ih =>
      obtain ⟨hbefore, hafter⟩ := ih hd.2
      exact ⟨⟨hd.1, hbefore⟩, hafter⟩

/-- Commands on the content of other collections, or on none, can be deleted from a run: of the
remaining ones, all that are addressed to the collection and all that are about databases, names
and aliases are answered as in the whole run, and the collection is the same in the end. -/
theorem isolated_of_run {now : Binary64} {steps : List (Command × Bool)}
    (hd : Deletable who (start settings now) steps) :
    (∀ before command after, steps = before ++ (command, true) :: after →
      ((start settings now).run (full before)).Concerns who command →
        ∃ answer,
          ((Session.new settings now).run (full steps)).1[before.length]? = some answer ∧
          ((Session.new settings now).run (remaining steps)).1[(remaining before).length]? =
            some answer) ∧
    ((start settings now).run (remaining steps)).find who =
      ((start settings now).run (full steps)).find who := by
  have ha := agree_start settings who now
  refine ⟨fun before command after hsteps hc => ?_, (ha.run steps hd).find⟩
  subst hsteps
  have hbefore := (ha.run before (deletable_append hd).1).answer hc
  rw [session_run, session_run] at hbefore
  have hfull : full (before ++ (command, true) :: after) =
      full before ++ command :: full after := by simp [full]
  have hremaining : remaining (before ++ (command, true) :: after) =
      remaining before ++ command :: remaining after := by simp [remaining, full]
  have hlength : (full before).length = before.length := List.length_map _
  refine ⟨(((Session.new settings now).run (full before)).2.step command).1, ?_, ?_⟩
  · rw [hfull, ← hlength]
    exact Session.answer_run_append _ _ _ _
  · rw [hremaining, Session.answer_run_append]
    exact congrArg some hbefore

/-- Rows are put in two collections, one of them by an alias, and looked for in a third one. -/
def interleaved : List (Command × Bool) :=
  let row : Value := .map [(.str "id", .str "x"), (.str "title", .str "y")]
  [(.createCollection "c" titleSchema .null .null none, true),
    (.createCollection "d" titleSchema .null .null none, true),
    (.createAlias "d" "a", true), (.insert "a" row none, false), (.rowCount "e" none, false),
    (.insert "c" row none, true), (.rowCount "c" none, true)]

theorem isolated_of_run_interleaved :
    Deletable ⟨⟨"default", "c"⟩, 0⟩ (start {} (.zero false)) interleaved ∧
    (∃ answer,
      ((Session.new {} (.zero false)).run (full interleaved)).1[6]? = some answer ∧
      ((Session.new {} (.zero false)).run (remaining interleaved)).1[4]? = some answer) ∧
    ((start {} (.zero false)).run (remaining interleaved)).find ⟨⟨"default", "c"⟩, 0⟩ =
      ((start {} (.zero false)).run (full interleaved)).find ⟨⟨"default", "c"⟩, 0⟩ := by
  have hd : Deletable ⟨⟨"default", "c"⟩, 0⟩ (start {} (.zero false)) interleaved :=
    ⟨nofun, nofun, nofun, fun _ => ⟨rfl, by decide⟩, fun _ => ⟨rfl, by decide⟩, nofun, nofun,
      trivial⟩
  obtain ⟨hanswers, hfind⟩ := isolated_of_run hd
  exact ⟨hd, hanswers (interleaved.take 6) (.rowCount "c" none) [] rfl (.inr rfl), hfind⟩

end Chronicle

end ScalarStore
