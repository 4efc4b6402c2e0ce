import ScalarStore.CommandLine.Run
import ScalarStore.Proofs.Outcome

/-! # Commands behind options

The options for all commands stand in front of a command. As long as they are complete, they are
read alike whatever command follows, and the command gets the words behind it. -/

namespace ScalarStore.CommandLine

variable {front : List String} {word : String}

/-- Complete options leave what follows as it is, if it starts with a word that is no option. -/
theorem Options.read_append {options : Options} {asked : List Setting} (rest : List String)
    (h : options.read false front = some (asked, [])) (hword : isOption word = false) :
    options.read false (front ++ word :: rest) = some (asked, word :: rest) := by
  have hdashes : word ≠ "--" := by
    rintro rfl
    exact absurd hword (by decide)
  fun_induction Options.read options false front generalizing asked with
  | case1 =>
      cases h
      unfold Options.read
      simp [hdashes, hword]
  | case2 =>
      cases h
      unfold Options.read
      rfl
  | case3 => cases h
  | case4 first hfirst hoption setting others hmention ih =>
      obtain ⟨⟨more, words⟩, hmore, he⟩ := Option.map_eq_some_iff.mp h
      cases he
      simp [Options.read, hfirst, hoption, hmention, ih hmore]
  | case5 => cases h
  | case6 first hfirst hoption set text others hmention ih =>
      obtain ⟨⟨more, words⟩, hmore, he⟩ := Option.map_eq_some_iff.mp h
      cases he
      simp [Options.read, hfirst, hoption, hmention, ih hmore]
  | case7 _ _ _ _ hmixed => cases hmixed
  | case8 => cases h

/-- Information is no order. -/
theorem information?_ne_order {α : Type} (asked : List Setting) (a : α) :
    information? asked ≠ some (.order a) := by
  intro h
  obtain ⟨setting, -, hsetting⟩ := List.exists_of_findSome?_eq_some h
  cases setting <;> cases hsetting

theorem readGlobals_append {environment : String → Option String} {globals : Globals}
    (rest : List String) (h : readGlobals environment front = .order (globals, []))
    (hword : isOption word = false) :
    readGlobals environment (front ++ word :: rest) = .order (globals, word :: rest) := by
  unfold readGlobals at h
  split at h
  · cases h
  · next asked words hread =>
      cases hinformation : information? (α := Globals × List String) asked with
      | none =>
          rw [hinformation] at h
          cases h
          rw [readGlobals, Options.read_append rest hread hword]
          dsimp only
          rw [hinformation]
          rfl
      | some demand =>
          rw [hinformation] at h
          have he : demand = .order (globals, []) := h
          exact absurd (he ▸ hinformation) (information?_ne_order asked _)

/-- A command behind complete options runs the order that its own words give. -/
theorem run_append {s : Surroundings} {globals : Globals} {command : Command}
    {words : List String} {order : Order}
    (h : readGlobals s.environment front = .order (globals, []))
    (hlevel : isLogLevel globals.logLevel = true) (hword : isOption word = false)
    (hcommand : command? word = some command) (hread : command.read words = .order order) :
    run s (front ++ word :: words) = order.run s globals := by
  rw [run, readGlobals_append words h hword]
  simp only [hcommand, runCommand, hlevel, hread, Bool.not_true, Bool.false_eq_true, if_false]

/-! ## Words of two commands -/

/-- The words that ask for a check of a filter text. -/
def checkWords (text : String) : List String := ["parse", "--check", "--", text]

/-- The words that ask for the number of rows that a filter text selects. -/
def countWords (text : String) : List String :=
  ["query", "--filter=" ++ text, "-o", Request.countAll]

/-- The order of a count. -/
def countOrder (text : String) : QueryOrder where
  filter := text
  ids := []
  partitions := []
  output := [Request.countAll]
  limit := none
  offset := 0
  consistency := "BOUNDED"

theorem read_checkWords (text : String) :
    Command.read ⟨parseOptions, parseOrder⟩ ["--check", "--", text] =
      .order (.parse text true) := rfl

theorem splitAttached_filter (text : String) :
    splitAttached ("--filter=" ++ text) = ("--filter", some text) := by
  simp [splitAttached, String.toList_append]

theorem read_countWords (text : String) :
    Command.read ⟨queryOptions, queryOrder⟩ ["--filter=" ++ text, "-o", Request.countAll] =
      .order (.query (countOrder text)) := by
  have hmention : queryOptions.mention? ("--filter=" ++ text) =
      some (.complete (.filter text)) := by
    rw [Options.mention?, splitAttached_filter]
    rfl
  have hdashes : "--filter=" ++ text ≠ "--" := by
    intro he
    have hlength : 9 + text.length = 2 := by
      rw [show 9 = "--filter=".length from rfl, ← String.length_append, he]
      rfl
    omega
  have hoption : isOption ("--filter=" ++ text) = true := by
    simp [isOption]
  have hread : queryOptions.read true ["--filter=" ++ text, "-o", Request.countAll] =
      some ([.filter text, .output Request.countAll], []) := by
    unfold Options.read
    rw [if_neg hdashes, if_pos hoption, hmention]
    rfl
  rw [Command.read]
  dsimp only
  rw [hread]
  rfl

end ScalarStore.CommandLine
