/-! # Options

Options are words that start with a dash. A word stands alone or takes a text, behind an equals
sign or as the next word; a letter always takes one, right behind it or as the next word. -/

namespace ScalarStore.CommandLine

/-- What an option sets. Texts of numbers are read when an order is put together. -/
inductive Setting
  | help
  | version
  | data (path : String)
  | json
  | logLevel (name : String)
  | filter (text : String)
  | id (text : String)
  | partition (name : String)
  | output (field : String)
  | limit (text : String)
  | offset (text : String)
  | consistency (word : String)
  | check
  | ttl (text : String)
  | mmap (enabled : Bool)
  | property (text : String)
  | dryRun

/-- How an option word is used. -/
inductive Usage
  | alone (setting : Setting)
  | taking (set : String → Setting)

/-- The options that are understood in one place. -/
structure Options where
  words : List (String × Usage)
  letters : List (Char × (String → Setting))

/-- An option with all it needs, or one that takes the next word. -/
inductive Mention
  | complete (setting : Setting)
  | awaiting (set : String → Setting)

/-- Splits a word at its first equals sign. -/
def splitAttached (word : String) : String × Option String :=
  let name := word.toList.takeWhile (· != '=')
  (String.ofList name,
    match word.toList.dropWhile (· != '=') with
    | [] => none
    | _ :: text => some (String.ofList text))

/-- A dash alone is no option. -/
def isOption (word : String) : Bool :=
  match word.toList with
  | '-' :: _ :: _ => true
  | _ => false

namespace Options

/-- What a letter behind a dash amounts to. -/
def letterMention? (options : Options) (word : String) : Option Mention :=
  match word.toList with
  | '-' :: '-' :: _ => none
  | '-' :: letter :: text =>
      (options.letters.lookup letter).map fun set =>
        if text = [] then .awaiting set else .complete (set (String.ofList text))
  | _ => none

/-- What an option amounts to, if it is understood. -/
def mention? (options : Options) (word : String) : Option Mention :=
  let (name, attached) := splitAttached word
  match options.words.lookup name, attached with
  | some (.alone setting), none => some (.complete setting)
  | some (.alone _), some _ => none
  | some (.taking set), none => some (.awaiting set)
  | some (.taking set), some text => some (.complete (set text))
  | none, _ => options.letterMention? word

/-- The settings of a command line and its other words. Options end behind two dashes and, unless
they may be mixed with other words, before the first of these. -/
def read (options : Options) (mixed : Bool) : List String → Option (List Setting × List String)
  | [] => some ([], [])
  | word :: rest =>
      if word = "--" then some ([], rest)
      else if isOption word then
        match options.mention? word, rest with
        | none, _ => none
        | some (.complete setting), rest =>
            (options.read mixed rest).map fun (settings, words) => (setting :: settings, words)
        | some (.awaiting _), [] => none
        | some (.awaiting set), text :: rest =>
            (options.read mixed rest).map fun (settings, words) => (set text :: settings, words)
      else if mixed then
        (options.read mixed rest).map fun (settings, words) => (settings, word :: words)
      else some ([], word :: rest)

end Options

end ScalarStore.CommandLine
