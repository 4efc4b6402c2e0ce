import Mathlib.Computability.Language
import ScalarStore.Proofs.Like.Matching

/-! # Patterns as regular expressions

A pattern can be written as a regular expression of characters and dots, in which each character
that has a meaning there is escaped. Its text reads back as that expression, and the texts of the
expression are those that the pattern matches. -/

namespace ScalarStore

open scoped Computability

/-- A certain character, or any one, line feeds included. -/
inductive RegexAtom
  | char (c : Char)
  | dot
deriving DecidableEq

/-- An atom that stands once, or any number of times. -/
structure RegexItem where
  atom : RegexAtom
  starred : Bool
deriving DecidableEq

/-- Regular expressions of atoms one after another. -/
abbrev Regex := List RegexItem

namespace RegexAtom

def language : RegexAtom → Language Char
  | .char c => {[c]}
  | .dot => {text | text.length = 1}

theorem mem_language_dot (text : List Char) : text ∈ dot.language ↔ ∃ c, text = [c] :=
  List.length_eq_one_iff

/-- Every text is made up of its characters. -/
theorem mem_language_dot_star (text : List Char) : text ∈ dot.language∗ := by
  have hparts : text = (text.map fun c => [c]).flatten := by
    rw [← List.flatMap_def, List.flatMap_singleton']
  refine Language.mem_kstar.mpr ⟨_, hparts, ?_⟩
  intro part hpart
  obtain ⟨c, -, rfl⟩ := List.mem_map.mp hpart
  exact (mem_language_dot [c]).mpr ⟨c, rfl⟩

end RegexAtom

def RegexItem.language (item : RegexItem) : Language Char :=
  if item.starred then item.atom.language∗ else item.atom.language

namespace Regex

/-- The texts that an expression matches as a whole. -/
def language (r : Regex) : Language Char := (r.map RegexItem.language).prod

theorem mem_language_cons {item : RegexItem} {r : Regex} {text : List Char} :
    text ∈ language (item :: r) ↔
      ∃ first ∈ item.language, ∃ rest ∈ language r, first ++ rest = text := by
  rw [language, List.map_cons, List.prod_cons, Language.mem_mul]
  rfl

/-! ## Reading an expression -/

/-- The characters that stand for something other than themselves. -/
def operators : List Char :=
  ['\\', '.', '*', '+', '?', '|', '^', '$', '(', ')', '[', ']', '\x7b', '\x7d']

inductive Mark
  | atom (a : RegexAtom)
  | star

/-- The marks of a text. A backslash makes the next character stand for itself unless that is a
letter or a digit. Of the operators only the dot and the star are read. -/
def marks? : List Char → Option (List Mark)
  | '\\' :: c :: rest =>
      if c.isAlphanum then none else (marks? rest).map (.atom (.char c) :: ·)
  | '.' :: rest => (marks? rest).map (.atom .dot :: ·)
  | '*' :: rest => (marks? rest).map (.star :: ·)
  | c :: rest => if c ∈ operators then none else (marks? rest).map (.atom (.char c) :: ·)
  | [] => some []

/-- The expression that marks spell. A star needs an atom in front of it. -/
def ofMarks? : List Mark → Option Regex
  | [] => some []
  | .star :: _ => none
  | .atom a :: .star :: rest => (ofMarks? rest).map (⟨a, true⟩ :: ·)
  | .atom a :: rest => (ofMarks? rest).map (⟨a, false⟩ :: ·)

def read? (text : List Char) : Option Regex := (marks? text).bind ofMarks?

/-! ## Writing characters that stand for themselves -/

/-- The characters that are written behind a backslash: the operators, those that can be
operators within a set, and white space. -/
def escaped : List Char :=
  operators ++ ['-', '&', '~', '#', ' ', '\t', '\n', '\r', '\x0b', '\x0c']

def escape (c : Char) : List Char := if c ∈ escaped then ['\\', c] else [c]

theorem isAlphanum_of_mem_escaped {c : Char} (h : c ∈ escaped) : c.isAlphanum = false := by
  have hall : (escaped.all fun d => !d.isAlphanum) = true := by decide
  simpa using List.all_eq_true.mp hall c h

/-- However it has to be written, a character is read as itself. -/
theorem marks?_escape_append (c : Char) (rest : List Char) :
    marks? (escape c ++ rest) = (marks? rest).map (.atom (.char c) :: ·) := by
  unfold escape
  split
  · next h => simp [marks?, isAlphanum_of_mem_escaped h]
  · next h =>
      have hc : c ∉ operators := fun hc => h (List.mem_append_left _ hc)
      have hne : c ≠ '\\' ∧ c ≠ '.' ∧ c ≠ '*' := by
        refine ⟨?_, ?_, ?_⟩ <;> rintro rfl <;> exact hc (by decide)
      simp [marks?, hc, hne]

end Regex

/-! ## The expression of a pattern -/

namespace Wildcard

/-- The item that matches what a place of a pattern does. -/
def item : Wildcard → RegexItem
  | .exact c => ⟨.char c, false⟩
  | .any => ⟨.dot, false⟩
  | .run => ⟨.dot, true⟩

def spelling : Wildcard → List Char
  | .exact c => Regex.escape c
  | .any => ['.']
  | .run => ['.', '*']

def marks : Wildcard → List Regex.Mark
  | .exact c => [.atom (.char c)]
  | .any => [.atom .dot]
  | .run => [.atom .dot, .star]

theorem marks?_spelling_append (w : Wildcard) (rest : List Char) :
    Regex.marks? (w.spelling ++ rest) = (Regex.marks? rest).map (w.marks ++ ·) := by
  cases w with
  | exact c => exact Regex.marks?_escape_append c rest
  | any => rfl
  | run =>
      change ((Regex.marks? rest).map _).map _ = _
      rw [Option.map_map]
      rfl

/-- What follows a place never starts with a star that would belong to it. -/
theorem ofMarks?_marks_append (w : Wildcard) {rest : List Regex.Mark}
    (h : ∀ tail, rest ≠ .star :: tail) :
    Regex.ofMarks? (w.marks ++ rest) = (Regex.ofMarks? rest).map (w.item :: ·) := by
  cases w with
  | run => rfl
  | exact | any =>
      cases rest with
      | nil => rfl
      | cons mark tail =>
          cases mark with
          | star => exact absurd rfl (h tail)
          | atom a => rfl

end Wildcard

namespace Pattern

/-- The text of the regular expression of a pattern. -/
def spelling (pattern : Pattern) : List Char := pattern.flatMap Wildcard.spelling

def regex (pattern : Pattern) : Regex := pattern.map Wildcard.item

theorem marks?_spelling (pattern : Pattern) :
    Regex.marks? pattern.spelling = some (pattern.flatMap Wildcard.marks) := by
  induction pattern with
  | nil => rfl
  | cons w pattern ih =>
      rw [spelling, List.flatMap_cons, Wildcard.marks?_spelling_append, ← spelling, ih]
      rfl

theorem ofMarks?_marks (pattern : Pattern) :
    Regex.ofMarks? (pattern.flatMap Wildcard.marks) = some pattern.regex := by
  induction pattern with
  | nil => rfl
  | cons w pattern ih =>
      have hstar : ∀ tail, pattern.flatMap Wildcard.marks ≠ .star :: tail := by
        intro tail he
        rw [he] at ih
        cases ih
      rw [List.flatMap_cons, Wildcard.ofMarks?_marks_append w hstar, ih]
      rfl

/-- No character of a pattern has a meaning in the expression that it has not in the pattern. -/
theorem read?_spelling (pattern : Pattern) : Regex.read? pattern.spelling = some pattern.regex := by
  rw [Regex.read?, marks?_spelling, Option.bind_some, ofMarks?_marks]

/-- A pattern and its expression match the same texts. -/
theorem mem_language_regex_iff (pattern : Pattern) (text : List Char) :
    text ∈ pattern.regex.language ↔ Matches pattern text := by
  induction pattern generalizing text with
  | nil => exact Language.mem_one text
  | cons w pattern ih =>
      rw [regex, List.map_cons, Regex.mem_language_cons, ← regex]
      simp only [ih]
      cases w with
      | exact c =>
          constructor
          · rintro ⟨first, rfl, rest, hm, rfl⟩
            exact ⟨rest, rfl, hm⟩
          · rintro ⟨rest, rfl, hm⟩
            exact ⟨[c], rfl, rest, hm, rfl⟩
      | any =>
          constructor
          · rintro ⟨first, hfirst, rest, hm, rfl⟩
            obtain ⟨c, rfl⟩ := (RegexAtom.mem_language_dot first).mp hfirst
            exact ⟨c, rest, rfl, hm⟩
          · rintro ⟨c, rest, rfl, hm⟩
            exact ⟨[c], (RegexAtom.mem_language_dot [c]).mpr ⟨c, rfl⟩, rest, hm, rfl⟩
      | run =>
          constructor
          · rintro ⟨skipped, -, rest, hm, rfl⟩
            exact ⟨skipped, rest, rfl, hm⟩
          · rintro ⟨skipped, rest, rfl, hm⟩
            exact ⟨skipped, RegexAtom.mem_language_dot_star skipped, rest, hm, rfl⟩

end Pattern

end ScalarStore
