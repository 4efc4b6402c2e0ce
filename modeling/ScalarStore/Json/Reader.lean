import ScalarStore.Reading
import ScalarStore.Text.Integer
import ScalarStore.Value.Basic

/-! # Reading JSON

Besides the standard's values, `NaN`, `Infinity` and `-Infinity` are read. Of repeated keys the
last value counts, at the place of the first. -/

namespace ScalarStore.Json

inductive Refusal
  | byteOrderMark
  | extraData
  | value
  | key
  | colon
  | comma
  | unterminated
  | control
  | escape
  | codeEscape
  | longInteger (digits : Nat)
deriving DecidableEq

/-- Why reading stopped, and the text from that place on. -/
structure Stop where
  refusal : Refusal
  rest : List Char

abbrev Reading (α : Type) (cs : List Char) := Except Stop (Taken α cs)

def isSpace (c : Char) : Bool := c == ' ' || c == '\t' || c == '\n' || c == '\r'

def skip (cs : List Char) : List Char := cs.dropWhile isSpace

theorem length_skip_le (cs : List Char) : (skip cs).length ≤ cs.length :=
  length_dropWhile_le isSpace cs

/-! ## Texts -/

def hexValue? (c : Char) : Option Nat :=
  let n := c.toNat
  if 48 ≤ n ∧ n ≤ 57 then some (n - 48)
  else if 97 ≤ n ∧ n ≤ 102 then some (n - 87)
  else if 65 ≤ n ∧ n ≤ 70 then some (n - 55)
  else none

def hexCode? (cs : List Char) : Option Nat :=
  cs.foldlM (fun n c => (hexValue? c).map (16 * n + ·)) 0

def plainEscape? : Char → Option Char
  | '\x22' => some '\x22'
  | '\\' => some '\\'
  | '/' => some '/'
  | 'b' => some '\x08'
  | 'f' => some '\x0c'
  | 'n' => some '\n'
  | 'r' => some '\r'
  | 't' => some '\t'
  | _ => none

/-- The 16-bit units and code points of a text up to its closing quote. The text from the
opening quote on is at hand for a text that is not closed. -/
def units (opened : List Char) : List Char → Except Stop (List Nat × List Char)
  | [] => .error ⟨.unterminated, opened⟩
  | '\x22' :: rest => .ok ([], rest)
  | ['\\'] => .error ⟨.unterminated, opened⟩
  | '\\' :: 'u' :: a :: b :: c :: d :: e :: rest =>
      match hexCode? [a, b, c, d] with
      | some code => (units opened (e :: rest)).map fun (codes, after) => (code :: codes, after)
      | none => .error ⟨.codeEscape, 'u' :: a :: b :: c :: d :: e :: rest⟩
  | '\\' :: 'u' :: rest => .error ⟨.codeEscape, 'u' :: rest⟩
  | '\\' :: c :: rest =>
      match plainEscape? c with
      | some plain => (units opened rest).map fun (codes, after) => (plain.toNat :: codes, after)
      | none => .error ⟨.escape, '\\' :: c :: rest⟩
  | c :: rest =>
      if c.toNat < 32 then .error ⟨.control, c :: rest⟩
      else (units opened rest).map fun (codes, after) => (c.toNat :: codes, after)

/-- Joins the two halves of a surrogate pair. A half without the other is no character. -/
def joinPairs : List Nat → List Char
  | high :: low :: rest =>
      if 0xD800 ≤ high ∧ high < 0xDC00 ∧ 0xDC00 ≤ low ∧ low < 0xE000 then
        Char.ofNat (0x10000 + (high - 0xD800) * 0x400 + (low - 0xDC00)) :: joinPairs rest
      else Char.ofNat high :: joinPairs (low :: rest)
  | [code] => [Char.ofNat code]
  | [] => []

theorem units_length {opened cs rest : List Char} {codes : List Nat}
    (h : units opened cs = .ok (codes, rest)) : rest.length < cs.length := by
  fun_induction units opened cs generalizing codes rest <;> simp_all [Except.map]
  all_goals
    next ih =>
      split at h
      · contradiction
      · next found hf =>
          obtain ⟨codes, after⟩ := found
          cases h
          have := ih hf
          dsimp only
          omega

/-- The text whose opening quote has been read. -/
def textBody (cs : List Char) : Reading String ('\x22' :: cs) :=
  match _h : units ('\x22' :: cs) cs with
  | .error stopped => .error stopped
  | .ok (codes, rest) =>
      .ok ⟨String.ofList (joinPairs codes), rest, Nat.lt_succ_of_lt (units_length ‹_›)⟩

/-! ## Numbers -/

def isAsciiDigit (c : Char) : Bool := 48 ≤ c.toNat && c.toNat ≤ 57

def digits (cs : List Char) : List Char × List Char :=
  (cs.takeWhile isAsciiDigit, cs.dropWhile isAsciiDigit)

/-- The digits before a point: a zero alone, or digits that start with another one. -/
def whole : List Char → List Char × List Char
  | '0' :: rest => (['0'], rest)
  | cs => digits cs

/-- The digits behind a point, if the point is followed by any. -/
def fraction (cs : List Char) : List Char × List Char :=
  match cs with
  | '.' :: rest => if (digits rest).1 = [] then ([], cs) else digits rest
  | _ => ([], cs)

/-- The power of ten, if the letter for it is followed by digits. -/
def exponent (cs : List Char) : Option Int × List Char :=
  match cs with
  | e :: rest =>
      if e = 'e' ∨ e = 'E' then
        let (negative, rest) := Text.splitSign rest
        match digits rest with
        | ([], _) => (none, cs)
        | (ds, rest) =>
            let n : Int := Text.ofDigits (ds.filterMap Text.digitValue?)
            (some (if negative then -n else n), rest)
      else (none, cs)
  | [] => (none, cs)

/-- A number without sign. It is an integer unless it has a fraction or a power of ten. -/
def number (negative : Bool) (cs : List Char) : Option (Except Refusal Value × List Char) :=
  match whole cs with
  | ([], _) => none
  | (ds, rest) =>
      let (places, rest) := fraction rest
      let (power, rest) := exponent rest
      let found :=
        if places = [] ∧ power = none then
          match Text.readDigits ds with
          | .ok n => .ok (.int (if negative then -n else n))
          | .error _ => .error (.longInteger ds.length)
        else
          .ok (.float (.ofDecimal negative
            (Text.ofDigits ((ds ++ places).filterMap Text.digitValue?))
            (power.getD 0 - places.length)))
      some (found, rest)

theorem digits_length (cs : List Char) : (digits cs).2.length ≤ cs.length :=
  length_dropWhile_le isAsciiDigit cs

theorem fraction_length (cs : List Char) : (fraction cs).2.length ≤ cs.length := by
  unfold fraction
  split
  · split
    · exact Nat.le_refl _
    · exact Nat.le_succ_of_le (digits_length _)
  · exact Nat.le_refl _

theorem splitSign_length (cs : List Char) : (Text.splitSign cs).2.length ≤ cs.length := by
  unfold Text.splitSign; split <;> simp

theorem exponent_length (cs : List Char) : (exponent cs).2.length ≤ cs.length := by
  unfold exponent
  split
  · next e rest =>
      split
      · have hs := splitSign_length rest
        have hd := digits_length (Text.splitSign rest).2
        dsimp only
        split
        · exact Nat.le_refl _
        · next h =>
            rw [h] at hd
            simp only [List.length_cons] at *
            omega
      · exact Nat.le_refl _
  · exact Nat.le_refl _

theorem whole_length {cs ds rest : List Char} (h : whole cs = (ds, rest)) (hne : ds ≠ []) :
    rest.length < cs.length := by
  unfold whole at h
  split at h
  · cases h; simp
  · have happ : (digits cs).1 ++ (digits cs).2 = cs := by simp [digits]
    rw [h] at happ
    have := congrArg List.length happ
    have := List.length_pos_iff.mpr hne
    simp at *
    omega

theorem number_length {negative : Bool} {cs rest : List Char} {found : Except Refusal Value}
    (h : number negative cs = some (found, rest)) : rest.length < cs.length := by
  unfold number at h
  split at h
  · contradiction
  · next ds after hne hw =>
      have hlt := whole_length hw hne
      simp only [Option.some.injEq, Prod.mk.injEq] at h
      rw [← h.2]
      exact Nat.lt_of_le_of_lt (Nat.le_trans (exponent_length _) (fraction_length _)) hlt

/-! ## Values -/

/-- The number at the start of a text, or a fault at `start`, the start of its sign. -/
def numberAt (start : List Char) (negative : Bool) (cs : List Char) : Reading Value cs :=
  match _h : number negative cs with
  | none => .error ⟨.value, start⟩
  | some (.ok value, rest) => .ok ⟨value, rest, number_length ‹_›⟩
  | some (.error refusal, _) => .error ⟨refusal, start⟩

/-- The one object that `NaN` is read as, wherever it stands. -/
def nan : Binary64 := .nan (some 0)

/-- A value that is one word or a number. -/
def scalar (cs : List Char) : Reading Value cs :=
  match cs with
  | 'n' :: 'u' :: 'l' :: 'l' :: rest =>
      .ok ⟨.null, rest, by simp only [List.length_cons]; omega⟩
  | 't' :: 'r' :: 'u' :: 'e' :: rest =>
      .ok ⟨.bool true, rest, by simp only [List.length_cons]; omega⟩
  | 'f' :: 'a' :: 'l' :: 's' :: 'e' :: rest =>
      .ok ⟨.bool false, rest, by simp only [List.length_cons]; omega⟩
  | 'N' :: 'a' :: 'N' :: rest =>
      .ok ⟨.float nan, rest, by simp only [List.length_cons]; omega⟩
  | 'I' :: 'n' :: 'f' :: 'i' :: 'n' :: 'i' :: 't' :: 'y' :: rest =>
      .ok ⟨.float (.infinite false), rest, by simp only [List.length_cons]; omega⟩
  | '-' :: 'I' :: 'n' :: 'f' :: 'i' :: 'n' :: 'i' :: 't' :: 'y' :: rest =>
      .ok ⟨.float (.infinite true), rest, by simp only [List.length_cons]; omega⟩
  | '-' :: rest =>
      (numberAt ('-' :: rest) true rest).map fun n => ⟨n.value, n.rest, Nat.lt_succ_of_lt n.shorter⟩
  | cs => numberAt cs false cs

/-- A key and the colon behind it. -/
def key : (cs : List Char) → Reading String cs
  | '\x22' :: cs =>
      match textBody cs with
      | .error stopped => .error stopped
      | .ok k =>
          match _h : skip k.rest with
          | ':' :: rest =>
              .ok ⟨k.value, rest, by
                have := k.shorter
                have := length_skip_le k.rest
                have := congrArg List.length _h
                simp only [List.length_cons] at *
                omega⟩
          | rest => .error ⟨.colon, rest⟩
  | cs => .error ⟨.key, cs⟩

mutual

/-- The value at the start of a text that starts with no white space. -/
def value (cs : List Char) : Reading Value cs :=
  match cs with
  | '\x22' :: rest => (textBody rest).map fun s => ⟨.str s.value, s.rest, s.shorter⟩
  | '[' :: rest =>
      have := length_skip_le rest
      match _h : skip rest with
      | ']' :: after =>
          .ok ⟨.list [], after, by
            have := congrArg List.length _h
            simp only [List.length_cons] at *
            omega⟩
      | first =>
          have := congrArg List.length _h
          match items first with
          | .error stopped => .error stopped
          | .ok found =>
              .ok ⟨.list found.value, found.rest, by
                have := found.shorter
                simp only [List.length_cons]
                omega⟩
  | '\x7b' :: rest =>
      have := length_skip_le rest
      match _h : skip rest with
      | '\x7d' :: after =>
          .ok ⟨.map [], after, by
            have := congrArg List.length _h
            simp only [List.length_cons] at *
            omega⟩
      | first =>
          have := congrArg List.length _h
          match members [] first with
          | .error stopped => .error stopped
          | .ok found =>
              .ok ⟨.map found.value, found.rest, by
                have := found.shorter
                simp only [List.length_cons]
                omega⟩
  | cs => scalar cs
termination_by (cs.length, 0)
decreasing_by
  all_goals
    apply Prod.Lex.left
    simp only [List.length_cons] at *
    omega

/-- The items of a list from the first on, and its closing bracket. -/
def items (cs : List Char) : Reading (List Value) cs :=
  match value cs with
  | .error stopped => .error stopped
  | .ok first =>
      have := first.shorter
      have := length_skip_le first.rest
      match _h : skip first.rest with
      | ']' :: rest =>
          .ok ⟨[first.value], rest, by
            have := congrArg List.length _h
            simp only [List.length_cons] at *
            omega⟩
      | ',' :: rest =>
          have := congrArg List.length _h
          have := length_skip_le rest
          match items (skip rest) with
          | .error stopped => .error stopped
          | .ok more =>
              .ok ⟨first.value :: more.value, more.rest, by
                have := more.shorter
                simp only [List.length_cons] at *
                omega⟩
      | rest => .error ⟨.comma, rest⟩
termination_by (cs.length, 1)
decreasing_by
  · exact Prod.Lex.right _ (by decide)
  · apply Prod.Lex.left
    simp only [List.length_cons] at *
    omega

/-- The entries of a map after those read so far, and its closing brace. -/
def members (entries : List (Value × Value)) (cs : List Char) :
    Reading (List (Value × Value)) cs :=
  match key cs with
  | .error stopped => .error stopped
  | .ok name =>
      have := name.shorter
      have := length_skip_le name.rest
      match value (skip name.rest) with
      | .error stopped => .error stopped
      | .ok found =>
          have := found.shorter
          have := length_skip_le found.rest
          let entries := Value.assign (.str name.value) found.value entries
          match _h : skip found.rest with
          | '\x7d' :: rest =>
              .ok ⟨entries, rest, by
                have := congrArg List.length _h
                simp only [List.length_cons] at *
                omega⟩
          | ',' :: rest =>
              have := congrArg List.length _h
              have := length_skip_le rest
              match members entries (skip rest) with
              | .error stopped => .error stopped
              | .ok more =>
                  .ok ⟨more.value, more.rest, by
                    have := more.shorter
                    simp only [List.length_cons] at *
                    omega⟩
          | rest => .error ⟨.comma, rest⟩
termination_by (cs.length, 1)
decreasing_by
  · apply Prod.Lex.left
    omega
  · apply Prod.Lex.left
    simp only [List.length_cons] at *
    omega

end

/-! ## Documents -/

/-- A whole text as one value with white space around it. -/
def document (cs : List Char) : Except Stop Value :=
  match cs with
  | '\uFEFF' :: _ => .error ⟨.byteOrderMark, cs⟩
  | _ =>
      match value (skip cs) with
      | .error stopped => .error stopped
      | .ok found =>
          match skip found.rest with
          | [] => .ok found.value
          | rest => .error ⟨.extraData, rest⟩

/-- Why a text is no document: its form at a place, or an integer that is too long. -/
inductive Fault
  | form (refusal : Refusal) (line column position : Nat)
  | longInteger (digits : Nat)
deriving DecidableEq

def Stop.fault (text : List Char) (stopped : Stop) : Fault :=
  match stopped.refusal with
  | .longInteger digits => .longInteger digits
  | refusal =>
      let position := text.length - stopped.rest.length
      let before := text.take position
      .form refusal (before.count '\n' + 1)
        ((before.reverse.takeWhile (· != '\n')).length + 1) position

def read (text : String) : Except Fault Value :=
  (document text.toList).mapError (Stop.fault text.toList)

def Refusal.message : Refusal → String
  | .byteOrderMark => "Unexpected UTF-8 BOM (decode using utf-8-sig)"
  | .extraData => "Extra data"
  | .value => "Expecting value"
  | .key => "Expecting property name enclosed in double quotes"
  | .colon => "Expecting ':' delimiter"
  | .comma => "Expecting ',' delimiter"
  | .unterminated => "Unterminated string starting at"
  | .control => "Invalid control character at"
  | .escape => "Invalid \\escape"
  | .codeEscape => "Invalid \\uXXXX escape"
  | .longInteger _ => "Integer too long"

end ScalarStore.Json
