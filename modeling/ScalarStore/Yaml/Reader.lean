import ScalarStore.Yaml.Node.Document
import ScalarStore.Yaml.Tree

/-! # Reading YAML

The value of a text. Collections are filled one level after the other, so of several faults the
one at the least depth is told, and the first of those at one depth. -/

namespace ScalarStore.Yaml

/-! ## Values -/

/-- A value, or the fault to be told with the depth that it lies at. -/
abbrev Filled (α : Type) := Except (Nat × Refusal) α

/-- Two results together. -/
def Filled.and {α β : Type} (a : Filled α) (b : Filled β) : Filled (α × β) :=
  match a, b with
  | .ok a, .ok b => .ok (a, b)
  | .error fault, .ok _ => .error fault
  | .ok _, .error fault => .error fault
  | .error first, .error second => .error (if second.1 < first.1 then second else first)

/-- The names of tags whose values are of no kind here. -/
def foreignTags : List String := ["binary", "omap", "pairs", "set"].map (tagSpace ++ ·)

/-- What a tag that is for none of the kinds of nodes is refused with. -/
def Tag.refusal (tag : Tag) (place : Nat) : Refusal :=
  if tag = .endless ∨ tag.name ∈ foreignTags then .unsupported
  else .marked none (.unknownTag tag.name) place

/-- The kinds of nodes that tags are for. -/
inductive NodeKind
  | scalar | list | map
deriving DecidableEq

/-- The kind of nodes that a tag is for, if any. -/
def Tag.kind? : Tag → Option NodeKind
  | .list => some .list
  | .map => some .map
  | .merge => none
  | .main => none
  | .endless => none
  | .other _ => none
  | _ => some .scalar

/-- The fault of a tree at a depth whose tag is not for its kind. Tags of collections are looked at
one level deeper. -/
def mismatch (depth : Nat) (tree : Tree) : Nat × Refusal :=
  let wrong (wanted : String) : Refusal := .marked none (.wrongKind wanted tree.word) tree.place
  match tree.tag.kind? with
  | some .list => (depth + 1, wrong "sequence")
  | some .map => (depth + 1, wrong "mapping")
  | some .scalar => (depth, wrong "scalar")
  | none => (depth, tree.tag.refusal tree.place)

mutual

/-- The value of a tree at a depth. -/
def fill (depth : Nat) (tree : Tree) : Filled Value :=
  match tree with
  | .scalar _ tag text =>
      if tag.kind? = some .scalar then
        (valueOf tag text).mapError fun fault => (depth, .scalar fault)
      else .error (mismatch depth tree)
  | .list _ tag items =>
      if tag = .list then (fillItems (depth + 1) items).map .list else .error (mismatch depth tree)
  | .map place tag entries =>
      if tag = .map then
        (fillEntries (depth + 1) place entries).map fun entries =>
          .map (entries.foldl (fun found (key, v) => Value.assign key v found) [])
      else .error (mismatch depth tree)
  | .broken _ tag refusal =>
      .error (if tag = .map then (depth + 1, refusal) else mismatch depth tree)

def fillItems (depth : Nat) : List Tree → Filled (List Value)
  | [] => .ok []
  | tree :: rest => ((fill depth tree).and (fillItems depth rest)).map fun (v, vs) => v :: vs

/-- The entries of a map at a place. Lists and maps are no keys. -/
def fillEntries (depth : Nat) (place : Nat) : List (Tree × Tree) → Filled (List (Value × Value))
  | [] => .ok []
  | (key, value) :: rest =>
      let name :=
        if key.tag = .list ∨ key.tag = .map then
          .error (depth, .marked (some (.map, place)) .notKey key.place)
        else fill depth key
      ((name.and (fill depth value)).and (fillEntries depth place rest)).map
        fun (entry, entries) => entry :: entries

end

/-! ## Texts -/

/-- Characters that may stand in a text. -/
def isAllowed (c : Char) : Bool :=
  c == '\t' || c == '\n' || c == '\r' || (32 ≤ c.toNat && c.toNat ≤ 126) || c.toNat == 0x85 ||
    (0xA0 ≤ c.toNat && c.toNat != 0xFFFE && c.toNat != 0xFFFF)

/-- The value of a text. One without document holds nothing. -/
def read (text : String) : Except Refusal Value :=
  let cs := text.toList
  match cs.dropWhile isAllowed with
  | c :: rest => .error (.character c (cs.length - (rest.length + 1)))
  | [] => do
      match ← (Lexer.start cs).tokens.document with
      | none => return .null
      | some node => (fill 0 (.ofNode node)).mapError (·.2)

end ScalarStore.Yaml
