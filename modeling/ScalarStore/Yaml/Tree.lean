import ScalarStore.Yaml.Node

/-! # Merged trees

In a map the key `<<` stands for the entries of another map, or of several. They come before the
map's own entries, those of later maps first, so that of repeated keys the earlier map's value
counts and the own one most of all. -/

namespace ScalarStore.Yaml

/-- A node without keys that stand for other entries. Of a map in which such a key has no map for
its value only the refusal is left. -/
inductive Tree
  | scalar (place : Nat) (tag : Tag) (text : List Char)
  | list (place : Nat) (tag : Tag) (items : List Tree)
  | map (place : Nat) (tag : Tag) (entries : List (Tree × Tree))
  | broken (place : Nat) (tag : Tag) (refusal : Refusal)

namespace Tree

def place : Tree → Nat
  | .scalar place _ _ => place
  | .list place _ _ => place
  | .map place _ _ => place
  | .broken place _ _ => place

def tag : Tree → Tag
  | .scalar _ tag _ => tag
  | .list _ tag _ => tag
  | .map _ tag _ => tag
  | .broken _ tag _ => tag

/-- The name of a kind of node in messages. -/
def word : Tree → String
  | .scalar _ _ _ => "scalar"
  | .list _ _ _ => "sequence"
  | _ => "mapping"

/-- A key that is an equals sign stands for that text. -/
def asKey : Tree → Tree
  | .scalar place .main text => .scalar place .str text
  | .list place .main items => .list place .str items
  | .map place .main entries => .map place .str entries
  | tree => tree

/-- The entries of a map that is an item behind the key of the map at a place. -/
def itemEntries (place : Nat) (tree : Tree) : Except Refusal (List (Tree × Tree)) :=
  match tree with
  | .map _ _ entries => .ok entries
  | .broken _ _ refusal => .error refusal
  | tree => .error (.marked (some (.map, place)) (.mergeItem tree.word) tree.place)

/-- The entries that a value behind the key of the map at a place stands for. -/
def mergedEntries (place : Nat) (tree : Tree) : Except Refusal (List (Tree × Tree)) :=
  match tree with
  | .map _ _ entries => .ok entries
  | .broken _ _ refusal => .error refusal
  | .list _ _ items => do return (← items.mapM (itemEntries place)).reverse.flatten
  | tree => .error (.marked (some (.map, place)) (.mergeValue tree.word) tree.place)

/-- The entries that the keys of a map stand for, and its own ones. -/
def split (place : Nat) : List (Tree × Tree) →
    Except Refusal (List (Tree × Tree) × List (Tree × Tree))
  | [] => .ok ([], [])
  | (key, value) :: rest =>
      if key.tag = .merge then do
        let entries ← mergedEntries place value
        let (merged, own) ← split place rest
        return (entries ++ merged, own)
      else do
        let (merged, own) ← split place rest
        return (merged, (key.asKey, value) :: own)

/-- The map of entries with those that its keys stand for. -/
def ofEntries (place : Nat) (tag : Tag) (entries : List (Tree × Tree)) : Tree :=
  match split place entries with
  | .ok (merged, own) => .map place tag (merged ++ own)
  | .error refusal => .broken place tag refusal

mutual

def ofNode : Node → Tree
  | .scalar place tag text => .scalar place tag text
  | .list place tag items => .list place tag (ofNodes items)
  | .map place tag entries => ofEntries place tag (ofPairs entries)

def ofNodes : List Node → List Tree
  | [] => []
  | node :: rest => ofNode node :: ofNodes rest

def ofPairs : List (Node × Node) → List (Tree × Tree)
  | [] => []
  | (key, value) :: rest => (ofNode key, ofNode value) :: ofPairs rest

end

end Tree

end ScalarStore.Yaml
