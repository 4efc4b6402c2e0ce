import ScalarStore.Yaml.Refusal

/-! # Nodes

A document as a tree of scalars, lists and maps with their tags and the places where they start. -/

namespace ScalarStore.Yaml

inductive Node
  | scalar (place : Nat) (tag : Tag) (text : List Char)
  | list (place : Nat) (tag : Tag) (items : List Node)
  | map (place : Nat) (tag : Tag) (entries : List (Node × Node))

namespace Node

def place : Node → Nat
  | .scalar place _ _ => place
  | .list place _ _ => place
  | .map place _ _ => place

def tag : Node → Tag
  | .scalar _ tag _ => tag
  | .list _ tag _ => tag
  | .map _ tag _ => tag

/-- The name of a kind of node in messages. -/
def word : Node → String
  | .scalar _ _ _ => "scalar"
  | .list _ _ _ => "sequence"
  | .map _ _ _ => "mapping"

/-- What stands where a value is left out. -/
def empty (place : Nat) : Node := .scalar place .null []

end Node

end ScalarStore.Yaml
